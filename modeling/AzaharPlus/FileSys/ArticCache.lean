import AzaharPlus.Common.StaticLRUCache

/-!
# The cache of files on an Artic server

`ArticCache` of `artic_cache.cpp`: reads of a file that lies on a server, through three caches of
lines.  Offsets and lengths are natural numbers: the requests carry them as 64 bit numbers, and no
file comes near that size.  The size of the file, which `GetSize` keeps, is left out: no read
looks at it.

A line remembers how many bytes of it the server sent (`filled`).  The code has no such field: it is
there to say which hits are harmless.

* `read_agrees_with_server` — in every run whose reads hit no line beyond the bytes that the server
  sent for it, every read that succeeds brings what the server has;
* `read_disagrees_with_server` — a line whose request failed, or ended early, stays in the cache.
-/

namespace AzaharPlus.FileSys

open Common

/-! ## Data -/

def cacheLineSize : Nat := 4 * 1024
def cacheLineCount : Nat := 256
def maxBreakupSize : Nat := 8 * 1024
def bigCacheSkip : Nat := 1 * 1024 * 1024
def bigCacheLines : Nat := 1024
def veryBigCacheSkip : Nat := 10 * 1024 * 1024
def veryBigCacheLines : Nat := 24

/-- The server and its client, as far as their behaviour is not up to the cache. -/
structure ArticServer where
  /-- The most that one request carries, `GetServerRequestMaxSize() - 0x100`. -/
  requestSize : Nat
  requestSize_pos : 0 < requestSize
  /-- The code with which a read request fails, by the number of requests made before it. -/
  fault : Nat → Option Int
  /-- What a write request makes of the file: number of the request, file, offset, flags, data. -/
  write : Nat → List UInt8 → Nat → Nat → List UInt8 → Except Int Nat × List UInt8
  /-- What is in memory that was allocated and not written. -/
  junk : Nat → Nat → List UInt8

/-- A server that answers all requests. -/
def ArticServer.reliable (server : ArticServer) : ArticServer :=
  { server with fault := fun _ => none }

/-- The bytes of a line, and how many of them the server sent. -/
structure Line where
  data : List UInt8
  filled : Nat

/-- The caches, the file as it is on the server, and the number of requests so far. -/
structure ArticCache where
  cache : StaticLRUCache Nat Line cacheLineCount
  bigCache : StaticLRUCache (Nat × Nat) Line bigCacheLines
  veryBigCache : StaticLRUCache (Nat × Nat) Line veryBigCacheLines
  file : List UInt8
  requests : Nat

/-! ## Requests to the server -/

/-- The answer to a request for some bytes; fewer come only from the end of the file. -/
def ArticServer.read (server : ArticServer) (file : List UInt8) (request offset toRead : Nat) :
    Except Int (List UInt8) :=
  match server.fault request with
  | some code => .error code
  | none => .ok ((file.drop offset).take toRead)

/-- How `ReadFromArtic` ends: the bytes in the buffer, the requests made by then, and the error. -/
structure ArticRead where
  data : List UInt8
  requests : Nat
  error : Option Int

/-- The loop of `ReadFromArtic`, with at most `turns` turns. -/
def readLoop (server : ArticServer) (file : List UInt8) (len offset : Nat) :
    Nat → List UInt8 → Nat → ArticRead
  | 0, data, requests => ⟨data, requests, none⟩
  | turns + 1, data, requests =>
      if data.length = len then ⟨data, requests, none⟩
      else
        match server.read file requests (offset + data.length)
          (min server.requestSize (len - data.length)) with
        | .error code => ⟨data, requests + 1, some code⟩
        | .ok bytes =>
            if bytes.length = min server.requestSize (len - data.length) then
              readLoop server file len offset turns (data ++ bytes) (requests + 1)
            else ⟨data ++ bytes, requests + 1, none⟩

/-- `ReadFromArtic`; every turn of its loop reads at least one byte. -/
def readFromArtic (server : ArticServer) (file : List UInt8) (requests len offset : Nat) :
    ArticRead :=
  readLoop server file len offset len [] requests

/-- What a read of the range brings without a cache, if no request fails. -/
def readUncached (server : ArticServer) (file : List UInt8) (offset length : Nat) : List UInt8 :=
  (readFromArtic server.reliable file 0 length offset).data

/-! ## Reads through the caches -/

/-- What a look into a cache brings. -/
structure Fetched (κ : Type) (N : Nat) where
  line : Line
  readSize : Nat
  error : Option Int
  requests : Nat
  cache : StaticLRUCache κ Line N

/-- The line that a read leaves, over what was in it. -/
def ArticRead.line (r : ArticRead) (old : List UInt8) : Line :=
  ⟨r.data ++ old.drop r.data.length, r.data.length⟩

/-- A line is requested; if it is not there, `size` bytes are read into it, over what `blank` leaves
in it. -/
def fetch {κ : Type} {N : Nat} [DecidableEq κ] (server : ArticServer) (file : List UInt8)
    (requests : Nat) (c : StaticLRUCache κ Line N) (key : κ) (start size : Nat)
    (blank : Line → List UInt8) : Fetched κ N :=
  match c.request key, readFromArtic server file requests size start with
  | (true, i, c'), _ => ⟨c'.array i, size, none, requests, c'⟩
  | (false, i, c'), r =>
      ⟨r.line (blank (c'.array i)), r.data.length, r.error, r.requests,
        c'.store i (r.line (blank (c'.array i)))⟩

/-- The bytes that were asked for, or the error. -/
def Fetched.answer {κ : Type} {N : Nat} (f : Fetched κ N) (into amount : Nat) :
    Except Int (List UInt8) :=
  match f.error with
  | some code => .error code
  | none => .ok ((f.line.data.drop into).take amount)

/-- `OffsetToPage` -/
def offsetToPage (offset : Nat) : Nat := offset / cacheLineSize * cacheLineSize

/-- The loop of `BreakupRead`, with at most `turns` turns. -/
def breakupLoop : Nat → Nat → Nat → List (Nat × Nat)
  | 0, _, _ => []
  | turns + 1, offset, length =>
      if length = 0 then []
      else
        (offset, min length (offsetToPage (offset + cacheLineSize) - offset)) ::
          breakupLoop turns (offsetToPage (offset + cacheLineSize))
            (length - min length (offsetToPage (offset + cacheLineSize) - offset))

/-- `BreakupRead` -/
def breakupRead (offset length : Nat) : List (Nat × Nat) :=
  if maxBreakupSize < length then [(offset, length)] else breakupLoop length offset length

/-- `copy_amount` -/
def copyAmount (readSize into length : Nat) : Nat :=
  if into < readSize then min (into + length) readSize - into else 0

namespace ArticCache

/-- A read through the cache of big lines, or that of very big ones. -/
def readWhole {N : Nat} (server : ArticServer) (file : List UInt8) (requests : Nat)
    (c : StaticLRUCache (Nat × Nat) Line N) (offset length : Nat) : Fetched (Nat × Nat) N :=
  fetch server file requests c (offset, length) offset length fun _ => server.junk requests length

/-- The line of one segment. -/
def fetchSegment (server : ArticServer) (s : ArticCache) (segment : Nat × Nat) :
    Fetched Nat cacheLineCount :=
  fetch server s.file s.requests s.cache (offsetToPage segment.1) (offsetToPage segment.1)
    cacheLineSize (·.data)

/-- The bytes of a segment that are copied from its line. -/
def segmentAnswer (f : Fetched Nat cacheLineCount) (segment : Nat × Nat) :
    Except Int (List UInt8) :=
  f.answer (segment.1 - offsetToPage segment.1)
    (copyAmount f.readSize (segment.1 - offsetToPage segment.1) segment.2)

/-- The state after a look into the cache of pages. -/
def keepPage (s : ArticCache) (f : Fetched Nat cacheLineCount) : ArticCache :=
  { s with cache := f.cache, requests := f.requests }

/-- The loop of `Read` over the segments. -/
def readSegments (server : ArticServer) :
    List (Nat × Nat) → List UInt8 → ArticCache → Except Int (List UInt8) × ArticCache
  | [], buffer, s => (.ok buffer, s)
  | segment :: segments, buffer, s =>
      match segmentAnswer (s.fetchSegment server segment) segment with
      | .error code => (.error code, s.keepPage (s.fetchSegment server segment))
      | .ok bytes =>
          readSegments server segments (buffer ++ bytes)
            (s.keepPage (s.fetchSegment server segment))

/-- The part of `Read` for one big segment. -/
def readBig (server : ArticServer) (s : ArticCache) (offset length : Nat) :
    Except Int (List UInt8) × ArticCache :=
  if length < bigCacheSkip then
    match readWhole server s.file s.requests s.bigCache offset length with
    | f => (f.answer 0 f.readSize, { s with bigCache := f.cache, requests := f.requests })
  else if length < veryBigCacheSkip then
    match readWhole server s.file s.requests s.veryBigCache offset length with
    | f => (f.answer 0 f.readSize, { s with veryBigCache := f.cache, requests := f.requests })
  else
    match readFromArtic server s.file s.requests length offset with
    | ⟨data, requests, none⟩ => (.ok data, { s with requests := requests })
    | ⟨_, requests, some code⟩ => (.error code, { s with requests := requests })

/-- `ArticCache::Read` -/
def read (server : ArticServer) (s : ArticCache) (offset length : Nat) :
    Except Int (List UInt8) × ArticCache :=
  if length = 0 then (.ok [], s)
  else
    match breakupRead offset length with
    | [segment] =>
        if cacheLineSize < segment.2 then s.readBig server offset length
        else readSegments server [segment] [] s
    | segments => readSegments server segments [] s

/-- `ArticCache::Clear` -/
def clear (s : ArticCache) : ArticCache :=
  { s with
    cache := s.cache.clear
    bigCache := s.bigCache.clear
    veryBigCache := s.veryBigCache.clear }

/-- The loop of `Write`, with at most `turns` turns. -/
def writeLoop (server : ArticServer) (offset flags : Nat) (data : List UInt8) :
    Nat → Nat → ArticCache → Except Int Nat × ArticCache
  | 0, written, s => (.ok written, s)
  | turns + 1, written, s =>
      if written = data.length then (.ok written, s)
      else
        match server.write s.requests s.file (offset + written) flags
          ((data.drop written).take server.requestSize) with
        | (.error code, file) => (.error code, { s with file := file, requests := s.requests + 1 })
        | (.ok n, file) =>
            if n = min server.requestSize (data.length - written) then
              writeLoop server offset flags data turns (written + n)
                { s with file := file, requests := s.requests + 1 }
            else (.ok (written + n), { s with file := file, requests := s.requests + 1 })

/-- `ArticCache::Write` -/
def write (server : ArticServer) (s : ArticCache) (offset flags : Nat) (data : List UInt8) :
    Except Int Nat × ArticCache :=
  writeLoop server offset flags data data.length 0 s.clear

/-- A cache that is new, for a file. -/
def new (server : ArticServer) (file : List UInt8) : ArticCache where
  cache := ⟨[], fun i => ⟨server.junk i cacheLineSize, 0⟩⟩
  bigCache := ⟨[], fun _ => ⟨[], 0⟩⟩
  veryBigCache := ⟨[], fun _ => ⟨[], 0⟩⟩
  file := file
  requests := 0

end ArticCache

/-! ## What the server sends -/

/-- The loop reads on where it was, and ends early only at the end of the file. -/
theorem readLoop_spec (server : ArticServer) (file : List UInt8) (len offset turns : Nat)
    (data : List UInt8) (requests : Nat) (hdata : data = (file.drop offset).take data.length)
    (hlen : data.length ≤ len) :
    (readLoop server file len offset turns data requests).data = (file.drop offset).take
        (readLoop server file len offset turns data requests).data.length ∧
      (readLoop server file len offset turns data requests).data.length ≤ len ∧
      (len - data.length ≤ turns →
        (readLoop server file len offset turns data requests).error = none →
        (readLoop server file len offset turns data requests).data = (file.drop offset).take len) := by
  induction turns generalizing data requests with
  | zero =>
    refine ⟨hdata, hlen, fun hturns _ => ?_⟩
    have heq : data.length = len := by omega
    rwa [heq] at hdata
  | succ turns ih =>
    rw [readLoop]
    split
    · rename_i heq
      refine ⟨hdata, hlen, fun _ _ => ?_⟩
      rwa [heq] at hdata
    · rename_i hne
      have hpos := server.requestSize_pos
      unfold ArticServer.read
      cases server.fault requests with
      | some code => exact ⟨hdata, hlen, fun _ h => by cases h⟩
      | none =>
        generalize hk : min server.requestSize (len - data.length) = k
        have happend : data ++ (file.drop (offset + data.length)).take k =
            (file.drop offset).take (data.length + k) := by
          rw [List.take_add, ← hdata, List.drop_drop]
        have hlength := congrArg List.length happend
        simp only
        split
        · rename_i hfull
          rw [List.length_append, hfull] at hlength
          have hlength' : (data ++ (file.drop (offset + data.length)).take k).length =
              data.length + k := by
            rw [List.length_append, hfull]
          obtain ⟨h₁, h₂, h₃⟩ := ih (data ++ (file.drop (offset + data.length)).take k)
            (requests + 1) (by rw [hlength']; exact happend) (by omega)
          exact ⟨h₁, h₂, fun hturns => h₃ (by omega)⟩
        · rename_i hshort
          have hle : ((file.drop (offset + data.length)).take k).length ≤ k :=
            List.length_take_le k _
          have hend : (file.drop offset).length < data.length + k := by
            simp only [List.length_append, List.length_take] at hlength hshort
            omega
          have hall : data ++ (file.drop (offset + data.length)).take k = file.drop offset := by
            rw [happend, List.take_of_length_le (Nat.le_of_lt hend)]
          refine ⟨?_, ?_, fun _ _ => ?_⟩
          · rw [hall, List.take_length]
          · rw [List.length_append]
            omega
          · rw [hall, List.take_of_length_le]
            omega

theorem readFromArtic_spec (server : ArticServer) (file : List UInt8) (requests len offset : Nat) :
    (readFromArtic server file requests len offset).data = (file.drop offset).take
        (readFromArtic server file requests len offset).data.length ∧
      (readFromArtic server file requests len offset).data.length ≤ len ∧
      ((readFromArtic server file requests len offset).error = none →
        (readFromArtic server file requests len offset).data = (file.drop offset).take len) := by
  obtain ⟨h₁, h₂, h₃⟩ := readLoop_spec server file len offset len [] requests (by simp) (by simp)
  exact ⟨h₁, h₂, h₃ (by simp)⟩

theorem readLoop_reliable (server : ArticServer) (file : List UInt8) (len offset turns : Nat)
    (data : List UInt8) (requests : Nat) :
    (readLoop server.reliable file len offset turns data requests).error = none := by
  induction turns generalizing data requests with
  | zero => rfl
  | succ turns ih =>
    rw [readLoop]
    split
    · rfl
    · have hread : ∀ o n, server.reliable.read file requests o n = .ok ((file.drop o).take n) :=
        fun o n => rfl
      rw [hread]
      simp only
      split
      · exact ih _ _
      · rfl

/-- Without a cache and without faults, a read brings the range of the file. -/
theorem readUncached_eq (server : ArticServer) (file : List UInt8) (offset length : Nat) :
    readUncached server file offset length = (file.drop offset).take length :=
  (readFromArtic_spec server.reliable file 0 length offset).2.2
    (readLoop_reliable server file length offset length [] 0)

/-! ## Lines that tell the truth -/

/-- The cache is sound, and the bytes of each line that the server sent are those of the file. -/
structure Truthful {κ : Type} {N : Nat} (c : StaticLRUCache κ Line N) (file : List UInt8)
    (start : κ → Nat) : Prop where
  sound : c.Sound
  filled : ∀ key i, (key, i) ∈ c.list →
    (c.array i).data.take (c.array i).filled = (file.drop (start key)).take (c.array i).filled

theorem truthful_clear {κ : Type} {N : Nat} (c : StaticLRUCache κ Line N) (file : List UInt8)
    (start : κ → Nat) : Truthful c.clear file start :=
  ⟨c.sound_clear, fun _ _ hmem => by cases hmem⟩

section Fetch

variable {κ : Type} {N : Nat} [DecidableEq κ] {c : StaticLRUCache κ Line N} {file : List UInt8}
  {start : κ → Nat}

/-- A look into the cache keeps it truthful, and leaves every other key its line or without one. -/
theorem Truthful.fetch (h : Truthful c file start) (hN : 0 < N) (server : ArticServer)
    (requests : Nat) (key : κ) (size : Nat) (blank : Line → List UInt8) :
    Truthful (fetch server file requests c key (start key) size blank).cache file start ∧
      ∀ k, k ≠ key → ∀ i,
        (fetch server file requests c key (start key) size blank).cache.find k = some i →
        c.find k = some i ∧
          (fetch server file requests c key (start key) size blank).cache.array i = c.array i := by
  obtain ⟨harray, hfind, hlist⟩ := StaticLRUCache.request_spec h.sound hN key
  have hsound := h.sound.request hN key
  obtain ⟨hdata, -, -⟩ := readFromArtic_spec server file requests size (start key)
  unfold FileSys.fetch
  generalize readFromArtic server file requests size (start key) = r at *
  generalize c.request key = q at *
  obtain ⟨hit, i, c'⟩ := q
  simp only at harray hfind hsound hlist
  -- what is still listed under another key was there before, and its place is another one
  have hother : ∀ k, k ≠ key → ∀ j, (k, j) ∈ c'.list → (k, j) ∈ c.list ∧ j ≠ i := by
    intro k hk j hmem
    rcases hlist k j hmem with ⟨heq, -⟩ | ⟨h₁, -, h₂⟩
    · exact absurd heq hk
    · exact ⟨h₁, h₂⟩
  cases hit with
  | true =>
    refine ⟨⟨hsound, fun k j hmem => ?_⟩, fun k hk j hj => ?_⟩
    · rcases hlist k j hmem with ⟨rfl, rfl⟩ | ⟨hold, -, -⟩
      · rw [harray]
        exact h.filled k j (StaticLRUCache.find_eq_some hfind)
      · rw [harray]
        exact h.filled k j hold
    · obtain ⟨hold, -⟩ := hother k hk j (StaticLRUCache.find_eq_some hj)
      exact ⟨h.sound.find_of_mem hold, by rw [harray]⟩
  | false =>
    refine ⟨⟨hsound.store i _, fun k j hmem => ?_⟩, fun k hk j hj => ?_⟩
    · rcases hlist k j hmem with ⟨rfl, rfl⟩ | ⟨hold, -, hj⟩
      · rw [StaticLRUCache.array_store, Function.update_self, ArticRead.line, List.take_left]
        exact hdata
      · rw [StaticLRUCache.array_store, Function.update_of_ne hj, harray]
        exact h.filled k j hold
    · obtain ⟨hold, hne⟩ := hother k hk j (StaticLRUCache.find_eq_some hj)
      refine ⟨h.sound.find_of_mem hold, ?_⟩
      rw [StaticLRUCache.array_store, Function.update_of_ne hne, harray]

/-- What a look into the cache brings: on a hit the bytes of the line that the server sent, on a
miss all that the server has. -/
theorem Truthful.fetch_line (h : Truthful c file start) (hN : 0 < N) (server : ArticServer)
    (requests : Nat) (key : κ) (size : Nat) (blank : Line → List UInt8)
    (herror : (FileSys.fetch server file requests c key (start key) size blank).error = none)
    {needed : Nat} (hhit : ∀ i, c.find key = some i → needed ≤ (c.array i).filled) :
    ((FileSys.fetch server file requests c key (start key) size blank).readSize = size ∧
      (FileSys.fetch server file requests c key (start key) size blank).line.data.take needed =
        (file.drop (start key)).take needed) ∨
      (FileSys.fetch server file requests c key (start key) size blank).line.data.take
        (FileSys.fetch server file requests c key (start key) size blank).readSize =
        (file.drop (start key)).take size := by
  obtain ⟨harray, hfind, -⟩ := StaticLRUCache.request_spec h.sound hN key
  obtain ⟨-, -, hfull⟩ := readFromArtic_spec server file requests size (start key)
  revert herror
  unfold FileSys.fetch
  generalize readFromArtic server file requests size (start key) = r at *
  generalize c.request key = q at *
  obtain ⟨hit, i, c'⟩ := q
  simp only at harray hfind
  cases hit with
  | true =>
    intro _
    have hfind' : c.find key = some i := hfind
    have hle := hhit i hfind'
    have htrue := h.filled key i (StaticLRUCache.find_eq_some hfind')
    refine Or.inl ⟨rfl, ?_⟩
    show ((c'.array i).data).take needed = _
    rw [harray, ← Nat.min_eq_left hle, ← List.take_take, htrue, List.take_take]
  | false =>
    intro herror
    refine Or.inr ?_
    show ((r.line (blank (c'.array i))).data).take r.data.length = _
    rw [ArticRead.line, List.take_left]
    exact hfull herror

/-- The bytes that a segment copies from its line are those of the file. -/
theorem Truthful.fetch_copied (h : Truthful c file start) (hN : 0 < N) (server : ArticServer)
    (requests : Nat) (key : κ) (size : Nat) (blank : Line → List UInt8)
    (herror : (FileSys.fetch server file requests c key (start key) size blank).error = none)
    {into length : Nat} (hsize : into + length ≤ size) (hlength : 0 < length)
    (hhit : ∀ i, c.find key = some i → into + length ≤ (c.array i).filled) :
    ((FileSys.fetch server file requests c key (start key) size blank).line.data.drop into).take
      (copyAmount (FileSys.fetch server file requests c key (start key) size blank).readSize into
        length) = (file.drop (start key + into)).take length := by
  have hcut : ∀ (l : List UInt8) n, into + length ≤ n →
      ((l.take n).drop into).take length = (l.drop into).take length := by
    intro l n hn
    rw [List.drop_take, List.take_take, Nat.min_eq_left (by omega)]
  rw [← List.drop_drop]
  rcases h.fetch_line hN server requests key size blank herror hhit with ⟨hread, hline⟩ | hline
  · have hamount : copyAmount size into length = length := by
      unfold copyAmount
      rw [if_pos (by omega)]
      omega
    rw [hread, hamount, ← hcut _ (into + length) (Nat.le_refl _), hline,
      hcut _ (into + length) (Nat.le_refl _)]
  · generalize (FileSys.fetch server file requests c key (start key) size blank).line.data = data
      at hline ⊢
    generalize (FileSys.fetch server file requests c key (start key) size blank).readSize = n
      at hline ⊢
    rw [← hcut _ size hsize, ← hline, List.drop_take, List.take_take]
    unfold copyAmount
    congr 1
    split
    · omega
    · omega

end Fetch

/-! ## Segments -/

theorem offsetToPage_le (offset : Nat) : offsetToPage offset ≤ offset :=
  Nat.div_mul_le_self offset cacheLineSize

theorem offsetToPage_add (offset : Nat) :
    offsetToPage (offset + cacheLineSize) = offsetToPage offset + cacheLineSize := by
  unfold offsetToPage
  rw [Nat.add_div_right offset (by decide), Nat.add_mul, Nat.one_mul]

theorem lt_offsetToPage_add (offset : Nat) : offset < offsetToPage offset + cacheLineSize := by
  have h := Nat.div_add_mod offset cacheLineSize
  have hlt := Nat.mod_lt offset (show 0 < cacheLineSize by decide)
  unfold offsetToPage
  rw [Nat.mul_comm] at h
  omega

theorem offsetToPage_mono {a b : Nat} (h : a ≤ b) : offsetToPage a ≤ offsetToPage b :=
  Nat.mul_le_mul_right cacheLineSize (Nat.div_le_div_right h)

/-- The segments lie each in one page, each in another one, and make up the range. -/
theorem breakupLoop_spec (file : List UInt8) (turns offset length : Nat) (hturns : length ≤ turns) :
    (∀ segment ∈ breakupLoop turns offset length, offset ≤ segment.1 ∧ 0 < segment.2 ∧
      segment.1 - offsetToPage segment.1 + segment.2 ≤ cacheLineSize) ∧
      (breakupLoop turns offset length).Pairwise
        (fun a b => offsetToPage a.1 ≠ offsetToPage b.1) ∧
      (breakupLoop turns offset length).flatMap (fun segment =>
        (file.drop segment.1).take segment.2) = (file.drop offset).take length := by
  induction turns generalizing offset length with
  | zero =>
    have hzero : length = 0 := Nat.le_zero.1 hturns
    subst hzero
    simp [breakupLoop]
  | succ turns ih =>
    rw [breakupLoop]
    split
    · rename_i hzero
      subst hzero
      simp
    · rename_i hne
      have hle := offsetToPage_le offset
      have hlt := lt_offsetToPage_add offset
      have hnext := offsetToPage_add offset
      generalize hk : min length (offsetToPage (offset + cacheLineSize) - offset) = k
      obtain ⟨h₁, h₂, h₃⟩ := ih (offsetToPage (offset + cacheLineSize)) (length - k) (by omega)
      refine ⟨fun segment hmem => ?_, ?_, ?_⟩
      · rcases List.mem_cons.1 hmem with rfl | hmem
        · exact ⟨Nat.le_refl _, by omega, by simp only; omega⟩
        · obtain ⟨hoff, hrest⟩ := h₁ segment hmem
          exact ⟨by omega, hrest⟩
      · refine List.pairwise_cons.2 ⟨fun segment hmem => ?_, h₂⟩
        -- later segments start at the next page or behind it
        have hmono := offsetToPage_mono (h₁ segment hmem).1
        rw [hnext] at hmono
        have hpage : offsetToPage (offsetToPage offset + cacheLineSize) =
            offsetToPage offset + cacheLineSize := by
          rw [offsetToPage_add]
          unfold offsetToPage
          rw [Nat.mul_div_cancel _ (by decide)]
        rw [hpage] at hmono
        have hpos : 0 < cacheLineSize := by decide
        simp only
        omega
      · rw [List.flatMap_cons, h₃]
        by_cases hlast : length = k
        · rw [hlast, Nat.sub_self, List.take_zero, List.append_nil]
        · have hoffset : offsetToPage (offset + cacheLineSize) = offset + k := by omega
          have hsum : length = k + (length - k) := by omega
          rw [hoffset]
          conv_rhs => rw [hsum, List.take_add, List.drop_drop]

/-! ## Reads of a coherent cache -/

namespace ArticCache

/-- All three caches tell the truth about the file as it is on the server. -/
structure Coherent (s : ArticCache) : Prop where
  pages : Truthful s.cache s.file id
  big : Truthful s.bigCache s.file Prod.fst
  veryBig : Truthful s.veryBigCache s.file Prod.fst

/-- If the page of a segment is in the cache, the server sent the bytes that the segment reads. -/
def PageFilled (s : ArticCache) (segment : Nat × Nat) : Prop :=
  ∀ i ∈ s.cache.find (offsetToPage segment.1),
    segment.1 - offsetToPage segment.1 + segment.2 ≤ (s.cache.array i).filled

/-- If the range is in the cache as a whole, the server sent all of it. -/
def WholeFilled {N : Nat} (c : StaticLRUCache (Nat × Nat) Line N) (offset length : Nat) : Prop :=
  ∀ i ∈ c.find (offset, length), length ≤ (c.array i).filled

instance (s : ArticCache) (segment : Nat × Nat) : Decidable (s.PageFilled segment) :=
  inferInstanceAs (Decidable (∀ i ∈ s.cache.find (offsetToPage segment.1),
    segment.1 - offsetToPage segment.1 + segment.2 ≤ (s.cache.array i).filled))

instance {N : Nat} (c : StaticLRUCache (Nat × Nat) Line N) (offset length : Nat) :
    Decidable (WholeFilled c offset length) :=
  inferInstanceAs (Decidable (∀ i ∈ c.find (offset, length), length ≤ (c.array i).filled))

/-- Every line that the read would find in a cache has from the server the bytes that are read. -/
def HitsFilled (s : ArticCache) (offset length : Nat) : Prop :=
  if maxBreakupSize < length then
    if length < bigCacheSkip then WholeFilled s.bigCache offset length
    else length < veryBigCacheSkip → WholeFilled s.veryBigCache offset length
  else ∀ segment ∈ breakupRead offset length, s.PageFilled segment

instance (s : ArticCache) (offset length : Nat) : Decidable (s.HitsFilled offset length) := by
  unfold HitsFilled
  infer_instance

theorem Coherent.keepPage {s : ArticCache} (h : s.Coherent) (server : ArticServer)
    (segment : Nat × Nat) : (s.keepPage (s.fetchSegment server segment)).Coherent :=
  ⟨(h.pages.fetch (by decide) server s.requests (offsetToPage segment.1) cacheLineSize
    (·.data)).1, h.big, h.veryBig⟩

theorem Coherent.readSegments {s : ArticCache} (h : s.Coherent) (server : ArticServer)
    (segments : List (Nat × Nat)) (buffer : List UInt8) :
    (readSegments server segments buffer s).2.Coherent := by
  induction segments generalizing s buffer with
  | nil => exact h
  | cons segment segments ih =>
    rw [ArticCache.readSegments]
    split
    · exact h.keepPage server segment
    · exact ih (h.keepPage server segment) _

/-- The segments of a read bring the bytes of the file. -/
theorem Coherent.readSegments_ok {s : ArticCache} (h : s.Coherent) (server : ArticServer)
    {segments : List (Nat × Nat)} (buffer : List UInt8)
    (hsize : ∀ segment ∈ segments, 0 < segment.2 ∧
      segment.1 - offsetToPage segment.1 + segment.2 ≤ cacheLineSize)
    (hpages : segments.Pairwise fun a b => offsetToPage a.1 ≠ offsetToPage b.1)
    (hfilled : ∀ segment ∈ segments, s.PageFilled segment) {data : List UInt8}
    (hdata : (ArticCache.readSegments server segments buffer s).1 = .ok data) :
    data = buffer ++ segments.flatMap fun segment => (s.file.drop segment.1).take segment.2 := by
  induction segments generalizing s buffer with
  | nil =>
    cases hdata
    simp
  | cons segment segments ih =>
    obtain ⟨hne, hpages⟩ := List.pairwise_cons.1 hpages
    obtain ⟨hpos, hin⟩ := hsize segment List.mem_cons_self
    have hle := offsetToPage_le segment.1
    rw [ArticCache.readSegments] at hdata
    split at hdata
    · cases hdata
    · rename_i bytes hbytes
      have hcopied : bytes = (s.file.drop segment.1).take segment.2 := by
        unfold segmentAnswer Fetched.answer at hbytes
        split at hbytes
        · cases hbytes
        · rename_i herror
          cases hbytes
          have h₁ := h.pages.fetch_copied (by decide) server s.requests (offsetToPage segment.1)
            cacheLineSize (·.data) herror hin hpos (hfilled segment List.mem_cons_self)
          rw [id, Nat.add_sub_cancel' hle] at h₁
          exact h₁
      have hrest := ih (h.keepPage server segment) (buffer ++ bytes)
        (fun segment' hmem => hsize segment' (List.mem_cons_of_mem segment hmem)) hpages
        (fun segment' hmem i hi => ?_) hdata
      · rw [hrest, hcopied, List.append_assoc, List.flatMap_cons]
        rfl
      · -- the pages of the other segments are untouched, if they are still there
        obtain ⟨hold, harray⟩ := (h.pages.fetch (by decide) server s.requests
          (offsetToPage segment.1) cacheLineSize (·.data)).2 (offsetToPage segment'.1)
          (hne segment' hmem).symm i hi
        have hle' := hfilled segment' (List.mem_cons_of_mem segment hmem) i hold
        rw [← harray] at hle'
        exact hle'

/-- A read of a whole line brings the bytes of the file. -/
theorem readWhole_ok {N : Nat} {c : StaticLRUCache (Nat × Nat) Line N} {file : List UInt8}
    (h : Truthful c file Prod.fst) (hN : 0 < N) (server : ArticServer) (requests : Nat)
    {offset length : Nat} (hfilled : WholeFilled c offset length) {data : List UInt8}
    (hdata : (readWhole server file requests c offset length).answer 0
      (readWhole server file requests c offset length).readSize = .ok data) :
    data = (file.drop offset).take length := by
  unfold Fetched.answer at hdata
  split at hdata
  · cases hdata
  · rename_i herror
    cases hdata
    rw [List.drop_zero]
    rcases h.fetch_line hN server requests (offset, length) length
      (fun _ => server.junk requests length) herror hfilled with ⟨hread, hline⟩ | hline
    · have hread' : (readWhole server file requests c offset length).readSize = length := hread
      rw [hread']
      exact hline
    · exact hline

theorem Coherent.readBig {s : ArticCache} (h : s.Coherent) (server : ArticServer)
    (offset length : Nat) : (s.readBig server offset length).2.Coherent := by
  unfold ArticCache.readBig
  split
  · exact ⟨h.pages, (h.big.fetch (by decide) server s.requests (offset, length) length
      fun _ => server.junk s.requests length).1, h.veryBig⟩
  · split
    · exact ⟨h.pages, h.big, (h.veryBig.fetch (by decide) server s.requests (offset, length) length
        fun _ => server.junk s.requests length).1⟩
    · split
      · exact ⟨h.pages, h.big, h.veryBig⟩
      · exact ⟨h.pages, h.big, h.veryBig⟩

theorem Coherent.readBig_ok {s : ArticCache} (h : s.Coherent) (server : ArticServer)
    {offset length : Nat} (hbig : length < bigCacheSkip → WholeFilled s.bigCache offset length)
    (hvery : ¬ length < bigCacheSkip → length < veryBigCacheSkip →
      WholeFilled s.veryBigCache offset length) {data : List UInt8}
    (hdata : (s.readBig server offset length).1 = .ok data) :
    data = (s.file.drop offset).take length := by
  unfold ArticCache.readBig at hdata
  split at hdata
  · rename_i hlt
    exact readWhole_ok h.big (by decide) server s.requests (hbig hlt) hdata
  · rename_i hge
    split at hdata
    · rename_i hlt
      exact readWhole_ok h.veryBig (by decide) server s.requests (hvery hge hlt) hdata
    · obtain ⟨-, -, hfull⟩ := readFromArtic_spec server s.file s.requests length offset
      split at hdata
      · rename_i heq
        cases hdata
        rw [heq] at hfull
        exact hfull rfl
      · cases hdata

theorem breakupRead_of_le {offset length : Nat} (h : length ≤ maxBreakupSize) :
    breakupRead offset length = breakupLoop length offset length := by
  unfold breakupRead
  rw [if_neg (Nat.not_lt.2 h)]

/-- `Read` takes one of two ways, by the length of the read. -/
theorem read_eq (server : ArticServer) (s : ArticCache) (offset length : Nat) :
    s.read server offset length =
      if maxBreakupSize < length then s.readBig server offset length
      else readSegments server (breakupRead offset length) [] s := by
  unfold ArticCache.read
  split
  · rename_i hzero
    subst hzero
    rfl
  · rename_i hne
    by_cases hlong : maxBreakupSize < length
    · have hbreak : breakupRead offset length = [(offset, length)] := by
        unfold breakupRead
        rw [if_pos hlong]
      have hline : cacheLineSize < length := Nat.lt_trans (by decide) hlong
      rw [hbreak, if_pos hlong]
      simp only
      rw [if_pos hline]
    · rw [if_neg hlong]
      split
      · rename_i segment heq
        rw [if_neg]
        · rw [heq]
        · -- no segment is longer than a page
          have hmem : segment ∈ breakupLoop length offset length := by
            rw [← breakupRead_of_le (Nat.not_lt.1 hlong), heq]
            exact List.mem_singleton_self segment
          obtain ⟨-, -, hin⟩ := (breakupLoop_spec [] length offset length (Nat.le_refl _)).1 segment
            hmem
          omega
      · rfl

theorem Coherent.read {s : ArticCache} (h : s.Coherent) (server : ArticServer)
    (offset length : Nat) : (s.read server offset length).2.Coherent := by
  rw [read_eq]
  split
  · exact h.readBig server offset length
  · exact h.readSegments server _ []

/-- A read that hits no line beyond what the server sent for it brings the bytes of the file. -/
theorem Coherent.read_ok {s : ArticCache} (h : s.Coherent) (server : ArticServer)
    {offset length : Nat} (hfilled : s.HitsFilled offset length) {data : List UInt8}
    (hdata : (s.read server offset length).1 = .ok data) :
    data = (s.file.drop offset).take length := by
  rw [read_eq] at hdata
  unfold HitsFilled at hfilled
  split at hdata
  · rename_i hlong
    rw [if_pos hlong] at hfilled
    refine h.readBig_ok server (fun hlt => ?_) (fun hge => ?_) hdata
    · rwa [if_pos hlt] at hfilled
    · rwa [if_neg hge] at hfilled
  · rename_i hshort
    rw [if_neg hshort] at hfilled
    rw [breakupRead_of_le (Nat.not_lt.1 hshort)] at hfilled hdata
    obtain ⟨hsize, hpages, hrange⟩ :=
      breakupLoop_spec s.file length offset length (Nat.le_refl _)
    have hall := h.readSegments_ok server [] (fun segment hmem => (hsize segment hmem).2) hpages
      hfilled hdata
    rw [hall, List.nil_append, hrange]

/-! ## Runs -/

theorem Coherent.clear (s : ArticCache) : s.clear.Coherent :=
  ⟨truthful_clear _ _ _, truthful_clear _ _ _, truthful_clear _ _ _⟩

/-- After a write the caches are empty, whatever became of the file. -/
theorem Coherent.write (server : ArticServer) (s : ArticCache) (offset flags : Nat)
    (data : List UInt8) : (s.write server offset flags data).2.Coherent := by
  have hloop : ∀ turns written (s : ArticCache), (∀ file requests,
      ArticCache.Coherent { s with file := file, requests := requests }) →
      (writeLoop server offset flags data turns written s).2.Coherent := by
    intro turns
    induction turns with
    | zero => exact fun written s h => h s.file s.requests
    | succ turns ih =>
      intro written s h
      rw [writeLoop]
      split
      · exact h s.file s.requests
      · split
        · exact h _ _
        · split
          · exact ih _ _ h
          · exact h _ _
  exact hloop _ _ _ fun _ _ => ⟨truthful_clear _ _ _, truthful_clear _ _ _, truthful_clear _ _ _⟩

theorem coherent_new (server : ArticServer) (file : List UInt8) : (new server file).Coherent :=
  show (new server file).clear.Coherent from Coherent.clear _

/-- The calls of a run. -/
inductive Call where
  | read (offset length : Nat)
  | write (offset flags : Nat) (data : List UInt8)
  | clear

/-- A read of a run, with the file as it was on the server, and its answer. -/
structure Answer where
  file : List UInt8
  offset : Nat
  length : Nat
  result : Except Int (List UInt8)

/-- The state after a call. -/
def step (server : ArticServer) (s : ArticCache) : Call → ArticCache
  | .read offset length => (s.read server offset length).2
  | .write offset flags data => (s.write server offset flags data).2
  | .clear => s.clear

/-- The answers to the reads of a run. -/
def answers (server : ArticServer) (s : ArticCache) : List Call → List Answer
  | [] => []
  | .read offset length :: calls =>
      ⟨s.file, offset, length, (s.read server offset length).1⟩ ::
        answers server (s.step server (.read offset length)) calls
  | call :: calls => answers server (s.step server call) calls

/-- The reads of a run hit no line beyond what the server sent for it. -/
def RunFilled (server : ArticServer) (s : ArticCache) : List Call → Prop
  | [] => True
  | .read offset length :: calls =>
      s.HitsFilled offset length ∧ RunFilled server (s.step server (.read offset length)) calls
  | call :: calls => RunFilled server (s.step server call) calls

instance decidableRunFilled (server : ArticServer) (s : ArticCache) :
    (calls : List Call) → Decidable (s.RunFilled server calls)
  | [] => isTrue trivial
  | .read offset length :: calls =>
      have := decidableRunFilled server (s.step server (.read offset length)) calls
      inferInstanceAs (Decidable (_ ∧ _))
  | .write offset flags data :: calls =>
      decidableRunFilled server (s.step server (.write offset flags data)) calls
  | .clear :: calls => decidableRunFilled server (s.step server .clear) calls

theorem Coherent.step {s : ArticCache} (h : s.Coherent) (server : ArticServer) (call : Call) :
    (s.step server call).Coherent := by
  cases call with
  | read offset length => exact h.read server offset length
  | write offset flags data => exact Coherent.write server s offset flags data
  | clear => exact Coherent.clear s

theorem Coherent.answers_ok {s : ArticCache} (h : s.Coherent) (server : ArticServer)
    (calls : List Call) (hrun : s.RunFilled server calls) :
    ∀ a ∈ s.answers server calls, ∀ data, a.result = .ok data →
      data = (a.file.drop a.offset).take a.length := by
  induction calls generalizing s with
  | nil => simp [answers]
  | cons call calls ih =>
    cases call with
    | read offset length =>
      obtain ⟨hfilled, hrun⟩ := hrun
      intro a ha data hdata
      rcases List.mem_cons.1 ha with rfl | ha
      · exact h.read_ok server hfilled hdata
      · exact ih (h.step server _) hrun a ha data hdata
    | write offset flags data => exact ih (h.step server _) hrun
    | clear => exact ih (h.step server _) hrun

/-- **Coherence.**  In every run whose reads hit no line beyond what the server sent for it, every
read that succeeds brings the bytes, and as many, as a read without a cache would. -/
theorem read_agrees_with_server (server : ArticServer) (file : List UInt8) (calls : List Call)
    (hrun : (new server file).RunFilled server calls) :
    ∀ a ∈ (new server file).answers server calls, ∀ data, a.result = .ok data →
      data = readUncached server a.file a.offset a.length := by
  intro a ha data hdata
  rw [readUncached_eq]
  exact (coherent_new server file).answers_ok server calls hrun a ha data hdata

/-- A server that keeps what is written within the file, and fails the requests listed. -/
def plainServer (faults : List Nat) : ArticServer where
  requestSize := 0x1000
  requestSize_pos := by decide
  fault n := if n ∈ faults then some (-1) else none
  write _ file offset _ data :=
    (.ok data.length, file.take offset ++ data ++ file.drop (offset + data.length))
  junk _ size := List.replicate size 0

/-- Two reads of one page, the second of which is a hit, and a read after a write. -/
def rereadCalls : List Call := [.read 1 2, .read 2 2, .write 0 0 [9], .read 0 2]

theorem read_agrees_with_server_reread :
    ((new (plainServer []) [1, 2, 3, 4, 5]).answers (plainServer []) rereadCalls).length = 3 ∧
    ∀ a ∈ (new (plainServer []) [1, 2, 3, 4, 5]).answers (plainServer []) rereadCalls,
      ∀ data, a.result = .ok data →
        data = readUncached (plainServer []) a.file a.offset a.length := by
  refine ⟨by decide +kernel, ?_⟩
  exact read_agrees_with_server (plainServer []) [1, 2, 3, 4, 5] rereadCalls (by decide +kernel)

/-- The data of an answer. -/
def Answer.data (a : Answer) : Option (List UInt8) :=
  match a.result with
  | .ok data => some data
  | .error _ => none

theorem Answer.data_eq_some {a : Answer} {data : List UInt8} :
    a.data = some data ↔ a.result = .ok data := by
  unfold Answer.data
  split
  · rename_i h
    simp [h]
  · rename_i h
    simp [h]

/-- The page of a request that failed is taken for read by the next one, and so is the rest of a
page behind the end of the file. -/
theorem read_disagrees_with_server :
    ((new (plainServer [0]) [1, 2, 3]).answers (plainServer [0]) [.read 0 2, .read 0 2]).map
      Answer.data = [none, some [0, 0]] ∧
    ((new (plainServer []) [1, 2, 3]).answers (plainServer []) [.read 0 4, .read 0 4]).map
      Answer.data = [some [1, 2, 3], some [1, 2, 3, 0]] ∧
    ¬ ∀ (server : ArticServer) (file : List UInt8) (calls : List Call),
      ∀ a ∈ (new server file).answers server calls, ∀ data, a.result = .ok data →
        data = readUncached server a.file a.offset a.length := by
  refine ⟨by decide +kernel, by decide +kernel, fun hall => ?_⟩
  have hfault : ∀ a ∈ (new (plainServer [0]) [1, 2, 3]).answers (plainServer [0])
      [.read 0 2, .read 0 2], ∀ data ∈ a.data,
        data = readUncached (plainServer [0]) a.file a.offset a.length :=
    fun a ha data hdata => hall _ _ _ a ha data (Answer.data_eq_some.1 hdata)
  revert hfault
  decide +kernel

end ArticCache

end AzaharPlus.FileSys
