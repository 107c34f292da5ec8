import AzaharPlus.Common.StaticLRUCache
import AzaharPlus.Lib.CheckedBytes

/-!
# Reads of a RomFS

`DirectRomFSReader` of `core/file_sys/romfs_reader.cpp`: reads of a RomFS that lies in a file of the
host, encrypted or not, through a cache of lines.  The cipher is a parameter: what it makes of bytes
after a `Seek`.  Positions in the file and in the key stream are natural numbers.

* `breakupRead_spec` — the segments of a read cover it, and each lies in one line.
* `Mirror.readFile` — a read brings the plaintext and keeps the lines in the cache true.
* `reads_are_plaintext` — every sequence of reads.
-/

namespace AzaharPlus.FileSys

open Bytes Common

namespace RomFS

def cacheLineSize : Nat := 2 ^ 13
def cacheLineCount : Nat := 16

/-- `DirectRomFSReader`, without its cache.  `cipher p` is what the cipher does to bytes after
`Seek(p)`; `file` is what the file of the host holds. -/
structure Reader where
  isEncrypted : Bool
  cipher : Nat → List UInt8 → List UInt8
  file : List UInt8
  fileOffset : Nat
  cryptoOffset : Nat
  dataSize : Nat
  dataSize_lt : dataSize < 2 ^ 64

/-- The cache of lines by the offset of their first byte. -/
abbrev Cache := StaticLRUCache Nat (List UInt8) cacheLineCount

/-- `OffsetToPage` -/
def offsetToPage (offset : Nat) : Nat := offset - offset % cacheLineSize

/-- The loop of `BreakupRead`. -/
def breakupLoop (currOffset length : Nat) : List (Nat × Nat) :=
  if length = 0 then []
  else
    let nextPage := offsetToPage (currOffset + cacheLineSize)
    let currPageLen := min length (nextPage - currOffset)
    (currOffset, currPageLen) :: breakupLoop nextPage (length - currPageLen)
  termination_by length
  decreasing_by
    have hmod : (currOffset + cacheLineSize) % cacheLineSize < cacheLineSize :=
      Nat.mod_lt _ (by decide)
    unfold offsetToPage
    omega

/-- `BreakupRead` -/
def breakupRead (offset length : Nat) : List (Nat × Nat) :=
  if cacheLineSize < length then [(offset, length)] else breakupLoop offset length

namespace Reader

/-- `ReadAtBytes`: what the file holds from an offset on; fewer bytes only at its end. -/
def readAtBytes (r : Reader) (length offset : Nat) : List UInt8 := slice r.file offset length

/-- What is read at an offset of the image, decrypted. -/
def readPlain (r : Reader) (length offset : Nat) : List UInt8 :=
  let data := r.readAtBytes length (r.fileOffset + offset)
  if r.isEncrypted then r.cipher (r.cryptoOffset + offset) data else data

/-- The line of a page, how many bytes were read for it, and the cache afterwards. -/
def requestLine (r : Reader) (cache : Cache) (page : Nat) : List UInt8 × Nat × Cache :=
  match cache.request page with
  | (true, i, cache) => (cache.array i, cacheLineSize, cache)
  | (false, i, cache) =>
      let data := r.readPlain cacheLineSize page
      let line := data ++ (cache.array i).drop data.length
      (line, data.length, cache.store i line)

/-- How many bytes of a line are copied. -/
def copyAmount (readSize into length : Nat) : Nat :=
  if into < readSize then min (into + length) readSize - into else 0

/-- The loop over the segments. -/
def readSegments (r : Reader) : Cache → List (Nat × Nat) → List UInt8 × Cache
  | cache, [] => ([], cache)
  | cache, seg :: rest =>
      let page := offsetToPage seg.1
      let (line, readSize, cache) := r.requestLine cache page
      let copied := slice line (seg.1 - page) (copyAmount readSize (seg.1 - page) seg.2)
      let (data, cache) := r.readSegments cache rest
      (copied ++ data, cache)

/-- `ReadFile`: the bytes that are put into the buffer, and the cache afterwards. -/
def readFile (r : Reader) (cache : Cache) (offset length : Nat) : List UInt8 × Cache :=
  let length := min length ((r.dataSize + 2 ^ 64 - offset) % 2 ^ 64)
  if length = 0 then ([], cache)
  else
    match breakupRead offset length with
    | [(first, size)] =>
        if cacheLineSize < size then (r.readPlain length offset, cache)
        else r.readSegments cache [(first, size)]
    | segments => r.readSegments cache segments

/-- What a sequence of reads brings. -/
def reads (r : Reader) : Cache → List (Nat × Nat) → List (List UInt8)
  | _, [] => []
  | cache, call :: rest =>
      let (data, cache) := r.readFile cache call.1 call.2
      data :: r.reads cache rest

end Reader

/-! ## Blocks -/

/-- A block of bytes that were changed one by one. -/
theorem slice_mapIdx (f : Nat → UInt8 → UInt8) (b : List UInt8) (off n : Nat) :
    slice (b.mapIdx f) off n = (slice b off n).mapIdx fun i => f (off + i) := by
  refine List.ext_getElem? fun i => ?_
  by_cases hi : i < n
  · simp [slice, List.getElem?_take_of_lt hi]
  · simp [slice, hi]

/-! ## Segments -/

theorem offsetToPage_le (offset : Nat) : offsetToPage offset ≤ offset := Nat.sub_le _ _

theorem lt_offsetToPage_add (offset : Nat) : offset < offsetToPage offset + cacheLineSize := by
  have hmod : offset % cacheLineSize < cacheLineSize := Nat.mod_lt _ (by decide)
  unfold offsetToPage
  omega

theorem offsetToPage_add (offset : Nat) :
    offsetToPage (offset + cacheLineSize) = offsetToPage offset + cacheLineSize := by
  have hle := Nat.mod_le offset cacheLineSize
  unfold offsetToPage
  rw [Nat.add_mod_right]
  omega

/-- A segment lies in one line. -/
def InLine (seg : Nat × Nat) : Prop := seg.1 + seg.2 ≤ offsetToPage seg.1 + cacheLineSize

/-- The segments lie in one line each, end where the read ends, and their blocks are the block that
is read. -/
theorem breakupLoop_spec (image : List UInt8) (offset length : Nat) :
    (∀ seg ∈ breakupLoop offset length, InLine seg ∧ seg.1 + seg.2 ≤ offset + length) ∧
      (breakupLoop offset length).flatMap (fun seg => slice image seg.1 seg.2) =
        slice image offset length := by
  induction offset, length using breakupLoop.induct with
  | case1 offset =>
    rw [breakupLoop, if_pos rfl]
    exact ⟨fun seg h => absurd h List.not_mem_nil, by simp [slice]⟩
  | case2 offset length hpos nextPage currPageLen ih =>
    have hnext : nextPage = offsetToPage offset + cacheLineSize := offsetToPage_add offset
    have hlt := lt_offsetToPage_add offset
    have hlen : currPageLen = min length (nextPage - offset) := rfl
    have hunfold : breakupLoop offset length =
        (offset, currPageLen) :: breakupLoop nextPage (length - currPageLen) := by
      rw [breakupLoop, if_neg hpos]
    obtain ⟨hrest, hblocks⟩ := ih
    rw [hunfold, List.flatMap_cons]
    by_cases hlast : length ≤ nextPage - offset
    · -- the last line
      have hall : currPageLen = length := by omega
      rw [hall, Nat.sub_self, breakupLoop, if_pos rfl]
      refine ⟨fun seg hseg => ?_, List.append_nil _⟩
      rw [List.mem_singleton.1 hseg]
      refine ⟨?_, Nat.le_refl _⟩
      change offset + length ≤ offsetToPage offset + cacheLineSize
      omega
    · have hcur : offset + currPageLen = nextPage := by omega
      refine ⟨fun seg hseg => ?_, ?_⟩
      · rcases List.mem_cons.1 hseg with rfl | hseg
        · refine ⟨?_, ?_⟩
          · change offset + currPageLen ≤ offsetToPage offset + cacheLineSize
            omega
          · change offset + currPageLen ≤ offset + length
            omega
        · obtain ⟨hline, hend⟩ := hrest seg hseg
          exact ⟨hline, by omega⟩
      · have hsum : length = currPageLen + (length - currPageLen) := by omega
        rw [hblocks, hsum, slice_add, hcur, Nat.add_sub_cancel_left]

/-! ## The plaintext -/

/-- The cipher, behind a `Seek`, XORs a key stream from that position on. -/
def XorsKeystream (cipher : Nat → List UInt8 → List UInt8) (keystream : Nat → UInt8) : Prop :=
  ∀ p data, cipher p data = data.mapIdx fun i b => b ^^^ keystream (p + i)

namespace Reader

/-- The image as it is read in one piece. -/
def plaintext (r : Reader) : List UInt8 := r.readPlain r.dataSize 0

variable {r : Reader} {keystream : Nat → UInt8}

theorem length_readPlain (hcipher : XorsKeystream r.cipher keystream) (length offset : Nat) :
    (r.readPlain length offset).length = (r.readAtBytes length (r.fileOffset + offset)).length := by
  unfold readPlain
  simp only
  split
  · rw [hcipher, List.length_mapIdx]
  · rfl

/-- A part of what a read of the image brings is what a read of the part brings. -/
theorem slice_readPlain (hcipher : XorsKeystream r.cipher keystream) {length offset i m : Nat}
    (h : i + m ≤ length) :
    slice (r.readPlain length offset) i m = r.readPlain m (offset + i) := by
  unfold readPlain readAtBytes
  simp only
  split
  · rw [hcipher, hcipher, slice_mapIdx, slice_slice h, Nat.add_assoc]
    simp only [Nat.add_assoc]
  · rw [slice_slice h, Nat.add_assoc]

/-- A read of a part of the image brings its plaintext. -/
theorem readPlain_eq (hcipher : XorsKeystream r.cipher keystream) {length offset : Nat}
    (h : offset + length ≤ r.dataSize) :
    r.readPlain length offset = slice r.plaintext offset length := by
  rw [plaintext, slice_readPlain hcipher h, Nat.zero_add]

/-! ## The cache -/

/-- The lines in the cache hold the plaintext, as far as the image goes. -/
structure Mirror (r : Reader) (cache : Cache) : Prop where
  sound : cache.Sound
  lines : ∀ page i, (page, i) ∈ cache.list → ∀ into n, into + n ≤ cacheLineSize →
    page + into + n ≤ r.dataSize → slice (cache.array i) into n = slice r.plaintext (page + into) n

theorem copyAmount_eq {readSize into n : Nat} (h : into + n ≤ readSize) :
    copyAmount readSize into n = n := by
  unfold copyAmount
  split <;> omega

/-- A line that is read for a page. -/
theorem slice_line (hcipher : XorsKeystream r.cipher keystream)
    (hfile : r.fileOffset + r.dataSize ≤ r.file.length) (old : List UInt8) {page into n : Nat}
    (hline : into + n ≤ cacheLineSize) (hend : page + into + n ≤ r.dataSize) :
    into + n ≤ (r.readPlain cacheLineSize page).length ∧
      slice (r.readPlain cacheLineSize page ++ old) into n = slice r.plaintext (page + into) n := by
  have hlength : into + n ≤ (r.readPlain cacheLineSize page).length := by
    rw [length_readPlain hcipher, readAtBytes, slice, List.length_take, List.length_drop]
    omega
  refine ⟨hlength, ?_⟩
  rw [slice_append_left hlength, slice_readPlain hcipher hline, readPlain_eq hcipher hend]

/-- What a request for a page brings: the cache stays true, and what is copied from the line is the
plaintext. -/
theorem Mirror.requestLine {cache : Cache} (h : r.Mirror cache)
    (hcipher : XorsKeystream r.cipher keystream)
    (hfile : r.fileOffset + r.dataSize ≤ r.file.length) (page : Nat) :
    r.Mirror (r.requestLine cache page).2.2 ∧
      ∀ into n, into + n ≤ cacheLineSize → page + into + n ≤ r.dataSize →
        slice (r.requestLine cache page).1 into
          (copyAmount (r.requestLine cache page).2.1 into n) =
          slice r.plaintext (page + into) n := by
  have hN : 0 < cacheLineCount := by decide
  obtain ⟨harray, hfind, hlist⟩ := StaticLRUCache.request_spec h.sound hN page
  have hsound := h.sound.request hN page
  unfold Reader.requestLine
  generalize cache.request page = q at *
  obtain ⟨hit, i, cache'⟩ := q
  simp only at harray hfind hsound hlist
  cases hit with
  | true =>
    have hmem : (page, i) ∈ cache.list := StaticLRUCache.find_eq_some hfind
    refine ⟨⟨hsound, fun k j hk => ?_⟩, fun into n hline hend => ?_⟩
    · rw [harray]
      rcases hlist k j hk with ⟨rfl, rfl⟩ | ⟨hold, -, -⟩
      · exact h.lines k j hmem
      · exact h.lines k j hold
    · simp only
      rw [copyAmount_eq hline, harray]
      exact h.lines page i hmem into n hline hend
  | false =>
    have hline (into n : Nat) (hline : into + n ≤ cacheLineSize)
        (hend : page + into + n ≤ r.dataSize) :=
      slice_line hcipher hfile ((cache'.array i).drop (r.readPlain cacheLineSize page).length)
        hline hend
    refine ⟨⟨hsound.store i _, fun k j hk => ?_⟩, fun into n hin hend => ?_⟩
    · rcases hlist k j hk with ⟨rfl, rfl⟩ | ⟨hold, -, hne⟩
      · rw [StaticLRUCache.array_store, Function.update_self]
        exact fun into n hin hend => (hline into n hin hend).2
      · rw [StaticLRUCache.array_store, Function.update_of_ne hne, harray]
        exact h.lines k j hold
    · simp only
      rw [copyAmount_eq (hline into n hin hend).1]
      exact (hline into n hin hend).2

/-- The loop over segments that lie in one line each, inside the image. -/
theorem Mirror.readSegments {cache : Cache} (h : r.Mirror cache)
    (hcipher : XorsKeystream r.cipher keystream)
    (hfile : r.fileOffset + r.dataSize ≤ r.file.length) {segments : List (Nat × Nat)}
    (hsegments : ∀ seg ∈ segments, InLine seg ∧ seg.1 + seg.2 ≤ r.dataSize) :
    r.Mirror (r.readSegments cache segments).2 ∧
      (r.readSegments cache segments).1 =
        segments.flatMap fun seg => slice r.plaintext seg.1 seg.2 := by
  induction segments generalizing cache with
  | nil => exact ⟨h, rfl⟩
  | cons seg rest ih =>
    obtain ⟨hline, hend⟩ := hsegments seg List.mem_cons_self
    have hle := offsetToPage_le seg.1
    have hpage : offsetToPage seg.1 + (seg.1 - offsetToPage seg.1) = seg.1 := by omega
    unfold InLine at hline
    obtain ⟨hmirror, hcopied⟩ := h.requestLine hcipher hfile (offsetToPage seg.1)
    obtain ⟨hrest, hdata⟩ := ih hmirror fun seg' h' => hsegments seg' (List.mem_cons_of_mem _ h')
    have hfirst := hcopied (seg.1 - offsetToPage seg.1) seg.2 (by omega) (by omega)
    rw [hpage] at hfirst
    refine ⟨hrest, ?_⟩
    rw [List.flatMap_cons, ← hfirst, ← hdata]
    rfl

/-- How many bytes a read is for. -/
def readLength (r : Reader) (offset length : Nat) : Nat := min length (r.dataSize - offset)

/-- One read. -/
theorem Mirror.readFile {cache : Cache} (h : r.Mirror cache)
    (hcipher : XorsKeystream r.cipher keystream)
    (hfile : r.fileOffset + r.dataSize ≤ r.file.length) {offset : Nat} (length : Nat)
    (hoffset : offset ≤ r.dataSize) :
    r.Mirror (r.readFile cache offset length).2 ∧
      (r.readFile cache offset length).1 =
        slice r.plaintext offset (r.readLength offset length) := by
  have hlength : min length ((r.dataSize + 2 ^ 64 - offset) % 2 ^ 64) =
      r.readLength offset length := by
    have hlt := r.dataSize_lt
    unfold readLength
    congr 1
    omega
  have hend : offset + r.readLength offset length ≤ r.dataSize := by
    unfold readLength
    omega
  unfold Reader.readFile
  simp only [hlength]
  by_cases hzero : r.readLength offset length = 0
  · rw [if_pos hzero, hzero]
    exact ⟨h, by simp [slice]⟩
  · rw [if_neg hzero]
    unfold breakupRead
    by_cases hbig : cacheLineSize < r.readLength offset length
    · rw [if_pos hbig]
      simp only
      rw [if_pos hbig]
      exact ⟨h, readPlain_eq hcipher hend⟩
    · rw [if_neg hbig]
      obtain ⟨hsegments, hblocks⟩ :=
        breakupLoop_spec r.plaintext offset (r.readLength offset length)
      have hread := h.readSegments hcipher hfile fun seg hseg =>
        ⟨(hsegments seg hseg).1, (hsegments seg hseg).2.trans hend⟩
      rw [hblocks] at hread
      split
      · rename_i first size hsingle
        have hsmall : ¬ cacheLineSize < size := by
          have hline := (hsegments (first, size) (by rw [hsingle]; exact List.mem_cons_self)).1
          have hle := offsetToPage_le first
          unfold InLine at hline
          simp only at hline
          omega
        rw [if_neg hsmall, ← hsingle]
        exact hread
      · exact hread

theorem Mirror.reads {cache : Cache} (h : r.Mirror cache)
    (hcipher : XorsKeystream r.cipher keystream)
    (hfile : r.fileOffset + r.dataSize ≤ r.file.length) {calls : List (Nat × Nat)}
    (hcalls : ∀ call ∈ calls, call.1 ≤ r.dataSize) :
    r.reads cache calls =
      calls.map fun call => slice r.plaintext call.1 (r.readLength call.1 call.2) := by
  induction calls generalizing cache with
  | nil => rfl
  | cons call rest ih =>
    obtain ⟨hmirror, hdata⟩ :=
      h.readFile hcipher hfile call.2 (hcalls call List.mem_cons_self)
    have hrest := ih hmirror fun call' h' => hcalls call' (List.mem_cons_of_mem call h')
    rw [Reader.reads, List.map_cons, ← hdata]
    exact congrArg _ hrest

/-- The image of the file of the host, with the key stream taken off if it is encrypted. -/
def image (r : Reader) (keystream : Nat → UInt8) : List UInt8 :=
  (slice r.file r.fileOffset r.dataSize).mapIdx fun i b =>
    if r.isEncrypted then b ^^^ keystream (r.cryptoOffset + i) else b

theorem plaintext_eq_image (hcipher : XorsKeystream r.cipher keystream) :
    r.plaintext = r.image keystream := by
  unfold plaintext readPlain readAtBytes image
  simp only [Nat.add_zero]
  by_cases h : r.isEncrypted = true
  · rw [if_pos h, hcipher]
    simp only [if_pos h]
  · rw [if_neg h]
    simp only [if_neg h]
    exact List.ext_getElem? fun i => by simp

/-- Every sequence of reads, from an empty cache on: each read brings as many bytes as there are of
the image, and these bytes. -/
theorem reads_are_plaintext {r : Reader} {keystream : Nat → UInt8} {cache : Cache}
    {calls : List (Nat × Nat)} (hcipher : XorsKeystream r.cipher keystream)
    (hfile : r.fileOffset + r.dataSize ≤ r.file.length) (hempty : cache.list = [])
    (hcalls : ∀ call ∈ calls, call.1 ≤ r.dataSize) :
    r.reads cache calls = calls.map (fun call =>
        slice (r.image keystream) call.1 (min call.2 (r.dataSize - call.1))) ∧
      ∀ call ∈ calls, (slice (r.image keystream) call.1
        (min call.2 (r.dataSize - call.1))).length = min call.2 (r.dataSize - call.1) := by
  have hmirror : r.Mirror cache := by
    refine ⟨⟨?_, ?_, ?_⟩, fun page i hmem => ?_⟩
    · simp [hempty]
    · simp [hempty]
    · simp [hempty]
    · rw [hempty] at hmem
      cases hmem
  refine ⟨?_, fun call hcall => length_slice ?_⟩
  · rw [hmirror.reads hcipher hfile hcalls, plaintext_eq_image hcipher]
    rfl
  · have hoffset := hcalls call hcall
    unfold image
    rw [List.length_mapIdx, length_slice hfile]
    omega

/-- A cipher that XORs the low byte of the position. -/
def positionCipher (p : Nat) (data : List UInt8) : List UInt8 :=
  data.mapIdx fun i b => b ^^^ UInt8.ofNat (p + i)

/-- An encrypted image of three bytes behind one byte of something else. -/
def smallReader : Reader := ⟨true, positionCipher, [9, 1, 2, 3], 1, 4, 3, by decide⟩

theorem reads_are_plaintext_small :
    smallReader.reads ⟨[], fun _ => []⟩ [(1, 1), (0, 9)] = [[7], [5, 7, 5]] := by
  have hcipher : XorsKeystream smallReader.cipher UInt8.ofNat := fun _ _ => rfl
  have hfile : smallReader.fileOffset + smallReader.dataSize ≤ smallReader.file.length := by decide
  have hcalls : ∀ call ∈ [(1, 1), (0, 9)], call.1 ≤ smallReader.dataSize := by decide
  have hreads : smallReader.reads ⟨[], fun _ => []⟩ [(1, 1), (0, 9)] = _ :=
    (reads_are_plaintext hcipher hfile rfl hcalls).1
  exact hreads.trans (by decide)

end Reader

end RomFS

end AzaharPlus.FileSys
