import AzaharPlus.Lib.Bytes

/-!
# Sessions of an open file

A `File` of the file system service is shared by sessions, each with an offset, a size and whether
it is a subfile.  A subfile shows a window of the file; the others show all of it, but each keeps
its own copy of the size.

* `subfile_confined_iff` — when a read of a subfile returns bytes of its window only;
* `sizes_seen_iff` — when every session sees the file's size all along a run.

The backend's operations succeed; what they do is a parameter, except that a new size is the size and
that a read from an offset in the file gives the bytes that are there.
-/

namespace AzaharPlus.Service.FS

open Bytes

/-! ## Files and sessions -/

/-- `FileBackend`, by what it holds. -/
structure FileBackend (β : Type) where
  content : β → List UInt8
  write : β → Nat → List UInt8 → β
  setSize : β → Nat → β
  length_setSize : ∀ b n, (content (setSize b n)).length = n
  /-- What `Read` gives from an offset behind the content, where some backends go on reading. -/
  readBehind : β → Nat → Nat → List UInt8
  length_readBehind : ∀ b offset length, (readBehind b offset length).length ≤ length

variable {β : Type} (fs : FileBackend β)

namespace FileBackend

/-- `GetSize` of the backend. -/
def getSize (b : β) : Nat := (fs.content b).length

/-- `Read` of the backend. -/
def read (b : β) (offset length : Nat) : List UInt8 :=
  if offset ≤ (fs.content b).length then slice (fs.content b) offset length
  else fs.readBehind b offset length

end FileBackend

/-- `FileSessionSlot` -/
structure FileSessionSlot where
  priority : Nat
  offset : Nat
  size : Nat
  subfile : Bool

/-- `File`, with the slots of its sessions. -/
structure File (β : Type) where
  backend : β
  sessions : List FileSessionSlot

/-- The results that a request of these can fail with. -/
inductive FSResult where
  | unsupportedOpenFlags
  | writeBeyondEnd
  deriving DecidableEq

/-- What a request is answered with. -/
inductive Reply where
  | success
  | read (data : List UInt8)
  | size (size : Nat)
  | opened (session : Nat)
  | failed (result : FSResult)

/-! ## The requests -/

/-- `File::Read`: the bytes put into the buffer. -/
def File.read (f : File β) (file : FileSessionSlot) (offset length : Nat) : List UInt8 :=
  fs.read f.backend ((offset + file.offset) % 2 ^ 64)
    (if file.subfile ∧ file.size < length then file.size % 2 ^ 32 else length)

/-- The slot of a session becomes another. -/
def File.setSlot (f : File β) (session : Nat) (slot : FileSessionSlot) : File β :=
  { f with sessions := f.sessions.set session slot }

/-- A new session is connected. -/
def File.addSlot (f : File β) (slot : FileSessionSlot) : Reply × File β :=
  (.opened f.sessions.length, { f with sessions := f.sessions ++ [slot] })

/-- `File::Write` -/
def File.write (f : File β) (session : Nat) (file : FileSessionSlot) (offset : Nat)
    (data : List UInt8) : Reply × File β :=
  if file.subfile then (.failed .unsupportedOpenFlags, f)
  else
    (.success, { f with backend := fs.write f.backend offset data }.setSlot session
      { file with size := fs.getSize (fs.write f.backend offset data) })

/-- `File::SetSize` -/
def File.setSize (f : File β) (session : Nat) (file : FileSessionSlot) (size : Nat) :
    Reply × File β :=
  if file.subfile then (.failed .unsupportedOpenFlags, f)
  else
    (.success, { f with backend := fs.setSize f.backend size }.setSlot session
      { file with size := size })

/-- `File::OpenLinkFile` -/
def File.openLinkFile (f : File β) (originalFile : FileSessionSlot) : Reply × File β :=
  f.addSlot
    { priority := originalFile.priority, offset := 0, size := fs.getSize f.backend, subfile := false }

/-- The checks of `File::OpenSubFile` and the slot of the new session; the sum of the signed numbers
wraps and is then taken as an unsigned one. -/
def openSubFileSlot (originalFile : FileSessionSlot) (offset size : Int) :
    Except FSResult FileSessionSlot :=
  if originalFile.subfile then .error .unsupportedOpenFlags
  else if offset < 0 ∨ size < 0 then .error .writeBeyondEnd
  else if originalFile.size < ((offset + size) % 2 ^ 64).toNat then .error .writeBeyondEnd
  else
    .ok
      { priority := originalFile.priority
        offset := offset.toNat
        size := size.toNat
        subfile := true }

/-- `File::OpenSubFile` -/
def File.openSubFile (f : File β) (originalFile : FileSessionSlot) (offset size : Int) :
    Reply × File β :=
  match openSubFileSlot originalFile offset size with
  | .error result => (.failed result, f)
  | .ok slot => f.addSlot slot

/-- `File::Connect` -/
def File.connect (f : File β) : Reply × File β :=
  f.addSlot { priority := 0, offset := 0, size := fs.getSize f.backend, subfile := false }

/-! ## Windows -/

/-- The bytes are those of the file from `offset + offset'` on, and lie in the window. -/
def Confined (content : List UInt8) (offset size offset' : Nat) (data : List UInt8) : Prop :=
  ∀ i < data.length, content[offset + offset' + i]? = data[i]? ∧ offset' + i < size

/-- Nothing is asked for; or nothing is where the read starts, once the two offsets are added, and
behind the end the backend reads nothing; or their sum does not wrap and the read ends in the window,
at the latest where the file ends. -/
def ReadsInside (b : β) (offset size offset' length : Nat) : Prop :=
  let start := (offset + offset') % 2 ^ 64
  min length size = 0 ∨
    (fs.getSize b ≤ start ∧
      (fs.getSize b < start → fs.readBehind b start (min length size) = [])) ∨
    (offset + offset' < 2 ^ 64 ∧ start ≤ fs.getSize b ∧
      offset' + min (min length size) (fs.getSize b - (offset + offset')) ≤ size)

/-- What is read from a subfile. -/
theorem read_subfile {f : File β} {file : FileSessionSlot} (hsub : file.subfile = true)
    {offset length : Nat} (hlength : length < 2 ^ 32) :
    f.read fs file offset length =
      fs.read f.backend ((file.offset + offset) % 2 ^ 64) (min length file.size) := by
  unfold File.read
  rw [Nat.add_comm offset]
  by_cases hlt : file.size < length
  · rw [if_pos ⟨hsub, hlt⟩, Nat.mod_eq_of_lt (hlt.trans hlength), Nat.min_eq_right hlt.le]
  · rw [if_neg fun h => hlt h.2, Nat.min_eq_left (Nat.not_lt.1 hlt)]

theorem openSubFileSlot_ok {originalFile slot : FileSessionSlot} {offset size : Int}
    (h : openSubFileSlot originalFile offset size = .ok slot) :
    slot.offset = offset.toNat ∧ slot.size = size.toNat ∧ slot.subfile = true := by
  unfold openSubFileSlot at h
  split at h
  · cases h
  · split at h
    · cases h
    · split at h
      · cases h
      · rw [← Except.ok.inj h]
        exact ⟨rfl, rfl, rfl⟩

/-- **A read of a subfile returns bytes of its window only, exactly if it reads inside.** -/
theorem subfile_confined_iff {originalFile slot : FileSessionSlot} {offset size : Int}
    (hopen : openSubFileSlot originalFile offset size = .ok slot) (f : File β)
    (hsize : fs.getSize f.backend < 2 ^ 64) {offset' length : Nat} (hlength : length < 2 ^ 32) :
    Confined (fs.content f.backend) offset.toNat size.toNat offset'
        (f.read fs slot offset' length) ↔
      ReadsInside fs f.backend offset.toNat size.toNat offset' length := by
  obtain ⟨hoffset, hwindow, hsub⟩ := openSubFileSlot_ok hopen
  rw [read_subfile fs hsub hlength, hoffset, hwindow]
  unfold ReadsInside FileBackend.read
  simp only
  have hreads := fs.length_readBehind f.backend
  unfold FileBackend.getSize at hsize ⊢
  generalize fs.readBehind f.backend = readBehind at hreads ⊢
  generalize fs.content f.backend = content at hsize ⊢
  obtain ⟨start, hstart⟩ : ∃ start, start = (offset.toNat + offset') % 2 ^ 64 := ⟨_, rfl⟩
  obtain ⟨n, hn⟩ : ∃ n, n = min length size.toNat := ⟨_, rfl⟩
  rw [← hstart, ← hn]
  by_cases hle : start ≤ content.length
  case neg =>
    rw [if_neg hle]
    constructor
    · intro hconfined
      refine Or.inr (Or.inl ⟨(Nat.not_le.1 hle).le, fun _ => ?_⟩)
      by_contra hne
      -- a byte that is read would be in the file, and the sum would not have wrapped
      have hfirst := (hconfined 0 (List.length_pos_of_ne_nil hne)).1
      rw [List.getElem?_eq_getElem (List.length_pos_of_ne_nil hne), Nat.add_zero] at hfirst
      have hlt := (List.getElem?_eq_some_iff.1 hfirst).1
      rw [Nat.mod_eq_of_lt (hlt.trans hsize)] at hstart
      omega
    · rintro (hnone | ⟨-, hempty⟩ | ⟨-, hin, -⟩) i hi
      · have := hreads start n
        omega
      · rw [hempty (Nat.not_le.1 hle)] at hi
        exact absurd hi (Nat.not_lt_zero i)
      · exact absurd hin hle
  rw [if_pos hle]
  have hlen : (slice content start n).length = min n (content.length - start) := by simp [slice]
  have hget : ∀ i < n, (slice content start n)[i]? = content[start + i]? := by
    intro i hi
    simp [slice, hi]
  constructor
  · intro hconfined
    by_cases hempty : min n (content.length - start) = 0
    · by_cases hn₀ : n = 0
      · exact Or.inl hn₀
      · exact Or.inr (Or.inl ⟨by omega, fun hlt => absurd hle (Nat.not_le.2 hlt)⟩)
    · have hfirst := (hconfined 0 (by omega)).1
      rw [hget 0 (by omega), Nat.add_zero, Nat.add_zero,
        List.getElem?_eq_getElem (show start < content.length by omega)] at hfirst
      have hlt : offset.toNat + offset' < content.length := by
        by_contra hge
        rw [List.getElem?_eq_none (Nat.not_lt.1 hge)] at hfirst
        cases hfirst
      have hnowrap : start = offset.toNat + offset' := by
        rw [hstart, Nat.mod_eq_of_lt (hlt.trans hsize)]
      have hlast := (hconfined (min n (content.length - start) - 1) (by omega)).2
      rw [← hnowrap]
      exact Or.inr (Or.inr ⟨by omega, hle, by omega⟩)
  · intro hinside i hi
    rw [hlen] at hi
    rcases hinside with hnone | ⟨hbeyond, -⟩ | ⟨hnowrap, -, hend⟩
    · omega
    · omega
    · have hstart' : start = offset.toNat + offset' := by rw [hstart, Nat.mod_eq_of_lt hnowrap]
      rw [hget i (by omega), hstart']
      exact ⟨rfl, by omega⟩

/-- A list of bytes as its own backend. -/
def listBackend : FileBackend (List UInt8) where
  content b := b
  write b offset data :=
    b.take offset ++ List.replicate (offset - b.length) 0 ++ data ++ b.drop (offset + data.length)
  setSize b n := b.take n ++ List.replicate (n - b.length) 0
  length_setSize b n := by simp; omega
  readBehind _ _ _ := []
  length_readBehind _ _ _ := Nat.zero_le _

/-- A read of five bytes in a window of two. -/
theorem subfile_confined_last :
    Confined [1, 2, 3, 4] 1 2 0 (File.read listBackend ⟨[1, 2, 3, 4], []⟩ ⟨0, 1, 2, true⟩ 0 5) :=
  (subfile_confined_iff listBackend
    (show openSubFileSlot ⟨0, 0, 4, false⟩ 1 2 = .ok ⟨0, 1, 2, true⟩ from rfl)
    ⟨[1, 2, 3, 4], []⟩ (by decide) (by decide)).2 (Or.inr (Or.inr ⟨by decide, by decide⟩))

/-- A read that starts in a window of two bytes and returns the byte behind it. -/
theorem subfile_read_leaks :
    File.read listBackend ⟨[1, 2, 3, 4], []⟩ ⟨0, 0, 2, true⟩ 1 2 = [2, 3] ∧
      ¬ ∀ (originalFile slot : FileSessionSlot) (offset size : Int) (f : File (List UInt8))
        (offset' length : Nat), openSubFileSlot originalFile offset size = .ok slot →
        listBackend.getSize f.backend < 2 ^ 64 → offset' < 2 ^ 64 → length < 2 ^ 32 →
        Confined (listBackend.content f.backend) offset.toNat size.toNat offset'
          (f.read listBackend slot offset' length) := by
  refine ⟨rfl, fun h => ?_⟩
  have hread := h ⟨0, 0, 4, false⟩ ⟨0, 0, 2, true⟩ 0 2 ⟨[1, 2, 3, 4], []⟩ 1 2 rfl (by decide)
    (by decide) (by decide)
  exact absurd (hread 1 (by decide)).2 (by decide)

/-! ## Requests and runs -/

/-- A request, through a session unless it connects one. -/
inductive Request where
  | connect
  | read (session offset length : Nat)
  | write (session offset : Nat) (data : List UInt8)
  | getSize (session : Nat)
  | setSize (session size : Nat)
  | openLinkFile (session : Nat)
  | openSubFile (session : Nat) (offset size : Int)

/-- What a request does with the slot of its session; one that is not connected sends none. -/
def File.withSlot (f : File β) (session : Nat) (act : FileSessionSlot → Reply × File β) :
    Reply × File β :=
  match f.sessions[session]? with
  | none => (.success, f)
  | some file => act file

/-- One request. -/
def File.request (f : File β) : Request → Reply × File β
  | .connect => f.connect fs
  | .read session offset length =>
      f.withSlot session fun file => (.read (f.read fs file offset length), f)
  | .write session offset data => f.withSlot session fun file => f.write fs session file offset data
  | .getSize session => f.withSlot session fun file => (.size file.size, f)
  | .setSize session size => f.withSlot session fun file => f.setSize fs session file size
  | .openLinkFile session => f.withSlot session (f.openLinkFile fs)
  | .openSubFile session offset size =>
      f.withSlot session fun file => f.openSubFile file offset size

/-- Every session that is no subfile is told the file's size, and opens subfiles in just that. -/
def SeesSize (f : File β) : Prop :=
  ∀ session file, f.sessions[session]? = some file → file.subfile = false →
    (f.request fs (.getSize session)).1 = .size (fs.getSize f.backend) ∧
    ∀ offset size : Int, -2 ^ 63 ≤ offset → offset < 2 ^ 63 → -2 ^ 63 ≤ size → size < 2 ^ 63 →
      ((∃ n, (f.request fs (.openSubFile session offset size)).1 = .opened n) ↔
        0 ≤ offset ∧ 0 ≤ size ∧ offset + size ≤ fs.getSize f.backend)

/-- It holds in every state of a run. -/
def AllSee (f : File β) : List Request → Prop
  | [] => SeesSize fs f
  | r :: rs => SeesSize fs f ∧ AllSee (f.request fs r).2 rs

/-- No other session shows all of the file. -/
def Alone (f : File β) (session : Nat) : Prop :=
  ∀ other file, f.sessions[other]? = some file → file.subfile = false → other = session

/-- A request that changes the size of the file comes from a session that is alone. -/
def Careful (f : File β) : Request → Prop
  | .write session offset data =>
      (∀ file, f.sessions[session]? = some file → file.subfile = false →
        fs.getSize (fs.write f.backend offset data) = fs.getSize f.backend) ∨ Alone f session
  | .setSize session size =>
      (∀ file, f.sessions[session]? = some file → file.subfile = false →
        size = fs.getSize f.backend) ∨ Alone f session
  | _ => True

/-- All requests of a run are careful. -/
def AllCareful (f : File β) : List Request → Prop
  | [] => True
  | r :: rs => Careful fs f r ∧ AllCareful (f.request fs r).2 rs

/-! ## Copies of the size -/

/-- Every session that is no subfile has a copy of the file's size. -/
def Copies (f : File β) : Prop :=
  ∀ (session : Nat) (file : FileSessionSlot), f.sessions[session]? = some file → file.subfile = false →
    file.size = fs.getSize f.backend

variable {fs}

theorem withSlot_eq {f : File β} {session : Nat} {file : FileSessionSlot}
    (h : f.sessions[session]? = some file) (act : FileSessionSlot → Reply × File β) :
    f.withSlot session act = act file := by
  rw [File.withSlot, h]

/-- A subfile opens in the copy of the size. -/
theorem openSubFile_opened {f : File β} {file : FileSessionSlot} (hsub : file.subfile = false)
    {offset size : Int} (ho : offset < 2 ^ 63) (hs : size < 2 ^ 63) :
    (∃ n, (f.openSubFile file offset size).1 = .opened n) ↔
      0 ≤ offset ∧ 0 ≤ size ∧ offset + size ≤ file.size := by
  unfold File.openSubFile openSubFileSlot
  rw [hsub, if_neg Bool.false_ne_true]
  by_cases hneg : offset < 0 ∨ size < 0
  · rw [if_pos hneg]
    refine iff_of_false (fun ⟨n, hn⟩ => ?_) (by omega)
    cases hn
  · rw [if_neg hneg]
    have hsum : (offset + size) % 2 ^ 64 = offset + size := Int.emod_eq_of_lt (by omega) (by omega)
    rw [hsum]
    by_cases hend : file.size < (offset + size).toNat
    · rw [if_pos hend]
      refine iff_of_false (fun ⟨n, hn⟩ => ?_) (by omega)
      cases hn
    · rw [if_neg hend]
      exact iff_of_true ⟨_, rfl⟩ (by omega)

/-- What the sessions see is what they have copies of. -/
theorem seesSize_iff {f : File β} : SeesSize fs f ↔ Copies fs f := by
  constructor
  · intro h session file hslot hsub
    have hsize := (h session file hslot hsub).1
    rw [File.request, withSlot_eq hslot] at hsize
    exact Reply.size.inj hsize
  · intro h session file hslot hsub
    refine ⟨?_, fun offset size _ ho _ hs => ?_⟩
    · rw [File.request, withSlot_eq hslot, h session file hslot hsub]
    · rw [File.request, withSlot_eq hslot, ← h session file hslot hsub]
      exact openSubFile_opened hsub ho hs

/-- A session with a copy of the size, or a subfile, may join. -/
theorem Copies.addSlot {f : File β} (h : Copies fs f) {slot : FileSessionSlot}
    (hslot : slot.subfile = false → slot.size = fs.getSize f.backend) :
    Copies fs (f.addSlot slot).2 := by
  intro session file hfile hsub
  have hfile' : (f.sessions ++ [slot])[session]? = some file := hfile
  by_cases hlt : session < f.sessions.length
  · rw [List.getElem?_append_left hlt] at hfile'
    exact h session file hfile' hsub
  · rw [List.getElem?_append_right (Nat.not_lt.1 hlt), List.getElem?_singleton] at hfile'
    split at hfile'
    · rw [Option.some.injEq] at hfile'
      subst hfile'
      exact hslot hsub
    · cases hfile'

/-- The session that changes the file has a copy of the new size; the others have it exactly if the
size stays or there are none. -/
theorem copies_setSlot_iff {f : File β} (h : Copies fs f) {session : Nat} {file slot : FileSessionSlot}
    (hfile : f.sessions[session]? = some file) {b : β}
    (hsize : slot.size = fs.getSize b) :
    Copies fs ({ f with backend := b }.setSlot session slot) ↔
      fs.getSize b = fs.getSize f.backend ∨ Alone f session := by
  have hlt : session < f.sessions.length := (List.getElem?_eq_some_iff.1 hfile).1
  constructor
  · intro hcopies
    by_contra hcon
    rw [not_or] at hcon
    refine hcon.2 fun other file' hother hsub' => ?_
    by_contra hne
    have hkept : (f.sessions.set session slot)[other]? = some file' := by
      rw [List.getElem?_set_ne (Ne.symm hne)]
      exact hother
    exact hcon.1 ((hcopies other file' hkept hsub').symm.trans (h other file' hother hsub'))
  · intro hor other file' hother hsub'
    have hother' : (f.sessions.set session slot)[other]? = some file' := hother
    by_cases heq : session = other
    · rw [← heq, List.getElem?_set_self hlt, Option.some.injEq] at hother'
      rw [← hother']
      exact hsize
    · rw [List.getElem?_set_ne heq] at hother'
      rcases hor with hsame | halone
      · exact (h other file' hother' hsub').trans hsame.symm
      · exact absurd (halone other file' hother' hsub').symm heq

/-- **A request leaves every session with a copy of the size exactly if it is careful.** -/
theorem copies_request_iff {f : File β} (h : Copies fs f) (r : Request) :
    Copies fs (f.request fs r).2 ↔ Careful fs f r := by
  -- a session that is not there sends nothing
  have habsent : ∀ {session : Nat}, f.sessions[session]? = none → ∀ act,
      (f.withSlot session act).2 = f := by
    intro session hnone act
    rw [File.withSlot, hnone]
  cases r with
  | connect => exact iff_of_true (h.addSlot fun _ => rfl) trivial
  | read session offset length =>
    refine iff_of_true ?_ trivial
    rw [File.request, File.withSlot]
    cases f.sessions[session]? <;> exact h
  | getSize session =>
    refine iff_of_true ?_ trivial
    rw [File.request, File.withSlot]
    cases f.sessions[session]? <;> exact h
  | openLinkFile session =>
    refine iff_of_true ?_ trivial
    rw [File.request, File.withSlot]
    cases f.sessions[session]? with
    | none => exact h
    | some file => exact h.addSlot fun _ => rfl
  | openSubFile session offset size =>
    refine iff_of_true ?_ trivial
    rw [File.request, File.withSlot]
    cases f.sessions[session]? with
    | none => exact h
    | some file =>
      simp only [File.openSubFile]
      cases hslot : openSubFileSlot file offset size with
      | error result => exact h
      | ok slot =>
        refine h.addSlot fun hsub => ?_
        rw [(openSubFileSlot_ok hslot).2.2] at hsub
        cases hsub
  | write session offset data =>
    cases hfile : f.sessions[session]? with
    | none =>
      rw [File.request, habsent hfile]
      exact iff_of_true h (Or.inl fun file heq => by rw [hfile] at heq; cases heq)
    | some file =>
      rw [File.request, withSlot_eq hfile, File.write]
      cases hsub : file.subfile with
      | true =>
        rw [if_pos rfl]
        refine iff_of_true h (Or.inl fun file' heq hsub' => ?_)
        rw [hfile, Option.some.injEq] at heq
        rw [← heq, hsub] at hsub'
        cases hsub'
      | false =>
        rw [if_neg Bool.false_ne_true]
        exact (copies_setSlot_iff h hfile rfl).trans
          (or_congr_left ⟨fun hsame _ _ _ => hsame, fun hsame => hsame file hfile hsub⟩)
  | setSize session size =>
    cases hfile : f.sessions[session]? with
    | none =>
      rw [File.request, habsent hfile]
      exact iff_of_true h (Or.inl fun file heq => by rw [hfile] at heq; cases heq)
    | some file =>
      rw [File.request, withSlot_eq hfile, File.setSize]
      cases hsub : file.subfile with
      | true =>
        rw [if_pos rfl]
        refine iff_of_true h (Or.inl fun file' heq hsub' => ?_)
        rw [hfile, Option.some.injEq] at heq
        rw [← heq, hsub] at hsub'
        cases hsub'
      | false =>
        have hsize : fs.getSize (fs.setSize f.backend size) = size :=
          fs.length_setSize f.backend size
        rw [if_neg Bool.false_ne_true]
        refine (copies_setSlot_iff h hfile hsize.symm).trans ?_
        rw [hsize]
        exact or_congr_left ⟨fun hsame _ _ _ => hsame, fun hsame => hsame file hfile hsub⟩

/-- The same along a run. -/
theorem allSee_iff {f : File β} (h : Copies fs f) (requests : List Request) :
    AllSee fs f requests ↔ AllCareful fs f requests := by
  induction requests generalizing f with
  | nil => exact iff_of_true (seesSize_iff.2 h) trivial
  | cons r rs ih =>
    rw [AllSee, AllCareful, ← copies_request_iff h r]
    constructor
    · rintro ⟨-, hrest⟩
      have hcopies : Copies fs (f.request fs r).2 := by
        cases rs with
        | nil => exact seesSize_iff.1 hrest
        | cons r' rs => exact seesSize_iff.1 hrest.1
      exact ⟨hcopies, (ih hcopies).1 hrest⟩
    · rintro ⟨hcopies, hrest⟩
      exact ⟨seesSize_iff.2 h, (ih hcopies).2 hrest⟩

variable (fs) in
/-- **In every run from a file without sessions**, every state has all its sessions see the file's
size exactly if every request that changes the size comes from the only session that is no
subfile. -/
theorem sizes_seen_iff (b : β) (requests : List Request) :
    AllSee fs ⟨b, []⟩ requests ↔ AllCareful fs ⟨b, []⟩ requests :=
  allSee_iff (fun session file hfile => by cases hfile) requests

/-- Two sessions of an empty file: one sets the size, the other is still told it is empty. -/
theorem sizes_not_seen :
    ((File.request listBackend (File.request listBackend (File.request listBackend
        (File.request listBackend ⟨[], []⟩ .connect).2 (.openLinkFile 0)).2 (.setSize 0 5)).2
      (.getSize 1)).1 = .size 0) ∧
      ¬ ∀ requests, AllSee listBackend ⟨[], []⟩ requests := by
  refine ⟨rfl, fun h => ?_⟩
  have hlast := (h [.connect, .openLinkFile 0, .setSize 0 5]).2.2.2
  have hsize := seesSize_iff.1 hlast 1 ⟨0, 0, 0, false⟩ rfl rfl
  cases hsize

end AzaharPlus.Service.FS
