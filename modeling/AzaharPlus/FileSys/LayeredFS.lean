import AzaharPlus.Lib.CheckedBytes
import Mathlib.Data.List.TakeWhile

/-!
# Reads of a rebuilt RomFS

`LayeredFS` of `core/file_sys/layered_fs.cpp` as far as the data of the files goes: the offsets that
`BuildFiles` assigns, `GetSize` and `ReadFile`.  What the metadata says is not looked at here; it is
any bytes.  The files of the host and the RomFS below are parameters.

`none` stands for a failed assertion, an iterator that points to no entry, and code that the source
calls unreachable.

* `placed_buildFiles` — the entries of the offset map lie one behind the other.
* `readLoop_eq` — the loop over the entries writes the block of the padded files that is asked for.
* `readFile_is_slice` — a read brings the slice of the flat image, in one call or in two.
-/

namespace AzaharPlus.FileSys.LayeredFS

open Bytes

/-! ## The model -/

/-- `FileRelocationInfo::type` -/
inductive RelocationType where
  | none
  | replaced
  | patched
  | removed
  deriving DecidableEq

/-- `File`, with the fields of its `FileRelocationInfo`. -/
structure File where
  type : RelocationType
  originalOffset : Nat
  replaceFilePath : String
  patchedFile : List UInt8
  size : Nat
  deriving DecidableEq

/-- `Directory` -/
inductive Directory where
  | mk (files : List File) (directories : List Directory)

mutual

/-- `PrepareBuild`: the files that it puts into the list. -/
def prepareBuild : Directory → List File
  | .mk files directories =>
      files.filter (·.type ≠ .removed) ++ prepareBuildAll directories

/-- The loop of `PrepareBuild` over the directories. -/
def prepareBuildAll : List Directory → List File
  | [] => []
  | directory :: rest => prepareBuild directory ++ prepareBuildAll rest

end

/-- `AlignUp` -/
def alignUp (value size : Nat) : Nat :=
  if value % size = 0 then value - value % size else value - value % size + size

/-- `std::map::emplace`, for a map that is the list of its entries in order. -/
def emplace {ν : Type} (map : List (Nat × ν)) (key : Nat) (value : ν) : List (Nat × ν) :=
  if map.any (·.1 = key) then map
  else map.takeWhile (·.1 < key) ++ (key, value) :: map.dropWhile (·.1 < key)

/-- What is behind the entries up to a key: `--upper_bound(key)`, as the entries from there on. -/
def fromUpperBound {ν : Type} (map : List (Nat × ν)) (key : Nat) : Option (List (Nat × ν)) :=
  (map.takeWhile (·.1 ≤ key)).getLast?.map fun entry => entry :: map.dropWhile (·.1 ≤ key)

/-- What `BuildFiles` computes: `current_data_offset` and `data_offset_map`. -/
structure DataLayout where
  currentDataOffset : Nat
  dataOffsetMap : List (Nat × File)

/-- The loop of `BuildFiles`. -/
def buildFile (l : DataLayout) (file : File) : DataLayout where
  currentDataOffset := l.currentDataOffset + alignUp file.size 16
  dataOffsetMap :=
    if file.size ≠ 0 then emplace l.dataOffsetMap l.currentDataOffset file else l.dataOffsetMap

/-- `BuildFiles` -/
def buildFiles (fileList : List File) : DataLayout := fileList.foldl buildFile ⟨0, []⟩

/-- Where the data of files come from: the RomFS below, and the files of the host, `none` for one
that cannot be opened. -/
structure Sources where
  romfs : List UInt8
  host : String → Option (List UInt8)

/-- `LayeredFS` after `RebuildMetadata`. -/
structure Layered where
  metadata : List UInt8
  layout : DataLayout

/-- The file system of a tree. -/
def rebuild (metadata : List UInt8) (root : Directory) : Layered :=
  ⟨metadata, buildFiles (prepareBuild root)⟩

/-- `GetSize` -/
def getSize (fs : Layered) : Nat := fs.metadata.length + fs.layout.currentDataOffset

/-- The bytes that the code can read of a file: fewer than it asks for only at an end. -/
def readRelocated (sources : Sources) (file : File) (relativeOffset toRead : Nat) :
    Option (List UInt8) :=
  match file.type with
  | .none => some (slice sources.romfs (file.originalOffset + relativeOffset) toRead)
  | .replaced =>
      match sources.host file.replaceFilePath with
      | none => some []
      | some bytes => some (slice bytes relativeOffset toRead)
  | .patched => if toRead = 0 then some [] else checkedSlice file.patchedFile relativeOffset toRead
  | .removed => none

/-- `to_read`: how many bytes of a file one turn of the loop reads, of those that are left. -/
def turnRead (file : File) (relativeOffset left : Nat) : Nat :=
  if relativeOffset < file.size then min (file.size - relativeOffset) left else 0

/-- The loop of `ReadFile` over the entries of the map. -/
def readLoop (sources : Sources) (length : Nat) :
    List (Nat × File) → Nat → Nat → List UInt8 → Option (Nat × List UInt8)
  | current, offset, readSize, buffer =>
      if readSize < length then
        match current with
        | [] => none
        | (first, file) :: rest =>
            let relativeOffset := offset - first
            let toRead := turnRead file relativeOffset (length - readSize)
            let alignment := min (alignUp file.size 16 - relativeOffset) (length - readSize) - toRead
            (readRelocated sources file relativeOffset toRead).bind fun data =>
              (checkedCopy buffer readSize data).bind fun buffer =>
                (checkedCopy buffer (readSize + toRead) (List.replicate alignment 0)).bind
                  fun buffer =>
                    readLoop sources length rest (offset + (toRead + alignment))
                      (readSize + (toRead + alignment)) buffer
      else some (readSize, buffer)

/-- `ReadFile`: what it returns, and the buffer afterwards. -/
def readFile (sources : Sources) (fs : Layered) (offset length : Nat) (buffer : List UInt8) :
    Option (Nat × List UInt8) :=
  if offset + length ≤ getSize fs then
    let fromMetadata := offset < fs.metadata.length
    let toRead := if fromMetadata then min (fs.metadata.length - offset) length else 0
    (checkedCopy buffer 0 (slice fs.metadata offset toRead)).bind fun buffer =>
      let offset := if fromMetadata then 0 else offset - fs.metadata.length
      (fromUpperBound fs.layout.dataOffsetMap offset).bind fun current =>
        readLoop sources length current offset toRead buffer
  else none

/-! ## The flat image -/

/-- The current content of a file. -/
def content (sources : Sources) (file : File) : List UInt8 :=
  match file.type with
  | .none => slice sources.romfs file.originalOffset file.size
  | .replaced => (sources.host file.replaceFilePath).getD []
  | .patched => file.patchedFile
  | .removed => []

/-- The content of a file, with zeros behind it. -/
def padded (sources : Sources) (file : File) : List UInt8 :=
  content sources file ++ List.replicate (alignUp file.size 16 - file.size) 0

/-- The file is there with the size that it was loaded with. -/
structure Available (sources : Sources) (file : File) : Prop where
  kept : file.type ≠ .removed
  length : (content sources file).length = file.size

/-- The whole image. -/
def flatImage (sources : Sources) (metadata : List UInt8) (root : Directory) : List UInt8 :=
  metadata ++ (prepareBuild root).flatMap (padded sources)

theorem le_alignUp (size : Nat) : size ≤ alignUp size 16 := by
  unfold alignUp
  split <;> omega

theorem length_padded {sources : Sources} {file : File} (h : Available sources file) :
    (padded sources file).length = alignUp file.size 16 := by
  have hle := le_alignUp file.size
  rw [padded, List.length_append, h.length, List.length_replicate]
  omega

/-- What the code reads of a file that is there. -/
theorem readRelocated_eq {sources : Sources} {file : File} (h : Available sources file)
    {relativeOffset toRead : Nat} (hread : toRead = 0 ∨ relativeOffset + toRead ≤ file.size) :
    readRelocated sources file relativeOffset toRead =
      some (slice (content sources file) relativeOffset toRead) := by
  have hlength := h.length
  have hnothing (b : List UInt8) (off : Nat) : slice b off 0 = [] := by simp [slice]
  unfold content at hlength ⊢
  unfold readRelocated
  cases htype : file.type with
  | none =>
    rcases hread with rfl | hread
    · rw [hnothing, hnothing]
    · exact congrArg some (slice_slice hread).symm
  | replaced =>
    simp only [htype] at hlength
    cases hhost : sources.host file.replaceFilePath with
    | none => simp [slice]
    | some bytes => rfl
  | patched =>
    simp only [htype] at hlength
    by_cases hzero : toRead = 0
    · subst hzero
      rw [hnothing]
      rfl
    · have hinside : relativeOffset + toRead ≤ file.patchedFile.length :=
        hlength.symm ▸ hread.resolve_left hzero
      exact (if_neg hzero).trans (checkedSlice_eq hinside)
  | removed => exact absurd htype h.kept

/-! ## Entries that lie one behind the other -/

/-- The entries cover the offsets from `start` to `last`, one behind the other. -/
def Placed : Nat → List (Nat × File) → Nat → Prop
  | start, [], last => start = last
  | start, entry :: rest, last =>
      entry.1 = start ∧ 0 < entry.2.size ∧ Placed (start + alignUp entry.2.size 16) rest last

/-- The padded files of the entries. -/
def entriesImage (sources : Sources) (entries : List (Nat × File)) : List UInt8 :=
  entries.flatMap fun entry => padded sources entry.2

theorem Placed.append {start middle last : Nat} {a b : List (Nat × File)} (ha : Placed start a middle)
    (hb : Placed middle b last) : Placed start (a ++ b) last := by
  induction a generalizing start with
  | nil =>
    cases ha
    exact hb
  | cons entry rest ih => exact ⟨ha.1, ha.2.1, ih ha.2.2⟩

theorem Placed.split {start last : Nat} {a b : List (Nat × File)} (h : Placed start (a ++ b) last) :
    ∃ middle, Placed start a middle ∧ Placed middle b last := by
  induction a generalizing start with
  | nil => exact ⟨start, rfl, h⟩
  | cons entry rest ih =>
    obtain ⟨middle, hfirst, hrest⟩ := ih h.2.2
    exact ⟨middle, ⟨h.1, h.2.1, hfirst⟩, hrest⟩

theorem Placed.keys {start last : Nat} {entries : List (Nat × File)} (h : Placed start entries last) :
    start ≤ last ∧ ∀ entry ∈ entries, start ≤ entry.1 ∧ entry.1 < last := by
  induction entries generalizing start with
  | nil =>
    cases h
    exact ⟨Nat.le_refl _, fun entry hentry => absurd hentry List.not_mem_nil⟩
  | cons entry rest ih =>
    obtain ⟨hle, hrest⟩ := ih h.2.2
    have halign := le_alignUp entry.2.size
    have hpos := h.2.1
    have hkey := h.1
    refine ⟨by omega, fun entry' hentry => ?_⟩
    rcases List.mem_cons.1 hentry with rfl | hentry
    · omega
    · have hbounds := hrest entry' hentry
      omega

theorem Placed.length_image {sources : Sources} {start last : Nat} {entries : List (Nat × File)}
    (h : Placed start entries last) (havailable : ∀ entry ∈ entries, Available sources entry.2) :
    start + (entriesImage sources entries).length = last := by
  induction entries generalizing start with
  | nil => exact h
  | cons entry rest ih =>
    have hrest := ih h.2.2 fun entry' h' => havailable entry' (List.mem_cons_of_mem _ h')
    rw [entriesImage, List.flatMap_cons, List.length_append,
      length_padded (havailable entry List.mem_cons_self), ← Nat.add_assoc]
    exact hrest

/-! ## The map -/

/-- An entry with a key above all others comes last. -/
theorem emplace_last {ν : Type} {map : List (Nat × ν)} {key : Nat} (value : ν)
    (h : ∀ entry ∈ map, entry.1 < key) : emplace map key value = map ++ [(key, value)] := by
  have hno : ¬ map.any (·.1 = key) = true := by
    rw [List.any_eq_true]
    rintro ⟨entry, hentry, hkey⟩
    have hlt := h entry hentry
    simp only [decide_eq_true_eq] at hkey
    omega
  have htake : map.takeWhile (·.1 < key) = map :=
    List.takeWhile_eq_self_iff.2 fun entry hentry => by simpa using h entry hentry
  have hdrop : map.dropWhile (·.1 < key) = [] :=
    List.dropWhile_eq_nil_iff.2 fun entry hentry => by simpa using h entry hentry
  rw [emplace, if_neg hno, htake, hdrop]

/-- The loop of `BuildFiles`: the entries lie one behind the other, and hold the files' image. -/
theorem placed_foldl {sources : Sources} {fileList : List File}
    (havailable : ∀ file ∈ fileList, Available sources file) {l : DataLayout}
    (hl : Placed 0 l.dataOffsetMap l.currentDataOffset)
    (hentries : ∀ entry ∈ l.dataOffsetMap, Available sources entry.2) :
    Placed 0 (fileList.foldl buildFile l).dataOffsetMap
        (fileList.foldl buildFile l).currentDataOffset ∧
      (∀ entry ∈ (fileList.foldl buildFile l).dataOffsetMap, Available sources entry.2) ∧
      entriesImage sources (fileList.foldl buildFile l).dataOffsetMap =
        entriesImage sources l.dataOffsetMap ++ fileList.flatMap (padded sources) := by
  induction fileList generalizing l with
  | nil => exact ⟨hl, hentries, (List.append_nil _).symm⟩
  | cons file rest ih =>
    have hfile := havailable file List.mem_cons_self
    have hrest := fun file' h' => havailable file' (List.mem_cons_of_mem file h')
    by_cases hzero : file.size = 0
    · -- an empty file has no entry and no bytes
      have hstep : buildFile l file = l := by
        unfold buildFile
        rw [hzero]
        rfl
      have hnothing : padded sources file = [] := by
        rw [← List.length_eq_zero_iff, length_padded hfile, hzero]
        rfl
      rw [List.foldl_cons, hstep, List.flatMap_cons, hnothing, List.nil_append]
      exact ih hrest hl hentries
    · have hmap : (buildFile l file).dataOffsetMap =
          l.dataOffsetMap ++ [(l.currentDataOffset, file)] :=
        (if_pos hzero).trans (emplace_last file fun entry hentry => (hl.keys.2 entry hentry).2)
      have hplaced : Placed 0 (buildFile l file).dataOffsetMap
          (buildFile l file).currentDataOffset := by
        rw [hmap]
        exact hl.append ⟨rfl, Nat.pos_of_ne_zero hzero, rfl⟩
      have hall : ∀ entry ∈ (buildFile l file).dataOffsetMap, Available sources entry.2 := by
        intro entry hentry
        rw [hmap] at hentry
        rcases List.mem_append.1 hentry with hentry | hentry
        · exact hentries entry hentry
        · rw [List.mem_singleton.1 hentry]
          exact hfile
      obtain ⟨h₁, h₂, h₃⟩ := ih hrest hplaced hall
      refine ⟨h₁, h₂, h₃.trans ?_⟩
      rw [hmap, entriesImage, List.flatMap_append, List.flatMap_cons, List.append_assoc]
      simp [entriesImage]

theorem placed_buildFiles {sources : Sources} {fileList : List File}
    (havailable : ∀ file ∈ fileList, Available sources file) :
    Placed 0 (buildFiles fileList).dataOffsetMap (buildFiles fileList).currentDataOffset ∧
      (∀ entry ∈ (buildFiles fileList).dataOffsetMap, Available sources entry.2) ∧
      entriesImage sources (buildFiles fileList).dataOffsetMap =
        fileList.flatMap (padded sources) :=
  placed_foldl havailable (l := ⟨0, []⟩) rfl fun _ hentry => absurd hentry List.not_mem_nil

/-- The entry in which an offset lies, or the last one. -/
theorem fromUpperBound_placed {start last offset : Nat} {entries : List (Nat × File)}
    (h : Placed start entries last) (hne : entries ≠ []) (hoffset : start ≤ offset) :
    ∃ before entry after, entries = before ++ entry :: after ∧
      fromUpperBound entries offset = some (entry :: after) ∧ entry.1 ≤ offset ∧
      ∀ next ∈ after.head?, offset < next.1 := by
  have hsplit := List.takeWhile_append_dropWhile (p := fun e => decide (e.1 ≤ offset))
    (l := entries)
  have hlower : entries.takeWhile (fun e => decide (e.1 ≤ offset)) ≠ [] := by
    cases entries with
    | nil => exact absurd rfl hne
    | cons entry rest =>
      have hkey : entry.1 ≤ offset := h.1.trans_le hoffset
      rw [List.takeWhile_cons, if_pos (by simpa using hkey)]
      exact List.cons_ne_nil _ _
  refine ⟨(entries.takeWhile (fun e => decide (e.1 ≤ offset))).dropLast,
    (entries.takeWhile (fun e => decide (e.1 ≤ offset))).getLast hlower,
    entries.dropWhile (fun e => decide (e.1 ≤ offset)), ?_, ?_, ?_, ?_⟩
  · rw [List.append_cons, List.dropLast_append_getLast, hsplit]
  · rw [fromUpperBound, List.getLast?_eq_some_getLast hlower]
    rfl
  · have hmem := List.mem_takeWhile_imp (List.getLast_mem hlower)
    simpa using hmem
  · intro next hnext
    have hhead := List.head?_dropWhile_not (fun e : Nat × File => decide (e.1 ≤ offset)) entries
    rw [Option.mem_def.1 hnext] at hhead
    simpa using hhead

/-! ## The loop over the entries -/

theorem slice_replicate {k i n : Nat} (h : i + n ≤ k) :
    slice (List.replicate k (0 : UInt8)) i n = List.replicate n 0 := by
  rw [slice, List.drop_replicate, List.take_replicate, Nat.min_eq_left (by omega)]

/-- A block of two lists, the first of which ends in it or behind it. -/
theorem slice_append_min {a b : List UInt8} {off n : Nat} (h : off ≤ a.length) :
    slice (a ++ b) off n =
      slice a off (min (a.length - off) n) ++ slice b 0 (n - min (a.length - off) n) := by
  by_cases hshort : n ≤ a.length - off
  · rw [Nat.min_eq_right hshort, slice_append_left (by omega), Nat.sub_self]
    exact (List.append_nil _).symm
  · obtain ⟨k, hk⟩ : ∃ k, n = a.length - off + k := ⟨n - (a.length - off), by omega⟩
    rw [Nat.min_eq_left (by omega), hk, slice_append (by omega), Nat.add_sub_cancel_left]

/-- What one turn writes is a block of the padded file: up to its end, or to the end of the read. -/
theorem turn_block {sources : Sources} {file : File} (h : Available sources file)
    {relativeOffset : Nat} (left : Nat) (hrel : relativeOffset < alignUp file.size 16) :
    turnRead file relativeOffset left ≤ min (alignUp file.size 16 - relativeOffset) left ∧
      (turnRead file relativeOffset left = 0 ∨
        relativeOffset + turnRead file relativeOffset left ≤ file.size) ∧
      slice (content sources file) relativeOffset (turnRead file relativeOffset left) ++
          List.replicate (min (alignUp file.size 16 - relativeOffset) left -
            turnRead file relativeOffset left) 0 =
        slice (padded sources file) relativeOffset
          (min (alignUp file.size 16 - relativeOffset) left) := by
  have hle := le_alignUp file.size
  have hlength := h.length
  unfold turnRead padded
  by_cases hdata : relativeOffset < file.size
  · rw [if_pos hdata]
    by_cases hshort : left ≤ file.size - relativeOffset
    · -- the read ends in the data
      rw [Nat.min_eq_right hshort, Nat.min_eq_right (by omega), Nat.sub_self,
        slice_append_left (by omega)]
      exact ⟨Nat.le_refl _, Or.inr (by omega), List.append_nil _⟩
    · rw [Nat.min_eq_left (by omega)]
      refine ⟨by omega, Or.inr (by omega), ?_⟩
      obtain ⟨n, hn⟩ : ∃ n, min (alignUp file.size 16 - relativeOffset) left =
          file.size - relativeOffset + n :=
        ⟨min (alignUp file.size 16 - relativeOffset) left - (file.size - relativeOffset), by omega⟩
      rw [hn, slice_append (by omega), slice_replicate (by omega), Nat.add_sub_cancel_left]
  · rw [if_neg hdata]
    refine ⟨Nat.zero_le _, Or.inl rfl, ?_⟩
    have hstart : relativeOffset = (content sources file).length + (relativeOffset - file.size) := by
      omega
    rw [slice_append_right hstart, slice_replicate (by omega)]
    simp [slice]

/-- One turn of the loop. -/
theorem readLoop_turn {sources : Sources} {length offset readSize : Nat} {entry : Nat × File}
    {rest : List (Nat × File)} {buffer : List UInt8} (h : Available sources entry.2)
    (hlt : readSize < length) (hbuffer : length ≤ buffer.length)
    (hrel : offset - entry.1 < alignUp entry.2.size 16) :
    readLoop sources length (entry :: rest) offset readSize buffer =
      readLoop sources length rest
        (offset + min (alignUp entry.2.size 16 - (offset - entry.1)) (length - readSize))
        (readSize + min (alignUp entry.2.size 16 - (offset - entry.1)) (length - readSize))
        (memcpy buffer readSize (slice (padded sources entry.2) (offset - entry.1)
          (min (alignUp entry.2.size 16 - (offset - entry.1)) (length - readSize)))) := by
  obtain ⟨hle, hread, hblock⟩ := turn_block h (length - readSize) hrel
  have hdata : (slice (content sources entry.2) (offset - entry.1)
      (turnRead entry.2 (offset - entry.1) (length - readSize))).length =
      turnRead entry.2 (offset - entry.1) (length - readSize) := by
    rcases hread with hzero | hinside
    · rw [hzero]
      simp [slice]
    · exact length_slice (by rw [h.length]; exact hinside)
  have hsum : turnRead entry.2 (offset - entry.1) (length - readSize) +
      (min (alignUp entry.2.size 16 - (offset - entry.1)) (length - readSize) -
        turnRead entry.2 (offset - entry.1) (length - readSize)) =
      min (alignUp entry.2.size 16 - (offset - entry.1)) (length - readSize) := by omega
  have hfirst : readSize + (slice (content sources entry.2) (offset - entry.1)
      (turnRead entry.2 (offset - entry.1) (length - readSize))).length ≤ buffer.length := by
    rw [hdata]
    omega
  have hsecond : readSize + turnRead entry.2 (offset - entry.1) (length - readSize) +
      (List.replicate (min (alignUp entry.2.size 16 - (offset - entry.1)) (length - readSize) -
        turnRead entry.2 (offset - entry.1) (length - readSize)) (0 : UInt8)).length ≤
      (memcpy buffer readSize (slice (content sources entry.2) (offset - entry.1)
        (turnRead entry.2 (offset - entry.1) (length - readSize)))).length := by
    rw [length_memcpy hfirst, List.length_replicate]
    omega
  have hstart : readSize ≤ buffer.length := by omega
  rw [readLoop, if_pos hlt]
  simp only
  rw [readRelocated_eq h hread, Option.bind_some, checkedCopy_eq hfirst, Option.bind_some,
    checkedCopy_eq hsecond, Option.bind_some, hsum, ← hblock, ← memcpy_memcpy hstart, hdata]

theorem readLoop_done {sources : Sources} {length offset readSize : Nat}
    {entries : List (Nat × File)} {buffer : List UInt8} (h : readSize = length) :
    readLoop sources length entries offset readSize buffer = some (length, buffer) := by
  cases entries <;> rw [readLoop, if_neg (by omega), h]

/-- The loop writes the block of the padded files that is asked for. -/
theorem readLoop_eq {sources : Sources} {length start last offset readSize : Nat}
    {entries : List (Nat × File)} {buffer : List UInt8} (h : Placed start entries last)
    (havailable : ∀ entry ∈ entries, Available sources entry.2) (hstart : start ≤ offset)
    (hlast : offset + (length - readSize) ≤ last) (hle : readSize ≤ length)
    (hbuffer : length ≤ buffer.length)
    (hfirst : ∀ entry ∈ entries.head?, offset - start < alignUp entry.2.size 16) :
    readLoop sources length entries offset readSize buffer =
      some (length, memcpy buffer readSize
        (slice (entriesImage sources entries) (offset - start) (length - readSize))) := by
  induction entries generalizing start offset readSize buffer with
  | nil =>
    cases h
    have hdone : readSize = length := by omega
    rw [readLoop_done hdone, hdone, Nat.sub_self]
    simp [slice, memcpy]
  | cons entry rest ih =>
    obtain ⟨rfl, hpos, hrest⟩ := h
    have hentry := havailable entry List.mem_cons_self
    have hpadded := length_padded hentry
    have hrel := hfirst entry rfl
    have himage : entriesImage sources (entry :: rest) =
        padded sources entry.2 ++ entriesImage sources rest := List.flatMap_cons
    by_cases hlt : readSize < length
    · rw [readLoop_turn hentry hlt hbuffer hrel, himage]
      by_cases hends : length - readSize ≤ alignUp entry.2.size 16 - (offset - entry.1)
      · -- the read ends in this file
        rw [Nat.min_eq_right hends, readLoop_done (by omega), slice_append_left (by omega)]
      · rw [Nat.min_eq_left (by omega)]
        have hblock : (slice (padded sources entry.2) (offset - entry.1)
            (alignUp entry.2.size 16 - (offset - entry.1))).length =
            alignUp entry.2.size 16 - (offset - entry.1) := length_slice (by omega)
        obtain ⟨n, hn⟩ : ∃ n, length - readSize =
            alignUp entry.2.size 16 - (offset - entry.1) + n :=
          ⟨length - readSize - (alignUp entry.2.size 16 - (offset - entry.1)), by omega⟩
        have hnext : ∀ next ∈ rest.head?,
            offset + (alignUp entry.2.size 16 - (offset - entry.1)) -
              (entry.1 + alignUp entry.2.size 16) < alignUp next.2.size 16 := by
          intro next hnext
          cases rest with
          | nil => cases hnext
          | cons next' others =>
            cases hnext
            have hsize := hrest.2.1
            have hle := le_alignUp next.2.size
            omega
        rw [ih hrest (fun e he => havailable e (List.mem_cons_of_mem _ he)) (by omega) (by omega)
          (by omega) (by rw [length_memcpy (by omega)]; exact hbuffer) hnext]
        have hzero : offset + (alignUp entry.2.size 16 - (offset - entry.1)) -
            (entry.1 + alignUp entry.2.size 16) = 0 := by omega
        have hleft : length - (readSize + (alignUp entry.2.size 16 - (offset - entry.1))) = n := by
          omega
        have hbegin : readSize ≤ buffer.length := by omega
        rw [hzero, hleft, hn, slice_append (by omega), ← memcpy_memcpy hbegin, hblock]
    · have hdone : readSize = length := by omega
      rw [readLoop_done hdone, hdone, Nat.sub_self]
      simp [slice, memcpy]

/-- The entries that are behind an offset, and what the loop over them writes. -/
theorem readLoop_fromUpperBound {sources : Sources} {length last offset readSize : Nat}
    {entries : List (Nat × File)} {buffer : List UInt8} (h : Placed 0 entries last)
    (hne : entries ≠ []) (havailable : ∀ entry ∈ entries, Available sources entry.2)
    (hlast : offset + (length - readSize) ≤ last) (hle : readSize ≤ length)
    (hbuffer : length ≤ buffer.length) :
    (fromUpperBound entries offset).bind (readLoop sources length · offset readSize buffer) =
      some (length, memcpy buffer readSize
        (slice (entriesImage sources entries) offset (length - readSize))) := by
  obtain ⟨before, entry, after, rfl, hfound, hkey, hnext⟩ :=
    fromUpperBound_placed h hne (Nat.zero_le offset)
  rw [hfound, Option.bind_some]
  by_cases hlt : readSize < length
  · obtain ⟨middle, hbefore, hrest⟩ := h.split
    have hmiddle := hbefore.length_image fun e he =>
      havailable e (List.mem_append.2 (Or.inl he))
    have hstart := hrest.1
    have hrel : offset - middle < alignUp entry.2.size 16 := by
      cases after with
      | nil =>
        have hend := hrest.2.2
        unfold Placed at hend
        omega
      | cons next others =>
        have hbelow := hnext next rfl
        have hbegin := hrest.2.2.1
        have halign := le_alignUp entry.2.size
        have hpos := hrest.2.1
        omega
    have himage : entriesImage sources (before ++ entry :: after) =
        entriesImage sources before ++ entriesImage sources (entry :: after) := List.flatMap_append
    have hskip : offset = (entriesImage sources before).length + (offset - middle) := by omega
    rw [readLoop_eq hrest (fun e he => havailable e (List.mem_append.2 (Or.inr he)))
      (by omega) hlast hle hbuffer (by rintro e ⟨⟩; exact hrel), himage, slice_append_right hskip]
  · have hdone : readSize = length := by omega
    rw [readLoop_done hdone, hdone, Nat.sub_self]
    simp [slice, memcpy]

/-! ## A read -/

theorem length_flatImage {sources : Sources} (metadata : List UInt8) {root : Directory}
    (havailable : ∀ file ∈ prepareBuild root, Available sources file) :
    (flatImage sources metadata root).length = getSize (rebuild metadata root) := by
  obtain ⟨hplaced, hentries, himage⟩ := placed_buildFiles havailable
  have hlength := hplaced.length_image hentries
  rw [flatImage, List.length_append, ← himage]
  exact congrArg (metadata.length + ·) ((Nat.zero_add _).symm.trans hlength)

/-- Two blocks copied to the parts of a buffer, the first of which is filled. -/
theorem memcpy_append {dst₁ dst₂ x : List UInt8} (y : List UInt8) (h : dst₁.length = x.length) :
    memcpy dst₁ 0 x ++ memcpy dst₂ 0 y = memcpy (dst₁ ++ dst₂) 0 (x ++ y) := by
  simp [memcpy, ← h]

/-- A read of a rebuilt tree returns its length, and the buffer holds the slice of the flat image. -/
theorem readFile_eq {sources : Sources} (metadata buffer : List UInt8) {root : Directory}
    (offset length : Nat) (havailable : ∀ file ∈ prepareBuild root, Available sources file)
    (hne : ∃ file ∈ prepareBuild root, file.size ≠ 0)
    (hinside : offset + length ≤ getSize (rebuild metadata root))
    (hbuffer : length ≤ buffer.length) :
    readFile sources (rebuild metadata root) offset length buffer =
      some (length, memcpy buffer 0
        (slice (flatImage sources metadata root) offset length)) := by
  obtain ⟨hplaced, hentries, himage⟩ := placed_buildFiles havailable
  have hlength := hplaced.length_image hentries
  have hmap : (buildFiles (prepareBuild root)).dataOffsetMap ≠ [] := by
    intro hnil
    obtain ⟨file, hfile, hsize⟩ := hne
    have hpadded := length_padded (havailable file hfile)
    have hle := le_alignUp file.size
    rw [hnil] at himage
    have hnothing := List.flatMap_eq_nil_iff.1 himage.symm file hfile
    rw [hnothing, List.length_nil] at hpadded
    omega
  have hsize : getSize (rebuild metadata root) =
      metadata.length + (buildFiles (prepareBuild root)).currentDataOffset := rfl
  rw [readFile, if_pos hinside, flatImage, ← himage]
  by_cases hmetadata : offset < (rebuild metadata root).metadata.length
  · simp only [if_pos hmetadata]
    simp only [rebuild] at hmetadata ⊢
    have hpart : (slice metadata offset (min (metadata.length - offset) length)).length =
        min (metadata.length - offset) length := length_slice (by omega)
    have hfirst : 0 + (slice metadata offset (min (metadata.length - offset) length)).length ≤
        buffer.length := by omega
    have hjoin (rest : List UInt8) :
        memcpy (memcpy buffer 0 (slice metadata offset (min (metadata.length - offset) length)))
            (min (metadata.length - offset) length) rest =
          memcpy buffer 0
            (slice metadata offset (min (metadata.length - offset) length) ++ rest) := by
      rw [← memcpy_memcpy (Nat.zero_le _), hpart, Nat.zero_add]
    rw [checkedCopy_eq hfirst, Option.bind_some,
      readLoop_fromUpperBound hplaced hmap hentries (by omega) (Nat.min_le_right _ _)
        (by rw [length_memcpy hfirst]; exact hbuffer), hjoin, ← slice_append_min hmetadata.le]
  · simp only [if_neg hmetadata]
    simp only [rebuild] at hmetadata ⊢
    have hnone : memcpy buffer 0 (slice metadata offset 0) = buffer := by simp [slice, memcpy]
    have hskip : offset = metadata.length + (offset - metadata.length) := by omega
    have hempty : 0 + (slice metadata offset 0).length ≤ buffer.length := by simp [slice]
    rw [checkedCopy_eq hempty, Option.bind_some, hnone,
      readLoop_fromUpperBound hplaced hmap hentries (by omega) (Nat.zero_le _) hbuffer,
      slice_append_right hskip, Nat.sub_zero]

/-- Reading a range in one call brings the slice of the flat image, and reading it in two calls,
the second one into the buffer behind the first, brings the same. -/
theorem readFile_is_slice {sources : Sources} {metadata buffer : List UInt8} {root : Directory}
    {offset length : Nat} (havailable : ∀ file ∈ prepareBuild root, Available sources file)
    (hne : ∃ file ∈ prepareBuild root, file.size ≠ 0)
    (hinside : offset + length ≤ getSize (rebuild metadata root))
    (hbuffer : length ≤ buffer.length) :
    readFile sources (rebuild metadata root) offset length buffer =
        some (length, memcpy buffer 0
          (slice (flatImage sources metadata root) offset length)) ∧
      ∀ m ≤ length, ∃ first second,
        readFile sources (rebuild metadata root) offset m (buffer.take m) = some (m, first) ∧
        readFile sources (rebuild metadata root) (offset + m) (length - m) (buffer.drop m) =
          some (length - m, second) ∧
        first ++ second =
          memcpy buffer 0 (slice (flatImage sources metadata root) offset length) := by
  refine ⟨readFile_eq metadata buffer offset length havailable hne hinside hbuffer,
    fun m hm => ?_⟩
  obtain ⟨n, rfl⟩ : ∃ n, length = m + n := ⟨length - m, by omega⟩
  rw [Nat.add_sub_cancel_left]
  have himage := length_flatImage metadata havailable
  have hfirst := readFile_eq metadata (buffer.take m) offset m havailable hne (by omega)
    (by rw [List.length_take]; omega)
  have hsecond := readFile_eq metadata (buffer.drop m) (offset + m) n havailable hne (by omega)
    (by rw [List.length_drop]; omega)
  have hblock : (slice (flatImage sources metadata root) offset m).length = m :=
    length_slice (by omega)
  have hfills : (buffer.take m).length =
      (slice (flatImage sources metadata root) offset m).length := by
    rw [hblock, List.length_take, Nat.min_eq_left (by omega)]
  refine ⟨_, _, hfirst, hsecond, ?_⟩
  rw [memcpy_append _ hfills, List.take_append_drop, ← slice_add]

/-- A directory with an empty file and a removed one, and below it a patched and a replaced one. -/
def smallTree : Directory :=
  .mk [⟨.none, 1, "", [], 3⟩, ⟨.none, 0, "", [], 0⟩, ⟨.removed, 0, "", [], 5⟩]
    [.mk [⟨.patched, 0, "", [4, 5], 2⟩, ⟨.replaced, 0, "mod.bin", [], 1⟩] []]

/-- The RomFS below that directory, and the one file of the host. -/
def smallSources : Sources where
  romfs := [9, 1, 2, 3, 9]
  host := fun path => if path = "mod.bin" then some [6] else none

/-- Five bytes from the metadata on in two calls, and twenty from the end of a file's padding on. -/
theorem readFile_small :
    (∃ first second,
      readFile smallSources (rebuild [7, 8] smallTree) 1 1 [0] = some (1, first) ∧
      readFile smallSources (rebuild [7, 8] smallTree) 2 4 [0, 0, 0, 0] = some (4, second) ∧
      first ++ second = [8, 1, 2, 3, 0]) ∧
    readFile smallSources (rebuild [7, 8] smallTree) 17 20 (List.replicate 20 255) =
      some (20, [0, 4, 5] ++ List.replicate 14 0 ++ [6, 0, 0]) := by
  have hfiles : prepareBuild smallTree =
      [⟨.none, 1, "", [], 3⟩, ⟨.none, 0, "", [], 0⟩, ⟨.patched, 0, "", [4, 5], 2⟩,
        ⟨.replaced, 0, "mod.bin", [], 1⟩] := by decide
  have havailable : ∀ file ∈ prepareBuild smallTree, Available smallSources file := by
    rw [hfiles]
    simp only [List.forall_mem_cons]
    exact ⟨⟨by decide, by decide⟩, ⟨by decide, by decide⟩, ⟨by decide, by decide⟩,
      ⟨by decide, by decide⟩, fun _ h => absurd h List.not_mem_nil⟩
  have hne : ∃ file ∈ prepareBuild smallTree, file.size ≠ 0 := by
    rw [hfiles]
    exact ⟨_, List.mem_cons_self, by decide⟩
  have hinside : 1 + 5 ≤ getSize (rebuild [7, 8] smallTree) := by decide
  have hinside' : 17 + 20 ≤ getSize (rebuild [7, 8] smallTree) := by decide
  have hbuffer : 5 ≤ [0, 0, 0, 0, (0 : UInt8)].length := by decide
  have hbuffer' : 20 ≤ (List.replicate 20 (255 : UInt8)).length := by decide
  obtain ⟨first, second, hfirst, hsecond, hjoin⟩ :=
    (readFile_is_slice havailable hne hinside hbuffer).2 1 (by decide)
  have hread := (readFile_is_slice havailable hne hinside' hbuffer').1
  exact ⟨⟨first, second, hfirst, hsecond, hjoin.trans (by decide)⟩, hread.trans (by decide)⟩

/-- Without its replacement, which was deleted after the tree was rebuilt, the byte of that file
stays as the buffer held it: the read brings no slice of any image. -/
theorem readFile_short :
    readFile { smallSources with host := fun _ => none } (rebuild [7, 8] smallTree) 34 1 [255] =
        some (1, [255]) ∧
    readFile { smallSources with host := fun _ => none } (rebuild [7, 8] smallTree) 34 1 [0] =
        some (1, [0]) ∧
    ¬ ∀ (sources : Sources) (metadata buffer : List UInt8) (root : Directory) (offset length : Nat),
      (∃ file ∈ prepareBuild root, file.size ≠ 0) →
      offset + length ≤ getSize (rebuild metadata root) → length ≤ buffer.length →
      readFile sources (rebuild metadata root) offset length buffer =
        some (length, memcpy buffer 0 (slice (flatImage sources metadata root) offset length)) := by
  have hread : readFile { smallSources with host := fun _ => none } (rebuild [7, 8] smallTree) 34 1
      [255] = some (1, [255]) := by decide +kernel
  have hread' : readFile { smallSources with host := fun _ => none } (rebuild [7, 8] smallTree) 34 1
      [0] = some (1, [0]) := by decide +kernel
  refine ⟨hread, hread', fun hall => ?_⟩
  have heq := hall { smallSources with host := fun _ => none } [7, 8] [255] smallTree 34 1
    (by decide +kernel) (by decide +kernel) (by decide)
  rw [hread] at heq
  exact absurd heq (by decide +kernel)

end AzaharPlus.FileSys.LayeredFS
