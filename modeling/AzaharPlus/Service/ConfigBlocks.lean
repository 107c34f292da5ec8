import AzaharPlus.Lib.BlockMemory
import AzaharPlus.Lib.CheckedBytes

/-!
# The config blocks

`hle/service/cfg/cfg.cpp`: the blocks of the config savegame.  The buffer begins with a header that has
an entry for each block; blocks of at most four bytes are kept in their entry, larger ones at an offset
of the buffer.  The buffer comes from the NAND of the user.

The offsets come from the buffer too, and may lie in the header: what is written over a block is the
data of a new one, its entry and the number of entries.

* `createConfigBlock_spec` — what a creation writes, when there is room for it.
* `create_meets_iff` — a creation keeps the store, whatever its data, exactly when it fits.
* `sameHeader_writeData`, `blockAt_writeData_ne` — the setting of a block.
-/

namespace AzaharPlus.Service

open Bytes BlockMemory

/-! ## The buffer -/

/-- `CONFIG_SAVEFILE_SIZE`. -/
def configSavefileSize : Nat := 0x8000

/-- `CONFIG_FILE_MAX_BLOCK_ENTRIES`. -/
def configFileMaxBlockEntries : Nat := 1479

/-- The size of `SaveFileConfig`. -/
def saveFileConfigSize : Nat := 0x455C

/-- A number of the buffer. -/
def numberAt (m : Memory) (addr n : Nat) : Nat := leValue (readBlock m addr n)

/-- A number is written into the buffer. -/
def writeNumber (m : Memory) (addr n v : Nat) : Memory := writeBlock m addr (leBytes n v) n

/-- `SaveConfigBlockEntry`. -/
structure SaveConfigBlockEntry where
  blockId : UInt32
  offsetOrData : UInt32
  size : UInt16
  accessFlags : UInt16
  deriving DecidableEq, Repr

/-- `total_entries`. -/
def totalEntries (m : Memory) : Nat := numberAt m 0 2

/-- `data_entries_offset`. -/
def dataEntriesOffset (m : Memory) : Nat := numberAt m 2 2

/-- The address of an entry of `block_entries`. -/
def entryAddress (i : Nat) : Nat := 4 + 12 * i

/-- An entry of `block_entries`. -/
def entryAt (m : Memory) (i : Nat) : SaveConfigBlockEntry where
  blockId := UInt32.ofNat (numberAt m (entryAddress i) 4)
  offsetOrData := UInt32.ofNat (numberAt m (entryAddress i + 4) 4)
  size := UInt16.ofNat (numberAt m (entryAddress i + 8) 2)
  accessFlags := UInt16.ofNat (numberAt m (entryAddress i + 10) 2)

/-- An entry is written. -/
def writeEntry (m : Memory) (i : Nat) (e : SaveConfigBlockEntry) : Memory :=
  let m := writeNumber m (entryAddress i) 4 e.blockId.toNat
  let m := writeNumber m (entryAddress i + 4) 4 e.offsetOrData.toNat
  let m := writeNumber m (entryAddress i + 8) 2 e.size.toNat
  writeNumber m (entryAddress i + 10) 2 e.accessFlags.toNat

/-! ## The operations -/

/-- The results of the operations. -/
inductive ConfigResult
  | success | unknown | notFound | notAuthorized | invalidSize
  deriving DecidableEq, Repr

/-- The search of `CreateConfigBlock` for the end of the last block with data of its own; the sum is
one of `u32`. -/
def nextOffset (m : Memory) : Nat → UInt32
  | 0 => UInt32.ofNat (dataEntriesOffset m)
  | i + 1 =>
      if 4 < (entryAt m i).size then (entryAt m i).offsetOrData + (entryAt m i).size.toUInt32
      else nextOffset m i

/-- `CreateConfigBlock`; a copy that leaves the buffer is `none`. -/
def createConfigBlock (m : Memory) (blockId : UInt32) (size accessFlags : UInt16)
    (data : List UInt8) : Option (ConfigResult × Memory) :=
  let total := totalEntries m
  if total ≥ configFileMaxBlockEntries then some (.unknown, m)
  else
    let m := writeEntry m total ⟨blockId, 0, size, accessFlags⟩
    let written :=
      if 4 < size then
        let offset := nextOffset m total
        let m := writeNumber m (entryAddress total + 4) 4 offset.toNat
        if offset.toNat + size.toNat ≤ configSavefileSize then
          some (writeBlock m offset.toNat data size.toNat)
        else none
      else some (writeBlock m (entryAddress total + 4) data size.toNat)
    written.map fun m => (.success, writeNumber m 0 2 (totalEntries m + 1))

/-- `std::find_if` over `block_entries`, all of them. -/
def findEntry (m : Memory) (blockId : UInt32) : Option Nat :=
  (List.range configFileMaxBlockEntries).find? fun i => (entryAt m i).blockId = blockId

/-- Where the data of an entry is. -/
def blockAddress (m : Memory) (i : Nat) : Nat :=
  if (entryAt m i).size ≤ 4 then entryAddress i + 4 else (entryAt m i).offsetOrData.toNat

/-- The checks of `GetConfigBlockPointer` for the entry that was found. -/
def checkEntry (m : Memory) (i : Nat) (size : UInt32) (accessFlag : UInt16) :
    Except ConfigResult Nat :=
  if (entryAt m i).accessFlags &&& accessFlag = 0 then .error .notAuthorized
  else if (entryAt m i).size.toUInt32 ≠ size then .error .invalidSize
  else .ok (blockAddress m i)

/-- `ConfigBlockDefaults`. -/
structure ConfigBlockDefaults where
  accessFlags : UInt16
  data : List UInt8

/-- The buffer and the savegame in the NAND. -/
structure ConfigState where
  buffer : Memory
  savegame : Memory

/-- `GetConfigBlockPointer`; an entry that is still not there behind its creation is `none`. -/
def getConfigBlockPointer (defaults : UInt32 → Option ConfigBlockDefaults) (s : ConfigState)
    (blockId size : UInt32) (accessFlag : UInt16) : Option (Except ConfigResult Nat × ConfigState) :=
  match findEntry s.buffer blockId with
  | some i => some (checkEntry s.buffer i size accessFlag, s)
  | none =>
      match defaults blockId with
      | none => some (.error .notFound, s)
      | some d =>
          match createConfigBlock s.buffer blockId (UInt16.ofNat d.data.length) d.accessFlags d.data with
          | none => none
          | some (.success, m) =>
              (findEntry m blockId).map fun i => (checkEntry m i size accessFlag, ⟨m, m⟩)
          | some (result, m) => some (.error result, { s with buffer := m })

/-- `GetConfigBlock` without an Artic client; the result is what is copied to the output. -/
def getConfigBlock (defaults : UInt32 → Option ConfigBlockDefaults) (s : ConfigState)
    (blockId size : UInt32) (accessFlag : UInt16) :
    Option (Except ConfigResult (List UInt8) × ConfigState) :=
  match getConfigBlockPointer defaults s blockId size accessFlag with
  | none => none
  | some (.error e, s) => some (.error e, s)
  | some (.ok p, s) =>
      if p + size.toNat ≤ configSavefileSize then some (.ok (readBlock s.buffer p size.toNat), s)
      else none

/-- `SetConfigBlock`. -/
def setConfigBlock (defaults : UInt32 → Option ConfigBlockDefaults) (s : ConfigState)
    (blockId size : UInt32) (accessFlag : UInt16) (input : List UInt8) :
    Option (ConfigResult × ConfigState) :=
  match getConfigBlockPointer defaults s blockId size accessFlag with
  | none => none
  | some (.error e, s) => some (e, s)
  | some (.ok p, s) =>
      if p + size.toNat ≤ configSavefileSize then
        some (.success, { s with buffer := writeBlock s.buffer p input size.toNat })
      else none

/-! ## Well-formed buffers -/

/-- The number of entries in the table that are set. -/
def liveEntries (m : Memory) : Nat := min (totalEntries m) configFileMaxBlockEntries

/-- An entry whose data is not in the entry. -/
def IsLarge (m : Memory) (i : Nat) : Prop := 4 < (entryAt m i).size

instance (m : Memory) (i : Nat) : Decidable (IsLarge m i) := inferInstanceAs (Decidable (_ < _))

/-- The end of the data of a large entry. -/
def dataEnd (m : Memory) (i : Nat) : Nat :=
  (entryAt m i).offsetOrData.toNat + (entryAt m i).size.toNat

/-- A range ends before the data of an entry or begins behind it. -/
def Apart (m : Memory) (i offset size : Nat) : Prop :=
  offset + size ≤ (entryAt m i).offsetOrData.toNat ∨ dataEnd m i ≤ offset

instance (m : Memory) (i offset size : Nat) : Decidable (Apart m i offset size) :=
  inferInstanceAs (Decidable (_ ∨ _))

/-- The entries have distinct ids, and the data ranges are disjoint and inside the data area. -/
structure WellFormed (m : Memory) : Prop where
  distinct : ∀ i < liveEntries m, ∀ j < liveEntries m,
    (entryAt m i).blockId = (entryAt m j).blockId → i = j
  inside : ∀ i < liveEntries m, IsLarge m i →
    dataEntriesOffset m ≤ (entryAt m i).offsetOrData.toNat ∧ dataEnd m i ≤ configSavefileSize
  disjoint : ∀ i < liveEntries m, ∀ j < liveEntries m, i ≠ j → IsLarge m i → IsLarge m j →
    Apart m i (entryAt m j).offsetOrData.toNat (entryAt m j).size.toNat

/-- A block: its flags and its bytes. -/
structure ConfigBlock where
  accessFlags : UInt16
  bytes : List UInt8
  deriving DecidableEq, Repr

/-- The block of an entry. -/
def blockAt (m : Memory) (i : Nat) : ConfigBlock :=
  ⟨(entryAt m i).accessFlags, readBlock m (blockAddress m i) (entryAt m i).size.toNat⟩

/-- The bytes that are copied from a buffer. -/
def copied (data : List UInt8) (size : Nat) : List UInt8 := (List.range size).map (byteAt data)

/-- An id that no entry has. -/
def IsNew (m : Memory) (blockId : UInt32) : Prop :=
  ∀ i < liveEntries m, (entryAt m i).blockId ≠ blockId

instance (m : Memory) (blockId : UInt32) : Decidable (IsNew m blockId) :=
  inferInstanceAs (Decidable (∀ i < liveEntries m, _))

/-- What is asked of a creation: it fails and changes nothing, or the buffer is well-formed again with
the old blocks as they were and the new one. -/
def CreateMeets (m : Memory) (blockId : UInt32) (size accessFlags : UInt16) (data : List UInt8) :
    Prop :=
  ∃ result m', createConfigBlock m blockId size accessFlags data = some (result, m') ∧
    (result ≠ .success ∧ m' = m ∨
      result = .success ∧ WellFormed m' ∧ liveEntries m' = liveEntries m + 1 ∧
        (∀ i < liveEntries m, entryAt m' i = entryAt m i ∧ blockAt m' i = blockAt m i) ∧
        (entryAt m' (liveEntries m)).blockId = blockId ∧
        (entryAt m' (liveEntries m)).size = size ∧
        blockAt m' (liveEntries m) = ⟨accessFlags, copied data size.toNat⟩)

/-- What a creation writes into the header: the entry, with the data of a small block, and the number
of entries. -/
def headerWritten (m : Memory) (blockId : UInt32) (size accessFlags : UInt16) (data : List UInt8) :
    Memory :=
  let total := totalEntries m
  let m₁ := writeEntry m total ⟨blockId, 0, size, accessFlags⟩
  let m₂ :=
    if 4 < size then writeNumber m₁ (entryAddress total + 4) 4 (nextOffset m total).toNat
    else writeBlock m₁ (entryAddress total + 4) data size.toNat
  writeNumber m₂ 0 2 (total + 1)

/-- The large blocks do not reach into what is written of the header, or have these bytes there. -/
def HeaderKeeps (m : Memory) (blockId : UInt32) (size accessFlags : UInt16) (data : List UInt8) :
    Prop :=
  ∀ i < totalEntries m, IsLarge m i → ∀ k < (entryAt m i).size.toNat,
    headerWritten m blockId size accessFlags data ((entryAt m i).offsetOrData.toNat + k) =
      m ((entryAt m i).offsetOrData.toNat + k)

instance (m : Memory) (blockId : UInt32) (size accessFlags : UInt16) (data : List UInt8) :
    Decidable (HeaderKeeps m blockId size accessFlags data) :=
  inferInstanceAs (Decidable (∀ i < totalEntries m, _ → _))

/-- The data of a large block, which is put behind the last large one, is behind the entries, ends
inside the buffer and is apart from the other blocks. -/
def DataFits (m : Memory) (size : UInt16) : Prop :=
  entryAddress (totalEntries m + 1) ≤ (nextOffset m (totalEntries m)).toNat ∧
    (nextOffset m (totalEntries m)).toNat + size.toNat ≤ configSavefileSize ∧
    ∀ i < totalEntries m, IsLarge m i →
      Apart m i (nextOffset m (totalEntries m)).toNat size.toNat

instance (m : Memory) (size : UInt16) : Decidable (DataFits m size) :=
  inferInstanceAs (Decidable (_ ∧ _ ∧ _))

/-- There is no room for an entry, or nothing that is written is put over a block. -/
def Fits (m : Memory) (blockId : UInt32) (size accessFlags : UInt16) (data : List UInt8) : Prop :=
  configFileMaxBlockEntries ≤ totalEntries m ∨
    (4 < size → DataFits m size) ∧ HeaderKeeps m blockId size accessFlags data

instance (m : Memory) (blockId : UInt32) (size accessFlags : UInt16) (data : List UInt8) :
    Decidable (Fits m blockId size accessFlags data) :=
  inferInstanceAs (Decidable (_ ∨ (4 < size → _) ∧ _))

/-! ## Numbers and entries -/

theorem numberAt_lt (m : Memory) (addr n : Nat) : numberAt m addr n < 256 ^ n := by
  have hlt := leValue_lt (readBlock m addr n)
  rwa [length_readBlock] at hlt

theorem numberAt_congr {m m' : Memory} {addr n : Nat}
    (h : Set.EqOn m' m (Set.Ico addr (addr + n))) : numberAt m' addr n = numberAt m addr n := by
  unfold numberAt
  rw [readBlock_congr h]

theorem numberAt_writeNumber (m : Memory) (addr : Nat) {n v : Nat} (hv : v < 256 ^ n) :
    numberAt (writeNumber m addr n v) addr n = v := by
  unfold numberAt writeNumber
  rw [readBlock_writeBlock m addr (length_leBytes n v), leValue_leBytes hv]

/-- A number behind a write into other bytes. -/
theorem numberAt_writeBlock_apart (m : Memory) (data : List UInt8) {addr n a k : Nat}
    (h : addr + n ≤ a ∨ a + k ≤ addr) : numberAt (writeBlock m a data k) addr n = numberAt m addr n := by
  refine numberAt_congr (eqOn_writeBlock fun b hb => ?_)
  obtain ⟨hlow, hhigh⟩ := hb
  omega

theorem numberAt_writeNumber_apart (m : Memory) {addr n a k v : Nat}
    (h : addr + n ≤ a ∨ a + k ≤ addr) : numberAt (writeNumber m a k v) addr n = numberAt m addr n :=
  numberAt_writeBlock_apart m _ h

/-- The bytes of an entry. -/
def entryBytes (i : Nat) : Set Nat := Set.Ico (entryAddress i) (entryAddress i + 12)

theorem entryAt_congr {m m' : Memory} {i : Nat} (h : Set.EqOn m' m (entryBytes i)) :
    entryAt m' i = entryAt m i := by
  have hfield : ∀ k n, k + n ≤ 12 →
      numberAt m' (entryAddress i + k) n = numberAt m (entryAddress i + k) n := by
    intro k n hk
    refine numberAt_congr fun b hb => h ⟨?_, ?_⟩
    · exact Nat.le_trans (Nat.le_add_right _ _) hb.1
    · have hhigh := hb.2
      omega
  unfold entryAt
  rw [hfield 4 4 (by decide), hfield 8 2 (by decide), hfield 10 2 (by decide),
    show numberAt m' (entryAddress i) 4 = numberAt m (entryAddress i) 4 from hfield 0 4 (by decide)]

theorem entryAddress_inj {i j : Nat} (h : i ≠ j) :
    entryAddress i + 12 ≤ entryAddress j ∨ entryAddress j + 12 ≤ entryAddress i := by
  unfold entryAddress
  omega

/-- The entries are in the header. -/
theorem entryAddress_le {i : Nat} (hi : i < configFileMaxBlockEntries) :
    entryAddress i + 12 ≤ saveFileConfigSize := by
  unfold entryAddress saveFileConfigSize
  unfold configFileMaxBlockEntries at hi
  omega

/-- An entry is written into its own bytes. -/
theorem eqOn_writeEntry (m : Memory) (i : Nat) (e : SaveConfigBlockEntry) :
    Set.EqOn (writeEntry m i e) m (entryBytes i)ᶜ := by
  intro a ha
  have hout : a < entryAddress i ∨ entryAddress i + 12 ≤ a := by
    rw [Set.mem_compl_iff, entryBytes, Set.mem_Ico] at ha
    omega
  simp only [writeEntry, writeNumber, writeBlock]
  rw [if_neg (by omega), if_neg (by omega), if_neg (by omega), if_neg (by omega)]

theorem entryAt_writeEntry (m : Memory) (i : Nat) (e : SaveConfigBlockEntry) :
    entryAt (writeEntry m i e) i = e := by
  have hid : numberAt (writeEntry m i e) (entryAddress i) 4 = e.blockId.toNat := by
    unfold writeEntry
    simp only
    rw [numberAt_writeNumber_apart _ (Or.inl (by omega)), numberAt_writeNumber_apart _ (Or.inl (by omega)),
      numberAt_writeNumber_apart _ (Or.inl (by omega)), numberAt_writeNumber _ _ e.blockId.toNat_lt]
  have hoffset : numberAt (writeEntry m i e) (entryAddress i + 4) 4 = e.offsetOrData.toNat := by
    unfold writeEntry
    simp only
    rw [numberAt_writeNumber_apart _ (Or.inl (by omega)), numberAt_writeNumber_apart _ (Or.inl (by omega)),
      numberAt_writeNumber _ _ e.offsetOrData.toNat_lt]
  have hsize : numberAt (writeEntry m i e) (entryAddress i + 8) 2 = e.size.toNat := by
    unfold writeEntry
    simp only
    rw [numberAt_writeNumber_apart _ (Or.inl (by omega)), numberAt_writeNumber _ _ e.size.toNat_lt]
  have hflags : numberAt (writeEntry m i e) (entryAddress i + 10) 2 = e.accessFlags.toNat :=
    numberAt_writeNumber _ _ e.accessFlags.toNat_lt
  unfold entryAt
  rw [hid, hoffset, hsize, hflags, UInt32.ofNat_toNat, UInt32.ofNat_toNat, UInt16.ofNat_toNat,
    UInt16.ofNat_toNat]

/-- The offset of an entry is written. -/
theorem entryAt_writeOffset (m : Memory) (i : Nat) (off : UInt32) :
    entryAt (writeNumber m (entryAddress i + 4) 4 off.toNat) i =
      { entryAt m i with offsetOrData := off } := by
  have hid : numberAt (writeNumber m (entryAddress i + 4) 4 off.toNat) (entryAddress i) 4 =
      numberAt m (entryAddress i) 4 := numberAt_writeNumber_apart m (Or.inl (Nat.le_refl _))
  have hsize : numberAt (writeNumber m (entryAddress i + 4) 4 off.toNat) (entryAddress i + 8) 2 =
      numberAt m (entryAddress i + 8) 2 := numberAt_writeNumber_apart m (Or.inr (by omega))
  have hflags : numberAt (writeNumber m (entryAddress i + 4) 4 off.toNat) (entryAddress i + 10) 2 =
      numberAt m (entryAddress i + 10) 2 := numberAt_writeNumber_apart m (Or.inr (by omega))
  unfold entryAt
  rw [hid, numberAt_writeNumber _ _ off.toNat_lt, hsize, hflags, UInt32.ofNat_toNat]

/-! ## A creation -/

theorem nextOffset_congr {m m' : Memory} (harea : dataEntriesOffset m' = dataEntriesOffset m)
    {n : Nat} (h : ∀ i < n, entryAt m' i = entryAt m i) : nextOffset m' n = nextOffset m n := by
  induction n with
  | zero => rw [nextOffset, nextOffset, harea]
  | succ n ih =>
    rw [nextOffset, nextOffset, h n n.lt_succ_self, ih fun i hi => h i (Nat.lt_succ_of_lt hi)]

theorem dataEntriesOffset_lt (m : Memory) : dataEntriesOffset m < 2 ^ 16 := numberAt_lt m 2 2

/-- Behind blocks of the data area, the next offset is in the data area or at its end. -/
theorem nextOffset_ge {m : Memory} {n : Nat}
    (h : ∀ i < n, IsLarge m i →
      dataEntriesOffset m ≤ (entryAt m i).offsetOrData.toNat ∧ dataEnd m i ≤ configSavefileSize) :
    dataEntriesOffset m ≤ (nextOffset m n).toNat := by
  induction n with
  | zero =>
    rw [nextOffset, UInt32.toNat_ofNat']
    exact Nat.le_of_eq (Nat.mod_eq_of_lt (Nat.lt_trans (dataEntriesOffset_lt m) (by decide))).symm
  | succ n ih =>
    rw [nextOffset]
    split
    · next hlarge =>
        obtain ⟨hlow, hhigh⟩ := h n n.lt_succ_self hlarge
        have hsum : (entryAt m n).offsetOrData.toNat + (entryAt m n).size.toNat < 2 ^ 32 :=
          Nat.lt_of_le_of_lt hhigh (by decide)
        rw [UInt32.toNat_add, UInt16.toNat_toUInt32, Nat.mod_eq_of_lt hsum]
        exact Nat.le_trans hlow (Nat.le_add_right _ _)
    · exact ih fun i hi => h i (Nat.lt_succ_of_lt hi)

theorem readBlock_writeBlock_copied (m : Memory) (addr : Nat) (data : List UInt8) (n : Nat) :
    readBlock (writeBlock m addr data n) addr n = copied data n := by
  refine List.map_congr_left fun i hi => ?_
  have hlt := List.mem_range.1 hi
  rw [writeBlock, if_pos (by omega), Nat.add_sub_cancel_left]

theorem small_toNat {size : UInt16} (h : ¬ 4 < size) : size.toNat ≤ 4 :=
  Nat.le_of_not_lt fun hlt => h (UInt16.lt_iff_toNat_lt.2 hlt)

/-- What a creation leaves: the entry, its data, and the rest of the buffer. -/
structure Created (m m' : Memory) (blockId : UInt32) (size accessFlags : UInt16)
    (data : List UInt8) : Prop where
  total : totalEntries m' = totalEntries m + 1
  area : dataEntriesOffset m' = dataEntriesOffset m
  old : ∀ i < totalEntries m, entryAt m' i = entryAt m i
  ownId : (entryAt m' (totalEntries m)).blockId = blockId
  ownSize : (entryAt m' (totalEntries m)).size = size
  ownFlags : (entryAt m' (totalEntries m)).accessFlags = accessFlags
  ownOffset : 4 < size → (entryAt m' (totalEntries m)).offsetOrData = nextOffset m (totalEntries m)
  ownData : readBlock m' (blockAddress m' (totalEntries m)) size.toNat = copied data size.toNat
  frame : ∀ a, (4 < size → a < (nextOffset m (totalEntries m)).toNat ∨
    (nextOffset m (totalEntries m)).toNat + size.toNat ≤ a) →
    m' a = headerWritten m blockId size accessFlags data a

/-- The entries and the data area of a buffer in which only bytes behind the entries were changed. -/
theorem header_of_frame {m m' : Memory} {total : Nat}
    (h : ∀ a, 2 ≤ a → a < entryAddress total → m' a = m a) :
    dataEntriesOffset m' = dataEntriesOffset m ∧ ∀ i < total, entryAt m' i = entryAt m i := by
  constructor
  · refine numberAt_congr fun a ha => h a ha.1 ?_
    exact Nat.lt_of_lt_of_le ha.2 (Nat.le_add_right _ _)
  · intro i hi
    refine entryAt_congr fun a ha => h a ?_ ?_
    · have hlow : entryAddress i ≤ a := ha.1
      unfold entryAddress at hlow
      omega
    · have hhigh := ha.2
      unfold entryAddress at hhigh ⊢
      omega

/-- A creation of a block that is kept in its entry. -/
theorem createConfigBlock_small {m : Memory} (blockId : UInt32) {size : UInt16}
    (accessFlags : UInt16) (data : List UInt8) (hroom : totalEntries m < configFileMaxBlockEntries)
    (hsmall : ¬ 4 < size) :
    ∃ m', createConfigBlock m blockId size accessFlags data = some (.success, m') ∧
      Created m m' blockId size accessFlags data := by
  obtain ⟨total, htotal⟩ : ∃ total, total = totalEntries m := ⟨_, rfl⟩
  obtain ⟨m₁, hm₁⟩ : ∃ m₁, m₁ = writeEntry m total ⟨blockId, 0, size, accessFlags⟩ := ⟨_, rfl⟩
  obtain ⟨m₂, hm₂⟩ : ∃ m₂, m₂ = writeBlock m₁ (entryAddress total + 4) data size.toNat := ⟨_, rfl⟩
  have hsize := small_toNat hsmall
  have haddress : 4 ≤ entryAddress total := Nat.le_add_right _ _
  have htotal₂ : totalEntries m₂ = total := by
    rw [htotal]
    refine numberAt_congr fun a ha => ?_
    have hlt := ha.2
    rw [hm₂, writeBlock, if_neg (by omega), hm₁, eqOn_writeEntry m total _]
    intro hin
    have hlow := hin.1
    omega
  have hcreate : createConfigBlock m blockId size accessFlags data =
      some (.success, writeNumber m₂ 0 2 (total + 1)) := by
    unfold createConfigBlock
    simp only [← htotal, if_neg hsmall, Option.map_some, ← hm₁, ← hm₂, htotal₂]
    rw [if_neg (Nat.not_le.2 (htotal ▸ hroom))]
  obtain ⟨harea, hold⟩ := @header_of_frame m (writeNumber m₂ 0 2 (total + 1)) total
    fun a ha hlt => by
      rw [writeNumber, writeBlock, if_neg (by omega), hm₂, writeBlock, if_neg (by omega), hm₁,
        eqOn_writeEntry m total _ fun hin => absurd hin.1 (Nat.not_le.2 hlt)]
  have hfield : ∀ k n, 8 ≤ k → k + n ≤ 12 →
      numberAt (writeNumber m₂ 0 2 (total + 1)) (entryAddress total + k) n =
        numberAt m₁ (entryAddress total + k) n := by
    intro k n hk hn
    rw [numberAt_writeNumber_apart _ (Or.inr (by omega)), hm₂,
      numberAt_writeBlock_apart _ _ (Or.inr (by omega))]
  have hid : numberAt (writeNumber m₂ 0 2 (total + 1)) (entryAddress total) 4 =
      numberAt m₁ (entryAddress total) 4 := by
    rw [numberAt_writeNumber_apart _ (Or.inr (by omega)), hm₂,
      numberAt_writeBlock_apart _ _ (Or.inl (by omega))]
  have hentry : entryAt m₁ total = ⟨blockId, 0, size, accessFlags⟩ := by
    rw [hm₁, entryAt_writeEntry]
  have hsizeEntry : (entryAt (writeNumber m₂ 0 2 (total + 1)) total).size = size := by
    rw [entryAt, hfield 8 2 (by decide) (by decide)]
    exact congrArg SaveConfigBlockEntry.size hentry
  refine ⟨_, hcreate, ?_⟩
  refine
    { total := ?_, area := harea, old := fun i hi => hold i (htotal ▸ hi)
      ownId := ?_, ownSize := htotal ▸ hsizeEntry, ownFlags := ?_
      ownOffset := fun h => absurd h hsmall, ownData := ?_
      frame := fun a _ => by simp only [headerWritten, ← htotal, if_neg hsmall, ← hm₁, ← hm₂] }
  · rw [← htotal]
    exact numberAt_writeNumber _ _ (by
      rw [htotal]
      exact Nat.lt_of_le_of_lt hroom (by decide))
  · rw [← htotal, entryAt, hid]
    exact congrArg SaveConfigBlockEntry.blockId hentry
  · rw [← htotal, entryAt, hfield 10 2 (by decide) (by decide)]
    exact congrArg SaveConfigBlockEntry.accessFlags hentry
  · rw [← htotal, blockAddress, hsizeEntry, if_pos (UInt16.not_lt.1 hsmall),
      ← readBlock_writeBlock_copied m₁ (entryAddress total + 4), ← hm₂]
    refine readBlock_congr fun a ha => ?_
    have hlow := ha.1
    rw [writeNumber, writeBlock, if_neg (by omega)]

/-- The buffer of a creation before the data of a large block is copied. -/
def entryWritten (m : Memory) (blockId : UInt32) (size accessFlags : UInt16) : Memory :=
  writeNumber (writeEntry m (totalEntries m) ⟨blockId, 0, size, accessFlags⟩)
    (entryAddress (totalEntries m) + 4) 4 (nextOffset m (totalEntries m)).toNat

theorem entryWritten_before (m : Memory) (blockId : UInt32) (size accessFlags : UInt16) {a : Nat}
    (hout : a ∉ entryBytes (totalEntries m)) : entryWritten m blockId size accessFlags a = m a := by
  rw [entryWritten, writeNumber, writeBlock, if_neg, eqOn_writeEntry m _ _ hout]
  rw [entryBytes, Set.mem_Ico] at hout
  omega

theorem entryAt_entryWritten (m : Memory) (blockId : UInt32) (size accessFlags : UInt16) :
    entryAt (entryWritten m blockId size accessFlags) (totalEntries m) =
      ⟨blockId, nextOffset m (totalEntries m), size, accessFlags⟩ := by
  rw [entryWritten, entryAt_writeOffset, entryAt_writeEntry]

/-- A creation of a block with data of its own. -/
theorem createConfigBlock_eq_large {m : Memory} (blockId : UInt32) {size : UInt16}
    (accessFlags : UInt16) (data : List UInt8) (hroom : totalEntries m < configFileMaxBlockEntries)
    (hlarge : 4 < size) :
    createConfigBlock m blockId size accessFlags data =
      if (nextOffset m (totalEntries m)).toNat + size.toNat ≤ configSavefileSize then
        some (.success,
          writeNumber
            (writeBlock (entryWritten m blockId size accessFlags)
              (nextOffset m (totalEntries m)).toNat data size.toNat) 0 2
            (totalEntries (writeBlock (entryWritten m blockId size accessFlags)
              (nextOffset m (totalEntries m)).toNat data size.toNat) + 1))
      else none := by
  -- the entry that is written is not one that the search looks at
  have hnext : nextOffset (writeEntry m (totalEntries m) ⟨blockId, 0, size, accessFlags⟩)
      (totalEntries m) = nextOffset m (totalEntries m) := by
    obtain ⟨harea, hold⟩ := @header_of_frame m
      (writeEntry m (totalEntries m) ⟨blockId, 0, size, accessFlags⟩) (totalEntries m)
      fun a _ hlt => eqOn_writeEntry m _ _ fun hin => absurd hin.1 (Nat.not_le.2 hlt)
    exact nextOffset_congr harea hold
  unfold createConfigBlock entryWritten
  simp only [if_pos hlarge, hnext]
  rw [if_neg (Nat.not_le.2 hroom)]
  split <;> rfl

/-- A creation of a block with data of its own, behind the entries. -/
theorem createConfigBlock_large {m : Memory} (blockId : UInt32) {size : UInt16}
    (accessFlags : UInt16) (data : List UInt8) (hroom : totalEntries m < configFileMaxBlockEntries)
    (hlarge : 4 < size)
    (hbehind : entryAddress (totalEntries m + 1) ≤ (nextOffset m (totalEntries m)).toNat) :
    ((nextOffset m (totalEntries m)).toNat + size.toNat ≤ configSavefileSize →
      ∃ m', createConfigBlock m blockId size accessFlags data = some (.success, m') ∧
        Created m m' blockId size accessFlags data) ∧
      (¬ (nextOffset m (totalEntries m)).toNat + size.toNat ≤ configSavefileSize →
        createConfigBlock m blockId size accessFlags data = none) := by
  rw [createConfigBlock_eq_large blockId accessFlags data hroom hlarge]
  refine ⟨fun hend => ?_, fun hend => if_neg hend⟩
  rw [if_pos hend]
  have hentry := entryAt_entryWritten m blockId size accessFlags
  have hbefore := @entryWritten_before m blockId size accessFlags
  obtain ⟨m₂, hm₂⟩ : ∃ m₂, m₂ = entryWritten m blockId size accessFlags := ⟨_, rfl⟩
  rw [← hm₂] at hentry hbefore ⊢
  obtain ⟨total, htotal⟩ : ∃ total, total = totalEntries m := ⟨_, rfl⟩
  rw [← htotal] at hbehind hentry hbefore ⊢
  obtain ⟨off, hoff⟩ : ∃ off, off = nextOffset m total := ⟨_, rfl⟩
  rw [← hoff] at hbehind hentry ⊢
  obtain ⟨m₃, hm₃⟩ : ∃ m₃, m₃ = writeBlock m₂ off.toNat data size.toNat := ⟨_, rfl⟩
  rw [← hm₃]
  have hheader : entryAddress (total + 1) = entryAddress total + 12 := by
    unfold entryAddress
    omega
  have haddress : 4 ≤ entryAddress total := Nat.le_add_right _ _
  have hframe : ∀ a < entryAddress total, m₃ a = m a := by
    intro a hlt
    rw [hm₃, writeBlock, if_neg (by omega), hbefore fun hin => absurd hin.1 (Nat.not_le.2 hlt)]
  have htotal₃ : totalEntries m₃ = total := by
    rw [htotal]
    refine numberAt_congr fun a ha => hframe a ?_
    have hlt := ha.2
    omega
  obtain ⟨harea, hold⟩ := @header_of_frame m (writeNumber m₃ 0 2 (total + 1)) total
    fun a ha hlt => by rw [writeNumber, writeBlock, if_neg (by omega), hframe a hlt]
  have hown : entryAt (writeNumber m₃ 0 2 (total + 1)) total = ⟨blockId, off, size, accessFlags⟩ := by
    rw [← hentry]
    refine entryAt_congr fun a ha => ?_
    have hlow : entryAddress total ≤ a := ha.1
    have hhigh : a < entryAddress total + 12 := ha.2
    rw [writeNumber, writeBlock, if_neg (by omega), hm₃, writeBlock, if_neg (by omega)]
  rw [htotal₃]
  refine ⟨_, rfl, ?_⟩
  refine
    { total := ?_, area := harea, old := fun i hi => hold i (htotal ▸ hi)
      ownId := ?_, ownSize := ?_, ownFlags := ?_, ownOffset := fun _ => ?_, ownData := ?_
      frame := fun a hdata => ?_ }
  · rw [← htotal]
    exact numberAt_writeNumber _ _ (by
      rw [htotal]
      exact Nat.lt_of_le_of_lt hroom (by decide))
  · rw [← htotal, hown]
  · rw [← htotal, hown]
  · rw [← htotal, hown]
  · rw [← htotal, hown, ← hoff]
  · rw [← htotal, blockAddress, hown, if_neg (UInt16.not_le.2 hlarge),
      ← readBlock_writeBlock_copied m₂ off.toNat, ← hm₃]
    refine readBlock_congr fun a ha => ?_
    have hlow : off.toNat ≤ a := ha.1
    rw [writeNumber, writeBlock, if_neg (by omega)]
  · rw [← htotal, ← hoff] at hdata
    have hout := hdata hlarge
    have hwritten : headerWritten m blockId size accessFlags data = writeNumber m₂ 0 2 (total + 1) := by
      rw [headerWritten, if_pos hlarge, hm₂, htotal]
      rfl
    rw [hwritten, writeNumber, writeNumber, writeBlock, writeBlock]
    by_cases hcount : 0 ≤ a ∧ a < 0 + 2
    · rw [if_pos hcount, if_pos hcount]
    · rw [if_neg hcount, if_neg hcount, hm₃, writeBlock, if_neg (by omega)]

/-- Entries that a frame leaves keep their blocks. -/
theorem blockAt_congr {m m' : Memory} {i : Nat} (hentry : entryAt m' i = entryAt m i)
    (hdata : Set.EqOn m' m
      (Set.Ico (blockAddress m i) (blockAddress m i + (entryAt m i).size.toNat))) :
    blockAt m' i = blockAt m i := by
  have haddress : blockAddress m' i = blockAddress m i := by
    unfold blockAddress
    rw [hentry]
  unfold blockAt
  rw [hentry, haddress, readBlock_congr hdata]

/-- The data of an entry: in the entry or in the data area. -/
theorem blockAddress_cases (m : Memory) (i : Nat) :
    (¬ IsLarge m i ∧ blockAddress m i = entryAddress i + 4 ∧ (entryAt m i).size.toNat ≤ 4) ∨
      (IsLarge m i ∧ blockAddress m i = (entryAt m i).offsetOrData.toNat) := by
  unfold blockAddress
  by_cases hlarge : IsLarge m i
  · exact Or.inr ⟨hlarge, if_neg (UInt16.not_le.2 hlarge)⟩
  · exact Or.inl ⟨hlarge, if_pos (UInt16.not_lt.1 hlarge), small_toNat hlarge⟩

theorem liveEntries_eq {m : Memory} (h : totalEntries m < configFileMaxBlockEntries) :
    liveEntries m = totalEntries m := Nat.min_eq_left (Nat.le_of_lt h)

theorem entry_of_live {m : Memory} {i : Nat} (h : i < liveEntries m) : i < configFileMaxBlockEntries :=
  Nat.lt_of_lt_of_le h (Nat.min_le_right _ _)

/-- The header that is written is that of the buffer up to the new entry, but for the number. -/
theorem headerWritten_before (m : Memory) (blockId : UInt32) (size accessFlags : UInt16)
    (data : List UInt8) {a : Nat} (htwo : 2 ≤ a)
    (hout : a < entryAddress (totalEntries m) ∨ entryAddress (totalEntries m) + 12 ≤ a) :
    headerWritten m blockId size accessFlags data a = m a := by
  have hentry : a ∉ entryBytes (totalEntries m) := by
    rw [entryBytes, Set.mem_Ico]
    omega
  rw [headerWritten, writeNumber, writeBlock, if_neg (by omega)]
  split
  · rw [writeNumber, writeBlock, if_neg (by omega), eqOn_writeEntry m _ _ hentry]
  · next hsmall =>
      have hsize := small_toNat hsmall
      rw [writeBlock, if_neg (by omega), eqOn_writeEntry m _ _ hentry]

/-- A creation that fits leaves the old blocks. -/
theorem Created.blockAt_old {m m' : Memory} {blockId : UInt32} {size accessFlags : UInt16}
    {data : List UInt8} (h : Created m m' blockId size accessFlags data)
    (hfits : 4 < size → DataFits m size) (hkeeps : HeaderKeeps m blockId size accessFlags data)
    {i : Nat} (hi : i < totalEntries m) : blockAt m' i = blockAt m i := by
  refine blockAt_congr (h.old i hi) fun a ha => ?_
  have hlow := ha.1
  have hhigh := ha.2
  rcases blockAddress_cases m i with ⟨-, haddress, hsize⟩ | ⟨hlarge, haddress⟩
  · -- in its entry
    have hbefore : a < entryAddress (totalEntries m) ∧ 4 ≤ a := by
      unfold entryAddress at haddress ⊢
      omega
    have hnext : entryAddress (totalEntries m) ≤ entryAddress (totalEntries m + 1) := by
      unfold entryAddress
      omega
    rw [h.frame a fun hbig => Or.inl (by have := (hfits hbig).1; omega),
      headerWritten_before m _ _ _ _ (by omega) (Or.inl hbefore.1)]
  · -- in the data area, apart from the new data
    have hkept := hkeeps i hi hlarge (a - (entryAt m i).offsetOrData.toNat) (by omega)
    rw [Nat.add_sub_cancel' (haddress ▸ hlow)] at hkept
    rw [h.frame a fun hbig => ?_, hkept]
    have hap := (hfits hbig).2.2 i hi hlarge
    unfold Apart dataEnd at hap
    omega

/-- A creation that fits leaves a well-formed buffer. -/
theorem Created.wellFormed {m m' : Memory} {blockId : UInt32} {size accessFlags : UInt16}
    {data : List UInt8} (h : Created m m' blockId size accessFlags data) (hwf : WellFormed m)
    (hroom : totalEntries m < configFileMaxBlockEntries) (hnew : IsNew m blockId)
    (hfits : 4 < size → DataFits m size) : WellFormed m' := by
  have hlive : liveEntries m = totalEntries m := liveEntries_eq hroom
  have hlive' : liveEntries m' = totalEntries m + 1 := by
    unfold liveEntries
    rw [h.total]
    exact Nat.min_eq_left hroom
  have hold := h.old
  have hlarge : ∀ i < totalEntries m, (IsLarge m' i ↔ IsLarge m i) := fun i hi => by
    unfold IsLarge
    rw [hold i hi]
  have hown : IsLarge m' (totalEntries m) ↔ 4 < size := by
    unfold IsLarge
    rw [h.ownSize]
  have hoffset : ∀ i < totalEntries m, IsLarge m i →
      dataEntriesOffset m ≤ (entryAt m i).offsetOrData.toNat ∧ dataEnd m i ≤ configSavefileSize :=
    fun i hi => hwf.inside i (hlive ▸ hi)
  constructor
  · intro i hi j hj hid
    rw [hlive'] at hi hj
    rcases Nat.lt_succ_iff_lt_or_eq.1 hi with hi | rfl <;>
      rcases Nat.lt_succ_iff_lt_or_eq.1 hj with hj | rfl
    · rw [hold i hi, hold j hj] at hid
      exact hwf.distinct i (hlive ▸ hi) j (hlive ▸ hj) hid
    · rw [hold i hi, h.ownId] at hid
      exact absurd hid (hnew i (hlive ▸ hi))
    · rw [hold j hj, h.ownId] at hid
      exact absurd hid.symm (hnew j (hlive ▸ hj))
    · rfl
  · intro i hi hbig
    rw [hlive'] at hi
    rw [h.area]
    rcases Nat.lt_succ_iff_lt_or_eq.1 hi with hi | rfl
    · unfold dataEnd
      rw [hold i hi]
      exact hoffset i hi ((hlarge i hi).1 hbig)
    · have hsize := hown.1 hbig
      unfold dataEnd
      rw [h.ownOffset hsize, h.ownSize]
      exact ⟨nextOffset_ge hoffset, (hfits hsize).2.1⟩
  · intro i hi j hj hne hi' hj'
    rw [hlive'] at hi hj
    rcases Nat.lt_succ_iff_lt_or_eq.1 hi with hi | rfl <;>
      rcases Nat.lt_succ_iff_lt_or_eq.1 hj with hj | rfl
    · unfold Apart dataEnd
      rw [hold i hi, hold j hj]
      exact hwf.disjoint i (hlive ▸ hi) j (hlive ▸ hj) hne ((hlarge i hi).1 hi') ((hlarge j hj).1 hj')
    · have hsize := hown.1 hj'
      unfold Apart dataEnd
      rw [hold i hi, h.ownOffset hsize, h.ownSize]
      exact (hfits hsize).2.2 i hi ((hlarge i hi).1 hi')
    · have hsize := hown.1 hi'
      have hap := (hfits hsize).2.2 j hj ((hlarge j hj).1 hj')
      unfold Apart dataEnd at hap ⊢
      rw [hold j hj, h.ownOffset hsize, h.ownSize]
      exact hap.symm
    · exact absurd rfl hne

/-- A creation for which there is room and that fits. -/
theorem createConfigBlock_spec {m : Memory} (hwf : WellFormed m) {blockId : UInt32}
    (hnew : IsNew m blockId) {size accessFlags : UInt16} {data : List UInt8}
    (hfits : 4 < size → DataFits m size) (hkeeps : HeaderKeeps m blockId size accessFlags data)
    (hroom : totalEntries m < configFileMaxBlockEntries) :
    ∃ m', createConfigBlock m blockId size accessFlags data = some (.success, m') ∧
      Created m m' blockId size accessFlags data ∧ WellFormed m' ∧
      ∀ i < totalEntries m, blockAt m' i = blockAt m i := by
  obtain ⟨m', hcreate, hcreated⟩ : ∃ m',
      createConfigBlock m blockId size accessFlags data = some (.success, m') ∧
        Created m m' blockId size accessFlags data := by
    by_cases hlarge : 4 < size
    · exact (createConfigBlock_large blockId accessFlags data hroom hlarge (hfits hlarge).1).1
        (hfits hlarge).2.1
    · exact createConfigBlock_small blockId accessFlags data hroom hlarge
  exact ⟨m', hcreate, hcreated, hcreated.wellFormed hwf hroom hnew hfits, fun i hi =>
    hcreated.blockAt_old hfits hkeeps hi⟩

theorem createConfigBlock_full {m : Memory} (blockId : UInt32) (size accessFlags : UInt16)
    (data : List UInt8) (hfull : configFileMaxBlockEntries ≤ totalEntries m) :
    createConfigBlock m blockId size accessFlags data = some (.unknown, m) := if_pos hfull

/-- The old blocks are as they were only if the header that was written keeps their bytes. -/
theorem Created.keeps {m m' : Memory} {blockId : UInt32} {size accessFlags : UInt16}
    {data : List UInt8} (h : Created m m' blockId size accessFlags data)
    (hfits : 4 < size → DataFits m size) (hblocks : ∀ i < totalEntries m, blockAt m' i = blockAt m i) :
    HeaderKeeps m blockId size accessFlags data := by
  intro i hi hlarge k hk
  have hentry := h.old i hi
  have haddress : blockAddress m i = (entryAt m i).offsetOrData.toNat :=
    if_neg (UInt16.not_le.2 hlarge)
  have hbytes := congrArg ConfigBlock.bytes (hblocks i hi)
  unfold blockAt blockAddress at hbytes
  rw [hentry] at hbytes
  have hbyte := congrArg (byteAt · k) hbytes
  simp only at hbyte
  rw [byteAt_readBlock _ _ hk, byteAt_readBlock _ _ hk] at hbyte
  unfold blockAddress at haddress
  rw [haddress] at hbyte
  rw [← h.frame _ fun hbig => ?_, hbyte]
  have hap := (hfits hbig).2.2 i hi hlarge
  unfold Apart dataEnd at hap
  omega

/-- Behind the entries, a creation keeps the store exactly when it fits. -/
theorem create_meets_behind {m : Memory} (hwf : WellFormed m) {blockId : UInt32}
    (hnew : IsNew m blockId) {size : UInt16} (accessFlags : UInt16) (data : List UInt8)
    (hbehind : 4 < size →
      entryAddress (totalEntries m + 1) ≤ (nextOffset m (totalEntries m)).toNat) :
    CreateMeets m blockId size accessFlags data ↔ Fits m blockId size accessFlags data := by
  by_cases hfull : configFileMaxBlockEntries ≤ totalEntries m
  · refine ⟨fun _ => Or.inl hfull, fun _ => ?_⟩
    exact ⟨.unknown, m, createConfigBlock_full blockId size accessFlags data hfull,
      Or.inl ⟨by decide, rfl⟩⟩
  have hroom : totalEntries m < configFileMaxBlockEntries := Nat.lt_of_not_le hfull
  have hlive := liveEntries_eq hroom
  constructor
  · rintro ⟨result, m', hcreate, hmeets⟩
    refine Or.inr ?_
    by_cases hlarge : 4 < size
    · obtain ⟨hinside, houtside⟩ :=
        createConfigBlock_large blockId accessFlags data hroom hlarge (hbehind hlarge)
      by_cases hend : (nextOffset m (totalEntries m)).toNat + size.toNat ≤ configSavefileSize
      · obtain ⟨m₁, hcreate₁, hcreated⟩ := hinside hend
        rw [hcreate₁, Option.some.injEq, Prod.mk.injEq] at hcreate
        obtain ⟨rfl, rfl⟩ := hcreate
        rcases hmeets with ⟨hfailed, -⟩ | ⟨-, hwf', hlive', hblocks, -⟩
        · exact absurd rfl hfailed
        have hfits : DataFits m size := by
          refine ⟨hbehind hlarge, hend, fun i hi hbig => ?_⟩
          have hold : entryAt m₁ i = entryAt m i := hcreated.old i hi
          have hap := hwf'.disjoint i (by omega) (totalEntries m) (by omega) (Nat.ne_of_lt hi)
            (by unfold IsLarge; rwa [hold]) (by unfold IsLarge; rwa [hcreated.ownSize])
          unfold Apart dataEnd at hap ⊢
          rwa [hold, hcreated.ownOffset hlarge, hcreated.ownSize] at hap
        exact ⟨fun _ => hfits, hcreated.keeps (fun _ => hfits) fun i hi => (hblocks i (by omega)).2⟩
      · rw [houtside hend] at hcreate
        cases hcreate
    · obtain ⟨m₁, hcreate₁, hcreated⟩ :=
        createConfigBlock_small blockId accessFlags data hroom hlarge
      rw [hcreate₁, Option.some.injEq, Prod.mk.injEq] at hcreate
      obtain ⟨rfl, rfl⟩ := hcreate
      rcases hmeets with ⟨hfailed, -⟩ | ⟨-, -, -, hblocks, -⟩
      · exact absurd rfl hfailed
      exact ⟨fun hbig => absurd hbig hlarge,
        hcreated.keeps (fun hbig => absurd hbig hlarge) fun i hi => (hblocks i (by omega)).2⟩
  · intro hfits
    obtain ⟨hdata, hkeeps⟩ := hfits.resolve_left hfull
    obtain ⟨m', hcreate, hcreated, hwf', hblocks⟩ :=
      createConfigBlock_spec hwf hnew hdata hkeeps hroom
    refine ⟨.success, m', hcreate, Or.inr ⟨rfl, hwf', ?_, ?_, ?_, ?_, ?_⟩⟩
    · unfold liveEntries
      rw [hcreated.total, Nat.min_eq_left hroom, Nat.min_eq_left (Nat.le_of_lt hroom)]
    · intro i hi
      rw [hlive] at hi
      exact ⟨hcreated.old i hi, hblocks i hi⟩
    · rw [hlive, hcreated.ownId]
    · rw [hlive, hcreated.ownSize]
    · rw [hlive, blockAt, hcreated.ownFlags, hcreated.ownSize, hcreated.ownData]

/-- Five bytes that begin before the end of the entries hold a byte of one that is not of its offset. -/
theorem range_meets_entry {offset size k : Nat} (hk : 0 < k) (hsize : 5 ≤ size)
    (hoffset : offset < entryAddress k) :
    ∃ j < k, ∃ c, (c < 4 ∨ 8 ≤ c ∧ c < 12) ∧ offset ≤ entryAddress j + c ∧
      entryAddress j + c < offset + size := by
  unfold entryAddress at *
  by_cases hnumber : offset < 4
  · exact ⟨0, hk, 0, by omega, by omega, by omega⟩
  · by_cases hfield : 4 ≤ (offset - 4) % 12 ∧ (offset - 4) % 12 < 8
    · exact ⟨(offset - 4) / 12, by omega, 8, by omega, by omega, by omega⟩
    · exact ⟨(offset - 4) / 12, by omega, (offset - 4) % 12, by omega, by omega, by omega⟩

/-- Equal numbers have equal bytes. -/
theorem byte_of_numberAt {m m' : Memory} {addr n k : Nat} (h : numberAt m' addr n = numberAt m addr n)
    (hk : k < n) : m' (addr + k) = m (addr + k) := by
  have hbytes := leValue_inj (by rw [length_readBlock, length_readBlock]) h
  rw [← byteAt_readBlock m' addr hk, hbytes, byteAt_readBlock m addr hk]

/-- Entries with the same id, size and flags have the same bytes, but for the offset. -/
theorem byte_of_entry {m m' : Memory} {i c : Nat}
    (hid : (entryAt m' i).blockId = (entryAt m i).blockId)
    (hsize : (entryAt m' i).size = (entryAt m i).size)
    (hflags : (entryAt m' i).accessFlags = (entryAt m i).accessFlags)
    (hc : c < 4 ∨ 8 ≤ c ∧ c < 12) : m' (entryAddress i + c) = m (entryAddress i + c) := by
  have hword : ∀ {x y : Nat}, x < 2 ^ 32 → y < 2 ^ 32 → UInt32.ofNat x = UInt32.ofNat y → x = y := by
    intro x y hx hy h
    have := congrArg UInt32.toNat h
    rwa [UInt32.toNat_ofNat', UInt32.toNat_ofNat', Nat.mod_eq_of_lt hx, Nat.mod_eq_of_lt hy] at this
  have hhalf : ∀ {x y : Nat}, x < 2 ^ 16 → y < 2 ^ 16 → UInt16.ofNat x = UInt16.ofNat y → x = y := by
    intro x y hx hy h
    have := congrArg UInt16.toNat h
    rwa [UInt16.toNat_ofNat', UInt16.toNat_ofNat', Nat.mod_eq_of_lt hx, Nat.mod_eq_of_lt hy] at this
  rcases hc with hc | ⟨hlow, hhigh⟩
  · exact byte_of_numberAt (hword (numberAt_lt _ _ 4) (numberAt_lt _ _ 4) hid) hc
  · by_cases hten : c < 10
    · have hbyte := byte_of_numberAt (k := c - 8)
        (hhalf (numberAt_lt _ _ 2) (numberAt_lt _ _ 2) hsize) (by omega)
      rwa [Nat.add_assoc, Nat.add_sub_cancel' hlow] at hbyte
    · have hbyte := byte_of_numberAt (k := c - 10)
        (hhalf (numberAt_lt _ _ 2) (numberAt_lt _ _ 2) hflags) (by omega)
      rwa [Nat.add_assoc, Nat.add_sub_cancel' (by omega)] at hbyte

/-- Data that is put over the entries spoils one, unless it happens to have their bytes. -/
theorem create_over_entries {m : Memory} (blockId : UInt32) {size : UInt16} (accessFlags : UInt16)
    (hroom : totalEntries m < configFileMaxBlockEntries) (hlarge : 4 < size)
    (hover : (nextOffset m (totalEntries m)).toNat < entryAddress (totalEntries m + 1)) :
    ∃ data, ¬ CreateMeets m blockId size accessFlags data := by
  have hlive := liveEntries_eq hroom
  have hsize : 5 ≤ size.toNat := UInt16.lt_iff_toNat_lt.1 hlarge
  obtain ⟨off, hoff⟩ : ∃ off, off = (nextOffset m (totalEntries m)).toNat := ⟨_, rfl⟩
  obtain ⟨j, hj, c, hc, hlow, hhigh⟩ :=
    range_meets_entry (Nat.succ_pos _) hsize hover
  -- every byte of the data differs from the one that it is put over
  refine ⟨(List.range size.toNat).map fun k =>
    entryWritten m blockId size accessFlags (off + k) + 1, ?_⟩
  rintro ⟨result, m', hcreate, hmeets⟩
  rw [createConfigBlock_eq_large blockId accessFlags _ hroom hlarge] at hcreate
  split at hcreate
  · rw [Option.some.injEq, Prod.mk.injEq] at hcreate
    obtain ⟨rfl, hm'⟩ := hcreate
    rcases hmeets with ⟨hfailed, -⟩ | ⟨-, -, -, hold, hid, hsz, hblock⟩
    · exact hfailed rfl
    rw [hlive] at hold hid hsz hblock
    have hsame : m' (entryAddress j + c) =
        entryWritten m blockId size accessFlags (entryAddress j + c) := by
      rcases Nat.lt_succ_iff_lt_or_eq.1 hj with hj | rfl
      · obtain ⟨-, hentries⟩ := @header_of_frame m (entryWritten m blockId size accessFlags)
          (totalEntries m) fun a _ hlt =>
            entryWritten_before m _ _ _ fun hin => absurd hin.1 (Nat.not_le.2 hlt)
        have hentry := (hold j hj).1
        rw [← hentries j hj] at hentry
        exact byte_of_entry (by rw [hentry]) (by rw [hentry]) (by rw [hentry]) hc
      · have hentry := entryAt_entryWritten m blockId size accessFlags
        have hflags := congrArg ConfigBlock.accessFlags hblock
        exact byte_of_entry (by rw [hid, hentry]) (by rw [hsz, hentry])
          (by rw [hentry]; exact hflags) hc
    have hnot : m' (entryAddress j + c) =
        entryWritten m blockId size accessFlags (entryAddress j + c) + 1 := by
      have hfour : 4 ≤ entryAddress j := Nat.le_add_right _ _
      rw [← hm', writeNumber, writeBlock, if_neg (by omega), writeBlock, if_pos ⟨hlow, hhigh⟩,
        byteAt_eq_getElem (by rw [List.length_map, List.length_range]; omega)]
      simp only [List.getElem_map, List.getElem_range, hoff]
      rw [Nat.add_sub_cancel' hlow]
    rw [hsame] at hnot
    have hnat := congrArg UInt8.toNat hnot
    rw [UInt8.toNat_add] at hnat
    have hlt := (entryWritten m blockId size accessFlags (entryAddress j + c)).toNat_lt
    have hone : (1 : UInt8).toNat = 1 := rfl
    omega
  · cases hcreate

/-- A creation keeps the store, whatever its data, exactly when it fits. -/
theorem create_meets_iff {m : Memory} (hwf : WellFormed m) {blockId : UInt32}
    (hnew : IsNew m blockId) (size accessFlags : UInt16) :
    (∀ data, CreateMeets m blockId size accessFlags data) ↔
      ∀ data, Fits m blockId size accessFlags data := by
  by_cases hbehind : 4 < size →
      entryAddress (totalEntries m + 1) ≤ (nextOffset m (totalEntries m)).toNat
  · exact forall_congr' fun data => create_meets_behind hwf hnew accessFlags data hbehind
  · obtain ⟨hlarge, hover⟩ := Classical.not_imp.1 hbehind
    by_cases hfull : configFileMaxBlockEntries ≤ totalEntries m
    · refine iff_of_true (fun data => ?_) fun data => Or.inl hfull
      exact ⟨.unknown, m, createConfigBlock_full blockId size accessFlags data hfull,
        Or.inl ⟨by decide, rfl⟩⟩
    · refine iff_of_false (fun hall => ?_) fun hall => ?_
      · obtain ⟨data, hnot⟩ := create_over_entries blockId accessFlags (Nat.lt_of_not_le hfull)
          hlarge (Nat.lt_of_not_le hover)
        exact hnot (hall data)
      · exact hover (((hall []).resolve_left hfull).1 hlarge).1

/-! ## A block is set -/

/-- The bytes of a block that is set are no one else's: a large block is behind the entries, and no
large block reaches into the entry of a small one. -/
def SetFits (m : Memory) (i : Nat) : Prop :=
  (IsLarge m i → entryAddress (liveEntries m) ≤ (entryAt m i).offsetOrData.toNat) ∧
    (¬ IsLarge m i → ∀ j < liveEntries m, IsLarge m j →
      Apart m j (entryAddress i + 4) (entryAt m i).size.toNat)

/-- The block of a creation can be set, if no large block reaches into its entry. -/
theorem Created.setFits {m m' : Memory} {blockId : UInt32} {size accessFlags : UInt16}
    {data : List UInt8} (h : Created m m' blockId size accessFlags data)
    (hroom : totalEntries m < configFileMaxBlockEntries) (hfits : 4 < size → DataFits m size)
    (hfield : ∀ j < liveEntries m, IsLarge m j →
      Apart m j (entryAddress (totalEntries m) + 4) size.toNat) : SetFits m' (totalEntries m) := by
  have hlive' : liveEntries m' = totalEntries m + 1 := by
    unfold liveEntries
    rw [h.total]
    exact Nat.min_eq_left hroom
  have hown : IsLarge m' (totalEntries m) ↔ 4 < size := by
    unfold IsLarge
    rw [h.ownSize]
  refine ⟨fun hbig => ?_, fun hsmall j hj hbig => ?_⟩
  · rw [hlive', h.ownOffset (hown.1 hbig)]
    exact (hfits (hown.1 hbig)).1
  · rw [hlive'] at hj
    rcases Nat.lt_succ_iff_lt_or_eq.1 hj with hj | rfl
    · have hentry := h.old j hj
      have hap := hfield j (by rwa [liveEntries_eq hroom]) (by unfold IsLarge at hbig ⊢; rwa [← hentry])
      unfold Apart dataEnd at hap ⊢
      rwa [hentry, h.ownSize]
    · exact absurd hbig hsmall

/-- The header behind a write into a block: only the data of small blocks is in it. -/
structure SameHeader (m m' : Memory) : Prop where
  total : totalEntries m' = totalEntries m
  area : dataEntriesOffset m' = dataEntriesOffset m
  blockId : ∀ i < liveEntries m, (entryAt m' i).blockId = (entryAt m i).blockId
  size : ∀ i < liveEntries m, (entryAt m' i).size = (entryAt m i).size
  accessFlags : ∀ i < liveEntries m, (entryAt m' i).accessFlags = (entryAt m i).accessFlags
  offset : ∀ i < liveEntries m, IsLarge m i →
    (entryAt m' i).offsetOrData = (entryAt m i).offsetOrData

namespace SameHeader

variable {m m' : Memory}

theorem live (h : SameHeader m m') : liveEntries m' = liveEntries m := by
  unfold liveEntries
  rw [h.total]

theorem isLarge (h : SameHeader m m') {i : Nat} (hi : i < liveEntries m) :
    IsLarge m' i ↔ IsLarge m i := by
  unfold IsLarge
  rw [h.size i hi]

theorem blockAddress (h : SameHeader m m') {i : Nat} (hi : i < liveEntries m) :
    Service.blockAddress m' i = Service.blockAddress m i := by
  unfold Service.blockAddress
  rw [h.size i hi]
  split
  · rfl
  · next hlarge => rw [h.offset i hi (UInt16.not_le.1 hlarge)]

theorem wellFormed (h : SameHeader m m') (hwf : WellFormed m) : WellFormed m' := by
  constructor
  · intro i hi j hj hid
    rw [h.live] at hi hj
    rw [h.blockId i hi, h.blockId j hj] at hid
    exact hwf.distinct i hi j hj hid
  · intro i hi hbig
    rw [h.live] at hi
    have hlarge := (h.isLarge hi).1 hbig
    unfold dataEnd
    rw [h.area, h.offset i hi hlarge, h.size i hi]
    exact hwf.inside i hi hlarge
  · intro i hi j hj hne hi' hj'
    rw [h.live] at hi hj
    have hlargeI := (h.isLarge hi).1 hi'
    have hlargeJ := (h.isLarge hj).1 hj'
    unfold Apart dataEnd
    rw [h.offset i hi hlargeI, h.offset j hj hlargeJ, h.size i hi, h.size j hj]
    exact hwf.disjoint i hi j hj hne hlargeI hlargeJ

end SameHeader

/-- The buffer with new bytes in a block. -/
def writeData (m : Memory) (i : Nat) (input : List UInt8) : Memory :=
  writeBlock m (blockAddress m i) input (entryAt m i).size.toNat

theorem sameHeader_writeData {m : Memory} {i : Nat} (hset : SetFits m i) (input : List UInt8) : SameHeader m (writeData m i input) := by
  have hfour : 4 ≤ entryAddress i := Nat.le_add_right _ _
  rcases blockAddress_cases m i with ⟨hsmall, haddress, hsize⟩ | ⟨hlarge, haddress⟩
  · -- only the data field of the entry is written
    have hnumber : ∀ addr n, addr + n ≤ entryAddress i + 4 ∨ entryAddress i + 8 ≤ addr →
        numberAt (writeData m i input) addr n = numberAt m addr n := by
      intro addr n hout
      unfold writeData
      rw [haddress]
      exact numberAt_writeBlock_apart m _ (by omega)
    have hother : ∀ j, j ≠ i → entryAt (writeData m i input) j = entryAt m j := by
      intro j hne
      refine entryAt_congr fun a ha => ?_
      have hapart := entryAddress_inj hne
      have hlow : entryAddress j ≤ a := ha.1
      have hhigh : a < entryAddress j + 12 := ha.2
      unfold writeData
      rw [haddress, writeBlock, if_neg (by omega)]
    refine
      { total := hnumber 0 2 (Or.inl (by omega)), area := hnumber 2 2 (Or.inl (by omega))
        blockId := fun j _ => ?_, size := fun j _ => ?_, accessFlags := fun j _ => ?_
        offset := fun j _ hbig => ?_ }
    · by_cases hne : j = i
      · rw [hne, entryAt, hnumber _ 4 (Or.inl (Nat.le_refl _)), entryAt]
      · rw [hother j hne]
    · by_cases hne : j = i
      · rw [hne, entryAt, hnumber (entryAddress i + 8) 2 (Or.inr (by omega)), entryAt]
      · rw [hother j hne]
    · by_cases hne : j = i
      · rw [hne, entryAt, hnumber (entryAddress i + 10) 2 (Or.inr (by omega)), entryAt]
      · rw [hother j hne]
    · by_cases hne : j = i
      · exact absurd (hne ▸ hbig) hsmall
      · rw [hother j hne]
  · -- only bytes behind the entries are written
    have hbehind := hset.1 hlarge
    have hframe : ∀ a < entryAddress (liveEntries m), writeData m i input a = m a := by
      intro a ha
      unfold writeData
      rw [haddress, writeBlock, if_neg (by omega)]
    obtain ⟨harea, hsame⟩ := header_of_frame fun a _ ha => hframe a ha
    have hnumber : totalEntries (writeData m i input) = totalEntries m :=
      numberAt_congr fun a ha => hframe a
        (Nat.lt_of_lt_of_le ha.2 (Nat.le_trans (by decide) (Nat.le_add_right 4 _)))
    refine
      { total := hnumber, area := harea
        blockId := fun j hj => by rw [hsame j hj], size := fun j hj => by rw [hsame j hj]
        accessFlags := fun j hj => by rw [hsame j hj], offset := fun j hj _ => by rw [hsame j hj] }

/-- The block that was written. -/
theorem blockAt_writeData_self {m : Memory} {i : Nat} (hi : i < liveEntries m) (hset : SetFits m i)
    (input : List UInt8) :
    blockAt (writeData m i input) i =
      ⟨(entryAt m i).accessFlags, copied input (entryAt m i).size.toNat⟩ := by
  have hheader := sameHeader_writeData hset input
  unfold blockAt
  rw [hheader.accessFlags i hi, hheader.size i hi, hheader.blockAddress hi]
  congr 1
  exact readBlock_writeBlock_copied _ _ _ _

/-- The other blocks are left. -/
theorem blockAt_writeData_ne {m : Memory} (hwf : WellFormed m) {i j : Nat} (hi : i < liveEntries m)
    (hj : j < liveEntries m) (hne : i ≠ j) (hset : SetFits m i) (input : List UInt8) :
    blockAt (writeData m i input) j = blockAt m j := by
  have hheader := sameHeader_writeData hset input
  unfold blockAt
  rw [hheader.accessFlags j hj, hheader.size j hj, hheader.blockAddress hj]
  congr 1
  refine readBlock_congr fun a ha => ?_
  have hlow := ha.1
  have hhigh := ha.2
  have hentries := entryAddress_inj hne
  unfold writeData
  rw [writeBlock, if_neg]
  rcases blockAddress_cases m i with ⟨hsmallI, haddressI, hsizeI⟩ | ⟨hlargeI, haddressI⟩ <;>
    rcases blockAddress_cases m j with ⟨-, haddressJ, hsizeJ⟩ | ⟨hlargeJ, haddressJ⟩
  · omega
  · have hap := hset.2 hsmallI j hj hlargeJ
    unfold Apart dataEnd at hap
    omega
  · have hbehind := hset.1 hlargeI
    have hentryJ : entryAddress j + 12 ≤ entryAddress (liveEntries m) := by
      unfold entryAddress
      omega
    omega
  · have hap := hwf.disjoint i hi j hj hne hlargeI hlargeJ
    unfold Apart dataEnd at hap
    omega

/-- The data of a block is in the buffer. -/
theorem blockAddress_inside {m : Memory} (hwf : WellFormed m) {i : Nat} (hi : i < liveEntries m) :
    blockAddress m i + (entryAt m i).size.toNat ≤ configSavefileSize := by
  rcases blockAddress_cases m i with ⟨-, haddress, hsize⟩ | ⟨hlarge, haddress⟩
  · have hheader := entryAddress_le (entry_of_live hi)
    have hle : saveFileConfigSize ≤ configSavefileSize := by decide
    omega
  · rw [haddress]
    exact (hwf.inside i hi hlarge).2

/-- An entry is found by its id. -/
theorem findEntry_of_live {m : Memory} (hwf : WellFormed m) {i : Nat} (hi : i < liveEntries m) :
    findEntry m (entryAt m i).blockId = some i := by
  unfold findEntry
  rw [List.find?_range_eq_some]
  refine ⟨by simp, List.mem_range.2 (entry_of_live hi), fun j hj => ?_⟩
  have hne : (entryAt m j).blockId ≠ (entryAt m i).blockId := fun heq =>
    absurd (hwf.distinct j (Nat.lt_trans hj hi) i hi heq) (Nat.ne_of_lt hj)
  simpa using hne

end AzaharPlus.Service
