import AzaharPlus.Service.ConfigBlocks
import Mathlib.Logic.Function.Basic

/-!
# Runs of the config service

The config buffer against what it is for: a store that gives each id a block.  As long as every block
that is created fits, and every block that is set has its bytes for itself, the operations do to the
buffer what they do to the store.

* `pointer_represents` — the lookup of a block, with the creation of a missing one from its default.
* `step_represents`, `run_represents` — one operation, and runs.
* `config_store` — the creation, the setting and the reading of blocks.
-/

namespace AzaharPlus.Service

open Bytes BlockMemory

/-! ## The store -/

/-- A store of blocks, with the number of blocks. -/
structure BlockStore where
  count : Nat
  block : UInt32 → Option ConfigBlock

/-- A block is created; there is room for a fixed number of them. -/
def BlockStore.create (st : BlockStore) (blockId : UInt32) (size accessFlags : UInt16)
    (data : List UInt8) : ConfigResult × BlockStore :=
  if configFileMaxBlockEntries ≤ st.count then (.unknown, st)
  else
    (.success, ⟨st.count + 1,
      Function.update st.block blockId (some ⟨accessFlags, copied data size.toNat⟩)⟩)

/-- A block is looked up; a missing one is created from its default. -/
def BlockStore.lookup (defaults : UInt32 → Option ConfigBlockDefaults) (st : BlockStore)
    (blockId : UInt32) : Except ConfigResult ConfigBlock × BlockStore :=
  match st.block blockId with
  | some b => (.ok b, st)
  | none =>
      match defaults blockId with
      | none => (.error .notFound, st)
      | some d =>
          if configFileMaxBlockEntries ≤ st.count then (.error .unknown, st)
          else
            (.ok ⟨d.accessFlags, copied d.data (UInt16.ofNat d.data.length).toNat⟩,
              (st.create blockId (UInt16.ofNat d.data.length) d.accessFlags d.data).2)

/-- The access flag and the size have to be right. -/
def ConfigBlock.check (b : ConfigBlock) (size : UInt32) (accessFlag : UInt16) : ConfigResult :=
  if b.accessFlags &&& accessFlag = 0 then .notAuthorized
  else if b.bytes.length ≠ size.toNat then .invalidSize
  else .success

/-! ## Operations -/

/-- The operations of the service. -/
inductive ConfigOp
  | create (blockId : UInt32) (size accessFlags : UInt16) (data : List UInt8)
  | get (blockId size : UInt32) (accessFlag : UInt16)
  | set (blockId size : UInt32) (accessFlag : UInt16) (input : List UInt8)

/-- A result, with the bytes that are put out. -/
abbrev ConfigOutcome := ConfigResult × List UInt8

/-- The outcome of a read. -/
def readOutcome : Except ConfigResult (List UInt8) → ConfigOutcome
  | .ok bytes => (.success, bytes)
  | .error e => (e, [])

/-- An operation on the buffer. -/
def ConfigState.step (defaults : UInt32 → Option ConfigBlockDefaults) (s : ConfigState) :
    ConfigOp → Option (ConfigOutcome × ConfigState)
  | .create blockId size accessFlags data =>
      (createConfigBlock s.buffer blockId size accessFlags data).map fun r =>
        ((r.1, []), { s with buffer := r.2 })
  | .get blockId size accessFlag =>
      (getConfigBlock defaults s blockId size accessFlag).map fun r => (readOutcome r.1, r.2)
  | .set blockId size accessFlag input =>
      (setConfigBlock defaults s blockId size accessFlag input).map fun r => ((r.1, []), r.2)

/-- An operation on the store. -/
def BlockStore.step (defaults : UInt32 → Option ConfigBlockDefaults) (st : BlockStore) :
    ConfigOp → ConfigOutcome × BlockStore
  | .create blockId size accessFlags data =>
      (((st.create blockId size accessFlags data).1, []),
        (st.create blockId size accessFlags data).2)
  | .get blockId size accessFlag =>
      match st.lookup defaults blockId with
      | (.error e, st) => ((e, []), st)
      | (.ok b, st) =>
          if b.check size accessFlag = .success then ((.success, b.bytes), st)
          else ((b.check size accessFlag, []), st)
  | .set blockId size accessFlag input =>
      match st.lookup defaults blockId with
      | (.error e, st) => ((e, []), st)
      | (.ok b, st) =>
          if b.check size accessFlag = .success then
            ((.success, []), { st with
              block := Function.update st.block blockId
                (some ⟨b.accessFlags, copied input size.toNat⟩) })
          else ((b.check size accessFlag, []), st)

/-- A run on the buffer: the outcomes, and what is left. -/
def ConfigState.run (defaults : UInt32 → Option ConfigBlockDefaults) :
    List ConfigOp → ConfigState → Option (List ConfigOutcome × ConfigState)
  | [], s => some ([], s)
  | op :: ops, s =>
      match s.step defaults op with
      | none => none
      | some (outcome, s) => (ConfigState.run defaults ops s).map fun r => (outcome :: r.1, r.2)

/-- A run on the store. -/
def BlockStore.run (defaults : UInt32 → Option ConfigBlockDefaults) :
    List ConfigOp → BlockStore → List ConfigOutcome × BlockStore
  | [], st => ([], st)
  | op :: ops, st =>
      ((st.step defaults op).1 :: (BlockStore.run defaults ops (st.step defaults op).2).1,
        (BlockStore.run defaults ops (st.step defaults op).2).2)

/-! ## The buffer of a store -/

/-- A buffer holds the blocks of a store. -/
structure Represents (m : Memory) (st : BlockStore) : Prop where
  wellFormed : WellFormed m
  count : totalEntries m = st.count
  present : ∀ i < liveEntries m, st.block (entryAt m i).blockId = some (blockAt m i)
  absent : ∀ blockId, IsNew m blockId → st.block blockId = none

/-- A block that is looked up is there, or no stale entry has its id and its default fits. -/
def LookupFits (defaults : UInt32 → Option ConfigBlockDefaults) (m : Memory) (blockId : UInt32) :
    Prop :=
  IsNew m blockId → findEntry m blockId = none ∧ ∀ d, defaults blockId = some d →
    Fits m blockId (UInt16.ofNat d.data.length) d.accessFlags d.data

/-- A block that is set has its bytes for itself, and so has one that is created from its default. -/
def SettingFits (defaults : UInt32 → Option ConfigBlockDefaults) (m : Memory) (blockId : UInt32) :
    Prop :=
  (∀ i < liveEntries m, (entryAt m i).blockId = blockId → SetFits m i) ∧
    (IsNew m blockId → ∀ d, defaults blockId = some d → totalEntries m < configFileMaxBlockEntries →
      ∀ j < liveEntries m, IsLarge m j →
        Apart m j (entryAddress (totalEntries m) + 4) (UInt16.ofNat d.data.length).toNat)

/-- What an operation creates or sets fits. -/
def OpFits (defaults : UInt32 → Option ConfigBlockDefaults) (m : Memory) : ConfigOp → Prop
  | .create blockId size accessFlags data => IsNew m blockId ∧ Fits m blockId size accessFlags data
  | .get blockId _ _ => LookupFits defaults m blockId
  | .set blockId _ _ _ => LookupFits defaults m blockId ∧ SettingFits defaults m blockId

/-- All operations of a run fit. -/
def RunFits (defaults : UInt32 → Option ConfigBlockDefaults) : List ConfigOp → ConfigState → Prop
  | [], _ => True
  | op :: ops, s =>
      OpFits defaults s.buffer op ∧
        ∀ outcome s', s.step defaults op = some (outcome, s') → RunFits defaults ops s'

section

variable {defaults : UInt32 → Option ConfigBlockDefaults}

/-- A creation puts its block into the store. -/
theorem create_represents {m : Memory} {st : BlockStore} (h : Represents m st) {blockId : UInt32}
    (hnew : IsNew m blockId) {size accessFlags : UInt16} {data : List UInt8}
    (hfits : Fits m blockId size accessFlags data) :
    ∃ m', createConfigBlock m blockId size accessFlags data =
        some ((st.create blockId size accessFlags data).1, m') ∧
      Represents m' (st.create blockId size accessFlags data).2 ∧
      (totalEntries m < configFileMaxBlockEntries →
        totalEntries m < liveEntries m' ∧ Created m m' blockId size accessFlags data) := by
  by_cases hfull : configFileMaxBlockEntries ≤ totalEntries m
  · have hcreate : st.create blockId size accessFlags data = (.unknown, st) :=
      if_pos (h.count ▸ hfull)
    rw [hcreate]
    exact ⟨m, createConfigBlock_full blockId size accessFlags data hfull, h, fun hroom =>
      absurd hroom (Nat.not_lt.2 hfull)⟩
  · have hroom : totalEntries m < configFileMaxBlockEntries := Nat.lt_of_not_le hfull
    have hlive : liveEntries m = totalEntries m := liveEntries_eq hroom
    have hcreate : st.create blockId size accessFlags data = (.success, ⟨st.count + 1,
        Function.update st.block blockId (some ⟨accessFlags, copied data size.toNat⟩)⟩) :=
      if_neg (h.count ▸ hfull)
    obtain ⟨hdata, hkeeps⟩ := hfits.resolve_left hfull
    obtain ⟨m', hcreated, hspec, hwf, hblocks⟩ :=
      createConfigBlock_spec h.wellFormed hnew hdata hkeeps hroom
    have hlive' : liveEntries m' = totalEntries m + 1 := by
      unfold liveEntries
      rw [hspec.total]
      exact Nat.min_eq_left hroom
    have hold := hspec.old
    have hown : blockAt m' (totalEntries m) = ⟨accessFlags, copied data size.toNat⟩ := by
      rw [blockAt, hspec.ownFlags, hspec.ownSize, hspec.ownData]
    rw [hcreate]
    refine ⟨m', hcreated, ?_, fun _ => ⟨by rw [hlive']; exact Nat.lt_succ_self _, hspec⟩⟩
    refine ⟨hwf, ?_, fun i hi => ?_, fun id hid => ?_⟩
    · rw [hspec.total, h.count]
    · rw [hlive'] at hi
      rcases Nat.lt_succ_iff_lt_or_eq.1 hi with hi | rfl
      · have hne : (entryAt m i).blockId ≠ blockId := hnew i (hlive ▸ hi)
        rw [hold i hi, hblocks i hi]
        exact (Function.update_of_ne hne _ _).trans (h.present i (hlive ▸ hi))
      · rw [hspec.ownId, hown]
        exact Function.update_self _ _ _
    · have hne : id ≠ blockId := fun heq =>
        hid (totalEntries m) (by rw [hlive']; exact Nat.lt_succ_self _) (heq ▸ hspec.ownId)
      refine (Function.update_of_ne hne _ _).trans (h.absent id fun i hi => ?_)
      rw [hlive] at hi
      rw [← hold i hi]
      exact hid i (by rw [hlive']; exact Nat.lt_succ_of_lt hi)

/-- The lookup of a block. -/
theorem pointer_represents {s : ConfigState} {st : BlockStore} (h : Represents s.buffer st)
    (blockId size : UInt32) (accessFlag : UInt16) (hfits : LookupFits defaults s.buffer blockId) :
    ∃ s', Represents s'.buffer (st.lookup defaults blockId).2 ∧
      ((∃ e, (st.lookup defaults blockId).1 = .error e ∧
          getConfigBlockPointer defaults s blockId size accessFlag = some (.error e, s')) ∨
        ∃ i < liveEntries s'.buffer, (entryAt s'.buffer i).blockId = blockId ∧
          (st.lookup defaults blockId).1 = .ok (blockAt s'.buffer i) ∧
          getConfigBlockPointer defaults s blockId size accessFlag =
            some (checkEntry s'.buffer i size accessFlag, s') ∧
          (SettingFits defaults s.buffer blockId → SetFits s'.buffer i)) := by
  by_cases hnew : IsNew s.buffer blockId
  · obtain ⟨hnotFound, hdefault⟩ := hfits hnew
    have hnone := h.absent blockId hnew
    unfold getConfigBlockPointer BlockStore.lookup
    rw [hnotFound, hnone]
    cases hd : defaults blockId with
    | none => exact ⟨s, h, Or.inl ⟨.notFound, rfl, rfl⟩⟩
    | some d =>
      obtain ⟨m', hcreate, hrepresents, hown⟩ := create_represents h hnew (hdefault d hd)
      by_cases hfull : configFileMaxBlockEntries ≤ st.count
      · have hresult : st.create blockId (UInt16.ofNat d.data.length) d.accessFlags d.data =
            (.unknown, st) := if_pos hfull
        rw [hresult] at hcreate hrepresents
        simp only [hcreate, if_pos hfull]
        exact ⟨⟨m', s.savegame⟩, hrepresents, Or.inl ⟨.unknown, rfl, rfl⟩⟩
      · have hresult : (st.create blockId (UInt16.ofNat d.data.length) d.accessFlags d.data).1 =
            .success := congrArg Prod.fst (if_neg hfull)
        have hroom : totalEntries s.buffer < configFileMaxBlockEntries :=
          h.count ▸ Nat.lt_of_not_le hfull
        obtain ⟨hlt, hspec⟩ := hown hroom
        have hid := hspec.ownId
        have hblock : blockAt m' (totalEntries s.buffer) =
            ⟨d.accessFlags, copied d.data (UInt16.ofNat d.data.length).toNat⟩ := by
          rw [blockAt, hspec.ownFlags, hspec.ownSize, hspec.ownData]
        have hset : SettingFits defaults s.buffer blockId → SetFits m' (totalEntries s.buffer) :=
          fun hsetting => hspec.setFits hroom
            ((hdefault d hd).resolve_left (Nat.not_le.2 hroom)).1 (hsetting.2 hnew d hd hroom)
        have hfind : findEntry m' blockId = some (totalEntries s.buffer) := by
          rw [← hid]
          exact findEntry_of_live hrepresents.wellFormed hlt
        rw [hresult] at hcreate
        simp only [hcreate, if_neg hfull, hfind, Option.map_some]
        exact ⟨⟨m', m'⟩, hrepresents,
          Or.inr ⟨totalEntries s.buffer, hlt, hid, by rw [hblock], rfl, hset⟩⟩
  · obtain ⟨i, hi, hid⟩ : ∃ i < liveEntries s.buffer, (entryAt s.buffer i).blockId = blockId := by
      by_contra hnone
      exact hnew fun i hi heq => hnone ⟨i, hi, heq⟩
    have hfind : findEntry s.buffer blockId = some i := hid ▸ findEntry_of_live h.wellFormed hi
    have hpresent : st.block blockId = some (blockAt s.buffer i) := hid ▸ h.present i hi
    unfold getConfigBlockPointer BlockStore.lookup
    rw [hfind, hpresent]
    exact ⟨s, h, Or.inr ⟨i, hi, hid, rfl, rfl, fun hsetting => hsetting.1 i hi hid⟩⟩

/-! ## Reading and setting -/

/-- The checks of an entry are those of its block. -/
theorem checkEntry_eq (m : Memory) (i : Nat) (size : UInt32) (accessFlag : UInt16) :
    ((blockAt m i).check size accessFlag = .success ∧
        checkEntry m i size accessFlag = .ok (blockAddress m i) ∧
        size.toNat = (entryAt m i).size.toNat) ∨
      ((blockAt m i).check size accessFlag ≠ .success ∧
        checkEntry m i size accessFlag = .error ((blockAt m i).check size accessFlag)) := by
  unfold ConfigBlock.check checkEntry
  have hlength : (blockAt m i).bytes.length = (entryAt m i).size.toNat := length_readBlock _ _ _
  have hflags : (blockAt m i).accessFlags = (entryAt m i).accessFlags := rfl
  rw [hlength, hflags]
  by_cases haccess : (entryAt m i).accessFlags &&& accessFlag = 0
  · rw [if_pos haccess, if_pos haccess]
    exact Or.inr ⟨by decide, rfl⟩
  · rw [if_neg haccess, if_neg haccess]
    by_cases hsize : (entryAt m i).size.toNat = size.toNat
    · have heq : (entryAt m i).size.toUInt32 = size := by
        rw [← UInt32.toNat_inj, UInt16.toNat_toUInt32, hsize]
      rw [if_neg (not_not.2 hsize), if_neg (not_not.2 heq)]
      exact Or.inl ⟨rfl, rfl, hsize.symm⟩
    · have hne : (entryAt m i).size.toUInt32 ≠ size := by
        rw [Ne, ← UInt32.toNat_inj, UInt16.toNat_toUInt32]
        exact hsize
      rw [if_pos hsize, if_pos hne]
      exact Or.inr ⟨by decide, rfl⟩

/-- A block that is set is changed in the store. -/
theorem writeData_represents {m : Memory} {st : BlockStore} (h : Represents m st) {i : Nat}
    (hi : i < liveEntries m) (hset : SetFits m i) (input : List UInt8) :
    Represents (writeData m i input) { st with
      block := Function.update st.block (entryAt m i).blockId
        (some ⟨(entryAt m i).accessFlags, copied input (entryAt m i).size.toNat⟩) } := by
  have hheader := sameHeader_writeData hset input
  refine ⟨hheader.wellFormed h.wellFormed, hheader.total.trans h.count, fun j hj => ?_,
    fun id hid => ?_⟩
  · rw [hheader.live] at hj
    rw [hheader.blockId j hj]
    by_cases hne : i = j
    · subst hne
      rw [blockAt_writeData_self hi hset]
      exact Function.update_self _ _ _
    · have hids : (entryAt m j).blockId ≠ (entryAt m i).blockId := fun heq =>
        hne (h.wellFormed.distinct j hj i hi heq).symm
      rw [blockAt_writeData_ne h.wellFormed hi hj hne hset]
      exact (Function.update_of_ne hids _ _).trans (h.present j hj)
  · have hold : IsNew m id := by
      intro j hj
      rw [← hheader.blockId j hj]
      exact hid j (hheader.live ▸ hj)
    exact (Function.update_of_ne (hold i hi).symm _ _).trans (h.absent id hold)

/-- An operation that fits does to the buffer what it does to the store. -/
theorem step_represents {s : ConfigState} {st : BlockStore} (h : Represents s.buffer st)
    {op : ConfigOp} (hfits : OpFits defaults s.buffer op) :
    ∃ s', s.step defaults op = some ((st.step defaults op).1, s') ∧
      Represents s'.buffer (st.step defaults op).2 := by
  cases op with
  | create blockId size accessFlags data =>
    obtain ⟨m', hcreate, hrepresents, -⟩ := create_represents h hfits.1 hfits.2
    unfold ConfigState.step
    simp only [hcreate, Option.map_some]
    exact ⟨{ s with buffer := m' }, rfl, hrepresents⟩
  | get blockId size accessFlag =>
    obtain ⟨s', hrepresents, hpointer⟩ := pointer_represents h blockId size accessFlag hfits
    obtain ⟨⟨found, st'⟩, hlookup⟩ : ∃ r, st.lookup defaults blockId = r := ⟨_, rfl⟩
    rw [hlookup] at hrepresents hpointer
    unfold ConfigState.step getConfigBlock BlockStore.step
    simp only [hlookup]
    rcases hpointer with ⟨e, hfound, hpointer⟩ | ⟨i, hi, hid, hfound, hpointer, -⟩
    · simp only at hfound
      rw [hpointer, hfound]
      exact ⟨s', rfl, hrepresents⟩
    · simp only at hfound
      rw [hpointer, hfound]
      rcases checkEntry_eq s'.buffer i size accessFlag with ⟨hcheck, hentry, hsize⟩ |
        ⟨hcheck, hentry⟩
      · simp only [hentry, hcheck, if_true]
        rw [hsize, if_pos (blockAddress_inside hrepresents.wellFormed hi)]
        exact ⟨s', rfl, hrepresents⟩
      · simp only [hentry, if_neg hcheck]
        exact ⟨s', rfl, hrepresents⟩
  | set blockId size accessFlag input =>
    obtain ⟨s', hrepresents, hpointer⟩ := pointer_represents h blockId size accessFlag hfits.1
    obtain ⟨⟨found, st'⟩, hlookup⟩ : ∃ r, st.lookup defaults blockId = r := ⟨_, rfl⟩
    rw [hlookup] at hrepresents hpointer
    unfold ConfigState.step setConfigBlock BlockStore.step
    simp only [hlookup]
    rcases hpointer with ⟨e, hfound, hpointer⟩ | ⟨i, hi, hid, hfound, hpointer, hset⟩
    · simp only at hfound
      rw [hpointer, hfound]
      exact ⟨s', rfl, hrepresents⟩
    · simp only at hfound
      rw [hpointer, hfound]
      rcases checkEntry_eq s'.buffer i size accessFlag with ⟨hcheck, hentry, hsize⟩ |
        ⟨hcheck, hentry⟩
      · simp only [hentry, hcheck, if_true]
        rw [hsize, if_pos (blockAddress_inside hrepresents.wellFormed hi)]
        refine ⟨_, rfl, ?_⟩
        have hwritten := writeData_represents hrepresents hi (hset hfits.2) input
        rw [hid] at hwritten
        exact hwritten
      · simp only [hentry, if_neg hcheck]
        exact ⟨s', rfl, hrepresents⟩

/-- A run in which all that is created or set fits does to the buffer what it does to the store. -/
theorem run_represents (ops : List ConfigOp) {s : ConfigState} {st : BlockStore}
    (h : Represents s.buffer st) (hfits : RunFits defaults ops s) :
    ∃ s', s.run defaults ops = some ((st.run defaults ops).1, s') ∧
      Represents s'.buffer (st.run defaults ops).2 := by
  induction ops generalizing s st with
  | nil => exact ⟨s, rfl, h⟩
  | cons op ops ih =>
    obtain ⟨s₁, hstep, hrepresents⟩ := step_represents h hfits.1
    obtain ⟨s₂, hrun, hrest⟩ := ih hrepresents (hfits.2 _ _ hstep)
    rw [ConfigState.run, hstep]
    simp only [hrun, Option.map_some]
    exact ⟨s₂, rfl, hrest⟩

/-! ## The store of a buffer -/

/-- The store a buffer holds. -/
def storeOf (m : Memory) : BlockStore where
  count := totalEntries m
  block blockId :=
    ((List.range (liveEntries m)).find? fun i => (entryAt m i).blockId = blockId).map (blockAt m)

theorem represents_storeOf {m : Memory} (hwf : WellFormed m) : Represents m (storeOf m) := by
  refine ⟨hwf, rfl, fun i hi => ?_, fun id hid => ?_⟩
  · have hfind : (List.range (liveEntries m)).find?
        (fun j => (entryAt m j).blockId = (entryAt m i).blockId) = some i := by
      rw [List.find?_range_eq_some]
      refine ⟨by simp, List.mem_range.2 hi, fun j hj => ?_⟩
      have hne : (entryAt m j).blockId ≠ (entryAt m i).blockId := fun heq =>
        absurd (hwf.distinct j (Nat.lt_trans hj hi) i hi heq) (Nat.ne_of_lt hj)
      simpa using hne
    unfold storeOf
    simp only [hfind, Option.map_some]
  · unfold storeOf
    simp only [Option.map_eq_none_iff, List.find?_eq_none]
    intro i hi
    simpa using hid i (List.mem_range.1 hi)

/-- A block that is there is read, and a read changes nothing. -/
theorem getConfigBlock_live {s : ConfigState} (hwf : WellFormed s.buffer) {i : Nat}
    (hi : i < liveEntries s.buffer) (size : UInt32) (accessFlag : UInt16) :
    getConfigBlock defaults s (entryAt s.buffer i).blockId size accessFlag =
      some (if (blockAt s.buffer i).check size accessFlag = .success then
          .ok (blockAt s.buffer i).bytes
        else .error ((blockAt s.buffer i).check size accessFlag), s) := by
  unfold getConfigBlock getConfigBlockPointer
  rw [findEntry_of_live hwf hi]
  rcases checkEntry_eq s.buffer i size accessFlag with ⟨hcheck, hentry, hsize⟩ | ⟨hcheck, hentry⟩
  · simp only [hentry, hcheck, if_true]
    rw [hsize, if_pos (blockAddress_inside hwf hi)]
    rfl
  · simp only [hentry, if_neg hcheck]

/-- A block that is there is set: its bytes are changed and no others. -/
theorem setConfigBlock_live {s : ConfigState} (hwf : WellFormed s.buffer) {i : Nat}
    (hi : i < liveEntries s.buffer) (size : UInt32) (accessFlag : UInt16) (input : List UInt8) :
    setConfigBlock defaults s (entryAt s.buffer i).blockId size accessFlag input =
      some (if (blockAt s.buffer i).check size accessFlag = .success then
          (.success, { s with buffer := writeData s.buffer i input })
        else ((blockAt s.buffer i).check size accessFlag, s)) := by
  unfold setConfigBlock getConfigBlockPointer
  rw [findEntry_of_live hwf hi]
  rcases checkEntry_eq s.buffer i size accessFlag with ⟨hcheck, hentry, hsize⟩ | ⟨hcheck, hentry⟩
  · simp only [hentry, hcheck, if_true]
    rw [hsize, if_pos (blockAddress_inside hwf hi)]
    rfl
  · simp only [hentry, if_neg hcheck]

end

/-- The config store over a well-formed buffer.  A creation keeps the store, whatever its data, exactly
when it fits, and with given data behind the entries; a set changes the bytes of its block and no
others, and leaves the other blocks if it has its bytes for itself; a read gives them; and in runs in
which all that is created or set fits, reads give the bytes last created or set. -/
theorem config_store (defaults : UInt32 → Option ConfigBlockDefaults) (s : ConfigState)
    (hwf : WellFormed s.buffer) :
    (∀ blockId size accessFlags, IsNew s.buffer blockId →
        ((∀ data, CreateMeets s.buffer blockId size accessFlags data) ↔
          ∀ data, Fits s.buffer blockId size accessFlags data) ∧
        ((4 < size → entryAddress (totalEntries s.buffer + 1) ≤
            (nextOffset s.buffer (totalEntries s.buffer)).toNat) →
          ∀ data, CreateMeets s.buffer blockId size accessFlags data ↔
            Fits s.buffer blockId size accessFlags data)) ∧
      (∀ i < liveEntries s.buffer, ∀ size accessFlag input,
        ((blockAt s.buffer i).check size accessFlag = .success →
          ∃ m', setConfigBlock defaults s (entryAt s.buffer i).blockId size accessFlag input =
              some (.success, { s with buffer := m' }) ∧
            readBlock m' (blockAddress s.buffer i) size.toNat = copied input size.toNat ∧
            (∀ a, (a < blockAddress s.buffer i ∨ blockAddress s.buffer i + size.toNat ≤ a) →
              m' a = s.buffer a) ∧
            (SetFits s.buffer i → WellFormed m' ∧
              blockAt m' i = ⟨(entryAt s.buffer i).accessFlags, copied input size.toNat⟩ ∧
              ∀ j < liveEntries s.buffer, i ≠ j → blockAt m' j = blockAt s.buffer j)) ∧
        ((blockAt s.buffer i).check size accessFlag ≠ .success →
          setConfigBlock defaults s (entryAt s.buffer i).blockId size accessFlag input =
            some ((blockAt s.buffer i).check size accessFlag, s))) ∧
      (∀ i < liveEntries s.buffer, ∀ size accessFlag,
        getConfigBlock defaults s (entryAt s.buffer i).blockId size accessFlag =
          some (if (blockAt s.buffer i).check size accessFlag = .success then
              .ok (blockAt s.buffer i).bytes
            else .error ((blockAt s.buffer i).check size accessFlag), s)) ∧
      ∀ ops, RunFits defaults ops s →
        ∃ s', s.run defaults ops = some (((storeOf s.buffer).run defaults ops).1, s') ∧
          Represents s'.buffer ((storeOf s.buffer).run defaults ops).2 := by
  refine ⟨fun blockId size accessFlags hnew => ⟨create_meets_iff hwf hnew size accessFlags,
      fun hbehind data => create_meets_behind hwf hnew accessFlags data hbehind⟩, ?_,
    fun i hi size accessFlag => getConfigBlock_live hwf hi size accessFlag,
    fun ops => run_represents ops (represents_storeOf hwf)⟩
  intro i hi size accessFlag input
  constructor
  · intro hcheck
    have hsize : size.toNat = (entryAt s.buffer i).size.toNat := by
      rcases checkEntry_eq s.buffer i size accessFlag with ⟨-, -, hsize⟩ | ⟨hfailed, -⟩
      · exact hsize
      · exact absurd hcheck hfailed
    refine ⟨writeData s.buffer i input, ?_, ?_, fun a ha => ?_, fun hset =>
      ⟨(sameHeader_writeData hset input).wellFormed hwf, ?_,
        fun j hj hne => blockAt_writeData_ne hwf hi hj hne hset input⟩⟩
    · rw [setConfigBlock_live hwf hi, if_pos hcheck]
    · rw [hsize]
      exact readBlock_writeBlock_copied _ _ _ _
    · unfold writeData
      rw [writeBlock, if_neg (by omega)]
    · rw [blockAt_writeData_self hi hset, hsize]
  · intro hcheck
    rw [setConfigBlock_live hwf hi, if_neg hcheck]

/-! ## Buffers from outside -/

/-- A buffer with two large blocks, the last of which is not the last of the data area. -/
def unordered : Memory :=
  writeEntry (writeEntry (writeNumber (writeNumber (fun _ => 0) 0 2 2) 2 2 0x455C)
    0 ⟨1, 0x456C, 8, 0xE⟩) 1 ⟨2, 0x455C, 8, 0xE⟩

theorem wellFormed_unordered : WellFormed unordered :=
  ⟨by decide +kernel, by decide +kernel, by decide +kernel⟩

/-- A buffer whose data area is full. -/
def fullArea : Memory :=
  writeEntry (writeNumber (writeNumber (fun _ => 0) 0 2 1) 2 2 0x455C) 0 ⟨1, 0x7000, 0x1000, 0xE⟩

/-- A buffer without entries whose data area begins at its start. -/
def zeroBuffer : Memory := fun _ => 0

theorem config_store_unordered :
    CreateMeets unordered 3 2 0xE [7, 8] ∧ CreateMeets zeroBuffer 1 4 0xE [1, 2, 3, 4] ∧
      getConfigBlock (fun _ => none) ⟨unordered, unordered⟩ 1 8 4 =
        some (.ok (List.replicate 8 0), ⟨unordered, unordered⟩) := by
  have hstore := config_store (fun _ => none) ⟨unordered, unordered⟩ wellFormed_unordered
  have hzero := config_store (fun _ => none) ⟨zeroBuffer, zeroBuffer⟩
    ⟨by decide +kernel, by decide +kernel, by decide +kernel⟩
  refine ⟨((hstore.1 3 2 0xE (by decide +kernel)).2 (by decide) [7, 8]).2 (by decide +kernel),
    ((hzero.1 1 4 0xE (by decide +kernel)).2 (by decide) [1, 2, 3, 4]).2 (by decide +kernel), ?_⟩
  have hread := hstore.2.2.1 0 (by decide +kernel) 8 4
  rw [show (entryAt unordered 0).blockId = 1 by decide +kernel] at hread
  rw [hread, if_pos (by decide +kernel)]
  congr 1

/-- A new block is put over another one, and behind the end of the buffer. -/
theorem create_overwrites :
    (WellFormed unordered ∧ IsNew unordered 3 ∧
        ¬ CreateMeets unordered 3 16 0xE (List.replicate 16 1)) ∧
      WellFormed fullArea ∧ IsNew fullArea 3 ∧
        createConfigBlock fullArea 3 8 0xE (List.replicate 8 1) = none := by
  have hnew : IsNew unordered 3 := by decide +kernel
  refine ⟨⟨wellFormed_unordered, hnew, fun h => ?_⟩, ?_⟩
  · have hfits := (create_meets_behind wellFormed_unordered hnew 0xE _ (by decide +kernel)).1 h
    have hnot : ¬ Fits unordered 3 16 0xE (List.replicate 16 1) := by decide +kernel
    exact hnot hfits
  · refine ⟨⟨by decide +kernel, by decide +kernel, by decide +kernel⟩, by decide +kernel, ?_⟩
    refine (createConfigBlock_large 3 0xE _ (by decide +kernel) (by decide) (by decide +kernel)).2 ?_
    decide +kernel

end AzaharPlus.Service
