import AzaharPlus.Kernel.MappedBlocks
import AzaharPlus.Kernel.Regions

/-!
# The calls on the memory of a process

`HeapAllocate`, `HeapFree`, `LinearAllocate`, `LinearFree`, `Map` and `Unmap` as one type of calls, with the
privileged forms of the last two, and what each of them has done when it returns (`heapAllocate_cases` and so on).
Each of them either fails and changes nothing or does all of its work, except for `Unmap`: it may fail after it has
unmapped the target.
-/

namespace AzaharPlus.Kernel

open Tiling Intervals

/-! ## The calls -/

namespace ProcessMemory

section

variable (isCached : Nat → Bool)

/-- The part of `Process::Map` behind its checks. -/
def mapChecked (p : ProcessMemory) (target source size : Nat) (perms : VMAPermission)
    (sourceState targetState : MemoryState) (sourcePerm : VMAPermission) :
    Option (Except MemoryError Unit × ProcessMemory) := do
  if ← p.targetTaken target size then some (.error .invalidAddressState, p)
  else
    match ← p.vmManager.changeMemoryState isCached source size .private_ permReadWrite sourceState
        sourcePerm with
    | (.error e, m) => some (.error e.toMemoryError, { p with vmManager := m })
    | (.ok (), m) =>
        match ← m.getBackingBlocksForRange source size with
        | .error e => some (.error e.toMemoryError, { p with vmManager := m })
        | .ok blocks =>
            let m ← m.mapBlocks isCached targetState perms blocks target
            some (.ok (), { p with vmManager := m })

/-- The part of `Process::Unmap` behind its checks. -/
def unmapChecked (p : ProcessMemory) (target source size : Nat) (perms : VMAPermission)
    (sourceState : MemoryState) : Option (Except MemoryError Unit × ProcessMemory) := do
  match ← p.vmManager.unmapRange isCached target size with
  | (.error e, m) => some (.error e.toMemoryError, { p with vmManager := m })
  | (.ok (), m) =>
      let r ← m.changeMemoryState isCached source size sourceState permNone .private_ perms
      some (p.ofVm r)

/-- `Process::Map`, privileged. -/
def mapPrivileged (p : ProcessMemory) (target source size : Nat) (perms : VMAPermission) :
    Option (Except MemoryError Unit × ProcessMemory) :=
  if overlapping source target size then
    if source = target then
      (p.vmManager.changeMemoryState isCached source size .private_ permReadWrite .aliasCode perms).map
        p.ofVm
    else some (.error .invalidAddress, p)
  else p.mapChecked isCached target source size perms .locked .aliasCode permNone

/-- `Process::Unmap`, privileged. -/
def unmapPrivileged (p : ProcessMemory) (target source size : Nat) (perms : VMAPermission) :
    Option (Except MemoryError Unit × ProcessMemory) :=
  if overlapping source target size then
    if source = target then
      (p.vmManager.changeMemoryState isCached source size .aliasCode permNone .private_ perms).map p.ofVm
    else some (.error .invalidAddress, p)
  else p.unmapChecked isCached target source size perms .locked

theorem map_eq (p : ProcessMemory) (target source size : Nat) (perms : VMAPermission) :
    p.map isCached target source size perms =
      if outside heapVaddr heapVaddrEnd source size then some (.error .invalidAddress, p)
      else if overlapping source target size then some (.error .invalidAddressState, p)
      else p.mapChecked isCached target source size perms .aliased .alias_ permReadWrite := rfl

theorem unmap_eq (p : ProcessMemory) (target source size : Nat) (perms : VMAPermission) :
    p.unmap isCached target source size perms =
      if outside heapVaddr heapVaddrEnd source size then some (.error .invalidAddress, p)
      else if overlapping source target size then some (.error .invalidAddressState, p)
      else p.unmapChecked isCached target source size perms .aliased := rfl

end

end ProcessMemory

/-- A call of one of the functions. -/
inductive MemoryCall
  | heapAllocate (target size : UInt32) (perms : VMAPermission) (state : MemoryState) (skipRangeCheck : Bool)
  | heapFree (target size : UInt32)
  | linearAllocate (target size : UInt32) (perms : VMAPermission)
  | linearFree (target size : UInt32)
  | map (target source size : UInt32) (perms : VMAPermission) (privileged : Bool)
  | unmap (target source size : UInt32) (perms : VMAPermission) (privileged : Bool)
  deriving DecidableEq

/-- A result without the address it holds. -/
def forget {α : Type} (r : Except MemoryError α × ProcessMemory) : Except MemoryError Unit × ProcessMemory :=
  (r.1.map fun _ => (), r.2)

/-- The call. -/
def MemoryCall.run (isCached : Nat → Bool) (p : ProcessMemory) :
    MemoryCall → Option (Except MemoryError Unit × ProcessMemory)
  | heapAllocate target size perms state skipRangeCheck =>
      (p.heapAllocate isCached target.toNat size.toNat perms state skipRangeCheck).map forget
  | heapFree target size => p.heapFree isCached target.toNat size.toNat
  | linearAllocate target size perms =>
      (p.linearAllocate isCached target.toNat size.toNat perms).map forget
  | linearFree target size => p.linearFree isCached target.toNat size.toNat
  | map target source size perms privileged =>
      if privileged then p.mapPrivileged isCached target.toNat source.toNat size.toNat perms
      else p.map isCached target.toNat source.toNat size.toNat perms
  | unmap target source size perms privileged =>
      if privileged then p.unmapPrivileged isCached target.toNat source.toNat size.toNat perms
      else p.unmap isCached target.toNat source.toNat size.toNat perms

variable {isCached : Nat → Bool} {p p' : ProcessMemory} {target source size : Nat} {perms : VMAPermission}

/-! ## Regions of FCRAM -/

/-- A region that is not locked, with all its free memory in FCRAM. -/
structure RegionInFcram (r : MemoryRegionInfo) : Prop where
  unlocked : r.isLocked = false
  bound : r.base + r.size ≤ fcramMem.size
  free : r.freeBlocks.toFinset ⊆ Finset.range fcramMem.size
  used : r.used < 2 ^ 32

theorem add32_lt (a b : Nat) : add32 a b < 2 ^ 32 := Nat.mod_lt _ (by decide)

theorem sub32_lt (a b : Nat) : sub32 a b < 2 ^ 32 := Nat.mod_lt _ (by decide)

theorem RegionInFcram.moved {r r' : MemoryRegionInfo} (h : RegionInFcram r) (hm : r.Moved r')
    (hfree : r'.freeBlocks.toFinset ⊆ Finset.range fcramMem.size) (hused : r'.used < 2 ^ 32) :
    RegionInFcram r' :=
  ⟨by rw [hm.locked]; exact h.unlocked, by rw [hm.base, hm.size]; exact h.bound, hfree, hused⟩

/-- Free memory is taken. -/
theorem RegionInFcram.take {r r' : MemoryRegionInfo} {A : Finset Nat} {n : Nat} (h : RegionInFcram r)
    (hm : r.Moved r') (hfree : r'.freeBlocks.toFinset = r.freeBlocks.toFinset \ A)
    (hused : r'.used = add32 r.used n) : RegionInFcram r' := by
  refine h.moved hm ?_ (by rw [hused]; exact add32_lt _ _)
  rw [hfree]
  exact Finset.sdiff_subset.trans h.free

/-- Memory is given back. -/
theorem RegionInFcram.free_of {r r' : MemoryRegionInfo} {offset size : Nat} (h : RegionInFcram r)
    (hfit : offset + size ≤ fcramMem.size) (hfree : r.free offset size = some r') : RegionInFcram r' := by
  obtain ⟨hm, -, hfree', hused⟩ := free_gives h.unlocked hfree
  refine h.moved hm ?_ (by rw [hused]; exact sub32_lt _ _)
  rw [hfree', add32_of_lt (hfit.trans_lt (by decide))]
  refine Finset.union_subset ?_ h.free
  intro x hx
  rw [Interval.mem_toFinset] at hx
  exact Finset.mem_range.2 (hx.2.trans_le hfit)

/-- The blocks of memory that a set of offsets in FCRAM stands for. -/
def fcramBlocks (A : IntervalSet) : List (MemoryRef × Nat) :=
  A.blocks.map fun i => (⟨fcramMem, i.lower⟩, i.upper - i.lower)

theorem blocksSize_fcramBlocks (A : IntervalSet) : blocksSize (fcramBlocks A) = A.toFinset.card := by
  rw [IntervalSet.card_toFinset, blocksSize, fcramBlocks, List.map_map]
  rfl

theorem fcramBlocks_fit {A : IntervalSet} (hA : A.toFinset ⊆ Finset.range fcramMem.size) :
    ∀ b ∈ fcramBlocks A, b.1.offset + b.2 ≤ b.1.backingMem.size := by
  intro b hb
  obtain ⟨i, hi, rfl⟩ := List.mem_map.1 hb
  have hlt := A.canonical.lt_of_mem hi
  have hupper := IntervalSet.upper_le hA hi
  dsimp only
  omega

theorem mapM_getFCRAMRef {l : List Interval} : ∀ {blocks : List (MemoryRef × Nat)},
    (l.mapM fun i => (getFCRAMRef i.lower).map fun memory => (memory, i.upper - i.lower)) =
      some blocks →
    blocks = l.map fun i => (⟨fcramMem, i.lower⟩, i.upper - i.lower) := by
  induction l with
  | nil =>
    intro blocks h
    simpa using h.symm
  | cons i l ih =>
    intro blocks h
    simp only [List.mapM_cons, Option.bind_eq_bind, Option.bind_eq_some_iff,
      Option.map_eq_some_iff] at h
    obtain ⟨-, ⟨memory, hmem, rfl⟩, blocks', hblocks, hb⟩ := h
    obtain rfl := Option.some.inj hb
    rw [getFCRAMRef] at hmem
    split_ifs at hmem
    obtain rfl := Option.some.inj hmem
    rw [ih hblocks, List.map_cons]

/-! ## What the calls have done when they return -/

namespace ProcessMemory

/-- The range check, when it lets a range pass. -/
theorem within_of_not_outside {lo hi target size : Nat} (hs : size < 2 ^ 32)
    (h : ¬ outside lo hi target size = true) : lo ≤ target ∧ target + size ≤ hi := by
  rw [outside, decide_eq_true_iff, add32] at h
  omega

/-- `HeapAllocate` fails, or takes blocks from the region and maps them. -/
theorem heapAllocate_cases {state : MemoryState} {skip : Bool} {r : Except MemoryError Nat}
    (hused : p.memoryRegion.used < 2 ^ 32)
    (h : p.heapAllocate isCached target size perms state skip = some (r, p')) :
    (∃ e, r = .error e ∧ p' = p) ∨
      ∃ A region m, r = .ok target ∧ p.memoryRegion.heapAllocate size = some (A, region) ∧ A.blocks ≠ [] ∧
        p.vmManager.mapBlocks isCached state perms (fcramBlocks A) target = some m ∧
        p' = { p with
          vmManager := m
          memoryRegion := region
          holdingMemory := p.holdingMemory.union A
          memoryUsed := add32 p.memoryUsed size } := by
  rw [heapAllocate] at h
  split_ifs at h
  · obtain ⟨rfl, rfl⟩ := Prod.mk.inj (Option.some.inj h)
    exact Or.inl ⟨_, rfl, rfl⟩
  · simp only [Option.bind_eq_bind, Option.bind_eq_some_iff] at h
    obtain ⟨taken, -, h⟩ := h
    split_ifs at h
    · obtain ⟨rfl, rfl⟩ := Prod.mk.inj (Option.some.inj h)
      exact Or.inl ⟨_, rfl, rfl⟩
    · obtain ⟨⟨A, region⟩, hregion, h⟩ := Option.bind_eq_some_iff.1 h
      simp only at h
      split_ifs at h with hempty
      · obtain ⟨rfl, rfl⟩ := Prod.mk.inj (Option.some.inj h)
        refine Or.inl ⟨_, rfl, ?_⟩
        rw [heapAllocate_empty hused hregion (List.isEmpty_iff.1 hempty)]
      · simp only [Option.bind_eq_some_iff] at h
        obtain ⟨blocks, hblocks, m, hmap, h⟩ := h
        obtain ⟨rfl, rfl⟩ := Prod.mk.inj (Option.some.inj h)
        obtain rfl := mapM_getFCRAMRef hblocks
        exact Or.inr ⟨A, region, m, rfl, hregion, fun hnil => hempty (List.isEmpty_iff.2 hnil), hmap, rfl⟩

/-- `HeapFree` fails, has nothing to do, or gives the blocks behind the range back and unmaps it. -/
theorem heapFree_cases {r : Except MemoryError Unit} (h : p.heapFree isCached target size = some (r, p')) :
    (∃ e, r = .error e ∧ p' = p) ∨ (r = .ok () ∧ p' = p) ∨
      ∃ blocks p₁ m, r = .ok () ∧ outside heapVaddr heapVaddrEnd target size = false ∧
        p.vmManager.getBackingBlocksForRange target size = some (.ok blocks) ∧
        freeBlocks blocks p = some p₁ ∧ p₁.vmManager.unmapRange isCached target size = some (.ok (), m) ∧
        p' = { p₁ with vmManager := m, memoryUsed := sub32 p₁.memoryUsed size } := by
  rw [heapFree] at h
  split_ifs at h with hout
  · obtain ⟨rfl, rfl⟩ := Prod.mk.inj (Option.some.inj h)
    exact Or.inl ⟨_, rfl, rfl⟩
  · obtain ⟨rfl, rfl⟩ := Prod.mk.inj (Option.some.inj h)
    exact Or.inr (Or.inl ⟨rfl, rfl⟩)
  · simp only [Option.bind_eq_bind, Option.bind_eq_some_iff] at h
    obtain ⟨r', hblocks, h⟩ := h
    cases r' with
    | error e =>
      obtain ⟨rfl, rfl⟩ := Prod.mk.inj (Option.some.inj h)
      exact Or.inl ⟨_, rfl, rfl⟩
    | ok blocks =>
      simp only [Option.bind_eq_some_iff] at h
      obtain ⟨p₁, hfree, ⟨r', m⟩, hunmap, h⟩ := h
      cases r' with
      | error e => cases h
      | ok =>
        obtain ⟨rfl, rfl⟩ := Prod.mk.inj (Option.some.inj h)
        exact Or.inr (Or.inr ⟨blocks, p₁, m, rfl, by simpa using hout, hblocks, hfree, hunmap, rfl⟩)

/-- Where `LinearAllocate` puts the memory, and what the region has given away for it. -/
theorem linearPlace_cases (h : RegionInFcram p.memoryRegion) (hs : size < 2 ^ 32)
    {res : Except MemoryError (Nat × Nat)} {region : MemoryRegionInfo}
    (hrun : p.linearPlace target size = some (res, region)) :
    (∃ e, res = .error e ∧ region = p.memoryRegion) ∨
      ∃ offset addr, res = .ok (offset, addr) ∧ p.memoryRegion.Moved region ∧
        offset + size ≤ fcramMem.size ∧
        Interval.toFinset ⟨offset, offset + size⟩ ⊆ p.memoryRegion.freeBlocks.toFinset ∧
        region.freeBlocks.toFinset = p.memoryRegion.freeBlocks.toFinset \
          Interval.toFinset ⟨offset, offset + size⟩ ∧
        region.used = add32 p.memoryRegion.used size := by
  have hbound := h.bound
  rw [ProcessMemory.linearPlace] at hrun
  split_ifs at hrun with hzero hout
  · -- the region chooses the place
    obtain ⟨⟨offset, region'⟩, halloc, hrun⟩ := Option.bind_eq_some_iff.1 hrun
    rcases linearAllocate_takes h.unlocked halloc with
      ⟨rfl, rfl⟩ | ⟨lower, rfl, hm, hsub, hfree, hused, i, hi, rfl, hbig⟩
    · obtain ⟨rfl, rfl⟩ := Prod.mk.inj (Option.some.inj hrun)
      exact Or.inl ⟨_, rfl, rfl⟩
    · obtain ⟨rfl, rfl⟩ := Prod.mk.inj (Option.some.inj hrun)
      refine Or.inr ⟨i.lower, _, rfl, hm, ?_, hsub, hfree, hused⟩
      have hlt := p.memoryRegion.freeBlocks.canonical.lt_of_mem hi
      have hupper := IntervalSet.upper_le h.free hi
      omega
  · obtain ⟨rfl, rfl⟩ := Prod.mk.inj (Option.some.inj hrun)
    exact Or.inl ⟨_, rfl, rfl⟩
  · obtain ⟨⟨ok, region'⟩, halloc, hrun⟩ := Option.bind_eq_some_iff.1 hrun
    obtain ⟨hlo, hhi⟩ := within_of_not_outside hs hout
    simp only [getLinearHeapLimit, getLinearHeapBase] at hlo hhi
    have hfit : target - p.getLinearHeapAreaAddress + size ≤ fcramMem.size := by omega
    rcases linearAllocateAt_takes h.unlocked halloc with
      ⟨rfl, rfl⟩ | ⟨rfl, hm, hsub, hfree, hused⟩
    · obtain ⟨rfl, rfl⟩ := Prod.mk.inj (Option.some.inj hrun)
      exact Or.inl ⟨_, rfl, rfl⟩
    · obtain ⟨rfl, rfl⟩ := Prod.mk.inj (Option.some.inj hrun)
      rw [add32_of_lt (hfit.trans_lt (by decide))] at hsub hfree
      exact Or.inr ⟨_, _, rfl, hm, hfit, hsub, hfree, hused⟩

/-- `LinearAllocate` fails, or takes a block from the region and maps it. -/
theorem linearAllocate_cases {r : Except MemoryError Nat} (hregion : RegionInFcram p.memoryRegion)
    (hs : size < 2 ^ 32) (h : p.linearAllocate isCached target size perms = some (r, p')) :
    (∃ e, r = .error e ∧ p' = p) ∨
      ∃ offset addr region m, r = .ok addr ∧ p.linearPlace target size = some (.ok (offset, addr), region) ∧
        offset + size ≤ fcramMem.size ∧
        p.vmManager.mapBlocks isCached .continuous perms [(⟨fcramMem, offset⟩, size)] addr = some m ∧
        p' = { p with
          vmManager := m
          memoryRegion := region
          holdingMemory := p.holdingMemory.insert ⟨offset, add32 offset size⟩
          memoryUsed := add32 p.memoryUsed size } := by
  rw [linearAllocate] at h
  simp only [Option.bind_eq_bind, Option.bind_eq_some_iff] at h
  obtain ⟨⟨res, region⟩, hplace, h⟩ := h
  obtain ⟨e, rfl, rfl⟩ | ⟨offset, addr, rfl, -, hfit, -⟩ := linearPlace_cases hregion hs hplace
  · obtain ⟨rfl, rfl⟩ := Prod.mk.inj (Option.some.inj h)
    exact Or.inl ⟨e, rfl, rfl⟩
  · simp only [Option.bind_eq_some_iff] at h
    obtain ⟨memory, hmemory, m, hmap, h⟩ := h
    obtain ⟨rfl, rfl⟩ := Prod.mk.inj (Option.some.inj h)
    rw [getFCRAMRef, if_pos (by omega)] at hmemory
    obtain rfl := Option.some.inj hmemory
    exact Or.inr ⟨offset, addr, region, m, rfl, hplace, hfit, hmap, rfl⟩

/-- `LinearFree` fails, has nothing to do, or unmaps the range and gives its memory back. -/
theorem linearFree_cases {r : Except MemoryError Unit} (hm : Consistent isCached p.vmManager)
    (h : p.linearFree isCached target size = some (r, p')) :
    (∃ e, r = .error e ∧ p' = p) ∨ (r = .ok () ∧ p' = p) ∨
      ∃ m region, r = .ok () ∧ outside p.getLinearHeapBase p.getLinearHeapLimit target size = false ∧
        p.vmManager.unmapRange isCached target size = some (.ok (), m) ∧
        p.memoryRegion.free (target - p.getLinearHeapAreaAddress) size = some region ∧
        p' = { p with
          vmManager := m
          memoryRegion := region
          holdingMemory := p.holdingMemory.erase ⟨target - p.getLinearHeapAreaAddress,
            add32 (target - p.getLinearHeapAreaAddress) size⟩
          memoryUsed := sub32 p.memoryUsed size } := by
  rw [linearFree] at h
  split_ifs at h with hout
  · obtain ⟨rfl, rfl⟩ := Prod.mk.inj (Option.some.inj h)
    exact Or.inl ⟨_, rfl, rfl⟩
  · obtain ⟨rfl, rfl⟩ := Prod.mk.inj (Option.some.inj h)
    exact Or.inr (Or.inl ⟨rfl, rfl⟩)
  · simp only [Option.bind_eq_bind, Option.bind_eq_some_iff] at h
    obtain ⟨⟨r', m⟩, hunmap, h⟩ := h
    cases r' with
    | error e =>
      obtain ⟨rfl, rfl⟩ := Prod.mk.inj (Option.some.inj h)
      rcases unmapRange_changes hm hunmap with ⟨-, rfl⟩ | ⟨hok, -⟩
      · exact Or.inl ⟨_, rfl, rfl⟩
      · cases hok
    | ok =>
      simp only [Option.bind_eq_some_iff] at h
      obtain ⟨region, hfree, h⟩ := h
      obtain ⟨rfl, rfl⟩ := Prod.mk.inj (Option.some.inj h)
      exact Or.inr (Or.inr ⟨m, region, rfl, by simpa using hout, hunmap, hfree, rfl⟩)

/-- `ChangeMemoryState` on its own. -/
theorem ofVm_cases {expectedState newState : MemoryState} {expectedPerms newPerms : VMAPermission}
    {r : Except MemoryError Unit} (hm : Consistent isCached p.vmManager)
    (h : (p.vmManager.changeMemoryState isCached source size expectedState expectedPerms newState newPerms).map
      p.ofVm = some (r, p')) :
    (∃ e, r = .error e ∧ p' = p) ∨
      ∃ m, r = .ok () ∧ p.vmManager.changeMemoryState isCached source size expectedState expectedPerms newState
        newPerms = some (.ok (), m) ∧ p' = { p with vmManager := m } := by
  obtain ⟨⟨r', m⟩, hchange, h⟩ := Option.map_eq_some_iff.1 h
  cases r' with
  | error e =>
    obtain ⟨rfl, rfl⟩ := Prod.mk.inj h
    rcases changeMemoryState_changes hm hchange with ⟨-, rfl⟩ | ⟨hok, -⟩
    · exact Or.inl ⟨_, rfl, rfl⟩
    · cases hok
  | ok =>
    obtain ⟨rfl, rfl⟩ := Prod.mk.inj h
    exact Or.inr ⟨m, rfl, hchange, rfl⟩

/-- `Map` behind its checks fails, or changes the state of the source and maps the blocks behind it.  Once the source
has changed its state, its memory is found. -/
theorem mapChecked_cases {sourceState targetState : MemoryState} {sourcePerm : VMAPermission}
    {r : Except MemoryError Unit} (hm : Consistent isCached p.vmManager)
    (h : p.mapChecked isCached target source size perms sourceState targetState sourcePerm = some (r, p')) :
    (∃ e, r = .error e ∧ p' = p) ∨
      ∃ m blocks m', r = .ok () ∧ p.targetTaken target size = some false ∧
        p.vmManager.changeMemoryState isCached source size .private_ permReadWrite sourceState sourcePerm =
          some (.ok (), m) ∧
        m.getBackingBlocksForRange source size = some (.ok blocks) ∧
        m.mapBlocks isCached targetState perms blocks target = some m' ∧
        p' = { p with vmManager := m' } := by
  rw [mapChecked] at h
  simp only [Option.bind_eq_bind, Option.bind_eq_some_iff] at h
  obtain ⟨taken, htaken, h⟩ := h
  split_ifs at h with hfalse
  · obtain ⟨rfl, rfl⟩ := Prod.mk.inj (Option.some.inj h)
    exact Or.inl ⟨_, rfl, rfl⟩
  · rw [Bool.not_eq_true] at hfalse
    subst hfalse
    obtain ⟨⟨r', m⟩, hchange, h⟩ := Option.bind_eq_some_iff.1 h
    rcases changeMemoryState_changes hm hchange with ⟨hr, rfl⟩ | ⟨rfl, hchanged, -⟩
    · cases r' with
      | error e =>
        obtain ⟨rfl, rfl⟩ := Prod.mk.inj (Option.some.inj h)
        exact Or.inl ⟨_, rfl, rfl⟩
      | ok => exact absurd rfl hr
    · have hbacking : m.backing = p.vmManager.backing :=
        backing_changedOn hchanged.values fun _ => rfl
      obtain ⟨blocks, hblocks⟩ := backingBlocks_isOk hchanged.consistent hchanged.range.stop_le size source
        (Nat.le_add_right _ _) (by omega) (by
          intro a h₁ h₂
          rw [hbacking]
          exact backing_isSome_of_areas hm hchanged.range hchanged.mapped h₁ h₂)
      simp only [VMManager.getBackingBlocksForRange, hblocks, Option.bind_some,
        Option.bind_eq_some_iff] at h
      obtain ⟨m', hmap, h⟩ := h
      obtain ⟨rfl, rfl⟩ := Prod.mk.inj (Option.some.inj h)
      exact Or.inr ⟨m, blocks, m', rfl, htaken, hchange, hblocks, hmap, rfl⟩

/-- `Unmap` behind its checks fails, unmaps the target and fails then, or does all of its work. -/
theorem unmapChecked_cases {sourceState : MemoryState} {r : Except MemoryError Unit}
    (hm : Consistent isCached p.vmManager)
    (h : p.unmapChecked isCached target source size perms sourceState = some (r, p')) :
    (∃ e, r = .error e ∧ p' = p) ∨
      ∃ m, p.vmManager.unmapRange isCached target size = some (.ok (), m) ∧
        ((∃ e e', r = .error e ∧
            m.changeMemoryState isCached source size sourceState permNone .private_ perms = some (.error e', m) ∧
            p' = { p with vmManager := m }) ∨
          ∃ m', r = .ok () ∧
            m.changeMemoryState isCached source size sourceState permNone .private_ perms = some (.ok (), m') ∧
            p' = { p with vmManager := m' }) := by
  rw [unmapChecked, Option.bind_eq_bind, Option.bind_eq_some_iff] at h
  obtain ⟨⟨r', m⟩, hunmap, h⟩ := h
  rcases unmapRange_changes hm hunmap with ⟨hr, rfl⟩ | ⟨rfl, hchanged⟩
  · cases r' with
    | error e =>
      obtain ⟨rfl, rfl⟩ := Prod.mk.inj (Option.some.inj h)
      exact Or.inl ⟨_, rfl, rfl⟩
    | ok => exact absurd rfl hr
  · obtain ⟨⟨r', m'⟩, hchange, h⟩ := Option.bind_eq_some_iff.1 h
    refine Or.inr ⟨m, hunmap, ?_⟩
    cases r' with
    | error e =>
      obtain ⟨rfl, rfl⟩ := Prod.mk.inj (Option.some.inj h)
      rcases changeMemoryState_changes hchanged.consistent hchange with ⟨-, rfl⟩ | ⟨hok, -⟩
      · exact Or.inl ⟨_, _, rfl, hchange, rfl⟩
      · cases hok
    | ok =>
      obtain ⟨rfl, rfl⟩ := Prod.mk.inj (Option.some.inj h)
      exact Or.inr ⟨m', rfl, hchange, rfl⟩

end ProcessMemory

end AzaharPlus.Kernel
