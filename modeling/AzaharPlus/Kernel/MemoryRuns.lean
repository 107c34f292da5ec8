import AzaharPlus.Kernel.ControlMemory

/-!
# Runs of a process with memory blocks

The memory blocks of `core/hle/kernel/shared_memory.cpp` (`CreateSharedMemory`, `SharedMemory::Map`,
`SharedMemory::Unmap` and the destructor), and the states that the memory of a process goes through under
`ControlMemory`, the calls of `AzaharPlus/Kernel/MemoryCalls.lean` and the calls that make, map, unmap and close memory
blocks.  Other processes are there as far as they can be seen: they take memory from the regions and give it back,
and hand over memory blocks of their own.

`MemoryReachable.orderly`: in all these states the address space is consistent, no two neighbouring areas are free,
and the free memory of the regions and the memory of the blocks lie where they should.
-/

namespace AzaharPlus.Kernel

open Tiling Intervals

local instance memoryTypesOfRuns : NeZero 8 := ⟨Nat.succ_ne_zero 7⟩

local instance memoryRegionsOfRuns : NeZero 3 := ⟨Nat.succ_ne_zero 2⟩

/-! ## Memory blocks -/

/-- `PROCESS_IMAGE_VADDR`. -/
def processImageVaddr : Nat := 0x00100000

/-- `SHARED_MEMORY_VADDR_END`. -/
def sharedMemoryVaddrEnd : Nat := 0x14000000

/-- `MemoryPermission::DontCare`. -/
def dontCare : UInt32 := 0x10000000

/-- The errors of the calls on memory blocks. -/
inductive BlockError
  | misalignedSize
  | invalidCombination
  | wrongPermission
  | invalidAddress
  | invalidAddressState
  deriving DecidableEq, Repr

/-- The errors of the virtual memory manager are passed on. -/
def VmError.toBlockError : VmError → BlockError
  | .invalidAddress => .invalidAddress
  | .invalidAddressState => .invalidAddressState

/-- `SharedMemory`.  `owned` is whether `owner_process` is the process of the model, and `inOwnRegion` whether
`memory_region` is the region of that process. -/
structure SharedMemory where
  linearHeapPhysOffset : Nat
  backingBlocks : List (MemoryRef × Nat)
  size : Nat
  permissions : UInt32
  otherPermissions : UInt32
  owned : Bool
  inOwnRegion : Bool
  baseAddress : Nat
  holdingMemory : IntervalSet

namespace SharedMemory

/-- `SharedMemory::ConvertPermissions`. -/
def convertPermissions (permission : UInt32) : VMAPermission := (permission &&& 7).toUInt8

/-- `own_other_permissions` of `SharedMemory::Map`. -/
def ownOtherPermissions (b : SharedMemory) : UInt32 :=
  if b.owned then b.permissions else b.otherPermissions

/-- `target_address` of `SharedMemory::Map`. -/
def targetAddress (b : SharedMemory) (address : Nat) : Nat :=
  if b.baseAddress = 0 ∧ address = 0 then add32 b.linearHeapPhysOffset linearHeapVaddr else address

section

variable (isCached : Nat → Bool)

/-- `SharedMemory::Map`. -/
def map (b : SharedMemory) (p : ProcessMemory) (address : Nat) (permissions otherPermissions : UInt32) :
    Option (Except BlockError Unit × ProcessMemory) :=
  if b.baseAddress = 0 ∧ otherPermissions ≠ dontCare then some (.error .invalidCombination, p)
  else if permissions &&& ~~~b.ownOtherPermissions ≠ 0 then some (.error .invalidCombination, p)
  else if b.baseAddress ≠ 0 ∧ otherPermissions = dontCare then some (.error .invalidCombination, p)
  else if otherPermissions ≠ dontCare ∧ b.permissions &&& ~~~otherPermissions ≠ 0 then
    some (.error .wrongPermission, p)
  else if address ≠ 0 ∧ (address < heapVaddr ∨ add32 address b.size ≥ sharedMemoryVaddrEnd) then
    some (.error .invalidAddress, p)
  else do
    if ← p.targetTaken (b.targetAddress address) b.size then some (.error .invalidAddressState, p)
    else
      let m ← p.vmManager.mapBlocks isCached .shared (convertPermissions permissions) b.backingBlocks
        (b.targetAddress address)
      some (.ok (), { p with vmManager := m })

/-- `SharedMemory::Unmap`. -/
def unmap (b : SharedMemory) (p : ProcessMemory) (address : Nat) :
    Option (Except BlockError Unit × ProcessMemory) :=
  (p.vmManager.unmapRange isCached address b.size).map fun (r, m) =>
    (r.mapError VmError.toBlockError, { p with vmManager := m })

end

/-- The blocks of a memory block make up its size, and all its memory is there. -/
structure Fits (b : SharedMemory) : Prop where
  size_eq : blocksSize b.backingBlocks = b.size
  blocks : ∀ c ∈ b.backingBlocks, c.1.offset + c.2 ≤ c.1.backingMem.size
  holding : b.holdingMemory.toFinset ⊆ Finset.range fcramMem.size

end SharedMemory

/-- The memory of a process, and what its calls on memory blocks deal with: the region `BASE` as long as it is not
the region of the process, whether the process takes memory blocks from its own region (it is in `BASE` itself, or
has the flag `shared_device_mem`), and the memory blocks that it has a handle of. -/
structure KernelMemory where
  process : ProcessMemory
  baseRegion : MemoryRegionInfo
  ownRegion : Bool
  blocks : List SharedMemory

namespace KernelMemory

/-- The region of the process, or `BASE`. -/
def region (s : KernelMemory) (own : Bool) : MemoryRegionInfo :=
  if own then s.process.memoryRegion else s.baseRegion

@[inherit_doc region]
def setRegion (s : KernelMemory) (own : Bool) (r : MemoryRegionInfo) : KernelMemory :=
  if own then { s with process := { s.process with memoryRegion := r } } else { s with baseRegion := r }

theorem setRegion_blocks (s : KernelMemory) (own : Bool) (r : MemoryRegionInfo) :
    (s.setRegion own r).blocks = s.blocks := by
  cases own <;> rfl

theorem setRegion_ownRegion (s : KernelMemory) (own : Bool) (r : MemoryRegionInfo) :
    (s.setRegion own r).ownRegion = s.ownRegion := by
  cases own <;> rfl

section

variable (isCached : Nat → Bool)

/-- The first part of the destructor: the memory is given back to its region. -/
def freeHolding : List Interval → MemoryRegionInfo → Option MemoryRegionInfo
  | [], r => some r
  | i :: l, r => do
      let r ← r.free i.lower (i.upper - i.lower)
      freeHolding l r

/-- The destructor of `SharedMemory`. -/
def destroy (s : KernelMemory) (b : SharedMemory) : Option KernelMemory := do
  let region ← freeHolding b.holdingMemory.blocks (s.region b.inOwnRegion)
  let s := s.setRegion b.inOwnRegion region
  if b.owned then
    if b.baseAddress ≠ 0 then
      let (_, m) ← s.process.vmManager.changeMemoryState isCached b.baseAddress b.size .locked permNone .private_
        permReadWrite
      some { s with process := { s.process with vmManager := m } }
    else some { s with process := { s.process with memoryUsed := sub32 s.process.memoryUsed b.size } }
  else some s

/-- `KernelSystem::CreateSharedMemory`, for the process.  When it fails, the object it has begun is destroyed, and has
its owner already but not its base address. -/
def createSharedMemory (s : KernelMemory) (size : Nat) (permissions otherPermissions : UInt32) (address : Nat) :
    Option (Except BlockError Unit × KernelMemory) :=
  if address = 0 then do
    let (offset, region) ← (s.region s.ownRegion).linearAllocate size
    let offset ← offset
    let memory ← getFCRAMRef offset
    let s := s.setRegion s.ownRegion region
    some (.ok (), { s with
      process := { s.process with memoryUsed := add32 s.process.memoryUsed size }
      blocks := ⟨offset, [(memory, size)], size, permissions, otherPermissions, true, s.ownRegion, 0,
        IntervalSet.empty.insert ⟨offset, offset + size⟩⟩ :: s.blocks })
  else do
    match ← s.process.vmManager.changeMemoryState isCached address size .private_ permReadWrite .locked
        (SharedMemory.convertPermissions permissions) with
    | (.error e, m) => do
        let s ← { s with process := { s.process with vmManager := m } }.destroy isCached
          ⟨0, [], size, permissions, otherPermissions, true, false, 0, IntervalSet.empty⟩
        some (.error e.toBlockError, s)
    | (.ok (), m) =>
        match ← m.getBackingBlocksForRange address size with
        | .error _ => none
        | .ok blocks =>
            some (.ok (), { s with
              process := { s.process with vmManager := m }
              blocks := ⟨0, blocks, size, permissions, otherPermissions, true, false, address,
                IntervalSet.empty⟩ :: s.blocks })

/-- `VerifyPermissions` of `CreateMemoryBlock`. -/
def verifyPermissions (permission : UInt32) : Bool :=
  permission = 0 ∨ permission = 1 ∨ permission = 2 ∨ permission = 3 ∨ permission = dontCare

/-- `SVC::CreateMemoryBlock`; the resource limit grants the memory block. -/
def createMemoryBlock (s : KernelMemory) (addr size myPermission otherPermission : UInt32) :
    Option (Except BlockError Unit × KernelMemory) :=
  if size.toNat % citraPageSize ≠ 0 then some (.error .misalignedSize, s)
  else if ¬ verifyPermissions myPermission then some (.error .invalidCombination, s)
  else if ¬ verifyPermissions otherPermission then some (.error .invalidCombination, s)
  else if (addr.toNat < processImageVaddr ∨ add32 addr.toNat size.toNat > sharedMemoryVaddrEnd) ∧
      addr ≠ 0 then some (.error .invalidAddress, s)
  else s.createSharedMemory isCached size.toNat myPermission otherPermission addr.toNat

end

end KernelMemory

/-! ## Runs -/

/-- The states of the memory of a process and its memory blocks. -/
inductive MemoryReachable (isCached : Nat → Bool) : KernelMemory → Prop
  | start (memType : Fin 8) (region : Fin 3) (kernelVersion : Nat) (ownRegion : Bool) {m : VMManager} :
      VMManager.blank.reset isCached = some m →
      MemoryReachable isCached
        ⟨⟨m, memoryInit memType region, IntervalSet.empty, 0, kernelVersion⟩, memoryInit memType 2, ownRegion, []⟩
  | sharedPages {s : KernelMemory} {m : VMManager} :
      MemoryReachable isCached s → mapSharedPages isCached s.process.vmManager = some m →
      MemoryReachable isCached { s with process := { s.process with vmManager := m } }
  | special {s : KernelMemory} {mapping : AddressMapping} {m : VMManager} :
      MemoryReachable isCached s → handleSpecialMapping isCached s.process.vmManager mapping = some m →
      MemoryReachable isCached { s with process := { s.process with vmManager := m } }
  | call {s : KernelMemory} {call : MemoryCall} {r : Except MemoryError Unit} {p : ProcessMemory} :
      MemoryReachable isCached s → call.run isCached s.process = some (r, p) →
      MemoryReachable isCached { s with process := p }
  | control {s : KernelMemory} {addr0 addr1 size operation permissions : UInt32}
      {r : Except MemoryError (Option Nat)} {p : ProcessMemory} :
      MemoryReachable isCached s →
      controlMemory isCached s.process addr0 addr1 size operation permissions = some (r, p) →
      MemoryReachable isCached { s with process := p }
  | create {s s' : KernelMemory} {addr size myPermission otherPermission : UInt32} {r : Except BlockError Unit} :
      MemoryReachable isCached s →
      s.createMemoryBlock isCached addr size myPermission otherPermission = some (r, s') →
      MemoryReachable isCached s'
  | map {s : KernelMemory} {b : SharedMemory} {address permissions otherPermissions : UInt32}
      {r : Except BlockError Unit} {p : ProcessMemory} :
      MemoryReachable isCached s → b ∈ s.blocks →
      b.map isCached s.process address.toNat permissions otherPermissions = some (r, p) →
      MemoryReachable isCached { s with process := p }
  | unmap {s : KernelMemory} {b : SharedMemory} {address : UInt32} {r : Except BlockError Unit}
      {p : ProcessMemory} :
      MemoryReachable isCached s → b ∈ s.blocks → b.unmap isCached s.process address.toNat = some (r, p) →
      MemoryReachable isCached { s with process := p }
  | close {s s' : KernelMemory} {b : SharedMemory} {blocks : List SharedMemory} :
      MemoryReachable isCached s → s.blocks.Perm (b :: blocks) → s.destroy isCached b = some s' →
      MemoryReachable isCached { s' with blocks := blocks }
  | handOver {s : KernelMemory} {b : SharedMemory} :
      MemoryReachable isCached s → b.owned = false → b.Fits →
      MemoryReachable isCached { s with blocks := b :: s.blocks }
  | others {s : KernelMemory} {own base : MemoryRegionInfo} :
      MemoryReachable isCached s → s.process.memoryRegion.Moved own → RegionInFcram own → RegionInFcram base →
      MemoryReachable isCached { s with process := { s.process with memoryRegion := own }, baseRegion := base }

/-! ## The invariant -/

namespace ProcessMemory

/-- What every call keeps. -/
structure Orderly (isCached : Nat → Bool) (p : ProcessMemory) : Prop where
  consistent : Consistent isCached p.vmManager
  freeMerged : FreeMerged p.vmManager.vmaMap
  region : RegionInFcram p.memoryRegion
  used : p.memoryUsed < 2 ^ 32

variable {isCached : Nat → Bool} {p p' : ProcessMemory} {target source size : Nat} {perms : VMAPermission}

theorem Orderly.congr (h : p.Orderly isCached) (hvm : p'.vmManager = p.vmManager)
    (hregion : RegionInFcram p'.memoryRegion) (hused : p'.memoryUsed < 2 ^ 32) : p'.Orderly isCached :=
  ⟨by rw [hvm]; exact h.consistent, by rw [hvm]; exact h.freeMerged, hregion, hused⟩

theorem Orderly.changed {m : VMManager} {change : Attributes → Attributes} (h : p.Orderly isCached)
    (hchanged : Changed isCached p.vmManager m change target size) :
    Orderly isCached { p with vmManager := m } :=
  ⟨hchanged.consistent, h.freeMerged.changed h.consistent hchanged, h.region, h.used⟩

theorem Orderly.unmapRange {m : VMManager} {r : Except VmError Unit} (h : p.Orderly isCached)
    (hrun : p.vmManager.unmapRange isCached target size = some (r, m)) :
    Orderly isCached { p with vmManager := m } := by
  rcases unmapRange_changes h.consistent hrun with ⟨-, rfl⟩ | ⟨-, hchanged⟩
  · exact h
  · exact h.changed hchanged

theorem Orderly.changeMemoryState {m : VMManager} {r : Except VmError Unit}
    {expectedState newState : MemoryState} {expectedPerms newPerms : VMAPermission} (h : p.Orderly isCached)
    (hrun : p.vmManager.changeMemoryState isCached target size expectedState expectedPerms newState newPerms =
      some (r, m)) : Orderly isCached { p with vmManager := m } := by
  rcases changeMemoryState_changes h.consistent hrun with ⟨-, rfl⟩ | ⟨-, hchanged, -⟩
  · exact h
  · exact h.changed hchanged

theorem Orderly.mapBlocks {m : VMManager} {state : MemoryState} {blocks : List (MemoryRef × Nat)}
    (h : p.Orderly isCached) (hroom : ∀ b ∈ blocks, b.1.offset + b.2 ≤ b.1.backingMem.size)
    (hrun : p.vmManager.mapBlocks isCached state perms blocks target = some m) :
    Orderly isCached { p with vmManager := m } := by
  obtain ⟨hm, hfree, -⟩ := mapBlocks_consistent h.consistent hroom hrun
  exact ⟨hm, hfree h.freeMerged, h.region, h.used⟩

theorem Orderly.heapAllocate {state : MemoryState} {skip : Bool} {r : Except MemoryError Nat}
    (h : p.Orderly isCached) (hrun : p.heapAllocate isCached target size perms state skip = some (r, p')) :
    p'.Orderly isCached := by
  obtain ⟨e, -, rfl⟩ | ⟨A, region, m, -, htake, hne, hmap, rfl⟩ := heapAllocate_cases h.region.used hrun
  · exact h
  · obtain ⟨hm, hsub, -, hfree, hused⟩ := (heapAllocate_takes h.region.unlocked htake).resolve_left
      fun hA => hne (blocks_eq_nil_iff.2 hA.1)
    exact (h.mapBlocks (fcramBlocks_fit (hsub.trans h.region.free)) hmap).congr rfl
      (h.region.take hm hfree hused) (add32_lt _ _)

theorem Orderly.linearAllocate {r : Except MemoryError Nat} (h : p.Orderly isCached) (hs : size < 2 ^ 32)
    (hrun : p.linearAllocate isCached target size perms = some (r, p')) : p'.Orderly isCached := by
  obtain ⟨e, -, rfl⟩ | ⟨offset, addr, region, m, -, hplace, hfit, hmap, rfl⟩ :=
    linearAllocate_cases h.region hs hrun
  · exact h
  · obtain ⟨e, hres, -⟩ | ⟨offset', addr', -, hm, -, -, hfree, hused⟩ := linearPlace_cases h.region hs hplace
    · cases hres
    · exact (h.mapBlocks (by simpa using hfit) hmap).congr rfl (h.region.take hm hfree hused) (add32_lt _ _)

theorem Orderly.freeBlocks {blocks : List (MemoryRef × Nat)} : ∀ {p p' : ProcessMemory},
    p.Orderly isCached → (∀ b ∈ blocks, b.1.offset + b.2 ≤ b.1.backingMem.size) →
    freeBlocks blocks p = some p' → p'.Orderly isCached := by
  induction blocks with
  | nil =>
    intro p p' h _ hrun
    obtain rfl := Option.some.inj hrun
    exact h
  | cons b blocks ih =>
    obtain ⟨memory, size⟩ := b
    intro p p' h hroom hrun
    simp only [ProcessMemory.freeBlocks, Option.bind_eq_bind, Option.bind_eq_some_iff] at hrun
    obtain ⟨offset, hoffset, region, hfree, hrun⟩ := hrun
    rw [getFCRAMOffset] at hoffset
    split_ifs at hoffset with hmemory
    obtain rfl := Option.some.inj hoffset
    have hfit := hroom _ List.mem_cons_self
    rw [hmemory] at hfit
    refine ih ?_ (fun b hb => hroom b (List.mem_cons_of_mem _ hb)) hrun
    exact h.congr rfl (h.region.free_of hfit hfree) h.used

theorem Orderly.heapFree {r : Except MemoryError Unit} (h : p.Orderly isCached) (hs : size < 2 ^ 32)
    (hrun : p.heapFree isCached target size = some (r, p')) : p'.Orderly isCached := by
  obtain ⟨e, -, rfl⟩ | ⟨-, rfl⟩ | ⟨blocks, p₁, m, -, hout, hblocks, hfreed, hunmap, rfl⟩ := heapFree_cases hrun
  · exact h
  · exact h
  · obtain ⟨hlo, hhi⟩ := within_of_not_outside hs (Bool.not_eq_true _ ▸ hout)
    obtain ⟨rblocks, hblocks', hspec⟩ := backingBlocks_spec h.consistent
      (hhi.trans (by decide) : target + size ≤ maxAddress) size target (by omega) (by omega)
    obtain rfl := Option.some.inj (hblocks'.symm.trans hblocks)
    have h₁ := h.freeBlocks (hspec blocks rfl).2.1 hfreed
    exact (h₁.unmapRange hunmap).congr rfl h₁.region (sub32_lt _ _)

theorem Orderly.linearFree {r : Except MemoryError Unit} (h : p.Orderly isCached) (hs : size < 2 ^ 32)
    (hrun : p.linearFree isCached target size = some (r, p')) : p'.Orderly isCached := by
  obtain ⟨e, -, rfl⟩ | ⟨-, rfl⟩ | ⟨m, region, -, hout, hunmap, hfree, rfl⟩ := linearFree_cases h.consistent hrun
  · exact h
  · exact h
  · obtain ⟨hlo, hhi⟩ := within_of_not_outside hs (Bool.not_eq_true _ ▸ hout)
    simp only [getLinearHeapLimit, getLinearHeapBase] at hlo hhi
    have hbound := h.region.bound
    exact (h.unmapRange hunmap).congr rfl (h.region.free_of (by omega) hfree) (sub32_lt _ _)

theorem Orderly.mapChecked {sourceState targetState : MemoryState} {sourcePerm : VMAPermission}
    {r : Except MemoryError Unit} (h : p.Orderly isCached)
    (hrun : p.mapChecked isCached target source size perms sourceState targetState sourcePerm = some (r, p')) :
    p'.Orderly isCached := by
  obtain ⟨e, -, rfl⟩ | ⟨m, blocks, m', -, -, hstate, hblocks, hmap, rfl⟩ := mapChecked_cases h.consistent hrun
  · exact h
  · obtain ⟨hne, -⟩ | ⟨-, hchanged, -⟩ := changeMemoryState_changes h.consistent hstate
    · exact absurd rfl hne
    obtain ⟨rblocks, hblocks', hspec⟩ := backingBlocks_spec hchanged.consistent hchanged.range.stop_le size source
      (Nat.le_add_right _ _) (by omega)
    obtain rfl := Option.some.inj (hblocks'.symm.trans hblocks)
    exact (h.changed hchanged).mapBlocks (hspec blocks rfl).2.1 hmap

theorem Orderly.unmapChecked {sourceState : MemoryState} {r : Except MemoryError Unit} (h : p.Orderly isCached)
    (hrun : p.unmapChecked isCached target source size perms sourceState = some (r, p')) :
    p'.Orderly isCached := by
  obtain ⟨e, -, rfl⟩ | ⟨m, hunmap, hrest⟩ := unmapChecked_cases h.consistent hrun
  · exact h
  obtain ⟨e, e', -, -, rfl⟩ | ⟨m', -, hstate, rfl⟩ := hrest
  · exact h.unmapRange hunmap
  · exact (h.unmapRange hunmap).changeMemoryState hstate

theorem Orderly.ofVm {expectedState newState : MemoryState} {expectedPerms newPerms : VMAPermission}
    {r : Except MemoryError Unit} (h : p.Orderly isCached)
    (hrun : (p.vmManager.changeMemoryState isCached source size expectedState expectedPerms newState
      newPerms).map p.ofVm = some (r, p')) : p'.Orderly isCached := by
  obtain ⟨e, -, rfl⟩ | ⟨m, -, hstate, rfl⟩ := ofVm_cases h.consistent hrun
  · exact h
  · exact h.changeMemoryState hstate

theorem Orderly.map {r : Except MemoryError Unit} (h : p.Orderly isCached)
    (hrun : p.map isCached target source size perms = some (r, p')) : p'.Orderly isCached := by
  rw [map_eq] at hrun
  split_ifs at hrun
  · obtain ⟨-, rfl⟩ := Prod.mk.inj (Option.some.inj hrun)
    exact h
  · obtain ⟨-, rfl⟩ := Prod.mk.inj (Option.some.inj hrun)
    exact h
  · exact h.mapChecked hrun

theorem Orderly.unmap {r : Except MemoryError Unit} (h : p.Orderly isCached)
    (hrun : p.unmap isCached target source size perms = some (r, p')) : p'.Orderly isCached := by
  rw [unmap_eq] at hrun
  split_ifs at hrun
  · obtain ⟨-, rfl⟩ := Prod.mk.inj (Option.some.inj hrun)
    exact h
  · obtain ⟨-, rfl⟩ := Prod.mk.inj (Option.some.inj hrun)
    exact h
  · exact h.unmapChecked hrun

theorem Orderly.mapPrivileged {r : Except MemoryError Unit} (h : p.Orderly isCached)
    (hrun : p.mapPrivileged isCached target source size perms = some (r, p')) : p'.Orderly isCached := by
  rw [ProcessMemory.mapPrivileged] at hrun
  split_ifs at hrun
  · exact h.ofVm hrun
  · obtain ⟨-, rfl⟩ := Prod.mk.inj (Option.some.inj hrun)
    exact h
  · exact h.mapChecked hrun

theorem Orderly.unmapPrivileged {r : Except MemoryError Unit} (h : p.Orderly isCached)
    (hrun : p.unmapPrivileged isCached target source size perms = some (r, p')) : p'.Orderly isCached := by
  rw [ProcessMemory.unmapPrivileged] at hrun
  split_ifs at hrun
  · exact h.ofVm hrun
  · obtain ⟨-, rfl⟩ := Prod.mk.inj (Option.some.inj hrun)
    exact h
  · exact h.unmapChecked hrun

/-- Every call keeps the memory of a process orderly. -/
theorem Orderly.run {call : MemoryCall} {r : Except MemoryError Unit} (h : p.Orderly isCached)
    (hrun : call.run isCached p = some (r, p')) : p'.Orderly isCached := by
  cases call with
  | heapAllocate target size perms state skip =>
    obtain ⟨⟨r', p''⟩, hcall, heq⟩ := Option.map_eq_some_iff.1 hrun
    obtain ⟨-, rfl⟩ := Prod.mk.inj heq
    exact h.heapAllocate hcall
  | heapFree target size =>
    rw [MemoryCall.run] at hrun
    exact h.heapFree size.toNat_lt hrun
  | linearAllocate target size perms =>
    obtain ⟨⟨r', p''⟩, hcall, heq⟩ := Option.map_eq_some_iff.1 hrun
    obtain ⟨-, rfl⟩ := Prod.mk.inj heq
    exact h.linearAllocate size.toNat_lt hcall
  | linearFree target size =>
    rw [MemoryCall.run] at hrun
    exact h.linearFree size.toNat_lt hrun
  | map target source size perms privileged =>
    rw [MemoryCall.run] at hrun
    split_ifs at hrun
    · exact h.mapPrivileged hrun
    · exact h.map hrun
  | unmap target source size perms privileged =>
    rw [MemoryCall.run] at hrun
    split_ifs at hrun
    · exact h.unmapPrivileged hrun
    · exact h.unmap hrun

/-- `ControlMemory` makes one of the calls, changes permissions, or does nothing. -/
theorem Orderly.controlMemory {addr0 addr1 size operation permissions : UInt32}
    {r : Except MemoryError (Option Nat)} (h : p.Orderly isCached)
    (hrun : controlMemory isCached p addr0 addr1 size operation permissions = some (r, p')) :
    p'.Orderly isCached := by
  have hs : size.toNat < 2 ^ 32 := size.toNat_lt
  rw [Kernel.controlMemory] at hrun
  split_ifs at hrun
  iterate 4
    obtain ⟨-, rfl⟩ := Prod.mk.inj (Option.some.inj hrun)
    exact h
  cases hop : MemoryOp.ofWord operation with
  | free =>
    rw [hop] at hrun
    simp only [MemoryOp.apply] at hrun
    split_ifs at hrun
    · obtain ⟨⟨r', p''⟩, hcall, heq⟩ := Option.map_eq_some_iff.1 hrun
      obtain ⟨-, rfl⟩ := Prod.mk.inj heq
      exact h.heapFree hs hcall
    · obtain ⟨⟨r', p''⟩, hcall, heq⟩ := Option.map_eq_some_iff.1 hrun
      obtain ⟨-, rfl⟩ := Prod.mk.inj heq
      exact h.linearFree hs hcall
    · obtain ⟨-, rfl⟩ := Prod.mk.inj (Option.some.inj hrun)
      exact h
  | commit =>
    rw [hop] at hrun
    obtain ⟨⟨r', p''⟩, hcall, heq⟩ := Option.map_eq_some_iff.1 hrun
    obtain ⟨-, rfl⟩ := Prod.mk.inj heq
    exact h.heapAllocate hcall
  | commitLinear =>
    rw [hop] at hrun
    obtain ⟨⟨r', p''⟩, hcall, heq⟩ := Option.map_eq_some_iff.1 hrun
    obtain ⟨-, rfl⟩ := Prod.mk.inj heq
    exact h.linearAllocate hs hcall
  | map =>
    rw [hop] at hrun
    obtain ⟨⟨r', p''⟩, hcall, heq⟩ := Option.map_eq_some_iff.1 hrun
    obtain ⟨-, rfl⟩ := Prod.mk.inj heq
    exact h.map hcall
  | unmap =>
    rw [hop] at hrun
    obtain ⟨⟨r', p''⟩, hcall, heq⟩ := Option.map_eq_some_iff.1 hrun
    obtain ⟨-, rfl⟩ := Prod.mk.inj heq
    exact h.unmap hcall
  | protect =>
    rw [hop] at hrun
    obtain ⟨⟨r', m⟩, hcall, heq⟩ := Option.map_eq_some_iff.1 hrun
    obtain ⟨-, rfl⟩ := Prod.mk.inj heq
    rcases reprotectRange_changes h.consistent hcall with ⟨hne, rfl⟩ | ⟨rfl, hchanged⟩
    · cases r' with
      | error e => exact h
      | ok => exact absurd rfl hne
    · exact h.changed hchanged
  | unknown =>
    rw [hop] at hrun
    obtain ⟨-, rfl⟩ := Prod.mk.inj (Option.some.inj hrun)
    exact h

theorem Orderly.mapOther {m : VMManager} {state : MemoryState} {memory : MemoryRef} (h : p.Orderly isCached)
    (hroom : memory.offset + size ≤ memory.backingMem.size)
    (hmap : p.vmManager.mapBlocks isCached state perms [(memory, size)] target = some m) :
    Orderly isCached { p with vmManager := m } :=
  h.mapBlocks (by simpa using hroom) hmap

theorem Orderly.sharedPages {m : VMManager} (h : p.Orderly isCached)
    (hmap : mapSharedPages isCached p.vmManager = some m) : Orderly isCached { p with vmManager := m } := by
  obtain ⟨m₁, hconfig, hshared⟩ := Option.bind_eq_some_iff.1 hmap
  exact (h.mapOther (by decide) hconfig).mapOther (by decide) hshared

theorem Orderly.special {mapping : AddressMapping} {m : VMManager} (h : p.Orderly isCached)
    (hmap : handleSpecialMapping isCached p.vmManager mapping = some m) :
    Orderly isCached { p with vmManager := m } := by
  simp only [handleSpecialMapping] at hmap
  by_cases hwrap : add32 mapping.address.toNat mapping.size.toNat < mapping.address.toNat
  · rw [if_pos hwrap] at hmap
    obtain rfl := Option.some.inj hmap
    exact h
  · rw [if_neg hwrap] at hmap
    split at hmap
    · obtain rfl := Option.some.inj hmap
      exact h
    · obtain rfl := Option.some.inj hmap
      exact h
    · next base size memory hfind =>
        obtain ⟨-, hmem⟩ := memoryAreas_foreign _ (List.mem_of_find?_eq_some hfind)
        have hsize := (hmem memory rfl).2
        have hin : mapping.address.toNat ≥ base ∧
            add32 mapping.address.toNat mapping.size.toNat ≤ base + size := by
          simpa using List.find?_some hfind
        have ha := mapping.address.toNat_lt
        have hs := mapping.size.toNat_lt
        rw [add32] at hwrap hin
        dsimp only at hsize
        exact h.mapOther (by dsimp only; omega) hmap

end ProcessMemory

/-- What every step keeps. -/
structure KernelMemory.Orderly (isCached : Nat → Bool) (s : KernelMemory) : Prop where
  process : s.process.Orderly isCached
  baseRegion : RegionInFcram s.baseRegion
  blocks : ∀ b ∈ s.blocks, b.Fits

namespace KernelMemory

variable {isCached : Nat → Bool} {s s' : KernelMemory}

theorem Orderly.region (h : s.Orderly isCached) (own : Bool) : RegionInFcram (s.region own) := by
  cases own with
  | false => exact h.baseRegion
  | true => exact h.process.region

theorem Orderly.setRegion (h : s.Orderly isCached) (own : Bool) {r : MemoryRegionInfo} (hr : RegionInFcram r) :
    (s.setRegion own r).Orderly isCached := by
  cases own with
  | false => exact ⟨h.process, hr, h.blocks⟩
  | true => exact ⟨h.process.congr rfl hr h.process.used, h.baseRegion, h.blocks⟩

/-- The process alone has moved on. -/
theorem Orderly.withProcess (h : s.Orderly isCached) {p : ProcessMemory} (hp : p.Orderly isCached) :
    Orderly isCached { s with process := p } :=
  ⟨hp, h.baseRegion, h.blocks⟩

theorem Orderly.withBlock (h : s.Orderly isCached) {b : SharedMemory} (hb : b.Fits) :
    Orderly isCached { s with blocks := b :: s.blocks } :=
  ⟨h.process, h.baseRegion, fun _ hc => (List.mem_cons.1 hc).elim (· ▸ hb) (h.blocks _)⟩

theorem freeHolding_inFcram {l : List Interval} : ∀ {r r' : MemoryRegionInfo}, RegionInFcram r →
    (∀ i ∈ l, i.lower ≤ i.upper ∧ i.upper ≤ fcramMem.size) → freeHolding l r = some r' → RegionInFcram r' := by
  induction l with
  | nil =>
    intro r r' h _ hrun
    obtain rfl := Option.some.inj hrun
    exact h
  | cons i l ih =>
    intro r r' h hl hrun
    simp only [freeHolding, Option.bind_eq_bind, Option.bind_eq_some_iff] at hrun
    obtain ⟨r₁, hfree, hrun⟩ := hrun
    obtain ⟨hle, hupper⟩ := hl i List.mem_cons_self
    exact ih (h.free_of (by omega) hfree) (fun j hj => hl j (List.mem_cons_of_mem _ hj)) hrun

theorem Orderly.destroy {b : SharedMemory} (h : s.Orderly isCached)
    (hb : b.holdingMemory.toFinset ⊆ Finset.range fcramMem.size)
    (hrun : s.destroy isCached b = some s') : s'.Orderly isCached := by
  rw [KernelMemory.destroy, Option.bind_eq_bind, Option.bind_eq_some_iff] at hrun
  obtain ⟨region, hfree, hrun⟩ := hrun
  have hregion := freeHolding_inFcram (h.region b.inOwnRegion)
    (fun i hi => ⟨(b.holdingMemory.canonical.lt_of_mem hi).le, IntervalSet.upper_le hb hi⟩) hfree
  have h₁ := h.setRegion b.inOwnRegion hregion
  dsimp only at hrun
  split_ifs at hrun
  · simp only [Option.bind_eq_bind, Option.bind_eq_some_iff] at hrun
    obtain ⟨⟨r, m⟩, hchange, hrun⟩ := hrun
    obtain rfl := Option.some.inj hrun
    exact h₁.withProcess (h₁.process.changeMemoryState hchange)
  · obtain rfl := Option.some.inj hrun
    exact h₁.withProcess (h₁.process.congr rfl h₁.process.region (sub32_lt _ _))
  · obtain rfl := Option.some.inj hrun
    exact h₁

/-- `CreateSharedMemory` takes the memory from a region, is refused the memory of the process, or locks it. -/
theorem createSharedMemory_cases {size address : Nat} {permissions otherPermissions : UInt32}
    {r : Except BlockError Unit} (h : s.Orderly isCached)
    (hrun : s.createSharedMemory isCached size permissions otherPermissions address = some (r, s')) :
    (address = 0 ∧ r = .ok () ∧ ∃ offset region,
      (s.region s.ownRegion).linearAllocate size = some (some offset, region) ∧
      s' = { s.setRegion s.ownRegion region with
        process := { (s.setRegion s.ownRegion region).process with
          memoryUsed := add32 (s.setRegion s.ownRegion region).process.memoryUsed size }
        blocks := ⟨offset, [(⟨fcramMem, offset⟩, size)], size, permissions, otherPermissions, true, s.ownRegion, 0,
          IntervalSet.empty.insert ⟨offset, offset + size⟩⟩ :: s.blocks }) ∨
    (address ≠ 0 ∧ (∃ e, r = .error e) ∧
      s.process.vmManager.Mismatch address size .private_ permReadWrite ∧
      s' = { s with process := { s.process with memoryUsed := sub32 s.process.memoryUsed size } }) ∨
    (address ≠ 0 ∧ r = .ok () ∧ ∃ m blocks,
      Changed isCached s.process.vmManager m
        (VMManager.restateAttributes .locked (SharedMemory.convertPermissions permissions)) address size ∧
      m.getBackingBlocksForRange address size = some (.ok blocks) ∧
      s' = { s with
        process := { s.process with vmManager := m }
        blocks := ⟨0, blocks, size, permissions, otherPermissions, true, false, address, IntervalSet.empty⟩ ::
          s.blocks }) := by
  rw [KernelMemory.createSharedMemory] at hrun
  split_ifs at hrun with hzero
  · simp only [Option.bind_eq_bind, Option.bind_eq_some_iff] at hrun
    obtain ⟨⟨offset, region⟩, halloc, lower, hlower, memory, hmemory, hrun⟩ := hrun
    obtain ⟨rfl, rfl⟩ := Prod.mk.inj (Option.some.inj hrun)
    dsimp only at hlower hmemory
    subst hlower
    rw [getFCRAMRef] at hmemory
    split_ifs at hmemory
    obtain rfl := Option.some.inj hmemory
    refine Or.inl ⟨hzero, rfl, lower, region, halloc, ?_⟩
    simp only [setRegion_blocks, setRegion_ownRegion]
  · simp only [Option.bind_eq_bind, Option.bind_eq_some_iff] at hrun
    obtain ⟨⟨r', m⟩, hchange, hrun⟩ := hrun
    cases r' with
    | error e =>
      simp only [Option.bind_eq_some_iff] at hrun
      obtain ⟨s₁, hdestroy, hrun⟩ := hrun
      obtain ⟨rfl, rfl⟩ := Prod.mk.inj (Option.some.inj hrun)
      obtain ⟨-, rfl⟩ | ⟨hok, -⟩ := changeMemoryState_changes h.process.consistent hchange
      · refine Or.inr (Or.inl ⟨hzero, ⟨_, rfl⟩, ?_, (Option.some.inj hdestroy).symm⟩)
        exact (changeMemoryState_error_iff h.process.consistent (by decide)).1 ⟨_, _, hchange⟩
      · cases hok
    | ok =>
      obtain ⟨hne, -⟩ | ⟨-, hchanged, -⟩ := changeMemoryState_changes h.process.consistent hchange
      · exact absurd rfl hne
      simp only [Option.bind_eq_some_iff] at hrun
      obtain ⟨r', hblocks, hrun⟩ := hrun
      cases r' with
      | error e => cases hrun
      | ok blocks =>
        obtain ⟨rfl, rfl⟩ := Prod.mk.inj (Option.some.inj hrun)
        exact Or.inr (Or.inr ⟨hzero, rfl, m, blocks, hchanged, hblocks, rfl⟩)

/-- The memory of a new block is behind its offset in FCRAM. -/
theorem Orderly.linearAllocate {own : Bool} {offset size : Nat} {region : MemoryRegionInfo}
    (h : s.Orderly isCached) (halloc : (s.region own).linearAllocate size = some (some offset, region)) :
    offset + size ≤ fcramMem.size ∧ RegionInFcram region ∧
      Interval.toFinset ⟨offset, offset + size⟩ ⊆ (s.region own).freeBlocks.toFinset := by
  have hregion := h.region own
  obtain ⟨hnone, -⟩ | ⟨lower, hsome, hm, hsub, hfree, hused, i, hi, hlo, hbig⟩ :=
    linearAllocate_takes hregion.unlocked halloc
  · cases hnone
  obtain rfl := Option.some.inj hsome
  have hlt := (s.region own).freeBlocks.canonical.lt_of_mem hi
  have hupper := IntervalSet.upper_le hregion.free hi
  exact ⟨by omega, hregion.take hm hfree hused, hsub⟩

theorem Orderly.createSharedMemory {size address : Nat} {permissions otherPermissions : UInt32}
    {r : Except BlockError Unit} (h : s.Orderly isCached)
    (hrun : s.createSharedMemory isCached size permissions otherPermissions address = some (r, s')) :
    s'.Orderly isCached := by
  obtain ⟨-, -, offset, region, halloc, rfl⟩ | ⟨-, -, -, rfl⟩ | ⟨-, -, m, blocks, hchanged, hblocks, rfl⟩ :=
    createSharedMemory_cases h hrun
  · obtain ⟨hfit, hregion, hsub⟩ := h.linearAllocate halloc
    have hs := h.setRegion s.ownRegion hregion
    have hprocess : ProcessMemory.Orderly isCached { (s.setRegion s.ownRegion region).process with
        memoryUsed := add32 (s.setRegion s.ownRegion region).process.memoryUsed size } :=
      hs.process.congr rfl hs.process.region (add32_lt _ _)
    rw [← setRegion_blocks s s.ownRegion region]
    refine (hs.withProcess hprocess).withBlock ⟨by simp, ?_, ?_⟩
    · simp only [List.mem_singleton, forall_eq]
      exact hfit
    · rw [IntervalSet.toFinset_insert, IntervalSet.toFinset_empty, Finset.union_empty]
      exact hsub.trans (h.region s.ownRegion).free
  · exact h.withProcess (h.process.congr rfl h.process.region (sub32_lt _ _))
  · obtain ⟨rblocks, hblocks', hspec⟩ := backingBlocks_spec hchanged.consistent hchanged.range.stop_le size
      address (Nat.le_add_right _ _) (by omega)
    obtain rfl := Option.some.inj (hblocks'.symm.trans hblocks)
    obtain ⟨hsize, hroom, -⟩ := hspec blocks rfl
    refine (h.withProcess (h.process.changed hchanged)).withBlock ⟨?_, hroom, ?_⟩
    · dsimp only
      omega
    · rw [IntervalSet.toFinset_empty]
      exact Finset.empty_subset _

theorem Orderly.createMemoryBlock {addr size myPermission otherPermission : UInt32} {r : Except BlockError Unit}
    (h : s.Orderly isCached)
    (hrun : s.createMemoryBlock isCached addr size myPermission otherPermission = some (r, s')) :
    s'.Orderly isCached := by
  rw [KernelMemory.createMemoryBlock] at hrun
  split_ifs at hrun
  any_goals exact h.createSharedMemory hrun
  all_goals
    obtain ⟨-, rfl⟩ := Prod.mk.inj (Option.some.inj hrun)
    exact h

end KernelMemory

/-- `SharedMemory::Map` fails, or maps its blocks. -/
theorem SharedMemory.map_cases {isCached : Nat → Bool} {b : SharedMemory} {p p' : ProcessMemory} {address : Nat}
    {permissions otherPermissions : UInt32} {r : Except BlockError Unit}
    (h : b.map isCached p address permissions otherPermissions = some (r, p')) :
    (∃ e, r = .error e ∧ p' = p) ∨
      ∃ m, r = .ok () ∧ p.vmManager.mapBlocks isCached .shared (convertPermissions permissions) b.backingBlocks
        (b.targetAddress address) = some m ∧ p' = { p with vmManager := m } := by
  rw [SharedMemory.map] at h
  split_ifs at h
  iterate 5
    obtain ⟨rfl, rfl⟩ := Prod.mk.inj (Option.some.inj h)
    exact Or.inl ⟨_, rfl, rfl⟩
  simp only [Option.bind_eq_bind, Option.bind_eq_some_iff] at h
  obtain ⟨taken, -, h⟩ := h
  split_ifs at h
  · obtain ⟨rfl, rfl⟩ := Prod.mk.inj (Option.some.inj h)
    exact Or.inl ⟨_, rfl, rfl⟩
  · obtain ⟨m, hmap, h⟩ := Option.bind_eq_some_iff.1 h
    obtain ⟨rfl, rfl⟩ := Prod.mk.inj (Option.some.inj h)
    exact Or.inr ⟨m, rfl, hmap, rfl⟩

theorem orderly_start {isCached : Nat → Bool} (memType : Fin 8) (region : Fin 3) (kernelVersion : Nat)
    (ownRegion : Bool) {m : VMManager} (hm : VMManager.blank.reset isCached = some m) :
    KernelMemory.Orderly isCached
      ⟨⟨m, memoryInit memType region, IntervalSet.empty, 0, kernelVersion⟩, memoryInit memType 2, ownRegion, []⟩ := by
  obtain ⟨hconsistent, hfree⟩ := freeMerged_reset (m := VMManager.blank) rfl hm
  have hregion : ∀ region, RegionInFcram (memoryInit memType region) := fun region =>
    (sound_start memType region kernelVersion hm).region.inFcram
  exact ⟨⟨hconsistent, hfree, hregion region, Nat.two_pow_pos 32⟩, hregion 2, fun b hb => absurd hb (List.not_mem_nil)⟩

/-- In every state that is reached the memory is orderly. -/
theorem MemoryReachable.orderly {isCached : Nat → Bool} {s : KernelMemory} (h : MemoryReachable isCached s) :
    s.Orderly isCached := by
  induction h with
  | start memType region kernelVersion ownRegion hm => exact orderly_start memType region kernelVersion ownRegion hm
  | sharedPages _ hmap ih => exact ih.withProcess (ih.process.sharedPages hmap)
  | special _ hmap ih => exact ih.withProcess (ih.process.special hmap)
  | call _ hrun ih => exact ih.withProcess (ih.process.run hrun)
  | control _ hrun ih => exact ih.withProcess (ih.process.controlMemory hrun)
  | create _ hrun ih => exact ih.createMemoryBlock hrun
  | map _ hb hrun ih =>
    obtain ⟨e, -, rfl⟩ | ⟨m, -, hmap, rfl⟩ := SharedMemory.map_cases hrun
    · exact ih
    · exact ih.withProcess (ih.process.mapBlocks (ih.blocks _ hb).blocks hmap)
  | unmap _ _ hrun ih =>
    obtain ⟨⟨r, m⟩, hunmap, heq⟩ := Option.map_eq_some_iff.1 hrun
    obtain ⟨-, rfl⟩ := Prod.mk.inj heq
    exact ih.withProcess (ih.process.unmapRange hunmap)
  | close _ hperm hrun ih =>
    have hs := ih.destroy (ih.blocks _ (hperm.mem_iff.2 List.mem_cons_self)).holding hrun
    exact ⟨hs.process, hs.baseRegion, fun b hb => ih.blocks b (hperm.mem_iff.2 (List.mem_cons_of_mem _ hb))⟩
  | handOver _ _ hb ih => exact ih.withBlock hb
  | others _ _ hown hbase ih => exact ⟨ih.process.congr rfl hown ih.process.used, hbase, ih.blocks⟩

/-! ## The first steps of a process -/

/-- The kernel when the process has no memory yet. -/
def freshKernel : KernelMemory := ⟨freshProcess, memoryInit 0 2, false, []⟩

theorem reachable_freshKernel : MemoryReachable (fun _ => false) freshKernel :=
  .start 0 0 0x23A false (reset_blank _)

/-- The process has called `ControlMemory` about one page. -/
theorem MemoryReachable.controlPage {s : KernelMemory} {p : ProcessMemory} {addr0 addr1 operation : UInt32}
    (h : MemoryReachable (fun _ => false) s)
    (hrun : Kernel.controlPage addr0 addr1 operation s.process = some p) :
    MemoryReachable (fun _ => false) { s with process := p } := by
  obtain ⟨⟨r, p'⟩, hcall, rfl⟩ := Option.map_eq_some_iff.1 hrun
  exact .control h hcall

end AzaharPlus.Kernel
