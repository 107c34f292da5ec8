import AzaharPlus.Lib.IntervalSet
import AzaharPlus.Kernel.PageMap

/-!
# The memory of a process

The model of the functions of `core/hle/kernel/process.cpp` that allocate and map memory
(`HeapAllocate`, `HeapFree`, `LinearAllocate`, `LinearFree`, `Map`, `Unmap`), of
`MemoryRegionInfo` in `core/hle/kernel/memory.cpp` below them, and of `SVC::ControlMemory`
in `core/hle/kernel/svc.cpp` above them.  The address space is the `VMManager` of
`AzaharPlus/Kernel/VmManager.lean`; a `boost::icl::interval_set` is an `IntervalSet`.

Addresses, sizes and counters are `u32`: sums and differences are taken modulo `2^32`
wherever the source has no check before them.  `none` stands for the end of the emulator, by
a failed `ASSERT` or by reading through `vma_map.end()`.  The contents of FCRAM and the
resource limit, whose answers the source ignores here, are left out.
-/

namespace AzaharPlus.Kernel

open Tiling Intervals

/-- A difference of two `u32`. -/
def sub32 (a b : Nat) : Nat := (a + 2 ^ 32 - b) % 2 ^ 32

/-- `HEAP_VADDR`. -/
def heapVaddr : Nat := 0x08000000

/-- `HEAP_VADDR_END`. -/
def heapVaddrEnd : Nat := 0x10000000

/-- `LINEAR_HEAP_VADDR`. -/
def linearHeapVaddr : Nat := 0x14000000

/-- `NEW_LINEAR_HEAP_VADDR`. -/
def newLinearHeapVaddr : Nat := 0x30000000

/-! ## Host memory -/

/-- `fcram_mem`, of `FCRAM_N3DS_SIZE` bytes. -/
def fcramMem : BackingMem := ⟨0, 0x10000000⟩

/-- `vram_mem`, `dsp_mem` and `n3ds_extra_ram_mem`. -/
def vramMem : BackingMem := ⟨1, 0x600000⟩

@[inherit_doc vramMem]
def dspMem : BackingMem := ⟨2, 0x80000⟩

@[inherit_doc vramMem]
def n3dsExtraRamMem : BackingMem := ⟨3, 0x400000⟩

/-- The pages of `config_mem_handler` and `shared_page_handler`. -/
def configMem : BackingMem := ⟨4, 0x1000⟩

@[inherit_doc configMem]
def sharedPage : BackingMem := ⟨5, 0x1000⟩

/-- `MemorySystem::GetFCRAMRef`. -/
def getFCRAMRef (offset : Nat) : Option MemoryRef :=
  if offset ≤ fcramMem.size then some ⟨fcramMem, offset⟩ else none

/-- `MemorySystem::GetFCRAMOffset`: the pointer has to lie in FCRAM. -/
def getFCRAMOffset (memory : MemoryRef) : Option Nat :=
  if memory.backingMem = fcramMem then some memory.offset else none

/-! ## Regions -/

/-- `MemoryRegionInfo`. -/
structure MemoryRegionInfo where
  base : Nat
  size : Nat
  used : Nat
  freeBlocks : IntervalSet
  isLocked : Bool

namespace MemoryRegionInfo

/-- `MemoryRegionInfo::Reset`, on a region that is not locked. -/
def reset (base size : Nat) : MemoryRegionInfo :=
  ⟨base, size, 0, IntervalSet.empty.insert ⟨base, base + size⟩, false⟩

/-- The loop of `MemoryRegionInfo::HeapAllocate` over the free blocks, from the highest on:
the blocks taken and the size that is still missing. -/
def takeBlocks : List Interval → Nat → IntervalSet → IntervalSet × Nat
  | [], rest, result => (result, rest)
  | i :: l, rest, result =>
      if i.upper - i.lower ≥ rest then (result.insert ⟨i.upper - rest, i.upper⟩, 0)
      else takeBlocks l (rest - (i.upper - i.lower)) (result.insert i)

/-- `MemoryRegionInfo::HeapAllocate`: the empty set if there is not enough space. -/
def heapAllocate (r : MemoryRegionInfo) (size : Nat) : Option (IntervalSet × MemoryRegionInfo) :=
  if r.isLocked then none
  else
    match takeBlocks r.freeBlocks.blocks.reverse size IntervalSet.empty with
    | (result, rest) =>
        if rest ≠ 0 then some (IntervalSet.empty, r)
        else some (result,
          { r with freeBlocks := r.freeBlocks.diff result, used := add32 r.used size })

/-- `MemoryRegionInfo::LinearAllocate` of a given range. -/
def linearAllocateAt (r : MemoryRegionInfo) (offset size : Nat) :
    Option (Bool × MemoryRegionInfo) :=
  if r.isLocked then none
  else if r.freeBlocks.contains ⟨offset, add32 offset size⟩ then
    some (true, { r with
      freeBlocks := r.freeBlocks.erase ⟨offset, add32 offset size⟩, used := add32 r.used size })
  else some (false, r)

/-- `MemoryRegionInfo::LinearAllocate` of a given size, in the lowest block that has it. -/
def linearAllocate (r : MemoryRegionInfo) (size : Nat) : Option (Option Nat × MemoryRegionInfo) :=
  if r.isLocked then none
  else
    match r.freeBlocks.blocks.find? fun i => i.upper - i.lower ≥ size with
    | some i =>
        some (some i.lower, { r with
          freeBlocks := r.freeBlocks.erase ⟨i.lower, i.lower + size⟩, used := add32 r.used size })
    | none => some (none, r)

/-- `MemoryRegionInfo::Free`; a locked region ignores it. -/
def free (r : MemoryRegionInfo) (offset size : Nat) : Option MemoryRegionInfo :=
  if r.isLocked then some r
  else if r.freeBlocks.intersects ⟨offset, add32 offset size⟩ then none
  else some { r with
    freeBlocks := r.freeBlocks.insert ⟨offset, add32 offset size⟩, used := sub32 r.used size }

end MemoryRegionInfo

/-! ## More of the virtual memory manager -/

namespace VMManager

/-- The loop of `VMManager::GetBackingBlocksForRange`.  Every turn moves on by at least a
byte, and `fuel` counts them. -/
def backingBlocks (l : List VirtualMemoryArea) (stop : Nat) :
    Nat → Nat → Option (Except VmError (List (MemoryRef × Nat)))
  | fuel, target =>
      if target = stop then some (.ok [])
      else
        match fuel with
        | 0 => none
        | fuel + 1 =>
            match (findVMA l target).after with
            | [] => none
            | vma :: _ =>
                if vma.val.type ≠ .backingMemory then some (.error .invalidAddressState)
                else do
                  let memory ← vma.val.backingMemory
                  let memory ← memory.addAssign (target - vma.base)
                  let size := min stop vma.stop - target
                  match ← backingBlocks l stop fuel (target + size) with
                  | .error e => some (.error e)
                  | .ok blocks => some (.ok ((memory, size) :: blocks))

/-- `VMManager::GetBackingBlocksForRange`. -/
def getBackingBlocksForRange (m : VMManager) (address size : Nat) :
    Option (Except VmError (List (MemoryRef × Nat))) :=
  backingBlocks m.vmaMap (address + size) size address

section

variable (isCached : Nat → Bool)

/-- `VMManager::Reprotect` of the area that has `target` inside. -/
def reprotect (m : VMManager) (target : Nat) (newPerms : VMAPermission) : Option VMManager :=
  if m.isLocked then none
  else (changeVMA isCached (reprotectAttributes newPerms) m.pageTable (findVMA m.vmaMap target)).map
    fun (pt, it) => { m with vmaMap := it.map, pageTable := pt }

/-- The loop by which `HeapAllocate` and `Map` map one block of memory after the other. -/
def mapBlocks (state : MemoryState) (perms : VMAPermission) :
    List (MemoryRef × Nat) → Nat → VMManager → Option VMManager
  | [], _, m => some m
  | (memory, size) :: blocks, target, m => do
      match ← m.mapBackingMemory isCached target memory size state with
      | (.error _, _) => none
      | (.ok (), m) =>
          let m ← m.reprotect isCached target perms
          mapBlocks state perms blocks (target + size) m

end

end VMManager

/-! ## The process -/

/-- The errors of the calls. -/
inductive MemoryError
  | invalidAddress
  | invalidAddressState
  | outOfHeapMemory
  | misalignedAddress
  | misalignedSize
  | invalidCombination
  deriving DecidableEq, Repr

/-- The errors of the virtual memory manager are passed on. -/
def VmError.toMemoryError : VmError → MemoryError
  | .invalidAddress => .invalidAddress
  | .invalidAddressState => .invalidAddressState

/-- The parts of a `Process` that its memory is kept in, with the region it is taken from. -/
structure ProcessMemory where
  vmManager : VMManager
  memoryRegion : MemoryRegionInfo
  holdingMemory : IntervalSet
  memoryUsed : Nat
  kernelVersion : Nat

namespace ProcessMemory

/-- `Process::GetLinearHeapAreaAddress`. -/
def getLinearHeapAreaAddress (p : ProcessMemory) : Nat :=
  if p.kernelVersion < 0x22C then linearHeapVaddr else newLinearHeapVaddr

/-- `Process::GetLinearHeapBase`. -/
def getLinearHeapBase (p : ProcessMemory) : Nat :=
  p.getLinearHeapAreaAddress + p.memoryRegion.base

/-- `Process::GetLinearHeapLimit`. -/
def getLinearHeapLimit (p : ProcessMemory) : Nat := p.getLinearHeapBase + p.memoryRegion.size

/-- The range check the functions begin with. -/
def outside (lo hi target size : Nat) : Bool :=
  target < lo ∨ add32 target size > hi ∨ add32 target size < target

/-- The check of `HeapAllocate` and `Map` that the target lies in one free area. -/
def targetTaken (p : ProcessMemory) (target size : Nat) : Option Bool :=
  match (findVMA p.vmManager.vmaMap target).after with
  | [] => none
  | vma :: _ => some (vma.val.type ≠ .free ∨ vma.base + vma.size < add32 target size)

section

variable (isCached : Nat → Bool)

/-- `Process::HeapAllocate`. -/
def heapAllocate (p : ProcessMemory) (target size : Nat) (perms : VMAPermission)
    (memoryState : MemoryState) (skipRangeCheck : Bool) :
    Option (Except MemoryError Nat × ProcessMemory) :=
  if outside heapVaddr heapVaddrEnd target size ∧ ¬ skipRangeCheck then
    some (.error .invalidAddress, p)
  else do
    if ← p.targetTaken target size then some (.error .invalidAddressState, p)
    else
      let (allocatedFcram, region) ← p.memoryRegion.heapAllocate size
      if allocatedFcram.blocks.isEmpty then
        some (.error .outOfHeapMemory, { p with memoryRegion := region })
      else
        let blocks ← allocatedFcram.blocks.mapM fun i =>
          (getFCRAMRef i.lower).map fun memory => (memory, i.upper - i.lower)
        let m ← p.vmManager.mapBlocks isCached memoryState perms blocks target
        some (.ok target, { p with
          vmManager := m
          memoryRegion := region
          holdingMemory := p.holdingMemory.union allocatedFcram
          memoryUsed := add32 p.memoryUsed size })

/-- The loop of `HeapFree`: the blocks are given back to the region. -/
def freeBlocks : List (MemoryRef × Nat) → ProcessMemory → Option ProcessMemory
  | [], p => some p
  | (memory, size) :: blocks, p => do
      let offset ← getFCRAMOffset memory
      let region ← p.memoryRegion.free offset size
      freeBlocks blocks { p with
        memoryRegion := region
        holdingMemory := p.holdingMemory.erase ⟨offset, add32 offset size⟩ }

/-- `Process::HeapFree`. -/
def heapFree (p : ProcessMemory) (target size : Nat) :
    Option (Except MemoryError Unit × ProcessMemory) :=
  if outside heapVaddr heapVaddrEnd target size then some (.error .invalidAddress, p)
  else if size = 0 then some (.ok (), p)
  else do
    match ← p.vmManager.getBackingBlocksForRange target size with
    | .error e => some (.error e.toMemoryError, p)
    | .ok blocks =>
        let p ← freeBlocks blocks p
        match ← p.vmManager.unmapRange isCached target size with
        | (.error _, _) => none
        | (.ok (), m) =>
            some (.ok (), { p with vmManager := m, memoryUsed := sub32 p.memoryUsed size })

/-- Where `LinearAllocate` puts the memory: its offset in FCRAM and its address, once the
region has given it away. -/
def linearPlace (p : ProcessMemory) (target size : Nat) :
    Option (Except MemoryError (Nat × Nat) × MemoryRegionInfo) :=
  if target = 0 then do
    match ← p.memoryRegion.linearAllocate size with
    | (none, region) => some (.error .outOfHeapMemory, region)
    | (some offset, region) => some (.ok (offset, add32 offset p.getLinearHeapAreaAddress), region)
  else if outside p.getLinearHeapBase p.getLinearHeapLimit target size then
    some (.error .invalidAddress, p.memoryRegion)
  else do
    match ← p.memoryRegion.linearAllocateAt (target - p.getLinearHeapAreaAddress) size with
    | (false, region) => some (.error .invalidAddressState, region)
    | (true, region) => some (.ok (target - p.getLinearHeapAreaAddress, target), region)

/-- `Process::LinearAllocate`. -/
def linearAllocate (p : ProcessMemory) (target size : Nat) (perms : VMAPermission) :
    Option (Except MemoryError Nat × ProcessMemory) := do
  match ← p.linearPlace target size with
  | (.error e, region) => some (.error e, { p with memoryRegion := region })
  | (.ok (physicalOffset, target), region) =>
      let backingMemory ← getFCRAMRef physicalOffset
      let m ← p.vmManager.mapBlocks isCached .continuous perms [(backingMemory, size)] target
      some (.ok target, { p with
        vmManager := m
        memoryRegion := region
        holdingMemory := p.holdingMemory.insert ⟨physicalOffset, add32 physicalOffset size⟩
        memoryUsed := add32 p.memoryUsed size })

/-- `Process::LinearFree`. -/
def linearFree (p : ProcessMemory) (target size : Nat) :
    Option (Except MemoryError Unit × ProcessMemory) :=
  if outside p.getLinearHeapBase p.getLinearHeapLimit target size then
    some (.error .invalidAddress, p)
  else if size = 0 then some (.ok (), p)
  else do
    match ← p.vmManager.unmapRange isCached target size with
    | (.error e, m) => some (.error e.toMemoryError, { p with vmManager := m })
    | (.ok (), m) =>
        let physicalOffset := target - p.getLinearHeapAreaAddress
        let region ← p.memoryRegion.free physicalOffset size
        some (.ok (), { p with
          vmManager := m
          memoryRegion := region
          holdingMemory := p.holdingMemory.erase ⟨physicalOffset, add32 physicalOffset size⟩
          memoryUsed := sub32 p.memoryUsed size })

/-- The check of `Map` and `Unmap` for overlapping ranges. -/
def overlapping (source target size : Nat) : Bool :=
  sub32 source target < size ∨ sub32 target source < size

/-- A result of the virtual memory manager, for the process. -/
def ofVm (p : ProcessMemory) : Except VmError Unit × VMManager →
    Except MemoryError Unit × ProcessMemory
  | (.error e, m) => (.error e.toMemoryError, { p with vmManager := m })
  | (.ok (), m) => (.ok (), { p with vmManager := m })

/-- `Process::Map`, not privileged as `ControlMemory` calls it. -/
def map (p : ProcessMemory) (target source size : Nat) (perms : VMAPermission) :
    Option (Except MemoryError Unit × ProcessMemory) :=
  if outside heapVaddr heapVaddrEnd source size then some (.error .invalidAddress, p)
  else if overlapping source target size then some (.error .invalidAddressState, p)
  else do
    if ← p.targetTaken target size then some (.error .invalidAddressState, p)
    else
      match ← p.vmManager.changeMemoryState isCached source size .private_ permReadWrite .aliased
          permReadWrite with
      | (.error e, m) => some (.error e.toMemoryError, { p with vmManager := m })
      | (.ok (), m) =>
          match ← m.getBackingBlocksForRange source size with
          | .error e => some (.error e.toMemoryError, { p with vmManager := m })
          | .ok blocks =>
              let m ← m.mapBlocks isCached .alias_ perms blocks target
              some (.ok (), { p with vmManager := m })

/-- `Process::Unmap`, not privileged as `ControlMemory` calls it. -/
def unmap (p : ProcessMemory) (target source size : Nat) (perms : VMAPermission) :
    Option (Except MemoryError Unit × ProcessMemory) :=
  if outside heapVaddr heapVaddrEnd source size then some (.error .invalidAddress, p)
  else if overlapping source target size then some (.error .invalidAddressState, p)
  else do
    match ← p.vmManager.unmapRange isCached target size with
    | (.error e, m) => some (.error e.toMemoryError, { p with vmManager := m })
    | (.ok (), m) =>
        let r ← m.changeMemoryState isCached source size .aliased permNone .private_ perms
        some (p.ofVm r)

end

end ProcessMemory

/-! ## The system call -/

/-- `MEMOP_REGION_MASK`, `MEMOP_OPERATION_MASK` and `MEMOP_LINEAR`. -/
def memopRegionMask : UInt32 := 0xF00

@[inherit_doc memopRegionMask]
def memopOperationMask : UInt32 := 0xFF

@[inherit_doc memopRegionMask]
def memopLinear : UInt32 := 0x10000

/-- The cases of the `switch` of `ControlMemory`. -/
inductive MemoryOp
  | free
  | commit
  | commitLinear
  | map
  | unmap
  | protect
  | unknown
  deriving DecidableEq, Repr

/-- The case an operation word selects, whatever region it asks for. -/
def MemoryOp.ofWord (operation : UInt32) : MemoryOp :=
  match ((operation &&& ~~~memopRegionMask) &&& memopOperationMask).toNat with
  | 1 => .free
  | 3 => if (operation &&& ~~~memopRegionMask) &&& memopLinear ≠ 0 then .commitLinear else .commit
  | 4 => .map
  | 5 => .unmap
  | 6 => .protect
  | _ => .unknown

section

variable (isCached : Nat → Bool)

/-- The operations, on arguments that passed the checks.  The result holds `*out_addr` if the
operation writes it. -/
def MemoryOp.apply (p : ProcessMemory) (op : MemoryOp) (addr0 addr1 size : Nat)
    (perms : VMAPermission) : Option (Except MemoryError (Option Nat) × ProcessMemory) :=
  match op with
  | .free =>
      if heapVaddr ≤ addr0 ∧ addr0 < heapVaddrEnd then
        (p.heapFree isCached addr0 size).map fun (r, p) => (r.map fun () => some addr0, p)
      else if p.getLinearHeapBase ≤ addr0 ∧ addr0 < p.getLinearHeapLimit then
        (p.linearFree isCached addr0 size).map fun (r, p) => (r.map fun () => some addr0, p)
      else some (.error .invalidAddress, p)
  | .commitLinear =>
      (p.linearAllocate isCached addr0 size perms).map fun (r, p) => (r.map some, p)
  | .commit =>
      (p.heapAllocate isCached addr0 size perms .private_ false).map fun (r, p) => (r.map some, p)
  | .map => (p.map isCached addr0 addr1 size perms).map fun (r, p) => (r.map fun () => none, p)
  | .unmap => (p.unmap isCached addr0 addr1 size perms).map fun (r, p) => (r.map fun () => none, p)
  | .protect =>
      (p.vmManager.reprotectRange isCached addr0 size perms).map fun r =>
        ((p.ofVm r).1.map fun () => none, (p.ofVm r).2)
  | .unknown => some (.error .invalidCombination, p)

/-- `SVC::ControlMemory`. -/
def controlMemory (p : ProcessMemory) (addr0 addr1 size operation permissions : UInt32) :
    Option (Except MemoryError (Option Nat) × ProcessMemory) :=
  if addr0.toNat % citraPageSize ≠ 0 then some (.error .misalignedAddress, p)
  else if addr1.toNat % citraPageSize ≠ 0 then some (.error .misalignedAddress, p)
  else if size.toNat % citraPageSize ≠ 0 then some (.error .misalignedSize, p)
  else if permissions &&& 3 ≠ permissions then some (.error .invalidCombination, p)
  else (MemoryOp.ofWord operation).apply isCached p addr0.toNat addr1.toNat size.toNat
    permissions.toUInt8

/-! ## The start of a process -/

/-- `AddressMapping`. -/
structure AddressMapping where
  address : UInt32
  size : UInt32
  readOnly : Bool
  unkFlag : Bool

/-- `memory_areas` of `HandleSpecialMapping`: where an area begins, how large it is, and its
memory, which the IO area has none of. -/
def memoryAreas : List (Nat × Nat × Option BackingMem) :=
  [(0x1F000000, 0x600000, some vramMem), (0x1EC00000, 0x400000, none),
    (0x1FF00000, 0x80000, some dspMem), (0x1E800000, 0x400000 - 0x20000, some n3dsExtraRamMem)]

/-- `KernelSystem::HandleSpecialMapping`. -/
def handleSpecialMapping (m : VMManager) (mapping : AddressMapping) : Option VMManager :=
  let limit := add32 mapping.address.toNat mapping.size.toNat
  if limit < mapping.address.toNat then some m
  else
    match memoryAreas.find? fun area =>
        mapping.address.toNat ≥ area.1 ∧ limit ≤ area.1 + area.2.1 with
    | none => some m
    | some (_, _, none) => some m
    | some (base, _, some memory) =>
        m.mapBlocks isCached (if mapping.unkFlag then .static_ else .io)
          (if mapping.readOnly then 1 else permReadWrite)
          [(⟨memory, mapping.address.toNat - base⟩, mapping.size.toNat)] mapping.address.toNat

/-- `KernelSystem::MapSharedPages`. -/
def mapSharedPages (m : VMManager) : Option VMManager := do
  let m ← m.mapBlocks isCached .shared 1 [(⟨configMem, 0⟩, 0x1000)] 0x1FF80000
  m.mapBlocks isCached .shared 1 [(⟨sharedPage, 0⟩, 0x1000)] 0x1FF81000

/-- `memory_region_sizes`: the sizes of the regions for each type of memory. -/
def memoryRegionSizes : Fin 8 → Fin 3 → Nat :=
  ![![0x04000000, 0x02C00000, 0x01400000], ![0, 0, 0], ![0x06000000, 0x00C00000, 0x01400000],
    ![0x05000000, 0x01C00000, 0x01400000], ![0x04800000, 0x02400000, 0x01400000],
    ![0x02000000, 0x04C00000, 0x01400000], ![0x07C00000, 0x06400000, 0x02000000],
    ![0x0B200000, 0x02E00000, 0x02000000]]

/-- The regions as `MemoryInit` lays them out, one behind the other. -/
def memoryInit (memType : Fin 8) (region : Fin 3) : MemoryRegionInfo :=
  MemoryRegionInfo.reset
    (((List.finRange 3).filter (· < region)).map (memoryRegionSizes memType)).sum
    (memoryRegionSizes memType region)

end

end AzaharPlus.Kernel
