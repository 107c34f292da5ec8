import AzaharPlus.Lib.Tiling

/-!
# The kernel's virtual memory manager

The model of `VMManager` in `core/hle/kernel/vm_manager.cpp`, with the parts of
`common/memory_ref.h` and `core/memory.cpp` it uses.  `vma_map` is the list of its
areas in the order of their keys: the source inserts every area under its own base
and never changes the base of an area in the map.  An iterator is the position it
has in this list.  An address is a natural number, and a sum is taken modulo `2^32`
where no check of the source keeps it below.

A failed `ASSERT` stops the emulator; functions that may meet one return an
`Option`, with `none` for that.
-/

namespace AzaharPlus.Kernel

open Tiling

/-- `CITRA_PAGE_SIZE`. -/
def citraPageSize : Nat := 0x1000

/-- `PAGE_TABLE_NUM_ENTRIES`. -/
def pageTableNumEntries : Nat := 2 ^ 20

/-- `VMManager::MAX_ADDRESS`. -/
def maxAddress : Nat := 0x40000000

/-- A sum of two `u32`. -/
def add32 (a b : Nat) : Nat := (a + b) % 2 ^ 32

/-! ## Host memory -/

/-- `BackingMem`: one block of host memory.  Blocks are separate allocations, so a
pointer into one never equals a pointer into another. -/
structure BackingMem where
  id : Nat
  size : Nat
  deriving DecidableEq, Repr

/-- `MemoryRef`: a non-null reference into a block. -/
structure MemoryRef where
  backingMem : BackingMem
  offset : Nat
  deriving DecidableEq, Repr

namespace MemoryRef

/-- `GetSize`: what is left of the block. -/
def getSize (r : MemoryRef) : Nat := r.backingMem.size - r.offset

/-- The reference `n` bytes further on. -/
def shift (r : MemoryRef) (n : Nat) : MemoryRef := { r with offset := r.offset + n }

/-- `operator+=`, which asserts that it stays inside the block. -/
def addAssign (r : MemoryRef) (n : Nat) : Option MemoryRef :=
  if n < r.getSize then some (r.shift n) else none

end MemoryRef

/-! ## Areas -/

/-- `VMAType`. -/
inductive VMAType
  | free
  | backingMemory
  deriving DecidableEq, Repr

/-- `VMAPermission`, a set of flags. -/
abbrev VMAPermission := UInt8

/-- `VMAPermission::None`. -/
def permNone : VMAPermission := 0

/-- `VMAPermission::ReadWrite`. -/
def permReadWrite : VMAPermission := 3

/-- `MemoryState`. -/
inductive MemoryState
  | free | reserved | io | static_ | code | private_ | shared | continuous | aliased | alias_
  | aliasCode | locked
  deriving DecidableEq, Repr

/-- The attributes of a `VirtualMemoryArea`: all of it but its place. -/
structure Attributes where
  type : VMAType
  permissions : VMAPermission
  meminfoState : MemoryState
  backingMemory : Option MemoryRef
  deriving DecidableEq, Repr

/-- The attributes of the address `n` bytes further on in the same area. -/
def Attributes.shift (a : Attributes) (n : Nat) : Attributes :=
  { a with backingMemory := a.backingMemory.map (·.shift n) }

instance : AddAction ℕ Attributes where
  vadd n a := a.shift n
  zero_vadd a := by
    cases a with
    | mk t p s b => cases b <;> rfl
  add_vadd m n a := by
    cases a with
    | mk t p s b =>
        cases b with
        | none => rfl
        | some r =>
            show Attributes.shift _ _ = Attributes.shift (Attributes.shift _ _) _
            simp [Attributes.shift, MemoryRef.shift, Nat.add_assoc, Nat.add_comm n m]

/-- `VirtualMemoryArea`: its base, its size and its attributes. -/
abbrev VirtualMemoryArea := Tile Attributes

/-- The attributes of an area that is not mapped. -/
def freeAttributes : Attributes := ⟨.free, permNone, .free, none⟩

/-- `VirtualMemoryArea::CanBeMergedWith`. -/
def canBeMergedWith (vma next : VirtualMemoryArea) : Option Bool :=
  if vma.base + vma.size ≠ next.base then none
  else if vma.val.permissions ≠ next.val.permissions ∨
      vma.val.meminfoState ≠ next.val.meminfoState ∨ vma.val.type ≠ next.val.type then
    some false
  else if vma.val.type = .backingMemory ∧
      vma.val.backingMemory.map (·.shift vma.size) ≠ next.val.backingMemory then
    some false
  else some true

/-! ## The page table -/

/-- `PageType`. -/
inductive PageType
  | unmapped
  | memory
  | rasterizerCachedMemory
  deriving DecidableEq, Repr

/-- `PageTable`: the type and the pointer of every page. -/
structure PageTable where
  attributes : Nat → PageType
  pointers : Nat → Option MemoryRef

/-- `PageTable::Clear`. -/
def PageTable.clear : PageTable := ⟨fun _ => .unmapped, fun _ => none⟩

section

-- `cache_marker.IsCached` of a page: which pages the rasterizer has cached
variable (isCached : Nat → Bool)

/-- The entry `MapPages` writes for one page. -/
def PageTable.setPage (pt : PageTable) (page : Nat) (memory : Option MemoryRef) (type : PageType) :
    PageTable :=
  if type = .memory ∧ isCached page then
    ⟨Function.update pt.attributes page .rasterizerCachedMemory,
      Function.update pt.pointers page none⟩
  else ⟨Function.update pt.attributes page type, Function.update pt.pointers page memory⟩

/-- How `MapPages` moves on to the memory of the next page: it does not leave the block. -/
def nextPageMemory (memory : Option MemoryRef) : Option (Option MemoryRef) :=
  match memory with
  | none => some none
  | some r => if r.getSize > citraPageSize then (r.addAssign citraPageSize).map some
      else some (some r)

/-- `MemorySystem::MapPages`: the loop over `size` pages from `base` on. -/
def mapPages (pt : PageTable) (base : Nat) (memory : Option MemoryRef) (type : PageType) :
    Nat → Option PageTable
  | 0 => some pt
  | size + 1 =>
      if base < pageTableNumEntries then
        (nextPageMemory memory).bind fun memory' =>
          mapPages (pt.setPage isCached base memory type) (base + 1) memory' type size
      else none

/-- `VMManager::UpdatePageTableForVMA`, through `MapMemoryRegion` and `UnmapRegion`. -/
def updatePageTableForVMA (pt : PageTable) (vma : VirtualMemoryArea) : Option PageTable :=
  if vma.size % citraPageSize = 0 ∧ vma.base % citraPageSize = 0 then
    match vma.val.type with
    | .free => mapPages isCached pt (vma.base / citraPageSize) none .unmapped
        (vma.size / citraPageSize)
    | .backingMemory => mapPages isCached pt (vma.base / citraPageSize) vma.val.backingMemory
        .memory (vma.size / citraPageSize)
  else none

end

/-! ## The map of areas -/

/-- An iterator of `vma_map`: the areas before it, nearest first, and those from it on. -/
structure VMAIter where
  before : List VirtualMemoryArea
  after : List VirtualMemoryArea

namespace VMAIter

/-- The map an iterator belongs to. -/
def map (it : VMAIter) : List VirtualMemoryArea := it.before.reverse ++ it.after

/-- `std::prev`. -/
def prev (it : VMAIter) : VMAIter :=
  match it.before with
  | [] => it
  | p :: before => ⟨before, p :: it.after⟩

/-- `std::next`. -/
def next (it : VMAIter) : VMAIter :=
  match it.after with
  | [] => it
  | c :: after => ⟨c :: it.before, after⟩

end VMAIter

/-- `std::map::upper_bound`: the first area with a key above `target`. -/
def upperBound (l : List VirtualMemoryArea) (target : Nat) : VMAIter :=
  ⟨(l.takeWhile (·.base ≤ target)).reverse, l.dropWhile (·.base ≤ target)⟩

/-- `std::map::lower_bound`: the first area with a key of at least `target`. -/
def lowerBound (l : List VirtualMemoryArea) (target : Nat) : VMAIter :=
  ⟨(l.takeWhile (·.base < target)).reverse, l.dropWhile (·.base < target)⟩

/-- `VMManager::FindVMA`. -/
def findVMA (l : List VirtualMemoryArea) (target : Nat) : VMAIter :=
  if target ≥ maxAddress then ⟨l.reverse, []⟩ else (upperBound l target).prev

/-- The memory of the right side of a split: the `switch` of `SplitVMA`. -/
def splitBacking (a : Attributes) (offsetInVma : Nat) : Option (Option MemoryRef) :=
  match a.type with
  | .free => some a.backingMemory
  | .backingMemory => a.backingMemory.bind fun r => (r.addAssign offsetInVma).map some

/-- `VMManager::SplitVMA`: the right side of the split; the left side is before it. -/
def splitVMA (it : VMAIter) (offsetInVma : Nat) : Option VMAIter :=
  match it.after with
  | [] => none
  | vma :: rest =>
      if offsetInVma < vma.size ∧ offsetInVma > 0 then do
        let backing ← splitBacking vma.val offsetInVma
        let oldVma := { vma with size := offsetInVma }
        let newVma : VirtualMemoryArea := ⟨vma.base + offsetInVma, vma.size - offsetInVma,
          { vma.val with backingMemory := backing }⟩
        let mergeable ← canBeMergedWith oldVma newVma
        if mergeable then some ⟨oldVma :: it.before, newVma :: rest⟩ else none
      else none

/-- The first half of `VMManager::MergeAdjacent`: the next area is taken in. -/
def mergeNext (vma : VirtualMemoryArea) (rest : List VirtualMemoryArea) :
    Option (VirtualMemoryArea × List VirtualMemoryArea) :=
  match rest with
  | [] => some (vma, [])
  | next :: rest => do
      let mergeable ← canBeMergedWith vma next
      some (if mergeable then ({ vma with size := vma.size + next.size }, rest)
        else (vma, next :: rest))

/-- The second half: the area is taken into the previous one. -/
def mergePrev (before : List VirtualMemoryArea) (vma : VirtualMemoryArea)
    (rest : List VirtualMemoryArea) : Option VMAIter :=
  match before with
  | [] => some ⟨[], vma :: rest⟩
  | prev :: before => do
      let mergeable ← canBeMergedWith prev vma
      some (if mergeable then ⟨before, { prev with size := prev.size + vma.size } :: rest⟩
        else ⟨prev :: before, vma :: rest⟩)

/-- `VMManager::MergeAdjacent`. -/
def mergeAdjacent (it : VMAIter) : Option VMAIter :=
  match it.after with
  | [] => none
  | vma :: rest => do
      let (vma, rest) ← mergeNext vma rest
      mergePrev it.before vma rest

/-! ## Carving -/

/-- The errors of the operations. -/
inductive VmError
  | invalidAddress
  | invalidAddressState
  deriving DecidableEq, Repr

/-- `CarveVMA` splits at the end of the allocated region. -/
def splitAtEnd (it : VMAIter) (endInVma vmaSize : Nat) : Option VMAIter :=
  if endInVma ≠ vmaSize then (splitVMA it endInVma).map (·.prev) else some it

/-- `CarveVMA` splits at the start of the allocated region. -/
def splitAtStart (it : VMAIter) (startInVma : Nat) : Option VMAIter :=
  if startInVma ≠ 0 then splitVMA it startInVma else some it

/-- `VMManager::CarveVMA`.  The errors come before the first split. -/
def carveVMA (l : List VirtualMemoryArea) (base size : Nat) : Option (Except VmError VMAIter) :=
  if size % citraPageSize = 0 ∧ base % citraPageSize = 0 then
    let it := findVMA l base
    match it.after with
    | [] => some (.error .invalidAddress)
    | vma :: _ =>
        if vma.val.type ≠ .free then some (.error .invalidAddressState)
        else
          let startInVma := base - vma.base
          let endInVma := add32 startInVma size
          if endInVma > vma.size then some (.error .invalidAddressState)
          else do
            let it ← splitAtEnd it endInVma vma.size
            let it ← splitAtStart it startInVma
            some (.ok it)
  else none

/-- The areas from an iterator up to the end of a range: `[begin_vma, lower_bound(target_end))`. -/
def areasUpTo (it : VMAIter) (targetEnd : Nat) : List VirtualMemoryArea :=
  it.after.takeWhile (·.base < targetEnd)

/-- The areas that the loop of `ChangeMemoryState` goes over.  Its `target_end` can wrap around, and if `i_end` then
stands before the iterator, the loop goes on to the end of the map. -/
def areasChecked (it : VMAIter) (targetEnd : Nat) : List VirtualMemoryArea :=
  if it.before.any (targetEnd ≤ ·.base) then it.after else areasUpTo it targetEnd

/-- The splits of `CarveVMARange`: the area at the iterator is split at an address, unless
it starts there or the iterator is at the end. -/
def splitAtAddress (it : VMAIter) (target : Nat) : Option VMAIter :=
  match it.after with
  | [] => some it
  | vma :: _ => if target ≠ vma.base then splitVMA it (target - vma.base) else some it

/-- `VMManager::CarveVMARange`.  The iterator it returns still stands at the area with
the key it had before the second split. -/
def carveVMARange (l : List VirtualMemoryArea) (target size : Nat) :
    Option (Except VmError VMAIter) :=
  let targetEnd := target + size
  if size % citraPageSize = 0 ∧ target % citraPageSize = 0 ∧ targetEnd ≤ maxAddress ∧
      size > 0 then
    let beginVma := findVMA l target
    if (areasUpTo beginVma targetEnd).any (·.val.type = .free) then
      some (.error .invalidAddressState)
    else do
      let beginVma ← splitAtAddress beginVma target
      let endVma ← splitAtAddress (findVMA beginVma.map targetEnd) targetEnd
      some (.ok (lowerBound endVma.map target))
  else none

/-! ## The manager -/

/-- `VMManager`: `vma_map`, `page_table` and `is_locked`. -/
structure VMManager where
  vmaMap : List VirtualMemoryArea
  pageTable : PageTable
  isLocked : Bool

namespace VMManager

section

variable (isCached : Nat → Bool)

/-- `VMManager::Reset`. -/
def reset (m : VMManager) : Option VMManager :=
  if m.isLocked then none
  else
    let initialVma : VirtualMemoryArea := ⟨0, maxAddress, freeAttributes⟩
    (updatePageTableForVMA isCached PageTable.clear initialVma).map fun pt =>
      { m with vmaMap := [initialVma], pageTable := pt }

/-- `VMManager::MapBackingMemory`. -/
def mapBackingMemory (m : VMManager) (target : Nat) (memory : MemoryRef) (size : Nat)
    (state : MemoryState) : Option (Except VmError Unit × VMManager) :=
  if m.isLocked then none
  else do
    match ← carveVMA m.vmaMap target size with
    | .error e => some (.error e, m)
    | .ok it =>
        match it.after with
        | [] => none
        | vma :: rest =>
            if vma.size ≠ size then none
            else
              let finalVma : VirtualMemoryArea :=
                { vma with val := ⟨.backingMemory, permReadWrite, state, some memory⟩ }
              let pt ← updatePageTableForVMA isCached m.pageTable finalVma
              let it ← mergeAdjacent ⟨it.before, finalVma :: rest⟩
              some (.ok (), { m with vmaMap := it.map, pageTable := pt })

/-- One turn of the loops over a range: an area is changed, the page table updated for
it, and the area merged with its neighbours.  `Unmap`, `Reprotect` and the body of the
loop of `ChangeMemoryState` are its instances. -/
def changeVMA (change : Attributes → Attributes) (pt : PageTable) (it : VMAIter) :
    Option (PageTable × VMAIter) :=
  match it.after with
  | [] => none
  | vma :: rest => do
      let vma := vma.map change
      let pt ← updatePageTableForVMA isCached pt vma
      let it ← mergeAdjacent ⟨it.before, vma :: rest⟩
      some (pt, it)

/-- `while (vma != end && vma->second.base < target_end) vma = std::next(...)`.  Every
turn leaves fewer areas behind the iterator, and `fuel` counts them. -/
def changeLoop (change : Attributes → Attributes) (targetEnd : Nat) :
    Nat → PageTable → VMAIter → Option (PageTable × VMAIter)
  | fuel, pt, it =>
      match it.after with
      | [] => some (pt, it)
      | vma :: _ =>
          if vma.base < targetEnd then
            match fuel with
            | 0 => none
            | fuel + 1 => do
                let (pt, it) ← changeVMA isCached change pt it
                changeLoop change targetEnd fuel pt it.next
          else some (pt, it)

/-- The part `UnmapRange`, `ReprotectRange` and `ChangeMemoryState` share: the range is
carved and every area in it changed. -/
def changeAreas (m : VMManager) (change : Attributes → Attributes) (target size : Nat) :
    Option (Except VmError Unit × VMManager) := do
  match ← carveVMARange m.vmaMap target size with
  | .error e => some (.error e, m)
  | .ok it =>
      let (pt, it) ← changeLoop isCached change (target + size) it.after.length m.pageTable it
      some (.ok (), { m with vmaMap := it.map, pageTable := pt })

/-- What `Unmap` makes of the attributes of an area. -/
def unmapAttributes (_ : Attributes) : Attributes := freeAttributes

/-- `VMManager::UnmapRange`. -/
def unmapRange (m : VMManager) (target size : Nat) :
    Option (Except VmError Unit × VMManager) :=
  if m.isLocked then none
  else do
    match ← m.changeAreas isCached unmapAttributes target size with
    | (.error e, m) => some (.error e, m)
    | (.ok (), m) =>
        match (findVMA m.vmaMap target).after with
        | [] => none
        | vma :: _ => if vma.size ≥ size then some (.ok (), m) else none

/-- What `Reprotect` makes of the attributes of an area. -/
def reprotectAttributes (newPerms : VMAPermission) (a : Attributes) : Attributes :=
  { a with permissions := newPerms }

/-- `VMManager::ReprotectRange`. -/
def reprotectRange (m : VMManager) (target size : Nat) (newPerms : VMAPermission) :
    Option (Except VmError Unit × VMManager) :=
  if m.isLocked then none
  else m.changeAreas isCached (reprotectAttributes newPerms) target size

/-- What `ChangeMemoryState` makes of the attributes of an area. -/
def restateAttributes (newState : MemoryState) (newPerms : VMAPermission) (a : Attributes) :
    Attributes :=
  { a with permissions := newPerms, meminfoState := newState }

/-- `VMManager::ChangeMemoryState`.  A locked manager ignores the call; a range that wraps around and passes the checks
fails the assertions of `CarveVMARange`. -/
def changeMemoryState (m : VMManager) (target size : Nat) (expectedState : MemoryState)
    (expectedPerms : VMAPermission) (newState : MemoryState) (newPerms : VMAPermission) :
    Option (Except VmError Unit × VMManager) :=
  if m.isLocked then some (.ok (), m)
  else
    let beginVma := findVMA m.vmaMap target
    if beginVma.after = [] then some (.error .invalidAddress, m)
    else if (areasChecked beginVma (add32 target size)).any fun vma =>
        vma.val.meminfoState ≠ expectedState ∨ vma.val.permissions &&& expectedPerms ≠ expectedPerms
      then some (.error .invalidAddressState, m)
    else m.changeAreas isCached (restateAttributes newState newPerms) target size

end

end VMManager

end AzaharPlus.Kernel
