import AzaharPlus.Kernel.VmManager
import AzaharPlus.Lib.BlockMemory

/-!
# Guest memory: words and blocks

The two ways in which the emulator reads and writes guest memory, from `memory.cpp`: words of a
fixed size, through the host pointer of a page, and blocks, page by page.

The rasterizer may hold newer bytes than memory for the pages that it has marked as cached; it is a
parameter, known by what a flush and an invalidation do.  An invalidation of a few bytes writes
whole surfaces back and takes marks away, so that the types of pages belong to the state.  Host
memory is a byte for every place of every block: a copy that runs over the end of a block reads and
writes what lies behind it.
-/

namespace AzaharPlus.Core

open Kernel Bytes BlockMemory

/-! ## Places in host memory -/

/-- A place in host memory: a block, and an offset in it. -/
abbrev Place := Nat × Nat

/-- The place of a reference. -/
def place (r : MemoryRef) : Place := (r.backingMem.id, r.offset)

/-- The place some bytes further on. -/
def Place.shift (p : Place) (n : Nat) : Place := (p.1, p.2 + n)

/-- The blocks that the rasterizer knows. -/
def fcramMem : Nat := 0
def vramMem : Nat := 1

def linearHeapVaddr : Nat := 0x14000000
def linearHeapVaddrEnd : Nat := 0x1C000000
def newLinearHeapVaddr : Nat := 0x30000000
def newLinearHeapVaddrEnd : Nat := 0x40000000
def vramVaddr : Nat := 0x1F000000
def vramVaddrEnd : Nat := 0x1F600000
def plugin3gxFbVaddr : Nat := 0x06000000
def plugin3gxFbVaddrEnd : Nat := 0x060A9000
def fcramPaddr : Nat := 0x20000000
def ioAreaPaddr : Nat := 0x10100000
def ioAreaVaddr : Nat := 0x1EC00000

/-- `GetPointerForRasterizerCache`, with the place of the frame buffer of a plugin in FCRAM; `none`
where the code is said to be unreachable. -/
def getPointerForRasterizerCache (pluginFb : Option Nat) (addr : Nat) : Option Place :=
  if linearHeapVaddr ≤ addr ∧ addr < linearHeapVaddrEnd then
    some (fcramMem, addr - linearHeapVaddr)
  else if newLinearHeapVaddr ≤ addr ∧ addr < newLinearHeapVaddrEnd then
    some (fcramMem, addr - newLinearHeapVaddr)
  else if vramVaddr ≤ addr ∧ addr < vramVaddrEnd then some (vramMem, addr - vramVaddr)
  else if plugin3gxFbVaddr ≤ addr ∧ addr < plugin3gxFbVaddrEnd then
    pluginFb.map fun fb => (fcramMem, addr - plugin3gxFbVaddr + fb)
  else none

/-- A page lies in an aligned region as a whole, or not at all. -/
theorem mem_region_add {start stop page o : Nat} (hstart : start % citraPageSize = 0)
    (hstop : stop % citraPageSize = 0) (ho : o < citraPageSize) :
    (start ≤ page * citraPageSize + o ∧ page * citraPageSize + o < stop) ↔
      (start ≤ page * citraPageSize ∧ page * citraPageSize < stop) := by
  unfold citraPageSize at *
  omega

/-- Within a page the places follow each other. -/
theorem getPointerForRasterizerCache_add (pluginFb : Option Nat) (page : Nat) {o : Nat}
    (ho : o < citraPageSize) :
    getPointerForRasterizerCache pluginFb (page * citraPageSize + o) =
      (getPointerForRasterizerCache pluginFb (page * citraPageSize)).map (·.shift o) := by
  have h₁ := @mem_region_add linearHeapVaddr linearHeapVaddrEnd page o rfl rfl ho
  have h₂ := @mem_region_add newLinearHeapVaddr newLinearHeapVaddrEnd page o rfl rfl ho
  have h₃ := @mem_region_add vramVaddr vramVaddrEnd page o rfl rfl ho
  have h₄ := @mem_region_add plugin3gxFbVaddr plugin3gxFbVaddrEnd page o rfl rfl ho
  have hsub : ∀ start, start ≤ page * citraPageSize →
      page * citraPageSize + o - start = page * citraPageSize - start + o := by
    intro start hle
    omega
  unfold getPointerForRasterizerCache
  simp only [h₁, h₂, h₃, h₄]
  split
  · rename_i hin
    rw [hsub _ hin.1]
    rfl
  · split
    · rename_i hin
      rw [hsub _ hin.1]
      rfl
    · split
      · rename_i hin
        rw [hsub _ hin.1]
        rfl
      · split
        · rename_i hin
          rw [hsub _ hin.1]
          cases pluginFb with
          | none => rfl
          | some fb =>
            simp only [Option.map_some, Place.shift]
            congr 2
            omega
        · rfl

/-- The place is one of a region of addresses. -/
def InRegion (pluginFb : Option Nat) (start size : Nat) (p : Place) : Prop :=
  ∃ i < size, getPointerForRasterizerCache pluginFb (start + i) = some p

/-! ## The state of memory -/

/-- Host memory, the bytes that the rasterizer has newer than memory, and the pages of the cache
marker. -/
structure HostState where
  memory : Nat → Memory
  newer : Nat → Nat → Option UInt8
  marked : Nat → Bool

namespace HostState

/-- The byte at a place. -/
def byte (s : HostState) (p : Place) : UInt8 := s.memory p.1 p.2

/-- What the rasterizer has newer for a place. -/
def newerAt (s : HostState) (p : Place) : Option UInt8 := s.newer p.1 p.2

/-- The byte at a place, with what the rasterizer has. -/
def current (s : HostState) (p : Place) : UInt8 := (s.newerAt p).getD (s.byte p)

/-- `memcpy` from a place. -/
def copyFrom (s : HostState) (p : Place) (n : Nat) : List UInt8 := readBlock (s.memory p.1) p.2 n

/-- `memcpy` to a place. -/
def copyTo (s : HostState) (p : Place) (data : List UInt8) : HostState :=
  { s with
    memory := Function.update s.memory p.1 (writeBlock (s.memory p.1) p.2 data data.length) }

theorem copyFrom_congr {s s' : HostState} {p p' : Place} {n : Nat}
    (h : ∀ i < n, s.byte (p.shift i) = s'.byte (p'.shift i)) : s.copyFrom p n = s'.copyFrom p' n :=
  List.map_congr_left fun i hi => h i (List.mem_range.1 hi)

theorem copyFrom_add (s : HostState) (p : Place) (k l : Nat) :
    s.copyFrom p (k + l) = s.copyFrom p k ++ s.copyFrom (p.shift k) l := by
  simp only [copyFrom, readBlock, List.range_add, List.map_append, List.map_map, Place.shift]
  congr 1
  refine List.map_congr_left fun i _ => ?_
  simp [Nat.add_assoc]

theorem byte_copyTo (s : HostState) (p : Place) (data : List UInt8) (q : Place) :
    (s.copyTo p data).byte q =
      if q.1 = p.1 ∧ p.2 ≤ q.2 ∧ q.2 < p.2 + data.length then byteAt data (q.2 - p.2)
      else s.byte q := by
  unfold HostState.byte copyTo
  by_cases hb : q.1 = p.1
  · simp only [hb, Function.update_self, true_and]
    rfl
  · simp only [Function.update_of_ne hb, hb, false_and, if_false]

@[simp] theorem newerAt_copyTo (s : HostState) (p : Place) (data : List UInt8) (q : Place) :
    (s.copyTo p data).newerAt q = s.newerAt q := rfl

end HostState

/-- What the memory system calls: the rasterizer and the registers of the GPU, and the plugin
loader, which has a frame buffer somewhere in FCRAM. -/
structure Devices where
  /-- `GetPluginFBAddr()`, from the start of FCRAM. -/
  pluginFb : Option Nat
  /-- `RasterizerFlushVirtualRegion` with `FlushMode::Flush`. -/
  flush : HostState → Nat → Nat → HostState
  /-- `RasterizerFlushVirtualRegion` with `FlushMode::Invalidate`. -/
  invalidate : HostState → Nat → Nat → HostState
  readReg : HostState → Nat → Nat
  writeReg : HostState → Nat → Nat → HostState
  /-- A flush writes back what is newer in its region, and maybe elsewhere; nothing else changes. -/
  flush_region : ∀ s start size p, InRegion pluginFb start size p →
    (flush s start size).newerAt p = none
  flush_current : ∀ s start size p, (flush s start size).current p = s.current p
  flush_none : ∀ s start size p, s.newerAt p = none → (flush s start size).newerAt p = none
  flush_marked : ∀ s start size, (flush s start size).marked = s.marked
  /-- An invalidation forgets what is newer in its region.  Elsewhere it may write back what is newer,
  as it does when it removes whole surfaces for the sake of a few bytes. -/
  invalidate_region : ∀ s start size p, InRegion pluginFb start size p →
    (invalidate s start size).newerAt p = none
  invalidate_current : ∀ s start size p, ¬ InRegion pluginFb start size p →
    (invalidate s start size).current p = s.current p
  invalidate_none : ∀ s start size p, s.newerAt p = none →
    (invalidate s start size).byte p = s.byte p ∧ (invalidate s start size).newerAt p = none
  /-- A page that loses its mark has no surface left, and so nothing newer. -/
  invalidate_marked : ∀ s start size page o p, s.marked page = true →
    (invalidate s start size).marked page = false → o < citraPageSize →
    getPointerForRasterizerCache pluginFb (page * citraPageSize + o) = some p →
    (invalidate s start size).newerAt p = none

/-! ## Page tables -/

/-- What the pages of a process are mapped to.  Where the rasterizer looks for memory, it finds the
memory of the page. -/
structure GuestPages (pluginFb : Option Nat) where
  mapped : Nat → Option MemoryRef
  linear : ∀ page r p, mapped page = some r →
    getPointerForRasterizerCache pluginFb (page * citraPageSize) = some p → place r = p

namespace GuestPages

variable {pluginFb : Option Nat} (pages : GuestPages pluginFb)

/-- A page with memory and a mark, where the rasterizer looks for memory. -/
def isCached (marked : Nat → Bool) (page : Nat) : Bool :=
  (pages.mapped page).isSome && marked page &&
    (getPointerForRasterizerCache pluginFb (page * citraPageSize)).isSome

/-- The page table under the marks, as `MapPages` makes it and `RasterizerMarkRegionCached` keeps it:
exactly the pages of type `Memory` have a pointer. -/
def table (marked : Nat → Bool) : PageTable where
  attributes page :=
    if pages.isCached marked page then .rasterizerCachedMemory
    else if (pages.mapped page).isSome then .memory
    else .unmapped
  pointers page := if pages.isCached marked page then none else pages.mapped page

end GuestPages

/-- What `RasterizerMarkRegionCached` does to a page of a page table, with the memory that the
rasterizer finds there. -/
def markPage (table : PageTable) (page : Nat) (found : MemoryRef) (cached : Bool) : PageTable :=
  match cached, table.attributes page with
  | true, .memory =>
      { attributes := Function.update table.attributes page .rasterizerCachedMemory
        pointers := Function.update table.pointers page none }
  | false, .rasterizerCachedMemory =>
      { attributes := Function.update table.attributes page .memory
        pointers := Function.update table.pointers page (some found) }
  | _, _ => table

/-- It makes the page table under the new marks of that under the old ones. -/
theorem GuestPages.table_mark {pluginFb : Option Nat} (pages : GuestPages pluginFb)
    {marked : Nat → Bool} {page : Nat} {found : MemoryRef} {cached : Bool}
    (hmarked : marked page = !cached)
    (hfound : getPointerForRasterizerCache pluginFb (page * citraPageSize) = some (place found))
    (a : Nat) :
    (pages.table (Function.update marked page cached)).attributes a =
        (markPage (pages.table marked) page found cached).attributes a ∧
      ((pages.table (Function.update marked page cached)).pointers a).map place =
        ((markPage (pages.table marked) page found cached).pointers a).map place := by
  by_cases ha : a = page
  · subst ha
    cases hr : pages.mapped a with
    | none => cases cached <;> simp [markPage, table, isCached, hr, hmarked]
    | some r =>
      have hplace := pages.linear a r _ hr hfound
      cases cached <;> simp [markPage, table, isCached, hr, hmarked, hfound, hplace]
  · have hother : pages.isCached (Function.update marked page cached) a = pages.isCached marked a := by
      simp [isCached, ha]
    unfold markPage
    split <;> simp [table, hother, ha]

section Access

variable (dev : Devices) (pages : GuestPages dev.pluginFb)

/-! ## Words -/

/-- `vaddr & (1 << 31)` -/
def isLuma (vaddr : Nat) : Bool := vaddr / 2 ^ 31 % 2 = 1

/-- The custom mapping of FCRAM and the registers, of `Read`. -/
def readLuma (s : HostState) (vaddr n : Nat) : Option Nat :=
  if !isLuma vaddr then none
  else if (vaddr - 2 ^ 31) / 0x10000000 = 2 then
    some (leValue (s.copyFrom (fcramMem, vaddr - 2 ^ 31 - fcramPaddr) n))
  else if (vaddr - 2 ^ 31) / 0x10000000 = 1 ∧ ioAreaPaddr ≤ vaddr - 2 ^ 31 then
    some (dev.readReg s (vaddr - 2 ^ 31 - ioAreaPaddr + ioAreaVaddr) % 256 ^ n)
  else none

/-- The slow path of `Read`; a page of type `Memory` has a pointer. -/
def readSlow (s : HostState) (vaddr n : Nat) : Nat × HostState :=
  match (pages.table s.marked).attributes (vaddr / citraPageSize) with
  | .unmapped => (0, s)
  | .memory => (0, s)
  | .rasterizerCachedMemory =>
      match getPointerForRasterizerCache dev.pluginFb vaddr with
      | some p => (leValue ((dev.flush s vaddr n).copyFrom p n), dev.flush s vaddr n)
      | none => (0, dev.flush s vaddr n)

/-- `MemorySystem::Read<T>` for a type of `n` bytes. -/
def read (s : HostState) (vaddr n : Nat) : Nat × HostState :=
  match (pages.table s.marked).pointers (vaddr / citraPageSize) with
  | some r => (leValue (s.copyFrom ((place r).shift (vaddr % citraPageSize)) n), s)
  | none =>
      match readLuma dev s vaddr n with
      | some value => (value, s)
      | none => readSlow dev pages s vaddr n

/-- The custom mapping of FCRAM and the registers, of `Write`. -/
def writeLuma (s : HostState) (vaddr n value : Nat) : Option HostState :=
  if !isLuma vaddr then none
  else if (vaddr - 2 ^ 31) / 0x10000000 = 2 then
    some (s.copyTo (fcramMem, vaddr - 2 ^ 31 - fcramPaddr) (leBytes n value))
  else if (vaddr - 2 ^ 31) / 0x10000000 = 1 ∧ ioAreaPaddr ≤ vaddr - 2 ^ 31 then
    some (dev.writeReg s (vaddr - 2 ^ 31 - ioAreaPaddr + ioAreaVaddr) (value % 2 ^ 32))
  else none

/-- The slow path of `Write`. -/
def writeSlow (s : HostState) (vaddr n value : Nat) : HostState :=
  match (pages.table s.marked).attributes (vaddr / citraPageSize) with
  | .unmapped => s
  | .memory => s
  | .rasterizerCachedMemory =>
      match getPointerForRasterizerCache dev.pluginFb vaddr with
      | some p => (dev.invalidate s vaddr n).copyTo p (leBytes n value)
      | none => dev.invalidate s vaddr n

/-- `MemorySystem::Write<T>` for a type of `n` bytes. -/
def write (s : HostState) (vaddr n value : Nat) : HostState :=
  match (pages.table s.marked).pointers (vaddr / citraPageSize) with
  | some r => s.copyTo ((place r).shift (vaddr % citraPageSize)) (leBytes n value)
  | none =>
      match writeLuma dev s vaddr n value with
      | some s' => s'
      | none => writeSlow dev pages s vaddr n value

/-! ## Blocks -/

/-- One turn of the loop of `ReadBlockImpl`. -/
def readPage (s : HostState) (page offset amount : Nat) : List UInt8 × HostState :=
  match (pages.table s.marked).attributes page with
  | .unmapped => (List.replicate amount 0, s)
  | .memory =>
      match (pages.table s.marked).pointers page with
      | some r => (s.copyFrom ((place r).shift offset) amount, s)
      | none => (List.replicate amount 0, s)
  | .rasterizerCachedMemory =>
      match getPointerForRasterizerCache dev.pluginFb (page * citraPageSize + offset) with
      | some p =>
          ((dev.flush s (page * citraPageSize + offset) amount).copyFrom p amount,
            dev.flush s (page * citraPageSize + offset) amount)
      | none =>
          (List.replicate amount 0, dev.flush s (page * citraPageSize + offset) amount)

/-- The loop of `ReadBlockImpl`, with at most `turns` turns. -/
def readBlockLoop : Nat → HostState → Nat → Nat → Nat → List UInt8 × HostState
  | 0, s, _, _, _ => ([], s)
  | turns + 1, s, page, offset, remaining =>
      if remaining = 0 then ([], s)
      else
        ((readPage dev pages s page offset (min (citraPageSize - offset) remaining)).1 ++
          (readBlockLoop turns
            (readPage dev pages s page offset (min (citraPageSize - offset) remaining)).2
            (page + 1) 0 (remaining - min (citraPageSize - offset) remaining)).1,
          (readBlockLoop turns
            (readPage dev pages s page offset (min (citraPageSize - offset) remaining)).2
            (page + 1) 0 (remaining - min (citraPageSize - offset) remaining)).2)

/-- `ReadBlock`; every turn of its loop reads at least one byte. -/
def readBlock (s : HostState) (vaddr size : Nat) : List UInt8 × HostState :=
  readBlockLoop dev pages size s (vaddr / citraPageSize) (vaddr % citraPageSize) size

/-- One turn of the loop of `WriteBlockImpl`. -/
def writePage (s : HostState) (page offset : Nat) (data : List UInt8) : HostState :=
  match (pages.table s.marked).attributes page with
  | .unmapped => s
  | .memory =>
      match (pages.table s.marked).pointers page with
      | some r => s.copyTo ((place r).shift offset) data
      | none => s
  | .rasterizerCachedMemory =>
      match getPointerForRasterizerCache dev.pluginFb (page * citraPageSize + offset) with
      | some p =>
          (dev.invalidate s (page * citraPageSize + offset) data.length).copyTo p data
      | none => dev.invalidate s (page * citraPageSize + offset) data.length

/-- The loop of `WriteBlockImpl`, with at most `turns` turns. -/
def writeBlockLoop : Nat → HostState → Nat → Nat → List UInt8 → HostState
  | 0, s, _, _, _ => s
  | turns + 1, s, page, offset, data =>
      if data = [] then s
      else
        writeBlockLoop turns
          (writePage dev pages s page offset (data.take (citraPageSize - offset)))
          (page + 1) 0 (data.drop (citraPageSize - offset))

/-- `WriteBlock` -/
def writeBlock (s : HostState) (vaddr : Nat) (data : List UInt8) : HostState :=
  writeBlockLoop dev pages data.length s (vaddr / citraPageSize) (vaddr % citraPageSize) data

/-- The byte that the guest sees at an address. -/
def guestByte (s : HostState) (vaddr : Nat) : UInt8 :=
  match (pages.table s.marked).attributes (vaddr / citraPageSize) with
  | .unmapped => 0
  | .memory =>
      match (pages.table s.marked).pointers (vaddr / citraPageSize) with
      | some r => s.byte ((place r).shift (vaddr % citraPageSize))
      | none => 0
  | .rasterizerCachedMemory =>
      match getPointerForRasterizerCache dev.pluginFb vaddr with
      | some p => s.current p
      | none => 0

end Access
end AzaharPlus.Core
