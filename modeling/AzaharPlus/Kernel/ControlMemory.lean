import AzaharPlus.Kernel.MemoryCalls

/-!
# Free and mapped memory of a process

The memory of a process is kept in four places: the areas of its address space, the free
blocks of its region, `holding_memory`, and the counters.  `ProcessMemory.Sound` says how they
belong together.  Every call of `ControlMemory` keeps them so, except that a `FREE` may give
back memory that is mapped a second time elsewhere: neither `HeapFree` nor `LinearFree` asks
for the state of the memory, and `Map` leaves an alias behind.

Main results:

* `no_page_free_and_mapped`: as long as no `FREE` gives back memory that another page of the
  heap or the linear heap is mapped to, no such page is mapped to free memory, and the
  counters agree.
* `page_free_and_mapped`: a page is committed, aliased and freed, and its alias stays mapped
  to free memory.
-/

namespace AzaharPlus.Kernel

open Tiling Intervals

local instance memoryTypes : NeZero 8 := ⟨Nat.succ_ne_zero 7⟩

local instance memoryRegions : NeZero 3 := ⟨Nat.succ_ne_zero 2⟩

/-! ## The region of a process -/

/-- The free blocks of a region of FCRAM and the memory taken from it make up the region. -/
structure RegionOk (r : MemoryRegionInfo) (holding : IntervalSet) : Prop where
  unlocked : r.isLocked = false
  bound : r.base + r.size ≤ fcramMem.size
  free_subset : r.freeBlocks.toFinset ⊆ r.space
  holding_eq : holding.toFinset = r.space \ r.freeBlocks.toFinset
  used_eq : r.used = holding.size

theorem RegionOk.balanced {r : MemoryRegionInfo} {holding : IntervalSet} (h : RegionOk r holding) :
    Balanced r holding.toFinset where
  unlocked := h.unlocked
  bound := h.bound.trans_lt (by decide)
  free_subset := h.free_subset
  live_eq := h.holding_eq
  used_eq := by rw [h.used_eq, IntervalSet.card_toFinset]

theorem Balanced.regionOk {r : MemoryRegionInfo} {holding : IntervalSet} (h : Balanced r holding.toFinset)
    (hbound : r.base + r.size ≤ fcramMem.size) : RegionOk r holding where
  unlocked := h.unlocked
  bound := hbound
  free_subset := h.free_subset
  holding_eq := h.live_eq
  used_eq := by rw [h.used_eq, IntervalSet.card_toFinset]

theorem RegionOk.size_le {r : MemoryRegionInfo} {holding : IntervalSet} (h : RegionOk r holding) :
    holding.size + r.freeBlocks.toFinset.card = r.size := by
  rw [← IntervalSet.card_toFinset]
  exact h.balanced.size_eq

theorem RegionOk.inFcram {r : MemoryRegionInfo} {holding : IntervalSet} (h : RegionOk r holding) :
    RegionInFcram r where
  unlocked := h.unlocked
  bound := h.bound
  free := fun x hx => by
    have hx' := Finset.mem_Ico.1 (h.free_subset hx)
    exact Finset.mem_range.2 (hx'.2.trans_le h.bound)
  used := by
    have h₁ := h.size_le
    have h₂ := h.balanced.bound
    have h₃ := h.used_eq
    omega

theorem add32_of_le {a b : Nat} (h : a + b ≤ fcramMem.size) : add32 a b = a + b :=
  add32_of_lt (h.trans_lt (by decide))

/-- Free memory is taken from a region. -/
theorem RegionOk.take {r r' : MemoryRegionInfo} {holding holding' : IntervalSet} {A : Finset Nat}
    (h : RegionOk r holding) (hm : r.Moved r') (hA : A ⊆ r.freeBlocks.toFinset)
    (hfree : r'.freeBlocks.toFinset = r.freeBlocks.toFinset \ A)
    (hhold : holding'.toFinset = holding.toFinset ∪ A) (hused : r'.used = add32 r.used A.card) :
    RegionOk r' holding' ∧ r'.used = r.used + A.card := by
  obtain ⟨hbalanced, hused'⟩ := h.balanced.take hm hA hfree hused
  rw [← hhold] at hbalanced
  exact ⟨hbalanced.regionOk (by rw [hm.base, hm.size]; exact h.bound), hused'⟩

/-- Memory is given back to a region. -/
theorem RegionOk.give {r r' : MemoryRegionInfo} {holding holding' : IntervalSet} {B : Finset Nat}
    (h : RegionOk r holding) (hm : r.Moved r') (hB : B ⊆ r.space)
    (hdis : Disjoint B r.freeBlocks.toFinset)
    (hfree : r'.freeBlocks.toFinset = B ∪ r.freeBlocks.toFinset)
    (hhold : holding'.toFinset = holding.toFinset \ B) (hused : r'.used = sub32 r.used B.card) :
    RegionOk r' holding' ∧ r'.used + B.card = r.used := by
  obtain ⟨hbalanced, hused'⟩ := h.balanced.give hm hB hdis hfree hused
  rw [← hhold] at hbalanced
  exact ⟨hbalanced.regionOk (by rw [hm.base, hm.size]; exact h.bound), hused'⟩

/-! ## The invariant -/

/-- An address of the heap. -/
def InHeap (a : Nat) : Prop := heapVaddr ≤ a ∧ a < heapVaddrEnd

instance (a : Nat) : Decidable (InHeap a) := inferInstanceAs (Decidable (_ ∧ _))

namespace ProcessMemory

/-- An address of the heap or of the linear heap. -/
def InHeaps (p : ProcessMemory) (a : Nat) : Prop :=
  InHeap a ∨ (p.getLinearHeapBase ≤ a ∧ a < p.getLinearHeapLimit)

/-- The four places in which the memory of a process is kept agree. -/
structure Sound (isCached : Nat → Bool) (p : ProcessMemory) : Prop where
  consistent : Consistent isCached p.vmManager
  region : RegionOk p.memoryRegion p.holdingMemory
  memoryUsed : p.memoryUsed = p.memoryRegion.used
  heap : ∀ a, InHeap a → ∀ r ∈ p.vmManager.backing a,
    r.backingMem = fcramMem ∧ r.offset ∈ p.memoryRegion.space
  notFree : ∀ a, p.InHeaps a → ∀ r ∈ p.vmManager.backing a, r.backingMem = fcramMem →
    r.offset ∉ p.memoryRegion.freeBlocks.toFinset

variable {isCached : Nat → Bool} {p : ProcessMemory}

theorem inHeaps_congr {r' : MemoryRegionInfo} (hm : p.memoryRegion.Moved r') (m : VMManager)
    (holding' : IntervalSet) (used' a : Nat) :
    InHeaps ⟨m, r', holding', used', p.kernelVersion⟩ a ↔ p.InHeaps a := by
  simp only [InHeaps, getLinearHeapBase, getLinearHeapLimit, getLinearHeapAreaAddress, hm.base,
    hm.size]

/-- Only the address space changes, and no memory comes behind an address that was not behind
it or behind the heap before. -/
theorem Sound.remap (h : p.Sound isCached) {m : VMManager} (hm : Consistent isCached m)
    (hb : ∀ a r, m.backing a = some r → p.vmManager.backing a = some r ∨
      (r.backingMem ≠ fcramMem ∧ ¬ InHeap a) ∨
      ∃ b, InHeap b ∧ p.vmManager.backing b = some r) :
    Sound isCached { p with vmManager := m } where
  consistent := hm
  region := h.region
  memoryUsed := h.memoryUsed
  heap := fun a ha r hr => by
    rcases hb a r hr with hr | ⟨-, hna⟩ | ⟨b, hbh, hr⟩
    · exact h.heap a ha r hr
    · exact absurd ha hna
    · exact h.heap b hbh r hr
  notFree := fun a ha r hr hf => by
    rcases hb a r hr with hr | ⟨hnf, -⟩ | ⟨b, hbh, hr⟩
    · exact h.notFree a ha r hr hf
    · exact absurd hf hnf
    · exact h.notFree b (Or.inl hbh) r hr hf

/-- Free memory is taken from the region and comes behind some addresses. -/
theorem Sound.take (h : p.Sound isCached) {m : VMManager} {r' : MemoryRegionInfo}
    {holding' : IntervalSet} {A : Finset Nat} (hm : Consistent isCached m)
    (hr : p.memoryRegion.Moved r') (hA : A ⊆ p.memoryRegion.freeBlocks.toFinset)
    (hfree : r'.freeBlocks.toFinset = p.memoryRegion.freeBlocks.toFinset \ A)
    (hhold : holding'.toFinset = p.holdingMemory.toFinset ∪ A)
    (hused : r'.used = add32 p.memoryRegion.used A.card)
    (hb : ∀ a r, m.backing a = some r → p.vmManager.backing a = some r ∨
      (r.backingMem = fcramMem ∧ r.offset ∈ A)) :
    Sound isCached { p with
      vmManager := m
      memoryRegion := r'
      holdingMemory := holding'
      memoryUsed := add32 p.memoryUsed A.card } where
  consistent := hm
  region := (h.region.take hr hA hfree hhold hused).1
  memoryUsed := by
    show add32 p.memoryUsed A.card = r'.used
    rw [hused, h.memoryUsed]
  heap := fun a ha r hra => by
    show _ ∧ _ ∈ r'.space
    rw [hr.space]
    rcases hb a r hra with hra | ⟨hf, hoff⟩
    · exact h.heap a ha r hra
    · exact ⟨hf, h.region.free_subset (hA hoff)⟩
  notFree := fun a ha r hra hf => by
    show _ ∉ r'.freeBlocks.toFinset
    rw [hfree, Finset.mem_sdiff]
    rintro ⟨hin, hnA⟩
    rcases hb a r hra with hra | ⟨-, hoff⟩
    · exact h.notFree a ((inHeaps_congr hr _ _ _ a).1 ha) r hra hf hin
    · exact hnA hoff

/-- Memory is given back to the region that lies behind no address of the heaps. -/
theorem Sound.give (h : p.Sound isCached) {m : VMManager} {r' : MemoryRegionInfo}
    {holding' : IntervalSet} {used' : Nat} {B : Finset Nat} (hm : Consistent isCached m)
    (hr : p.memoryRegion.Moved r') (hregion : RegionOk r' holding') (hused : used' = r'.used)
    (hfree : r'.freeBlocks.toFinset = B ∪ p.memoryRegion.freeBlocks.toFinset)
    (hb : ∀ a r, m.backing a = some r → p.vmManager.backing a = some r ∧
      (p.InHeaps a → r.backingMem = fcramMem → r.offset ∉ B)) :
    Sound isCached { p with
      vmManager := m
      memoryRegion := r'
      holdingMemory := holding'
      memoryUsed := used' } where
  consistent := hm
  region := hregion
  memoryUsed := hused
  heap := fun a ha r hra => by
    show _ ∧ _ ∈ r'.space
    rw [hr.space]
    exact h.heap a ha r (hb a r hra).1
  notFree := fun a ha r hra hf => by
    have ha' : p.InHeaps a := (inHeaps_congr hr _ _ _ a).1 ha
    show _ ∉ r'.freeBlocks.toFinset
    rw [hfree, Finset.mem_union]
    rintro (hB | hin)
    · exact (hb a r hra).2 ha' hf hB
    · exact h.notFree a ha' r (hb a r hra).1 hf hin

/-! ## The operations -/

/-- Blocks of FCRAM, laid behind a range. -/
theorem laid_fcram {l : List Interval} {target a : Nat} {r : MemoryRef}
    (h : laid (l.map fun i => (⟨fcramMem, i.lower⟩, i.upper - i.lower)) target a = some r) :
    r.backingMem = fcramMem ∧ r.offset ∈ covered l := by
  obtain ⟨-, b, hb, i, hi, rfl⟩ := laid_eq_some h
  obtain ⟨j, hj, rfl⟩ := List.mem_map.1 hb
  refine ⟨rfl, toFinset_subset_covered hj (Interval.mem_toFinset.2 ?_)⟩
  simp only [MemoryRef.shift] at hi ⊢
  omega

theorem Sound.unlocked (h : p.Sound isCached) : p.memoryRegion.isLocked = false :=
  h.region.unlocked

/-- `HeapAllocate` keeps the four places in agreement, with or without its range check. -/
theorem Sound.heapAllocate (h : p.Sound isCached) {target size : Nat} {perms : VMAPermission}
    {state : MemoryState} {skip : Bool} {r : Except MemoryError Nat} {p' : ProcessMemory}
    (hrun : p.heapAllocate isCached target size perms state skip = some (r, p')) :
    p'.Sound isCached := by
  obtain ⟨e, -, rfl⟩ | ⟨A, region, m, -, htake, hne, hmap, rfl⟩ :=
    heapAllocate_cases h.region.inFcram.used hrun
  · exact h
  · obtain ⟨hm, hsub, hcard, hfree, hused⟩ := (heapAllocate_takes h.unlocked htake).resolve_left
      fun hA => hne (blocks_eq_nil_iff.2 hA.1)
    obtain ⟨hm', hb'⟩ := mapBlocks_returns h.consistent
      (fcramBlocks_fit (hsub.trans h.region.inFcram.free)) hmap
    have htaken := h.take hm' hm hsub hfree (IntervalSet.toFinset_union _ _) hused
      (fun a r hr => by
        rw [hb', Option.or_eq_some_iff] at hr
        rcases hr with hr | ⟨-, hr⟩
        · exact Or.inr (laid_fcram hr)
        · exact Or.inl hr)
    rw [hcard] at htaken
    exact htaken

/-- Blocks are given back to the region one after the other. -/
theorem freeBlocks_gives {blocks : List (MemoryRef × Nat)} : ∀ {p p' : ProcessMemory},
    RegionOk p.memoryRegion p.holdingMemory →
    (∀ b ∈ blocks, b.1.offset + b.2 ≤ b.1.backingMem.size ∧
      Interval.toFinset ⟨b.1.offset, b.1.offset + b.2⟩ ⊆ p.memoryRegion.space) →
    freeBlocks blocks p = some p' →
    p'.vmManager = p.vmManager ∧ p'.memoryUsed = p.memoryUsed ∧
      p'.kernelVersion = p.kernelVersion ∧ p.memoryRegion.Moved p'.memoryRegion ∧
      RegionOk p'.memoryRegion p'.holdingMemory ∧
      p'.memoryRegion.used + blocksSize blocks = p.memoryRegion.used ∧
      ∃ B : Finset Nat, p'.memoryRegion.freeBlocks.toFinset =
          B ∪ p.memoryRegion.freeBlocks.toFinset ∧
        ∀ x ∈ B, ∃ b ∈ blocks, b.1.backingMem = fcramMem ∧ ∃ i < b.2, x = b.1.offset + i := by
  induction blocks with
  | nil =>
    intro p p' hok _ h
    obtain rfl := Option.some.inj h
    exact ⟨rfl, rfl, rfl, ⟨rfl, rfl, rfl⟩, hok, rfl, ∅, (Finset.empty_union _).symm, by simp⟩
  | cons b blocks ih =>
    obtain ⟨memory, size⟩ := b
    intro p p' hok hin h
    simp only [freeBlocks, Option.bind_eq_bind, Option.bind_eq_some_iff] at h
    obtain ⟨offset, hoff, region, hfree, h⟩ := h
    rw [getFCRAMOffset] at hoff
    split_ifs at hoff with hmem
    obtain rfl := Option.some.inj hoff
    obtain ⟨hroom, hspace⟩ := hin (memory, size) List.mem_cons_self
    dsimp only at hroom hspace
    rw [hmem] at hroom
    obtain ⟨hm, hdis, hfree', hused⟩ := free_gives hok.unlocked hfree
    rw [add32_of_le hroom] at hdis hfree' h
    have hcard : (Interval.toFinset ⟨memory.offset, memory.offset + size⟩).card = size := by
      rw [Interval.card_toFinset, Interval.size, Nat.add_sub_cancel_left]
    obtain ⟨hok', hused'⟩ := hok.give hm hspace hdis hfree' (IntervalSet.toFinset_erase _ _)
      (by rw [hused, hcard])
    rw [hcard] at hused'
    obtain ⟨h₁, h₂, h₃, h₄, h₅, h₆, B, hB, hBmem⟩ := ih hok'
      (fun b hb => ⟨(hin b (List.mem_cons_of_mem _ hb)).1, by
        rw [hm.space]
        exact (hin b (List.mem_cons_of_mem _ hb)).2⟩) h
    refine ⟨h₁, h₂, h₃, ⟨h₄.base.trans hm.base, h₄.size.trans hm.size,
      h₄.locked.trans hm.locked⟩, h₅, ?_,
      B ∪ Interval.toFinset ⟨memory.offset, memory.offset + size⟩, ?_, ?_⟩
    · rw [blocksSize_cons]
      dsimp only at h₆ ⊢
      omega
    · rw [hB, hfree', Finset.union_assoc]
    · intro x hx
      rcases Finset.mem_union.1 hx with hx | hx
      · obtain ⟨b, hb, hrest⟩ := hBmem x hx
        exact ⟨b, List.mem_cons_of_mem _ hb, hrest⟩
      · rw [Interval.mem_toFinset] at hx
        dsimp only at hx
        refine ⟨(memory, size), List.mem_cons_self, hmem, x - memory.offset, ?_, ?_⟩
        · dsimp only
          omega
        · dsimp only
          omega

/-- What `FREE` of a range gives back: the memory behind a range of the heap, or the part of
the linear heap that a range stands for. -/
def GivesBack (p : ProcessMemory) (target size x : Nat) : Prop :=
  if InHeap target then
    ∃ a, target ≤ a ∧ a < target + size ∧ p.vmManager.backing a = some ⟨fcramMem, x⟩
  else target ≤ p.getLinearHeapAreaAddress + x ∧ p.getLinearHeapAreaAddress + x < target + size

/-- A page of the heaps outside a range is mapped to a byte of FCRAM. -/
def MappedElsewhere (p : ProcessMemory) (target size x : Nat) : Prop :=
  ∃ a, p.InHeaps a ∧ ¬ (target ≤ a ∧ a < target + size) ∧
    p.vmManager.backing a = some ⟨fcramMem, x⟩

/-- `FREE` of a range, if all of it is mapped, gives back nothing that is mapped elsewhere. -/
def FreesItsOwn (p : ProcessMemory) (target size : Nat) : Prop :=
  (∀ a, target ≤ a → a < target + size → (p.vmManager.backing a).isSome) →
    ∀ x, p.GivesBack target size x → ¬ p.MappedElsewhere target size x

theorem eq_fcram {r : MemoryRef} (h : r.backingMem = fcramMem) : r = ⟨fcramMem, r.offset⟩ := by
  rw [← h]

/-- `HeapFree` of memory that is mapped nowhere else. -/
theorem Sound.heapFree (h : p.Sound isCached) {target size : Nat} {r : Except MemoryError Unit}
    {p' : ProcessMemory} (hs : size < 2 ^ 32) (htarget : InHeap target)
    (hown : p.FreesItsOwn target size) (hrun : p.heapFree isCached target size = some (r, p')) :
    p'.Sound isCached := by
  obtain ⟨e, -, rfl⟩ | ⟨-, rfl⟩ | ⟨blocks, p₁, m, -, hout, hblocks, hfreed, hunmap, rfl⟩ := heapFree_cases hrun
  · exact h
  · exact h
  · obtain ⟨hlo, hhi⟩ := within_of_not_outside hs (Bool.not_eq_true _ ▸ hout)
    obtain ⟨rblocks, hblocks', hspec⟩ := backingBlocks_spec h.consistent
      (hhi.trans (by decide) : target + size ≤ maxAddress) size target (by omega) (by omega)
    obtain rfl := Option.some.inj (hblocks'.symm.trans hblocks)
    obtain ⟨hsize, hroom, hlaid⟩ := hspec blocks rfl
    -- a byte of a block lies behind an address of the range
    have hbehind : ∀ b ∈ blocks, ∀ i < b.2, ∃ a, target ≤ a ∧ a < target + size ∧
        p.vmManager.backing a = some (b.1.shift i) := by
      intro b hb i hi
      obtain ⟨a, h₁, h₂, ha⟩ := exists_laid target hb hi
      obtain ⟨memory, hmem, hmem'⟩ := hlaid a h₁ (by omega)
      rw [hmem'] at ha
      exact ⟨a, h₁, by omega, by rw [hmem, ha]⟩
    have hheap : ∀ a, target ≤ a → a < target + size → InHeap a := by
      intro a h₁ h₂
      exact ⟨by omega, by omega⟩
    have hin : ∀ b ∈ blocks, b.1.offset + b.2 ≤ b.1.backingMem.size ∧
        Interval.toFinset ⟨b.1.offset, b.1.offset + b.2⟩ ⊆ p.memoryRegion.space := by
      intro b hb
      refine ⟨hroom b hb, ?_⟩
      intro x hx
      rw [Interval.mem_toFinset] at hx
      dsimp only at hx
      obtain ⟨a, h₁, h₂, ha⟩ := hbehind b hb (x - b.1.offset) (by omega)
      have hoff := (h.heap a (hheap a h₁ h₂) _ ha).2
      simp only [MemoryRef.shift] at hoff
      rwa [show b.1.offset + (x - b.1.offset) = x by omega] at hoff
    obtain ⟨hvm, hmu, hk, hmoved, hregion, hused, B, hB, hBmem⟩ :=
      freeBlocks_gives h.region hin hfreed
    rw [hvm] at hunmap
    obtain ⟨hne, -⟩ | ⟨-, hm, hsome, hbacking⟩ := unmapRange_returns h.consistent hunmap
    · exact absurd rfl hne
    obtain ⟨vm₁, r₁, hold₁, used₁, k₁⟩ := p₁
    dsimp only at hvm hmu hk hmoved hregion hused hB
    subst hvm hmu hk
    refine h.give hm hmoved hregion ?_ hB ?_
    · have h₁ := h.region.size_le
      have h₂ := h.region.balanced.bound
      have h₃ := h.region.used_eq
      have h₄ := h.memoryUsed
      dsimp only
      rw [sub32_of_le (by omega) (by omega)]
      omega
    · intro a r hr
      rw [hbacking] at hr
      split_ifs at hr with hina
      refine ⟨hr, fun ha hf hx => ?_⟩
      obtain ⟨b, hb, hbf, i, hi, hxi⟩ := hBmem _ hx
      obtain ⟨a', h₁, h₂, ha'⟩ := hbehind b hb i hi
      refine hown hsome r.offset ?_ ⟨a, ha, hina, by rw [hr, ← eq_fcram hf]⟩
      rw [GivesBack, if_pos htarget]
      refine ⟨a', h₁, h₂, ?_⟩
      rw [ha', hxi, eq_fcram (r := b.1.shift i) hbf]
      rfl

/-- `LinearAllocate` keeps the four places in agreement. -/
theorem Sound.linearAllocate (h : p.Sound isCached) {target size : Nat} {perms : VMAPermission}
    (hs : size < 2 ^ 32) {r : Except MemoryError Nat} {p' : ProcessMemory}
    (hrun : p.linearAllocate isCached target size perms = some (r, p')) : p'.Sound isCached := by
  obtain ⟨e, -, rfl⟩ | ⟨offset, addr, region, m, -, hplace, hfit, hmap, rfl⟩ :=
    linearAllocate_cases h.region.inFcram hs hrun
  · exact h
  · obtain ⟨e, hres, -⟩ | ⟨offset', addr', hres, hm, -, hsub, hfree, hused⟩ :=
      linearPlace_cases h.region.inFcram hs hplace
    · cases hres
    obtain ⟨rfl, rfl⟩ := Prod.mk.inj (Except.ok.inj hres)
    have hcard : (Interval.toFinset ⟨offset, offset + size⟩).card = size := by
      rw [Interval.card_toFinset, Interval.size, Nat.add_sub_cancel_left]
    obtain ⟨hm', hb'⟩ := mapBlocks_returns h.consistent (by simpa using hfit) hmap
    have htaken := h.take hm' hm hsub hfree
      (by rw [IntervalSet.toFinset_insert p.holdingMemory, Finset.union_comm])
      (by rw [hcard]; exact hused)
      (fun a r hr => by
        rw [hb', Option.or_eq_some_iff] at hr
        rcases hr with hr | ⟨-, hr⟩
        · have hr' := laid_fcram (l := [⟨offset, offset + size⟩])
            (by rw [List.map_singleton, Nat.add_sub_cancel_left]; exact hr)
          rw [covered_cons, covered_nil, Finset.union_empty] at hr'
          exact Or.inr hr'
        · exact Or.inl hr)
    rw [hcard] at htaken
    rw [add32_of_le hfit]
    exact htaken

/-- `LinearFree` of memory that is mapped nowhere else. -/
theorem Sound.linearFree (h : p.Sound isCached) {target size : Nat} {r : Except MemoryError Unit}
    {p' : ProcessMemory} (hs : size < 2 ^ 32) (htarget : ¬ InHeap target)
    (hown : p.FreesItsOwn target size) (hrun : p.linearFree isCached target size = some (r, p')) :
    p'.Sound isCached := by
  obtain ⟨e, -, rfl⟩ | ⟨-, rfl⟩ | ⟨m, region, -, hout, hunmap, hfree, rfl⟩ := linearFree_cases h.consistent hrun
  · exact h
  · exact h
  · obtain ⟨hlo, hhi⟩ := within_of_not_outside hs (Bool.not_eq_true _ ▸ hout)
    simp only [getLinearHeapLimit, getLinearHeapBase] at hlo hhi
    have hbound := h.region.bound
    have hfit : target - p.getLinearHeapAreaAddress + size ≤ fcramMem.size := by omega
    obtain ⟨hne, -⟩ | ⟨-, hm, hsome, hbacking⟩ := unmapRange_returns h.consistent hunmap
    · exact absurd rfl hne
    obtain ⟨hmoved, hdis, hfree', hused⟩ := free_gives h.unlocked hfree
    rw [add32_of_le hfit] at hdis hfree' ⊢
    have hcard : (Interval.toFinset ⟨target - p.getLinearHeapAreaAddress,
        target - p.getLinearHeapAreaAddress + size⟩).card = size := by
      rw [Interval.card_toFinset, Interval.size, Nat.add_sub_cancel_left]
    have hspace : Interval.toFinset ⟨target - p.getLinearHeapAreaAddress,
        target - p.getLinearHeapAreaAddress + size⟩ ⊆ p.memoryRegion.space :=
      Finset.Ico_subset_Ico (by dsimp only; omega) (by dsimp only; omega)
    obtain ⟨hregion, -⟩ := h.region.give hmoved hspace hdis hfree'
      (IntervalSet.toFinset_erase _ _) (by rw [hused, hcard])
    refine h.give hm hmoved hregion ?_ hfree' ?_
    · rw [hused, h.memoryUsed]
    · intro a r hr
      rw [hbacking] at hr
      split_ifs at hr with hina
      refine ⟨hr, fun ha hf hx => ?_⟩
      refine hown hsome r.offset ?_ ⟨a, ha, hina, by rw [hr, ← eq_fcram hf]⟩
      rw [GivesBack, if_neg htarget]
      rw [Interval.mem_toFinset] at hx
      dsimp only at hx
      omega

/-- `Map` puts behind other addresses what lies behind the heap. -/
theorem Sound.map (h : p.Sound isCached) {target source size : Nat} {perms : VMAPermission}
    (hs : size < 2 ^ 32) {r : Except MemoryError Unit} {p' : ProcessMemory}
    (hrun : p.map isCached target source size perms = some (r, p')) : p'.Sound isCached := by
  rw [map_eq] at hrun
  split_ifs at hrun with hout hover
  · obtain ⟨-, rfl⟩ := Prod.mk.inj (Option.some.inj hrun)
    exact h
  · obtain ⟨-, rfl⟩ := Prod.mk.inj (Option.some.inj hrun)
    exact h
  · obtain ⟨hlo, hhi⟩ := within_of_not_outside hs hout
    obtain ⟨e, -, rfl⟩ | ⟨m, blocks, m', -, -, hstate, hblocks, hmap, rfl⟩ := mapChecked_cases h.consistent hrun
    · exact h
    · obtain ⟨hm, hsame⟩ := changeMemoryState_returns h.consistent hstate
      obtain ⟨rblocks, hblocks', hspec⟩ := backingBlocks_spec hm
        (hhi.trans (by decide) : source + size ≤ maxAddress) size source (by omega) (by omega)
      obtain rfl := Option.some.inj (hblocks'.symm.trans hblocks)
      obtain ⟨hsize, hroom, hlaid⟩ := hspec blocks rfl
      obtain ⟨hm', hb'⟩ := mapBlocks_returns hm hroom hmap
      refine h.remap hm' fun a r hr => ?_
      rw [hb', Option.or_eq_some_iff] at hr
      rcases hr with hr | ⟨-, hr⟩
      · -- the memory of a block lies behind an address of the source
        obtain ⟨-, b, hb, i, hi, rfl⟩ := laid_eq_some hr
        obtain ⟨c, h₁, h₂, hc⟩ := exists_laid source hb hi
        obtain ⟨memory, hmem, hmem'⟩ := hlaid c h₁ (by omega)
        rw [hmem'] at hc
        refine Or.inr (Or.inr ⟨c, ⟨by omega, by omega⟩, ?_⟩)
        rw [← hsame, hmem, hc]
      · exact Or.inl (by rw [← hsame]; exact hr)

/-- A call of the virtual memory manager that puts memory behind no address. -/
theorem Sound.ofVm (h : p.Sound isCached) {res : Except VmError Unit × VMManager}
    (hm : Consistent isCached res.2)
    (hb : ∀ a r, res.2.backing a = some r → p.vmManager.backing a = some r) :
    (p.ofVm res).2.Sound isCached := by
  have hkept : Sound isCached { p with vmManager := res.2 } := h.remap hm fun a r hr =>
    Or.inl (hb a r hr)
  obtain ⟨r, m⟩ := res
  cases r with
  | error e => exact hkept
  | ok => exact hkept

/-- `Unmap` takes memory away from behind addresses, and gives none of it back. -/
theorem Sound.unmap (h : p.Sound isCached) {target source size : Nat} {perms : VMAPermission}
    {r : Except MemoryError Unit} {p' : ProcessMemory}
    (hrun : p.unmap isCached target source size perms = some (r, p')) : p'.Sound isCached := by
  rw [unmap_eq] at hrun
  split_ifs at hrun with hout hover
  · obtain ⟨-, rfl⟩ := Prod.mk.inj (Option.some.inj hrun)
    exact h
  · obtain ⟨-, rfl⟩ := Prod.mk.inj (Option.some.inj hrun)
    exact h
  · obtain ⟨e, -, rfl⟩ | ⟨m, hunmap, hrest⟩ := unmapChecked_cases h.consistent hrun
    · exact h
    obtain ⟨hne, -⟩ | ⟨-, hm, -, hbacking⟩ := unmapRange_returns h.consistent hunmap
    · exact absurd rfl hne
    have hkept : ∀ a r, m.backing a = some r → p.vmManager.backing a = some r := by
      intro a r hr
      rw [hbacking] at hr
      split_ifs at hr
      exact hr
    obtain ⟨e, e', -, -, rfl⟩ | ⟨m', -, hstate, rfl⟩ := hrest
    · exact h.remap hm fun a r hr => Or.inl (hkept a r hr)
    · obtain ⟨hm', hsame⟩ := changeMemoryState_returns hm hstate
      exact h.remap hm' fun a r hr => Or.inl (hkept a r (by rw [← hsame]; exact hr))

end ProcessMemory

open ProcessMemory

variable {isCached : Nat → Bool} {p : ProcessMemory}

/-- What `ControlMemory` has to be spared: a `FREE` of memory that is mapped elsewhere. -/
def ControlOk (p : ProcessMemory) (addr0 size operation : UInt32) : Prop :=
  MemoryOp.ofWord operation = .free → p.FreesItsOwn addr0.toNat size.toNat

/-- `ControlMemory` keeps the four places in agreement. -/
theorem ProcessMemory.Sound.controlMemory (h : p.Sound isCached)
    {addr0 addr1 size operation permissions : UInt32} {r : Except MemoryError (Option Nat)}
    {p' : ProcessMemory} (hok : ControlOk p addr0 size operation)
    (hrun : controlMemory isCached p addr0 addr1 size operation permissions = some (r, p')) :
    p'.Sound isCached := by
  have hs : size.toNat < 2 ^ 32 := size.toNat_lt
  rw [Kernel.controlMemory] at hrun
  split_ifs at hrun
  iterate 4
    obtain ⟨-, rfl⟩ := Prod.mk.inj (Option.some.inj hrun)
    exact h
  rw [ControlOk] at hok
  cases hop : MemoryOp.ofWord operation with
  | free =>
    have hown := hok hop
    rw [hop] at hrun
    simp only [MemoryOp.apply] at hrun
    split_ifs at hrun with hheap hlinear
    · obtain ⟨⟨r', p''⟩, hfree, heq⟩ := Option.map_eq_some_iff.1 hrun
      obtain ⟨-, rfl⟩ := Prod.mk.inj heq
      exact h.heapFree hs hheap hown hfree
    · obtain ⟨⟨r', p''⟩, hfree, heq⟩ := Option.map_eq_some_iff.1 hrun
      obtain ⟨-, rfl⟩ := Prod.mk.inj heq
      exact h.linearFree hs hheap hown hfree
    · obtain ⟨-, rfl⟩ := Prod.mk.inj (Option.some.inj hrun)
      exact h
  | commit =>
    rw [hop] at hrun
    obtain ⟨⟨r', p''⟩, halloc, heq⟩ := Option.map_eq_some_iff.1 hrun
    obtain ⟨-, rfl⟩ := Prod.mk.inj heq
    exact h.heapAllocate halloc
  | commitLinear =>
    rw [hop] at hrun
    obtain ⟨⟨r', p''⟩, halloc, heq⟩ := Option.map_eq_some_iff.1 hrun
    obtain ⟨-, rfl⟩ := Prod.mk.inj heq
    exact h.linearAllocate hs halloc
  | map =>
    rw [hop] at hrun
    obtain ⟨⟨r', p''⟩, hmap, heq⟩ := Option.map_eq_some_iff.1 hrun
    obtain ⟨-, rfl⟩ := Prod.mk.inj heq
    exact h.map hs hmap
  | unmap =>
    rw [hop] at hrun
    obtain ⟨⟨r', p''⟩, hmap, heq⟩ := Option.map_eq_some_iff.1 hrun
    obtain ⟨-, rfl⟩ := Prod.mk.inj heq
    exact h.unmap hmap
  | protect =>
    rw [hop] at hrun
    obtain ⟨⟨r', m⟩, hprot, heq⟩ := Option.map_eq_some_iff.1 hrun
    obtain ⟨-, rfl⟩ := Prod.mk.inj heq
    obtain ⟨hm, hsame⟩ := reprotectRange_returns h.consistent hprot
    exact h.ofVm hm fun a r hr => by rw [← hsame]; exact hr
  | unknown =>
    rw [hop] at hrun
    obtain ⟨-, rfl⟩ := Prod.mk.inj (Option.some.inj hrun)
    exact h

/-! ## Runs -/

/-- The states the memory of a process goes through: its region is laid out and its address
space empty; its segments and its stack are allocated, and the pages and areas that are not
FCRAM mapped; and it calls `ControlMemory`, as it is allowed to. -/
inductive ControlReachable (isCached : Nat → Bool)
    (allowed : ProcessMemory → UInt32 → UInt32 → UInt32 → Prop) : ProcessMemory → Prop
  | start (memType : Fin 8) (region : Fin 3) (kernelVersion : Nat) {m : VMManager} :
      VMManager.blank.reset isCached = some m →
      ControlReachable isCached allowed
        ⟨m, memoryInit memType region, IntervalSet.empty, 0, kernelVersion⟩
  | segment {p p' : ProcessMemory} {target size : Nat} {perms : VMAPermission}
      {state : MemoryState} {r : Except MemoryError Nat} :
      ControlReachable isCached allowed p →
      p.heapAllocate isCached target size perms state true = some (r, p') →
      ControlReachable isCached allowed p'
  | sharedPages {p : ProcessMemory} {m : VMManager} :
      ControlReachable isCached allowed p → mapSharedPages isCached p.vmManager = some m →
      ControlReachable isCached allowed { p with vmManager := m }
  | special {p : ProcessMemory} {mapping : AddressMapping} {m : VMManager} :
      ControlReachable isCached allowed p →
      handleSpecialMapping isCached p.vmManager mapping = some m →
      ControlReachable isCached allowed { p with vmManager := m }
  | control {p p' : ProcessMemory} {addr0 addr1 size operation permissions : UInt32}
      {r : Except MemoryError (Option Nat)} :
      ControlReachable isCached allowed p → allowed p addr0 size operation →
      controlMemory isCached p addr0 addr1 size operation permissions = some (r, p') →
      ControlReachable isCached allowed p'

/-- The layout of the regions: all of them lie in FCRAM. -/
theorem memoryInit_bound (memType : Fin 8) (region : Fin 3) :
    (memoryInit memType region).base + (memoryInit memType region).size ≤ fcramMem.size := by
  revert memType region
  decide

/-- The start of a process. -/
theorem sound_start (memType : Fin 8) (region : Fin 3) (kernelVersion : Nat) {m : VMManager}
    (hm : VMManager.blank.reset isCached = some m) :
    ProcessMemory.Sound isCached
      ⟨m, memoryInit memType region, IntervalSet.empty, 0, kernelVersion⟩ := by
  obtain ⟨m', hm', hmap, -, hcons⟩ := reset_spec isCached (m := VMManager.blank) rfl
  obtain rfl := Option.some.inj (hm.symm.trans hm')
  have hnone : ∀ a, m.backing a = none := by
    intro a
    rw [VMManager.backing, hmap, valueAt]
    split_ifs
    · rfl
    · rfl
  have hfree : (memoryInit memType region).freeBlocks.toFinset =
      (memoryInit memType region).space := by
    rw [memoryInit, MemoryRegionInfo.reset, IntervalSet.toFinset_insert,
      IntervalSet.toFinset_empty, Finset.union_empty]
    rfl
  refine ⟨hcons, ⟨rfl, memoryInit_bound memType region, hfree.subset, ?_, rfl⟩, rfl, ?_, ?_⟩
  · show ∅ = (memoryInit memType region).space \ (memoryInit memType region).freeBlocks.toFinset
    rw [hfree, Finset.sdiff_self]
  · intro a _ r hr
    dsimp only at hr
    rw [hnone] at hr
    cases hr
  · intro a _ r hr
    dsimp only at hr
    rw [hnone] at hr
    cases hr

/-- A block of other memory comes behind addresses outside of the heap. -/
theorem ProcessMemory.Sound.mapForeign (h : p.Sound isCached) {m : VMManager}
    {state : MemoryState} {perms : VMAPermission} {memory : MemoryRef} {size target : Nat}
    (hforeign : memory.backingMem ≠ fcramMem) (htarget : heapVaddrEnd ≤ target)
    (hroom : memory.offset + size ≤ memory.backingMem.size)
    (hmap : p.vmManager.mapBlocks isCached state perms [(memory, size)] target = some m) :
    ProcessMemory.Sound isCached { p with vmManager := m } := by
  obtain ⟨hm, hb⟩ := mapBlocks_returns h.consistent (by simpa using hroom) hmap
  refine h.remap hm fun a r hr => ?_
  rw [hb, Option.or_eq_some_iff] at hr
  rcases hr with hr | ⟨-, hr⟩
  · obtain ⟨⟨hlo, -⟩, b, hmem, i, -, rfl⟩ := laid_eq_some hr
    obtain rfl := List.mem_singleton.1 hmem
    refine Or.inr (Or.inl ⟨hforeign, fun ha => ?_⟩)
    exact absurd (ha.2.trans_le htarget) (not_lt.2 hlo)
  · exact Or.inl hr

/-- The special areas lie above the heap, and none of them is FCRAM. -/
theorem memoryAreas_foreign : ∀ area ∈ memoryAreas, heapVaddrEnd ≤ area.1 ∧
    ∀ memory ∈ area.2.2, memory ≠ fcramMem ∧ area.2.1 ≤ memory.size := by
  decide

theorem ProcessMemory.Sound.special (h : p.Sound isCached) {mapping : AddressMapping}
    {m : VMManager} (hmap : handleSpecialMapping isCached p.vmManager mapping = some m) :
    ProcessMemory.Sound isCached { p with vmManager := m } := by
  simp only [handleSpecialMapping] at hmap
  by_cases hwrap : add32 mapping.address.toNat mapping.size.toNat < mapping.address.toNat
  · rw [if_pos hwrap] at hmap
    obtain rfl := Option.some.inj hmap
    exact h
  · rw [if_neg hwrap] at hmap
    split at hmap
    · obtain rfl := Option.some.inj hmap
      exact h
    · obtain rfl := Option.some.inj hmap
      exact h
    · next base size memory hfind =>
        obtain ⟨habove, hmem⟩ := memoryAreas_foreign _ (List.mem_of_find?_eq_some hfind)
        obtain ⟨hforeign, hsize⟩ := hmem memory rfl
        have hin : mapping.address.toNat ≥ base ∧
            add32 mapping.address.toNat mapping.size.toNat ≤ base + size := by
          simpa using List.find?_some hfind
        have ha := mapping.address.toNat_lt
        have hs := mapping.size.toNat_lt
        rw [add32] at hwrap hin
        dsimp only at habove hsize
        exact h.mapForeign hforeign (by omega) (by dsimp only; omega) hmap

theorem ProcessMemory.Sound.sharedPages (h : p.Sound isCached) {m : VMManager}
    (hmap : mapSharedPages isCached p.vmManager = some m) :
    ProcessMemory.Sound isCached { p with vmManager := m } := by
  obtain ⟨m₁, hconfig, hshared⟩ := Option.bind_eq_some_iff.1 hmap
  have h₁ := h.mapForeign (by decide) (by decide) (by decide) hconfig
  exact h₁.mapForeign (by decide) (by decide) (by decide) hshared

/-- Along every run in which `FREE` is spared memory that is mapped elsewhere, the four places
agree. -/
theorem ControlReachable.sound (h : ControlReachable isCached ControlOk p) :
    p.Sound isCached := by
  induction h with
  | start memType region kernelVersion hm => exact sound_start memType region kernelVersion hm
  | segment _ hrun ih => exact ih.heapAllocate hrun
  | sharedPages _ hmap ih => exact ih.sharedPages hmap
  | special _ hmap ih => exact ih.special hmap
  | control _ hok hrun ih => exact ih.controlMemory hok hrun

/-- No page is both free and mapped: in every state a process reaches without a `FREE` that
gives back memory that another page of its heaps is mapped to, a page that the page table maps
in the heap or in the linear heap is mapped to memory that is not free.  `holding_memory` is
all of the region that is not free, and `memory_used` and the region's counter are its size. -/
theorem no_page_free_and_mapped (isCached : Nat → Bool) (p : ProcessMemory)
    (h : ControlReachable isCached ControlOk p) :
    (∀ a, a < maxAddress → p.InHeaps a →
      p.vmManager.pageTable.attributes (a / citraPageSize) ≠ .unmapped →
      ∃ memory, p.vmManager.backing a = some memory ∧
        (memory.backingMem = fcramMem →
          memory.offset ∉ p.memoryRegion.freeBlocks.toFinset)) ∧
    p.holdingMemory.toFinset = p.memoryRegion.space \ p.memoryRegion.freeBlocks.toFinset ∧
    p.memoryUsed = p.holdingMemory.size ∧ p.memoryRegion.used = p.holdingMemory.size := by
  have hs := h.sound
  refine ⟨fun a ha hin hmapped => ?_, hs.region.holding_eq, ?_, hs.region.used_eq⟩
  · obtain ⟨memory, hmem⟩ := hs.consistent.backing_of_mapped ha hmapped
    exact ⟨memory, hmem, hs.notFree a hin memory hmem⟩
  · rw [hs.memoryUsed]
    exact hs.region.used_eq

/-! ## A page, its alias and a `FREE` -/

/-- A process of the application region that has no memory yet. -/
def freshProcess : ProcessMemory := ⟨VMManager.fresh, memoryInit 0 0, IntervalSet.empty, 0, 0x23A⟩

/-- A call of `ControlMemory` about one page, with read and write permission. -/
def controlPage (addr0 addr1 operation : UInt32) (p : ProcessMemory) : Option ProcessMemory :=
  (controlMemory (fun _ => false) p addr0 addr1 0x1000 operation 3).map Prod.snd

theorem ControlReachable.controlPage {allowed : ProcessMemory → UInt32 → UInt32 → UInt32 → Prop}
    {p p' : ProcessMemory} {addr0 addr1 operation : UInt32}
    (h : ControlReachable (fun _ => false) allowed p) (hok : allowed p addr0 0x1000 operation)
    (hrun : Kernel.controlPage addr0 addr1 operation p = some p') :
    ControlReachable (fun _ => false) allowed p' := by
  obtain ⟨⟨r, p''⟩, hcall, rfl⟩ := Option.map_eq_some_iff.1 hrun
  exact .control h hok hcall

/-- A page of the heap is committed. -/
def committed : Option ProcessMemory := controlPage 0x08000000 0 3 freshProcess

/-- It is mapped a second time, two pages further on. -/
def aliased : Option ProcessMemory := committed.bind (controlPage 0x08002000 0x08000000 4)

/-- And it is freed. -/
def freed : Option ProcessMemory := aliased.bind (controlPage 0x08000000 0 1)

/-- The committed page is held, and mapped to memory that is not free. -/
theorem no_page_free_and_mapped_committed :
    ∃ p, committed = some p ∧ p.memoryUsed = 0x1000 ∧ p.holdingMemory.size = 0x1000 ∧
      p.memoryRegion.used = 0x1000 ∧
      ∃ memory, p.vmManager.backing 0x08000000 = some memory ∧
        (memory.backingMem = fcramMem →
          memory.offset ∉ p.memoryRegion.freeBlocks.toFinset) := by
  have hrun : (committed.map fun p => decide (p.memoryUsed = 0x1000 ∧
      p.vmManager.pageTable.attributes (0x08000000 / citraPageSize) ≠ .unmapped)) = some true := by
    decide +kernel
  obtain ⟨p, hp, hfacts⟩ := Option.map_eq_some_iff.1 hrun
  obtain ⟨hused, hmapped⟩ := of_decide_eq_true hfacts
  have hreach : ControlReachable (fun _ => false) ControlOk p :=
    (ControlReachable.start 0 0 0x23A (reset_blank _)).controlPage
      (fun hfree => absurd hfree (by decide)) hp
  obtain ⟨hnotfree, -, hholding, hcounter⟩ := no_page_free_and_mapped _ p hreach
  refine ⟨p, hp, hused, by rw [← hholding, hused], by rw [hcounter, ← hholding, hused], ?_⟩
  exact hnotfree 0x08000000 (by decide) (Or.inl (by decide)) hmapped

/-- After the `FREE` the alias is mapped to a free page. -/
theorem page_free_and_mapped :
    ¬ ∀ (isCached : Nat → Bool) (p : ProcessMemory),
      ControlReachable isCached (fun _ _ _ _ => True) p →
      ∀ a, a < maxAddress → p.InHeaps a →
        p.vmManager.pageTable.attributes (a / citraPageSize) ≠ .unmapped →
        ∃ memory, p.vmManager.backing a = some memory ∧
          (memory.backingMem = fcramMem →
            memory.offset ∉ p.memoryRegion.freeBlocks.toFinset) := by
  intro hall
  have hrun : (freed.map fun p => decide (p.memoryRegion.freeBlocks.blocks = [⟨0, 0x4000000⟩] ∧
      p.vmManager.pageTable.attributes (0x08002000 / citraPageSize) ≠ .unmapped ∧
      p.vmManager.backing 0x08002000 = some ⟨fcramMem, 0x3FFF000⟩)) = some true := by
    decide +kernel
  obtain ⟨p, hp, hfacts⟩ := Option.map_eq_some_iff.1 hrun
  obtain ⟨hfree, hmapped, hbacking⟩ := of_decide_eq_true hfacts
  obtain ⟨p₂, hp₂, hrun₃⟩ := Option.bind_eq_some_iff.1 hp
  obtain ⟨p₁, hp₁, hrun₂⟩ := Option.bind_eq_some_iff.1 hp₂
  have hreach : ControlReachable (fun _ => false) (fun _ _ _ _ => True) p :=
    (((ControlReachable.start 0 0 0x23A (reset_blank _)).controlPage trivial hp₁).controlPage
      trivial hrun₂).controlPage trivial hrun₃
  obtain ⟨memory, hmem, hnot⟩ :=
    hall _ p hreach 0x08002000 (by decide) (Or.inl (by decide)) hmapped
  obtain rfl := Option.some.inj (hbacking.symm.trans hmem)
  refine hnot rfl ?_
  rw [IntervalSet.toFinset, hfree]
  exact toFinset_subset_covered List.mem_cons_self (Interval.mem_toFinset.2 (by decide))

end AzaharPlus.Kernel
