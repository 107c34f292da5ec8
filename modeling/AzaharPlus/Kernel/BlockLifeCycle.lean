import AzaharPlus.Kernel.MemoryRuns

/-!
# The life cycle of a memory block

What `CreateSharedMemory` of `core/hle/kernel/shared_memory.cpp` leaves when it fails, and what the destructor of a
memory block gives back.  The destructor tells from `base_address` what there is to undo, and this is set only at the
end of the construction: the object that a failed call throws away still has 0 there, and takes its size off
`memory_used`, where it was never put.

`blockLifeCycle_iff`: a failed call leaves everything as it was, and a destroyed block is given back, exactly if the
call passes the check of `ChangeMemoryState` or the block is empty or not of the heap.
-/

namespace AzaharPlus.Kernel

open Tiling Intervals

variable {isCached : Nat → Bool} {s s' s₁ s₂ : KernelMemory} {b : SharedMemory} {size address : Nat}
  {permissions otherPermissions : UInt32}

/-- Nothing is left of a call that made `s'` of `s`. -/
structure LeavesNothing (s s' : KernelMemory) : Prop where
  pageMap : s'.process.vmManager.pageMap = s.process.vmManager.pageMap
  memoryUsed : s'.process.memoryUsed = s.process.memoryUsed
  freeBlocks : ∀ own, (s'.region own).freeBlocks = (s.region own).freeBlocks

/-- The block that made `s₁` of `s` is destroyed in `s₂`, where the process has the pages of the block as they were
left, and has not otherwise given its memory back. -/
structure DestroyedLater (s₁ s₂ : KernelMemory) (b : SharedMemory) (isCached : Nat → Bool) : Prop where
  reachable : MemoryReachable isCached s₂
  pages : ∀ page, InRange b.baseAddress b.size page →
    s₂.process.vmManager.pageMap page = s₁.process.vmManager.pageMap page
  held : Disjoint b.holdingMemory.toFinset (s₂.region b.inOwnRegion).freeBlocks.toFinset

/-- A destroyed block is given back: `s` is the state before it was made, `s₁` the state behind, and `s₃` is what the
destructor makes of `s₂`. -/
structure GivenBack (s s₁ s₂ s₃ : KernelMemory) (b : SharedMemory) (address : Nat) : Prop where
  heap : address ≠ 0 → ∀ page, InRange address b.size page → ∃ a, s₃.process.vmManager.pageMap page = some a ∧
    a.meminfoState = .private_ ∧ a.permissions = permReadWrite
  linear : address = 0 → Interval.toFinset ⟨b.linearHeapPhysOffset, b.linearHeapPhysOffset + b.size⟩ ⊆
    (s₃.region b.inOwnRegion).freeBlocks.toFinset
  -- `n` is what other calls have used in between
  memoryUsed : address = 0 → ∀ n, s₂.process.memoryUsed = add32 s₁.process.memoryUsed n →
    s₃.process.memoryUsed = add32 s.process.memoryUsed n

/-- What is expected of the life cycle of a block. -/
structure BlockLifeCycle (isCached : Nat → Bool) (s : KernelMemory) (size address : Nat)
    (permissions otherPermissions : UInt32) : Prop where
  failed : ∀ e s', s.createSharedMemory isCached size permissions otherPermissions address = some (.error e, s') →
    LeavesNothing s s'
  succeeded : ∀ s₁, s.createSharedMemory isCached size permissions otherPermissions address = some (.ok (), s₁) →
    ∃ b, s₁.blocks = b :: s.blocks ∧ b.size = size ∧ b.baseAddress = address ∧
      ∀ s₂, DestroyedLater s₁ s₂ b isCached →
        ∃ s₃, s₂.destroy isCached b = some s₃ ∧ GivenBack s s₁ s₂ s₃ b address

/-! ## Creation that fails -/

theorem sub32_zero {a : Nat} (ha : a < 2 ^ 32) : sub32 a 0 = a := by
  rw [sub32, Nat.sub_zero, Nat.add_mod_right, Nat.mod_eq_of_lt ha]

theorem sub32_ne {a n : Nat} (ha : a < 2 ^ 32) (hn : 0 < n) (hlt : n < 2 ^ 32) : sub32 a n ≠ a := by
  rw [sub32]
  omega

theorem leavesNothing_of_memoryUsed {n : Nat} (h : n = s.process.memoryUsed) :
    LeavesNothing s { s with process := { s.process with memoryUsed := n } } :=
  ⟨rfl, h, fun own => by cases own <;> rfl⟩

/-- A call that fails leaves nothing exactly if it was about no memory. -/
theorem createSharedMemory_failed_iff (hs : s.Orderly isCached) (hsize : size < 2 ^ 32) :
    (∀ e s', s.createSharedMemory isCached size permissions otherPermissions address = some (.error e, s') →
      LeavesNothing s s') ↔
      address = 0 ∨ size = 0 ∨ ¬ s.process.vmManager.Mismatch address size .private_ permReadWrite := by
  constructor
  · intro hfailed
    by_contra hnot
    rw [not_or, not_or, not_not] at hnot
    obtain ⟨hne, hpos, hmismatch⟩ := hnot
    obtain ⟨e, m, hchange⟩ : ∃ e m, s.process.vmManager.changeMemoryState isCached address size .private_
        permReadWrite .locked (SharedMemory.convertPermissions permissions) = some (.error e, m) :=
      (changeMemoryState_error_iff hs.process.consistent (by decide)).2 hmismatch
    have hrun : ∃ s', s.createSharedMemory isCached size permissions otherPermissions address =
        some (.error e.toBlockError, s') ∧ s'.process.memoryUsed = sub32 s.process.memoryUsed size := by
      rw [KernelMemory.createSharedMemory, if_neg hne, hchange]
      exact ⟨_, rfl, rfl⟩
    obtain ⟨s', hrun, hused⟩ := hrun
    have hkeeps := (hfailed _ s' hrun).memoryUsed
    rw [hused] at hkeeps
    exact sub32_ne hs.process.used (Nat.pos_of_ne_zero hpos) hsize hkeeps
  · intro hcond e s' hrun
    obtain ⟨-, hok, -⟩ | ⟨hne, -, hmismatch, rfl⟩ | ⟨-, hok, -⟩ := KernelMemory.createSharedMemory_cases hs hrun
    · cases hok
    · obtain hzero | hempty | hmatch := hcond
      · exact absurd hzero hne
      · have hkeeps : sub32 s.process.memoryUsed size = s.process.memoryUsed := by
          rw [hempty, sub32_zero hs.process.used]
        exact leavesNothing_of_memoryUsed hkeeps
      · exact absurd hmismatch hmatch
    · cases hok

/-! ## Destruction -/

/-- A block of the heap is unlocked. -/
theorem destroy_heap (hs₂ : s₂.Orderly isCached) (hb : b.owned = true) (hholding : b.holdingMemory = IntervalSet.empty)
    (hbase : b.baseAddress ≠ 0) (hr : IsRange b.baseAddress b.size)
    (hlocked : s₂.process.vmManager.pageMap.All b.baseAddress b.size (·.meminfoState = .locked)) :
    ∃ s₃, s₂.destroy isCached b = some s₃ ∧ ∀ page, InRange b.baseAddress b.size page →
      ∃ a, s₃.process.vmManager.pageMap page = some a ∧ a.meminfoState = .private_ ∧
        a.permissions = permReadWrite := by
  have hregion : s₂.setRegion b.inOwnRegion (s₂.region b.inOwnRegion) = s₂ := by
    cases b.inOwnRegion <;> rfl
  have hareas := (all_iff_areas hs₂.process.consistent.tiles hs₂.process.consistent.wellFormed hr
    (fun _ _ => Iff.rfl)).1 hlocked
  obtain ⟨m, hchange, hchanged⟩ : ∃ m, s₂.process.vmManager.changeMemoryState isCached b.baseAddress b.size .locked
      permNone .private_ permReadWrite = some (.ok (), m) ∧ _ :=
    changeMemoryState_ok hs₂.process.consistent hr (by decide) fun v hv => ⟨hareas v hv, by simp [permNone]⟩
  refine ⟨{ s₂ with process := { s₂.process with vmManager := m } }, ?_, fun page hpage => ?_⟩
  · rw [KernelMemory.destroy, hholding]
    simp only [IntervalSet.empty, KernelMemory.freeHolding, Option.bind_eq_bind, Option.bind_some, hregion, hb, hbase,
      ne_eq, not_false_eq_true, if_true, hchange]
  · obtain ⟨a, ha, -⟩ := hlocked page hpage
    rw [VMManager.pageMap] at ha
    refine ⟨VMManager.restateAttributes .private_ permReadWrite a, ?_, rfl, rfl⟩
    rw [VMManager.pageMap, hchanged.values, changedOn, if_pos ⟨hpage.1, hpage.2⟩, ha]
    rfl

theorem region_memoryUsed (s : KernelMemory) (own : Bool) (n : Nat) :
    KernelMemory.region { s with process := { s.process with memoryUsed := n } } own = s.region own := by
  cases own <;> rfl

theorem region_setRegion (s : KernelMemory) (own : Bool) (r : MemoryRegionInfo) :
    (s.setRegion own r).region own = r := by
  cases own <;> rfl

theorem setRegion_memoryUsed (s : KernelMemory) (own : Bool) (r : MemoryRegionInfo) :
    (s.setRegion own r).process.memoryUsed = s.process.memoryUsed := by
  cases own <;> rfl

/-- A block that is not of the heap gives its memory back and takes its size off `memory_used`. -/
theorem destroy_of_freeHolding {r : MemoryRegionInfo} (hb : b.owned = true) (hbase : b.baseAddress = 0)
    (hr : KernelMemory.freeHolding b.holdingMemory.blocks (s₂.region b.inOwnRegion) = some r) :
    ∃ s₃, s₂.destroy isCached b = some s₃ ∧ s₃.process.memoryUsed = sub32 s₂.process.memoryUsed b.size ∧
      s₃.region b.inOwnRegion = r := by
  rw [KernelMemory.destroy, hr, ← setRegion_memoryUsed s₂ b.inOwnRegion r]
  simp only [Option.bind_eq_bind, Option.bind_some, hb, hbase, ne_eq, not_true_eq_false, if_true, if_false]
  refine ⟨_, rfl, rfl, ?_⟩
  rw [region_memoryUsed, region_setRegion]

/-- Memory of FCRAM that is not free can be given back. -/
theorem free_of_disjoint {r : MemoryRegionInfo} {offset : Nat} (hr : r.isLocked = false)
    (hfit : offset + size ≤ fcramMem.size)
    (hheld : Disjoint (Interval.toFinset ⟨offset, offset + size⟩) r.freeBlocks.toFinset) :
    ∃ r', r.free offset size = some r' ∧
      Interval.toFinset ⟨offset, offset + size⟩ ⊆ r'.freeBlocks.toFinset := by
  have hadd : add32 offset size = offset + size := add32_of_lt (hfit.trans_lt (by decide))
  have hnot : ¬ r.freeBlocks.intersects ⟨offset, add32 offset size⟩ = true := by
    rw [Bool.not_eq_true, hadd]
    exact IntervalSet.not_intersects_of_disjoint hheld
  refine ⟨_, by rw [MemoryRegionInfo.free, if_neg (by rw [hr]; simp), if_neg hnot], ?_⟩
  rw [hadd, IntervalSet.toFinset_insert]
  exact Finset.subset_union_left

/-- The memory of a block that has an offset goes back to its region. -/
theorem destroy_linear {offset : Nat} (hs₂ : s₂.Orderly isCached) (hb : b.owned = true)
    (hholding : b.holdingMemory = IntervalSet.empty.insert ⟨offset, offset + b.size⟩)
    (hbase : b.baseAddress = 0) (hfit : offset + b.size ≤ fcramMem.size)
    (hheld : Disjoint b.holdingMemory.toFinset (s₂.region b.inOwnRegion).freeBlocks.toFinset) :
    ∃ s₃, s₂.destroy isCached b = some s₃ ∧
      s₃.process.memoryUsed = sub32 s₂.process.memoryUsed b.size ∧
      Interval.toFinset ⟨offset, offset + b.size⟩ ⊆ (s₃.region b.inOwnRegion).freeBlocks.toFinset := by
  have hfreed : ∃ r, KernelMemory.freeHolding b.holdingMemory.blocks (s₂.region b.inOwnRegion) = some r ∧
      Interval.toFinset ⟨offset, offset + b.size⟩ ⊆ r.freeBlocks.toFinset := by
    rw [hholding, IntervalSet.toFinset_insert, IntervalSet.toFinset_empty, Finset.union_empty] at hheld
    by_cases hpos : offset < offset + b.size
    · obtain ⟨r, hfree, hsub⟩ := free_of_disjoint (hs₂.region b.inOwnRegion).unlocked hfit hheld
      refine ⟨r, ?_, hsub⟩
      rw [hholding, IntervalSet.insert, dif_pos hpos]
      simp only [IntervalSet.empty, insertList, KernelMemory.freeHolding, Nat.add_sub_cancel_left, hfree,
        Option.bind_eq_bind, Option.bind_some]
    · refine ⟨s₂.region b.inOwnRegion, ?_, ?_⟩
      · rw [hholding, IntervalSet.insert, dif_neg hpos]
        rfl
      · rw [Interval.toFinset_of_le (not_lt.1 hpos)]
        exact Finset.empty_subset _
  obtain ⟨r, hr, hsub⟩ := hfreed
  obtain ⟨s₃, hdestroy, hused, hregion⟩ : ∃ s₃, s₂.destroy isCached b = some s₃ ∧ _ :=
    destroy_of_freeHolding hb hbase hr
  exact ⟨s₃, hdestroy, hused, by rw [hregion]; exact hsub⟩

/-! ## The life cycle -/

theorem sub32_add32 {u size n : Nat} (hsize : size < 2 ^ 32) : sub32 (add32 (add32 u size) n) size = add32 u n := by
  rw [sub32, add32, add32, add32]
  omega

/-- A block that was made is given back when it is destroyed. -/
theorem createSharedMemory_succeeded (hs : s.Orderly isCached) (hsize : size < 2 ^ 32)
    (hrun : s.createSharedMemory isCached size permissions otherPermissions address = some (.ok (), s₁)) :
    ∃ b, s₁.blocks = b :: s.blocks ∧ b.size = size ∧ b.baseAddress = address ∧
      ∀ s₂, DestroyedLater s₁ s₂ b isCached →
        ∃ s₃, s₂.destroy isCached b = some s₃ ∧ GivenBack s s₁ s₂ s₃ b address := by
  obtain ⟨rfl, -, offset, region, halloc, rfl⟩ | ⟨-, ⟨e, he⟩, -⟩ | ⟨hne, -, m, blocks, hchanged, -, rfl⟩ :=
    KernelMemory.createSharedMemory_cases hs hrun
  · obtain ⟨hfit, -⟩ := hs.linearAllocate halloc
    refine ⟨_, rfl, rfl, rfl, fun s₂ hlater => ?_⟩
    obtain ⟨s₃, hdestroy, hused, hsub⟩ := destroy_linear hlater.reachable.orderly rfl rfl rfl hfit hlater.held
    refine ⟨s₃, hdestroy, fun hzero => absurd rfl hzero, fun _ => hsub, fun _ n hn => ?_⟩
    rw [hused, hn, setRegion_memoryUsed]
    exact sub32_add32 hsize
  · cases he
  · refine ⟨_, rfl, rfl, rfl, fun s₂ hlater => ?_⟩
    have hlocked : s₂.process.vmManager.pageMap.All address size (·.meminfoState = .locked) := by
      intro page hpage
      have hmapped : s.process.vmManager.pageMap.All address size (·.type ≠ .free) :=
        (all_iff_areas hs.process.consistent.tiles hs.process.consistent.wellFormed hchanged.range
          (fun _ _ => Iff.rfl)).2 hchanged.mapped
      obtain ⟨a, ha, -⟩ := hmapped page hpage
      rw [VMManager.pageMap] at ha
      refine ⟨VMManager.restateAttributes .locked (SharedMemory.convertPermissions permissions) a, ?_, rfl⟩
      rw [hlater.pages page hpage, VMManager.pageMap, hchanged.values, changedOn, if_pos ⟨hpage.1, hpage.2⟩, ha]
      rfl
    obtain ⟨s₃, hdestroy, hpages⟩ := destroy_heap (b := ⟨0, blocks, size, permissions, otherPermissions, true, false,
      address, IntervalSet.empty⟩) hlater.reachable.orderly rfl rfl hne hchanged.range hlocked
    exact ⟨s₃, hdestroy, fun _ => hpages, fun hzero => absurd hzero hne, fun hzero => absurd hzero hne⟩

/-- Memory blocks are made and destroyed as expected, exactly if the block is not of the heap, or is empty, or the
process has the memory as `CreateSharedMemory` wants it. -/
theorem blockLifeCycle_iff (isCached : Nat → Bool) (s : KernelMemory) (h : MemoryReachable isCached s)
    (size address permissions otherPermissions : UInt32) :
    BlockLifeCycle isCached s size.toNat address.toNat permissions otherPermissions ↔
      address = 0 ∨ size = 0 ∨
        ¬ s.process.vmManager.Mismatch address.toNat size.toNat .private_ permReadWrite := by
  have hs := h.orderly
  have hsize := size.toNat_lt
  have hfailed : (∀ e s', s.createSharedMemory isCached size.toNat permissions otherPermissions address.toNat =
      some (.error e, s') → LeavesNothing s s') ↔ _ := createSharedMemory_failed_iff hs hsize
  rw [← UInt32.toNat_inj (b := 0), ← UInt32.toNat_inj (b := 0)]
  constructor
  · intro hcycle
    exact hfailed.1 hcycle.failed
  · intro hcond
    exact ⟨hfailed.2 hcond, fun s₁ hrun => createSharedMemory_succeeded hs hsize hrun⟩

/-- A new process makes a block of one page that is not of the heap. -/
theorem blockLifeCycle_fresh :
    MemoryReachable (fun _ => false) freshKernel ∧
      BlockLifeCycle (fun _ => false) freshKernel (0x1000 : UInt32).toNat (0 : UInt32).toNat 3 3 :=
  ⟨reachable_freshKernel,
    (blockLifeCycle_iff (fun _ => false) freshKernel reachable_freshKernel 0x1000 0 3 3).2 (Or.inl rfl)⟩

/-- A new process wants a block of a page of the heap that it does not have: the call fails, and takes a page off
`memory_used`. -/
theorem failed_creation_changes :
    ¬ ∀ (isCached : Nat → Bool) (s : KernelMemory), MemoryReachable isCached s →
      ∀ size address permissions otherPermissions : UInt32, size.toNat % citraPageSize = 0 →
        address.toNat % citraPageSize = 0 →
        BlockLifeCycle isCached s size.toNat address.toNat permissions otherPermissions := by
  intro hall
  have hcycle := hall (fun _ => false) freshKernel reachable_freshKernel 0x1000 0x08000000 3 3 (by decide) (by decide)
  have hrun : (freshKernel.createSharedMemory (fun _ => false) (0x1000 : UInt32).toNat 3 3
      (0x08000000 : UInt32).toNat).map (fun r => decide (r.1 = .error .invalidAddressState ∧
        r.2.process.memoryUsed = 0xFFFFF000)) = some true := by
    decide +kernel
  obtain ⟨⟨r, s'⟩, hcall, hfacts⟩ := Option.map_eq_some_iff.1 hrun
  obtain ⟨rfl, hused⟩ := of_decide_eq_true hfacts
  have hkeeps := (hcycle.failed _ s' hcall).memoryUsed
  rw [hused] at hkeeps
  cases hkeeps

end AzaharPlus.Kernel
