import AzaharPlus.Kernel.ProcessMemory

/-!
# The memory of a region

What the functions of `MemoryRegionInfo` in `core/hle/kernel/memory.cpp` take from a region and give back to it.
`Balanced` says that the free blocks and the memory that was taken make up the region, and that `used` is the size
of the latter.

`LinearAllocate` of a given range does not ask whether the range wraps around: such a range is an empty interval,
which every set contains, and its size is counted as used all the same.

* `region_conservation`: every run of the calls keeps the balance, as long as no given range wraps around;
* `wrapped_range_is_used`: a range that wraps around is taken, and `used` is larger than the region.
-/

namespace AzaharPlus.Kernel

open Intervals

/-- The offsets a region is made of. -/
def MemoryRegionInfo.space (r : MemoryRegionInfo) : Finset Nat :=
  Finset.Ico r.base (r.base + r.size)

/-- Memory has moved between the free blocks of a region and the rest of it. -/
structure MemoryRegionInfo.Moved (r r' : MemoryRegionInfo) : Prop where
  base : r'.base = r.base
  size : r'.size = r.size
  locked : r'.isLocked = r.isLocked

theorem MemoryRegionInfo.Moved.space {r r' : MemoryRegionInfo} (h : r.Moved r') :
    r'.space = r.space := by
  rw [MemoryRegionInfo.space, h.base, h.size, MemoryRegionInfo.space]

theorem add32_of_lt {a b : Nat} (h : a + b < 2 ^ 32) : add32 a b = a + b := Nat.mod_eq_of_lt h

theorem sub32_of_le {a b : Nat} (h : b ≤ a) (ha : a < 2 ^ 32) : sub32 a b = a - b := by
  rw [sub32, show a + 2 ^ 32 - b = a - b + 2 ^ 32 by omega, Nat.add_mod_right,
    Nat.mod_eq_of_lt (by omega)]

/-! ## The balance of a region -/

/-- The free blocks of a region and the memory taken from it make up the region. -/
structure Balanced (r : MemoryRegionInfo) (live : Finset Nat) : Prop where
  unlocked : r.isLocked = false
  bound : r.base + r.size < 2 ^ 32
  free_subset : r.freeBlocks.toFinset ⊆ r.space
  live_eq : live = r.space \ r.freeBlocks.toFinset
  used_eq : r.used = live.card

namespace Balanced

variable {r r' : MemoryRegionInfo} {live A B : Finset Nat}

theorem size_eq (h : Balanced r live) : live.card + r.freeBlocks.toFinset.card = r.size := by
  have hcard : (r.space \ r.freeBlocks.toFinset).card + r.freeBlocks.toFinset.card =
      r.space.card := Finset.card_sdiff_add_card_eq_card h.free_subset
  rw [← h.live_eq, MemoryRegionInfo.space, Nat.card_Ico] at hcard
  omega

theorem disjoint (h : Balanced r live) (hA : A ⊆ r.freeBlocks.toFinset) : Disjoint live A := by
  rw [h.live_eq]
  exact Finset.sdiff_disjoint.mono_right hA

/-- Free memory is taken. -/
theorem take (h : Balanced r live) (hm : r.Moved r') (hA : A ⊆ r.freeBlocks.toFinset)
    (hfree : r'.freeBlocks.toFinset = r.freeBlocks.toFinset \ A)
    (hused : r'.used = add32 r.used A.card) :
    Balanced r' (live ∪ A) ∧ r'.used = r.used + A.card := by
  have hused' : r'.used = r.used + A.card := by
    rw [hused]
    refine add32_of_lt ?_
    have h₁ := h.size_eq
    have h₂ := Finset.card_le_card hA
    have h₃ := h.bound
    have h₄ := h.used_eq
    omega
  refine ⟨⟨by rw [hm.locked]; exact h.unlocked, by rw [hm.base, hm.size]; exact h.bound, ?_, ?_, ?_⟩,
    hused'⟩
  · rw [hfree, hm.space]
    exact Finset.sdiff_subset.trans h.free_subset
  · rw [h.live_eq, hfree, hm.space]
    ext x
    have := @hA x
    have := @h.free_subset x
    simp only [Finset.mem_union, Finset.mem_sdiff]
    tauto
  · rw [hused', Finset.card_union_of_disjoint (h.disjoint hA), h.used_eq]

/-- Memory is given back. -/
theorem give (h : Balanced r live) (hm : r.Moved r') (hB : B ⊆ r.space)
    (hdis : Disjoint B r.freeBlocks.toFinset)
    (hfree : r'.freeBlocks.toFinset = B ∪ r.freeBlocks.toFinset)
    (hused : r'.used = sub32 r.used B.card) :
    Balanced r' (live \ B) ∧ r'.used + B.card = r.used := by
  have hsub : B ⊆ live := by
    rw [h.live_eq]
    exact Finset.subset_sdiff.2 ⟨hB, hdis⟩
  have hsize : (live \ B).card + B.card = live.card := Finset.card_sdiff_add_card_eq_card hsub
  have hused' : r'.used = r.used - B.card := by
    rw [hused]
    have h₁ := h.size_eq
    have h₃ := h.bound
    have h₄ := h.used_eq
    exact sub32_of_le (by omega) (by omega)
  have h₄ := h.used_eq
  refine ⟨⟨by rw [hm.locked]; exact h.unlocked, by rw [hm.base, hm.size]; exact h.bound, ?_, ?_, ?_⟩,
    by omega⟩
  · rw [hfree, hm.space]
    exact Finset.union_subset hB h.free_subset
  · rw [h.live_eq, hfree, hm.space]
    ext x
    simp only [Finset.mem_union, Finset.mem_sdiff]
    tauto
  · omega

end Balanced

/-! ## What the functions take and give back -/

/-- What the loop of `HeapAllocate` takes. -/
theorem takeBlocks_spec {l : List Interval} : ∀ {rest rest' : Nat} {result result' : IntervalSet},
    Canonical 0 l.reverse → Disjoint result.toFinset (covered l) →
    MemoryRegionInfo.takeBlocks l rest result = (result', rest') →
    result'.toFinset ⊆ result.toFinset ∪ covered l ∧
      result'.toFinset.card + rest' = result.toFinset.card + rest := by
  induction l with
  | nil =>
    intro rest rest' result result' _ _ h
    obtain ⟨rfl, rfl⟩ := Prod.mk.inj h
    exact ⟨Finset.subset_union_left, rfl⟩
  | cons i l ih =>
    intro rest rest' result result' hc hd h
    rw [List.reverse_cons] at hc
    obtain ⟨hl, ⟨-, hi, -⟩, hdi⟩ := hc.of_append
    rw [covered_reverse, covered_cons, covered_nil, Finset.union_empty] at hdi
    rw [covered_cons, Finset.disjoint_union_right] at hd
    rw [MemoryRegionInfo.takeBlocks] at h
    split_ifs at h with hbig
    · obtain ⟨rfl, rfl⟩ := Prod.mk.inj h
      have hsub : Interval.toFinset ⟨i.upper - rest, i.upper⟩ ⊆ i.toFinset :=
        Finset.Ico_subset_Ico (by dsimp only; omega) le_rfl
      rw [IntervalSet.toFinset_insert, Finset.card_union_of_disjoint (hd.1.symm.mono_left hsub),
        Interval.card_toFinset, Interval.size, covered_cons]
      refine ⟨?_, by dsimp only; omega⟩
      refine Finset.union_subset (hsub.trans ?_) Finset.subset_union_left
      exact Finset.subset_union_left.trans Finset.subset_union_right
    · have hd' : Disjoint (result.insert i).toFinset (covered l) := by
        rw [IntervalSet.toFinset_insert, Finset.disjoint_union_left]
        exact ⟨hdi.symm, hd.2⟩
      obtain ⟨hsub, hcard⟩ := ih hl hd' h
      rw [IntervalSet.toFinset_insert, Finset.card_union_of_disjoint hd.1.symm,
        Interval.card_toFinset, Interval.size] at hcard
      refine ⟨hsub.trans ?_, by omega⟩
      rw [IntervalSet.toFinset_insert, covered_cons, Finset.union_comm i.toFinset,
        Finset.union_assoc]

/-- What `MemoryRegionInfo::HeapAllocate` takes. -/
theorem heapAllocate_takes {r r' : MemoryRegionInfo} {size : Nat} {A : IntervalSet}
    (hu : r.isLocked = false) (h : r.heapAllocate size = some (A, r')) :
    (A.toFinset = ∅ ∧ r' = r) ∨
      (r.Moved r' ∧ A.toFinset ⊆ r.freeBlocks.toFinset ∧ A.toFinset.card = size ∧
        r'.freeBlocks.toFinset = r.freeBlocks.toFinset \ A.toFinset ∧
        r'.used = add32 r.used A.toFinset.card) := by
  rw [MemoryRegionInfo.heapAllocate, hu] at h
  simp only [Bool.false_eq_true, if_false] at h
  obtain ⟨⟨result, rest⟩, htake⟩ : ∃ q, q =
      MemoryRegionInfo.takeBlocks r.freeBlocks.blocks.reverse size IntervalSet.empty := ⟨_, rfl⟩
  rw [← htake] at h
  simp only at h
  obtain ⟨hsub, hcard⟩ := takeBlocks_spec
    (by rw [List.reverse_reverse]; exact r.freeBlocks.canonical) (by simp) htake.symm
  split_ifs at h with hrest
  · obtain ⟨rfl, rfl⟩ := Prod.mk.inj (Option.some.inj h)
    exact Or.inl ⟨rfl, rfl⟩
  · obtain ⟨rfl, rfl⟩ := Prod.mk.inj (Option.some.inj h)
    rw [IntervalSet.toFinset_empty, Finset.empty_union, covered_reverse] at hsub
    rw [IntervalSet.toFinset_empty, Finset.card_empty] at hcard
    have hsize : result.toFinset.card = size := by omega
    exact Or.inr ⟨⟨rfl, rfl, hu.symm⟩, hsub, hsize, IntervalSet.toFinset_diff _ _, by rw [hsize]⟩

theorem blocks_eq_nil_iff {A : IntervalSet} : A.blocks = [] ↔ A.toFinset = ∅ := by
  constructor
  · intro h
    rw [IntervalSet.toFinset, h, covered_nil]
  · intro h
    cases hblocks : A.blocks with
    | nil => rfl
    | cons i l =>
      have hi : i ∈ A.blocks := by
        rw [hblocks]
        exact List.mem_cons_self
      have hmem : i.lower ∈ A.toFinset :=
        toFinset_subset_covered hi (Interval.mem_toFinset.2 ⟨le_rfl, A.canonical.lt_of_mem hi⟩)
      rw [h] at hmem
      exact absurd hmem (Finset.notMem_empty _)

/-- `MemoryRegionInfo::HeapAllocate` leaves the region as it is if it returns no blocks. -/
theorem heapAllocate_empty {r r' : MemoryRegionInfo} {size : Nat} {A : IntervalSet}
    (hused : r.used < 2 ^ 32) (h : r.heapAllocate size = some (A, r')) (hA : A.blocks = []) : r' = r := by
  have hlocked : r.isLocked = false := by
    by_contra hlocked
    rw [MemoryRegionInfo.heapAllocate, if_pos (by simpa using hlocked)] at h
    cases h
  rw [MemoryRegionInfo.heapAllocate, hlocked] at h
  simp only [Bool.false_eq_true, if_false] at h
  obtain ⟨⟨result, rest⟩, htake⟩ : ∃ q, q =
      MemoryRegionInfo.takeBlocks r.freeBlocks.blocks.reverse size IntervalSet.empty := ⟨_, rfl⟩
  rw [← htake] at h
  simp only at h
  split_ifs at h with hrest
  · exact (Prod.mk.inj (Option.some.inj h)).2.symm
  · obtain ⟨rfl, rfl⟩ := Prod.mk.inj (Option.some.inj h)
    obtain ⟨-, hcard⟩ := takeBlocks_spec
      (by rw [List.reverse_reverse]; exact r.freeBlocks.canonical) (by simp) htake.symm
    rw [blocks_eq_nil_iff.1 hA, IntervalSet.toFinset_empty, Finset.card_empty] at hcard
    obtain rfl : size = 0 := by omega
    have hdiff : r.freeBlocks.diff result = r.freeBlocks := by
      rw [IntervalSet.diff, hA]
      rfl
    rw [hdiff, add32, Nat.add_zero, Nat.mod_eq_of_lt hused, ← hlocked]

/-- What `MemoryRegionInfo::LinearAllocate` of a range takes. -/
theorem linearAllocateAt_takes {r r' : MemoryRegionInfo} {offset size : Nat} {ok : Bool}
    (hu : r.isLocked = false) (h : r.linearAllocateAt offset size = some (ok, r')) :
    (ok = false ∧ r' = r) ∨
      (ok = true ∧ r.Moved r' ∧
        Interval.toFinset ⟨offset, add32 offset size⟩ ⊆ r.freeBlocks.toFinset ∧
        r'.freeBlocks.toFinset =
          r.freeBlocks.toFinset \ Interval.toFinset ⟨offset, add32 offset size⟩ ∧
        r'.used = add32 r.used size) := by
  rw [MemoryRegionInfo.linearAllocateAt, hu] at h
  simp only [Bool.false_eq_true, if_false] at h
  split_ifs at h with hc
  · obtain ⟨rfl, rfl⟩ := Prod.mk.inj (Option.some.inj h)
    exact Or.inr ⟨rfl, ⟨rfl, rfl, hu.symm⟩, IntervalSet.subset_of_contains hc,
      IntervalSet.toFinset_erase _ _, rfl⟩
  · obtain ⟨rfl, rfl⟩ := Prod.mk.inj (Option.some.inj h)
    exact Or.inl ⟨rfl, rfl⟩

/-- What `MemoryRegionInfo::LinearAllocate` of a size takes. -/
theorem linearAllocate_takes {r r' : MemoryRegionInfo} {size : Nat} {offset : Option Nat}
    (hu : r.isLocked = false) (h : r.linearAllocate size = some (offset, r')) :
    (offset = none ∧ r' = r) ∨
      ∃ lower, offset = some lower ∧ r.Moved r' ∧
        Interval.toFinset ⟨lower, lower + size⟩ ⊆ r.freeBlocks.toFinset ∧
        r'.freeBlocks.toFinset =
          r.freeBlocks.toFinset \ Interval.toFinset ⟨lower, lower + size⟩ ∧
        r'.used = add32 r.used size ∧
        ∃ i ∈ r.freeBlocks.blocks, i.lower = lower ∧ size ≤ i.upper - i.lower := by
  rw [MemoryRegionInfo.linearAllocate, hu] at h
  simp only [Bool.false_eq_true, if_false] at h
  split at h
  · next i hfind =>
      obtain ⟨rfl, rfl⟩ := Prod.mk.inj (Option.some.inj h)
      have hmem := List.mem_of_find?_eq_some hfind
      have hbig : i.upper - i.lower ≥ size := by simpa using List.find?_some hfind
      refine Or.inr ⟨i.lower, rfl, ⟨rfl, rfl, hu.symm⟩, ?_, IntervalSet.toFinset_erase _ _, rfl, i,
        hmem, rfl, hbig⟩
      refine Finset.Subset.trans ?_ (toFinset_subset_covered hmem)
      intro x hx
      rw [Interval.mem_toFinset] at hx ⊢
      dsimp only at hx
      omega
  · obtain ⟨rfl, rfl⟩ := Prod.mk.inj (Option.some.inj h)
    exact Or.inl ⟨rfl, rfl⟩

/-- What `MemoryRegionInfo::Free` gives back. -/
theorem free_gives {r r' : MemoryRegionInfo} {offset size : Nat} (hu : r.isLocked = false)
    (h : r.free offset size = some r') :
    r.Moved r' ∧
      Disjoint (Interval.toFinset ⟨offset, add32 offset size⟩) r.freeBlocks.toFinset ∧
      r'.freeBlocks.toFinset =
        Interval.toFinset ⟨offset, add32 offset size⟩ ∪ r.freeBlocks.toFinset ∧
      r'.used = sub32 r.used size := by
  rw [MemoryRegionInfo.free, hu] at h
  simp only [Bool.false_eq_true, if_false] at h
  split_ifs at h with hi
  obtain rfl := Option.some.inj h
  exact ⟨⟨rfl, rfl, hu.symm⟩, IntervalSet.disjoint_of_not_intersects (by simpa using hi),
    IntervalSet.toFinset_insert _ _, rfl⟩

/-- `MemoryRegionInfo::RLinearAllocate`, in the highest block that has the size. -/
def MemoryRegionInfo.rLinearAllocate (r : MemoryRegionInfo) (size : Nat) :
    Option (Option Nat × MemoryRegionInfo) :=
  if r.isLocked then none
  else
    match r.freeBlocks.blocks.reverse.find? fun i => i.upper - i.lower ≥ size with
    | some i =>
        some (some (i.upper - size), { r with
          freeBlocks := r.freeBlocks.erase ⟨i.upper - size, i.upper⟩, used := add32 r.used size })
    | none => some (none, r)

/-- What `MemoryRegionInfo::RLinearAllocate` takes. -/
theorem rLinearAllocate_takes {r r' : MemoryRegionInfo} {size : Nat} {offset : Option Nat}
    (hu : r.isLocked = false) (h : r.rLinearAllocate size = some (offset, r')) :
    (offset = none ∧ r' = r) ∨
      ∃ lower, offset = some lower ∧ r.Moved r' ∧
        Interval.toFinset ⟨lower, lower + size⟩ ⊆ r.freeBlocks.toFinset ∧
        r'.freeBlocks.toFinset =
          r.freeBlocks.toFinset \ Interval.toFinset ⟨lower, lower + size⟩ ∧
        r'.used = add32 r.used size := by
  rw [MemoryRegionInfo.rLinearAllocate, hu] at h
  simp only [Bool.false_eq_true, if_false] at h
  split at h
  · next i hfind =>
      obtain ⟨rfl, rfl⟩ := Prod.mk.inj (Option.some.inj h)
      have hmem := List.mem_reverse.1 (List.mem_of_find?_eq_some hfind)
      have hbig : i.upper - i.lower ≥ size := by simpa using List.find?_some hfind
      have hlt := r.freeBlocks.canonical.lt_of_mem hmem
      have hupper : i.upper - size + size = i.upper := by omega
      refine Or.inr ⟨i.upper - size, rfl, ⟨rfl, rfl, hu.symm⟩, ?_, ?_, rfl⟩
      · rw [hupper]
        refine Finset.Subset.trans ?_ (toFinset_subset_covered hmem)
        intro x hx
        rw [Interval.mem_toFinset] at hx ⊢
        dsimp only at hx
        omega
      · rw [hupper]
        exact IntervalSet.toFinset_erase _ _
  · obtain ⟨rfl, rfl⟩ := Prod.mk.inj (Option.some.inj h)
    exact Or.inl ⟨rfl, rfl⟩

/-! ## Every run -/

/-- The calls that take memory from a region. -/
inductive RegionRequest
  | heapAllocate (size : UInt32)
  | linearAllocateAt (offset size : UInt32)
  | linearAllocate (size : UInt32)
  | rLinearAllocate (size : UInt32)
  deriving DecidableEq

namespace RegionRequest

/-- How much a call asks for. -/
def size : RegionRequest → Nat
  | heapAllocate size => size.toNat
  | linearAllocateAt _ size => size.toNat
  | linearAllocate size => size.toNat
  | rLinearAllocate size => size.toNat

/-- A call for a given range that does not end below `2^32`. -/
def Wraps : RegionRequest → Prop
  | linearAllocateAt offset size => 2 ^ 32 ≤ offset.toNat + size.toNat
  | _ => False

/-- The call, with the ranges it has taken, or `none` if it failed. -/
def apply (r : MemoryRegionInfo) : RegionRequest → Option (Option IntervalSet × MemoryRegionInfo)
  | heapAllocate size => (r.heapAllocate size.toNat).map fun (ranges, r) =>
      (if ranges.blocks.isEmpty then none else some ranges, r)
  | linearAllocateAt offset size => (r.linearAllocateAt offset.toNat size.toNat).map fun (ok, r) =>
      (if ok then some (IntervalSet.empty.insert ⟨offset.toNat, add32 offset.toNat size.toNat⟩) else none, r)
  | linearAllocate size => (r.linearAllocate size.toNat).map fun (lower, r) =>
      (lower.map fun lower => IntervalSet.empty.insert ⟨lower, lower + size.toNat⟩, r)
  | rLinearAllocate size => (r.rLinearAllocate size.toNat).map fun (lower, r) =>
      (lower.map fun lower => IntervalSet.empty.insert ⟨lower, lower + size.toNat⟩, r)

end RegionRequest

/-- The states of a region after `Reset`, with the memory that was taken from it and not given back: calls that are
allowed take memory, and any part of it is freed. -/
inductive RegionReached (base size : UInt32) (allowed : RegionRequest → Prop) :
    MemoryRegionInfo → Finset Nat → Prop
  | reset : RegionReached base size allowed (MemoryRegionInfo.reset base.toNat size.toNat) ∅
  | allocate {r r' : MemoryRegionInfo} {live : Finset Nat} {request : RegionRequest} {ranges : IntervalSet} :
      RegionReached base size allowed r live → allowed request → request.apply r = some (some ranges, r') →
      RegionReached base size allowed r' (live ∪ ranges.toFinset)
  | refuse {r r' : MemoryRegionInfo} {live : Finset Nat} {request : RegionRequest} :
      RegionReached base size allowed r live → allowed request → request.apply r = some (none, r') →
      RegionReached base size allowed r' live
  | free {r r' : MemoryRegionInfo} {live : Finset Nat} {offset length : UInt32} :
      RegionReached base size allowed r live →
      Interval.toFinset ⟨offset.toNat, offset.toNat + length.toNat⟩ ⊆ live →
      r.free offset.toNat length.toNat = some r' →
      RegionReached base size allowed r' (live \ Interval.toFinset ⟨offset.toNat, offset.toNat + length.toNat⟩)

theorem toFinset_singleton (i : Interval) : (IntervalSet.empty.insert i).toFinset = i.toFinset := by
  rw [IntervalSet.toFinset_insert, IntervalSet.toFinset_empty, Finset.union_empty]

/-- On a region that is not locked every call returns. -/
theorem RegionRequest.apply_isSome {r : MemoryRegionInfo} (hu : r.isLocked = false) (request : RegionRequest) :
    ∃ q, request.apply r = some q := by
  cases request with
  | heapAllocate size =>
    rw [apply, MemoryRegionInfo.heapAllocate, hu]
    simp only [Bool.false_eq_true, if_false]
    split_ifs <;> exact ⟨_, rfl⟩
  | linearAllocateAt offset size =>
    rw [apply, MemoryRegionInfo.linearAllocateAt, hu]
    simp only [Bool.false_eq_true, if_false]
    split_ifs <;> exact ⟨_, rfl⟩
  | linearAllocate size =>
    rw [apply, MemoryRegionInfo.linearAllocate, hu]
    simp only [Bool.false_eq_true, if_false]
    split <;> exact ⟨_, rfl⟩
  | rLinearAllocate size =>
    rw [apply, MemoryRegionInfo.rLinearAllocate, hu]
    simp only [Bool.false_eq_true, if_false]
    split <;> exact ⟨_, rfl⟩

namespace Balanced

variable {r r' : MemoryRegionInfo} {live : Finset Nat}

theorem used_lt (h : Balanced r live) : r.used < 2 ^ 32 := by
  have h₁ := h.size_eq
  have h₂ := h.bound
  have h₃ := h.used_eq
  omega

/-- One interval is taken. -/
theorem take_interval (h : Balanced r live) {lower size : Nat} (hm : r.Moved r')
    (hsub : Interval.toFinset ⟨lower, lower + size⟩ ⊆ r.freeBlocks.toFinset)
    (hfree : r'.freeBlocks.toFinset = r.freeBlocks.toFinset \ Interval.toFinset ⟨lower, lower + size⟩)
    (hused : r'.used = add32 r.used size) :
    (IntervalSet.empty.insert ⟨lower, lower + size⟩).toFinset.card = size ∧
      (IntervalSet.empty.insert ⟨lower, lower + size⟩).toFinset ⊆ r.freeBlocks.toFinset ∧
      r.Moved r' ∧ Balanced r' (live ∪ (IntervalSet.empty.insert ⟨lower, lower + size⟩).toFinset) := by
  have hcard : (Interval.toFinset ⟨lower, lower + size⟩).card = size := by
    rw [Interval.card_toFinset, Interval.size]
    simp
  rw [toFinset_singleton]
  exact ⟨hcard, hsub, hm, (h.take hm hsub hfree (by rw [hcard]; exact hused)).1⟩

/-- What a call that does not wrap around takes. -/
theorem apply (h : Balanced r live) {request : RegionRequest} (hwraps : ¬ request.Wraps)
    {result : Option IntervalSet} (hrun : request.apply r = some (result, r')) :
    (result = none ∧ r' = r) ∨ ∃ ranges, result = some ranges ∧
      ranges.toFinset.card = request.size ∧ ranges.toFinset ⊆ r.freeBlocks.toFinset ∧
      r.Moved r' ∧ Balanced r' (live ∪ ranges.toFinset) := by
  cases request with
  | heapAllocate size =>
    obtain ⟨⟨A, r''⟩, hheap, heq⟩ := Option.map_eq_some_iff.1 hrun
    obtain ⟨rfl, rfl⟩ := Prod.mk.inj heq
    by_cases hA : A.blocks = []
    · exact Or.inl ⟨if_pos (by rw [hA]; rfl), heapAllocate_empty h.used_lt hheap hA⟩
    · refine Or.inr ⟨A, if_neg (by simpa using hA), ?_⟩
      rcases heapAllocate_takes h.unlocked hheap with ⟨hempty, -⟩ | ⟨hm, hsub, hcard, hfree, hused⟩
      · exact absurd (blocks_eq_nil_iff.2 hempty) hA
      · exact ⟨hcard, hsub, hm, (h.take hm hsub hfree hused).1⟩
  | linearAllocateAt offset size =>
    have hsum : add32 offset.toNat size.toNat = offset.toNat + size.toNat :=
      add32_of_lt (not_le.1 hwraps)
    obtain ⟨⟨ok, r''⟩, hlinear, heq⟩ := Option.map_eq_some_iff.1 hrun
    obtain ⟨rfl, rfl⟩ := Prod.mk.inj heq
    rcases linearAllocateAt_takes h.unlocked hlinear with ⟨rfl, rfl⟩ | ⟨rfl, hm, hsub, hfree, hused⟩
    · exact Or.inl ⟨rfl, rfl⟩
    · rw [hsum] at hsub hfree
      refine Or.inr ⟨_, rfl, ?_⟩
      rw [hsum]
      exact h.take_interval hm hsub hfree hused
  | linearAllocate size =>
    obtain ⟨⟨lower, r''⟩, hlinear, heq⟩ := Option.map_eq_some_iff.1 hrun
    obtain ⟨rfl, rfl⟩ := Prod.mk.inj heq
    rcases linearAllocate_takes h.unlocked hlinear with
      ⟨rfl, rfl⟩ | ⟨lower, rfl, hm, hsub, hfree, hused, -⟩
    · exact Or.inl ⟨rfl, rfl⟩
    · exact Or.inr ⟨_, rfl, h.take_interval hm hsub hfree hused⟩
  | rLinearAllocate size =>
    obtain ⟨⟨lower, r''⟩, hlinear, heq⟩ := Option.map_eq_some_iff.1 hrun
    obtain ⟨rfl, rfl⟩ := Prod.mk.inj heq
    rcases rLinearAllocate_takes h.unlocked hlinear with
      ⟨rfl, rfl⟩ | ⟨lower, rfl, hm, hsub, hfree, hused⟩
    · exact Or.inl ⟨rfl, rfl⟩
    · exact Or.inr ⟨_, rfl, h.take_interval hm hsub hfree hused⟩

/-- Memory that was taken can be freed, all of it or any part. -/
theorem free (h : Balanced r live) {offset length : Nat} (hoffset : offset < 2 ^ 32)
    (hlive : Interval.toFinset ⟨offset, offset + length⟩ ⊆ live) :
    ∃ r', r.free offset length = some r' ∧ r.Moved r' ∧
      Balanced r' (live \ Interval.toFinset ⟨offset, offset + length⟩) := by
  have hspace : Interval.toFinset ⟨offset, offset + length⟩ ⊆ r.space := by
    refine hlive.trans ?_
    rw [h.live_eq]
    exact Finset.sdiff_subset
  have hsum : add32 offset length = offset + length := by
    refine add32_of_lt ?_
    rcases Nat.eq_zero_or_pos length with rfl | hpos
    · exact hoffset
    · have hlast : offset + length - 1 ∈ r.space :=
        hspace (Interval.mem_toFinset.2 ⟨by dsimp only; omega, by dsimp only; omega⟩)
      have hbound := h.bound
      rw [MemoryRegionInfo.space, Finset.mem_Ico] at hlast
      omega
  have hdis : Disjoint (Interval.toFinset ⟨offset, offset + length⟩) r.freeBlocks.toFinset := by
    rw [h.live_eq] at hlive
    exact Finset.sdiff_disjoint.mono_left hlive
  have hrun : r.free offset length = some { r with
      freeBlocks := r.freeBlocks.insert ⟨offset, offset + length⟩, used := sub32 r.used length } := by
    rw [MemoryRegionInfo.free, h.unlocked, hsum, IntervalSet.not_intersects_of_disjoint hdis]
    simp
  have hcard : (Interval.toFinset ⟨offset, offset + length⟩).card = length := by
    rw [Interval.card_toFinset, Interval.size]
    simp
  have hmoved : r.Moved { r with
      freeBlocks := r.freeBlocks.insert ⟨offset, offset + length⟩, used := sub32 r.used length } :=
    ⟨rfl, rfl, rfl⟩
  refine ⟨_, hrun, hmoved, (h.give hmoved hspace hdis (IntervalSet.toFinset_insert _ _) ?_).1⟩
  rw [hcard]

end Balanced

/-- `Reset` leaves the whole region free. -/
theorem balanced_reset {base size : Nat} (h : base + size < 2 ^ 32) :
    Balanced (MemoryRegionInfo.reset base size) ∅ := by
  have hfree : (MemoryRegionInfo.reset base size).freeBlocks.toFinset = Finset.Ico base (base + size) :=
    toFinset_singleton _
  refine ⟨rfl, h, ?_, ?_, rfl⟩
  · rw [hfree]
    exact Finset.Subset.refl _
  · rw [hfree]
    exact (Finset.sdiff_self _).symm

/-- What holds along every run. -/
theorem RegionReached.balanced {base size : UInt32} {r : MemoryRegionInfo} {live : Finset Nat}
    (hbound : base.toNat + size.toNat < 2 ^ 32)
    (h : RegionReached base size (fun request => ¬ request.Wraps) r live) :
    Balanced r live ∧ r.base = base.toNat ∧ r.size = size.toNat := by
  induction h with
  | reset => exact ⟨balanced_reset hbound, rfl, rfl⟩
  | @allocate r r' live request ranges _ hwraps hrun ih =>
    obtain ⟨hb, hbase, hsize⟩ := ih
    rcases hb.apply hwraps hrun with ⟨hnone, -⟩ | ⟨ranges', heq, -, -, hm, hb'⟩
    · cases hnone
    · obtain rfl := Option.some.inj heq
      exact ⟨hb', hm.base.trans hbase, hm.size.trans hsize⟩
  | @refuse r r' live request _ hwraps hrun ih =>
    rcases ih.1.apply hwraps hrun with ⟨-, rfl⟩ | ⟨ranges, hsome, -⟩
    · exact ih
    · cases hsome
  | @free r r' live offset length _ hlive hrun ih =>
    obtain ⟨hb, hbase, hsize⟩ := ih
    obtain ⟨r'', hrun', hm, hb'⟩ := hb.free offset.toNat_lt hlive
    obtain rfl := Option.some.inj (hrun.symm.trans hrun')
    exact ⟨hb', hm.base.trans hbase, hm.size.trans hsize⟩

/-- Every run of the calls on a region, in which no given range wraps around.

The free blocks lie in the region, and their size and `used` are the size of the region.  Every call returns: the
ranges it takes have the size it asks for and no byte in common with memory that is in use, and if it fails it
changes nothing.  All memory that is in use can be freed. -/
theorem region_conservation (base size : UInt32) (hbound : base.toNat + size.toNat < 2 ^ 32)
    (r : MemoryRegionInfo) (live : Finset Nat)
    (h : RegionReached base size (fun request => ¬ request.Wraps) r live) :
    r.freeBlocks.toFinset ⊆ Finset.Ico base.toNat (base.toNat + size.toNat) ∧
    r.used + r.freeBlocks.size = size.toNat ∧
    (∀ request : RegionRequest, ¬ request.Wraps → ∃ result r', request.apply r = some (result, r') ∧
      (∀ ranges, result = some ranges → ranges.size = request.size ∧ Disjoint ranges.toFinset live) ∧
      (result = none → r' = r)) ∧
    ∀ offset length : UInt32, Interval.toFinset ⟨offset.toNat, offset.toNat + length.toNat⟩ ⊆ live →
      ∃ r', r.free offset.toNat length.toNat = some r' := by
  obtain ⟨hb, hbase, hsize⟩ := h.balanced hbound
  refine ⟨?_, ?_, ?_, ?_⟩
  · have hsub := hb.free_subset
    rwa [MemoryRegionInfo.space, hbase, hsize] at hsub
  · rw [hb.used_eq, ← IntervalSet.card_toFinset, hb.size_eq, hsize]
  · intro request hwraps
    obtain ⟨⟨result, r'⟩, hrun⟩ := request.apply_isSome hb.unlocked
    refine ⟨result, r', hrun, ?_, ?_⟩
    · rintro ranges rfl
      rcases hb.apply hwraps hrun with ⟨hnone, -⟩ | ⟨ranges', heq, hcard, hsub, -, -⟩
      · cases hnone
      · obtain rfl := Option.some.inj heq
        rw [← IntervalSet.card_toFinset]
        exact ⟨hcard, (hb.disjoint hsub).symm⟩
    · rintro rfl
      rcases hb.apply hwraps hrun with ⟨-, hkept⟩ | ⟨ranges, hsome, -⟩
      · exact hkept
      · cases hsome
  · intro offset length hlive
    obtain ⟨r', hrun, -, -⟩ := hb.free offset.toNat_lt hlive
    exact ⟨r', hrun⟩

/-- A page is taken from the end of a region of two, and the other one is still free. -/
theorem region_conservation_page :
    ∃ r live, RegionReached 0x1000 0x2000 (fun request => ¬ request.Wraps) r live ∧
      r.used + r.freeBlocks.size = 0x2000 := by
  have hrun : ∃ q, (RegionRequest.heapAllocate 0x1000).apply (MemoryRegionInfo.reset 0x1000 0x2000) =
      some (some (IntervalSet.empty.insert ⟨0x2000, 0x3000⟩), q) := ⟨_, rfl⟩
  obtain ⟨r, hrun⟩ := hrun
  have hreached : RegionReached 0x1000 0x2000 (fun request => ¬ request.Wraps) r _ :=
    RegionReached.allocate RegionReached.reset id hrun
  exact ⟨r, _, hreached, (region_conservation 0x1000 0x2000 (by decide) r _ hreached).2.1⟩

/-- A range that begins at `0x1000` and wraps around is taken although only a part of it is free, and `used` grows by
its size. -/
theorem wrapped_range_is_used :
    ¬ ∀ (base size : UInt32) (r : MemoryRegionInfo) (live : Finset Nat), base.toNat + size.toNat < 2 ^ 32 →
      RegionReached base size (fun _ => True) r live → r.used + r.freeBlocks.size = size.toNat := by
  intro hall
  have hrun : ∃ q, (RegionRequest.linearAllocateAt 0x1000 0xFFFFF000).apply
      (MemoryRegionInfo.reset 0 0x04000000) = some (some IntervalSet.empty, q) ∧
      q.used + q.freeBlocks.size ≠ 0x04000000 := ⟨_, rfl, by decide⟩
  obtain ⟨r, hrun, hne⟩ := hrun
  exact hne (hall 0 0x04000000 r _ (by decide)
    (RegionReached.allocate RegionReached.reset trivial hrun))

end AzaharPlus.Kernel
