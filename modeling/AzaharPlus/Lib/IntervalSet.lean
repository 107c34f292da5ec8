import Mathlib.Algebra.GroupWithZero.Nat
import Mathlib.Order.Interval.Finset.Nat
import Mathlib.Data.Finset.Card

/-!
# Sets of numbers as lists of intervals

A set of numbers is kept as the ascending list of its maximal half-open intervals: none of
them is empty and no two of them touch.  Adding an interval joins it with those it touches,
removing one cuts those it meets.  The set a list stands for is a `Finset`, and the sum of
the lengths of the intervals is its cardinality.
-/

namespace Intervals

/-- The numbers from `lower` on, up to but without `upper`. -/
structure Interval where
  lower : Nat
  upper : Nat
  deriving DecidableEq, Repr

namespace Interval

/-- How many numbers an interval has. -/
def size (i : Interval) : Nat := i.upper - i.lower

/-- The numbers of an interval. -/
def toFinset (i : Interval) : Finset Nat := Finset.Ico i.lower i.upper

theorem mem_toFinset {i : Interval} {x : Nat} :
    x ∈ i.toFinset ↔ i.lower ≤ x ∧ x < i.upper := Finset.mem_Ico

@[simp] theorem card_toFinset (i : Interval) : i.toFinset.card = i.size := Nat.card_Ico _ _

theorem toFinset_of_le {i : Interval} (h : i.upper ≤ i.lower) : i.toFinset = ∅ :=
  Finset.Ico_eq_empty_of_le h

end Interval

/-! ## Lists of intervals -/

/-- A list of intervals from `lo` on, ascending, none empty and no two touching. -/
def Canonical : Nat → List Interval → Prop
  | _, [] => True
  | lo, i :: l => lo ≤ i.lower ∧ i.lower < i.upper ∧ Canonical (i.upper + 1) l

theorem Canonical.mono {l : List Interval} {lo lo' : Nat} (h : Canonical lo l) (hle : lo' ≤ lo) :
    Canonical lo' l := by
  cases l with
  | nil => trivial
  | cons i l => exact ⟨hle.trans h.1, h.2⟩

/-- The numbers of a list of intervals. -/
def covered (l : List Interval) : Finset Nat := l.foldr (fun i s => i.toFinset ∪ s) ∅

@[simp] theorem covered_nil : covered [] = ∅ := rfl

@[simp] theorem covered_cons (i : Interval) (l : List Interval) :
    covered (i :: l) = i.toFinset ∪ covered l := rfl

@[simp] theorem covered_append (l₁ l₂ : List Interval) :
    covered (l₁ ++ l₂) = covered l₁ ∪ covered l₂ := by
  induction l₁ with
  | nil => simp
  | cons i l ih => simp [ih, Finset.union_assoc]

@[simp] theorem covered_reverse (l : List Interval) : covered l.reverse = covered l := by
  induction l with
  | nil => rfl
  | cons i l ih => simp [ih, Finset.union_comm]

theorem toFinset_subset_covered {l : List Interval} {i : Interval} (h : i ∈ l) :
    i.toFinset ⊆ covered l := by
  induction l with
  | nil => simp at h
  | cons j l ih =>
    rcases List.mem_cons.1 h with rfl | h
    · exact Finset.subset_union_left
    · exact (ih h).trans Finset.subset_union_right

theorem Canonical.le_of_mem {l : List Interval} {lo x : Nat} (h : Canonical lo l)
    (hx : x ∈ covered l) : lo ≤ x := by
  induction l generalizing lo with
  | nil => simp at hx
  | cons i l ih =>
    obtain ⟨hlo, hne, hl⟩ := h
    rcases Finset.mem_union.1 hx with hx | hx
    · exact hlo.trans (Interval.mem_toFinset.1 hx).1
    · have := ih hl hx
      omega

theorem Canonical.lt_of_mem {l : List Interval} {lo : Nat} {i : Interval} (h : Canonical lo l)
    (hi : i ∈ l) : i.lower < i.upper := by
  induction l generalizing lo with
  | nil => simp at hi
  | cons j l ih =>
    rcases List.mem_cons.1 hi with rfl | hi
    · exact h.2.1
    · exact ih h.2.2 hi

/-- The first interval of a list meets no other one. -/
theorem Canonical.disjoint {i : Interval} {l : List Interval} {lo : Nat}
    (h : Canonical lo (i :: l)) : Disjoint i.toFinset (covered l) := by
  rw [Finset.disjoint_left]
  intro x hx hl
  have h₁ := (Interval.mem_toFinset.1 hx).2
  have h₂ := h.2.2.le_of_mem hl
  omega

/-- The front of a list and the rest of it. -/
theorem Canonical.of_append {l₁ l₂ : List Interval} : ∀ {lo : Nat}, Canonical lo (l₁ ++ l₂) →
    Canonical lo l₁ ∧ Canonical 0 l₂ ∧ Disjoint (covered l₁) (covered l₂) := by
  induction l₁ with
  | nil => exact fun h => ⟨trivial, h.mono (Nat.zero_le _), Finset.disjoint_empty_left _⟩
  | cons i l ih =>
    intro lo h
    obtain ⟨hl, hr, hd⟩ := ih h.2.2
    have hi : Disjoint i.toFinset (covered (l ++ l₂)) := Canonical.disjoint h
    rw [covered_append, Finset.disjoint_union_right] at hi
    exact ⟨⟨h.1, h.2.1, hl⟩, hr, Finset.disjoint_union_left.2 ⟨hi.2, hd⟩⟩

/-- The sum of the lengths. -/
def totalSize (l : List Interval) : Nat := (l.map Interval.size).sum

theorem Canonical.card_covered {l : List Interval} {lo : Nat} (h : Canonical lo l) :
    (covered l).card = totalSize l := by
  induction l generalizing lo with
  | nil => rfl
  | cons i l ih =>
    rw [covered_cons, Finset.card_union_of_disjoint h.disjoint, ih h.2.2, Interval.card_toFinset,
      totalSize, totalSize, List.map_cons, List.sum_cons]

/-- Adding an interval that is not empty: it swallows the intervals it touches. -/
def insertList (i : Interval) : List Interval → List Interval
  | [] => [i]
  | j :: l =>
      if j.upper < i.lower then j :: insertList i l
      else if i.upper < j.lower then i :: j :: l
      else insertList ⟨min i.lower j.lower, max i.upper j.upper⟩ l

theorem canonical_insertList {l : List Interval} : ∀ {i : Interval} {lo : Nat},
    Canonical lo l → lo ≤ i.lower → i.lower < i.upper → Canonical lo (insertList i l) := by
  induction l with
  | nil => exact fun _ hlo hi => ⟨hlo, hi, trivial⟩
  | cons j l ih =>
    intro i lo h hlo hi
    rw [insertList]
    split_ifs with h₁ h₂
    · exact ⟨h.1, h.2.1, ih h.2.2 h₁ hi⟩
    · exact ⟨hlo, hi, h₂, h.2⟩
    · have hj := h.1
      refine ih (h.2.2.mono (by have := h.2.1; omega)) (le_min hlo hj) ?_
      show min i.lower j.lower < max i.upper j.upper
      omega

theorem covered_insertList {l : List Interval} : ∀ {i : Interval} {lo : Nat},
    Canonical lo l → i.lower < i.upper → covered (insertList i l) = i.toFinset ∪ covered l := by
  induction l with
  | nil => intros; rfl
  | cons j l ih =>
    intro i lo h hi
    rw [insertList]
    split_ifs with h₁ h₂
    · rw [covered_cons, ih h.2.2 hi, covered_cons, Finset.union_left_comm]
    · rfl
    · have hj := h.2.1
      have hjoin : Interval.toFinset ⟨min i.lower j.lower, max i.upper j.upper⟩ =
          i.toFinset ∪ j.toFinset := by
        ext x
        simp only [Interval.mem_toFinset, Finset.mem_union]
        omega
      have hlt : (⟨min i.lower j.lower, max i.upper j.upper⟩ : Interval).lower <
          (⟨min i.lower j.lower, max i.upper j.upper⟩ : Interval).upper := by
        show min i.lower j.lower < max i.upper j.upper
        omega
      rw [ih h.2.2 hlt, hjoin, covered_cons, Finset.union_assoc]

/-- What is left of an interval below and above another one. -/
def cut (j i : Interval) : List Interval :=
  (if j.lower < min j.upper i.lower then [⟨j.lower, min j.upper i.lower⟩] else []) ++
    if max j.lower i.upper < j.upper then [⟨max j.lower i.upper, j.upper⟩] else []

/-- Removing an interval that is not empty. -/
def eraseList (i : Interval) : List Interval → List Interval
  | [] => []
  | j :: l => cut j i ++ eraseList i l

theorem covered_cut {i j : Interval} (hi : i.lower < i.upper) :
    covered (cut j i) = j.toFinset \ i.toFinset := by
  ext x
  rw [cut, covered_append, Finset.mem_union, Finset.mem_sdiff]
  split_ifs <;> simp [Interval.mem_toFinset] <;> omega

theorem covered_eraseList {i : Interval} (hi : i.lower < i.upper) (l : List Interval) :
    covered (eraseList i l) = covered l \ i.toFinset := by
  induction l with
  | nil => simp [eraseList]
  | cons j l ih =>
    rw [eraseList, covered_append, covered_cut hi, ih, covered_cons, Finset.union_sdiff_distrib]

theorem canonical_cut_append {i j : Interval} {l : List Interval} {lo : Nat}
    (hi : i.lower < i.upper) (hlo : lo ≤ j.lower) (hj : j.lower < j.upper)
    (hl : Canonical (j.upper + 1) l) : Canonical lo (cut j i ++ l) := by
  have htop : ∀ lo', lo' ≤ max j.lower i.upper → lo' ≤ j.upper + 1 → Canonical lo'
      ((if max j.lower i.upper < j.upper then [⟨max j.lower i.upper, j.upper⟩] else []) ++ l) := by
    intro lo' h₁ h₂
    by_cases h : max j.lower i.upper < j.upper
    · rw [if_pos h]
      exact ⟨h₁, h, hl⟩
    · rw [if_neg h]
      exact hl.mono h₂
  rw [cut, List.append_assoc]
  by_cases h : j.lower < min j.upper i.lower
  · rw [if_pos h]
    refine ⟨hlo, h, htop _ ?_ ?_⟩
    · show min j.upper i.lower + 1 ≤ max j.lower i.upper
      omega
    · exact Nat.succ_le_succ (min_le_left _ _)
  · rw [if_neg h]
    exact htop lo (by omega) (by omega)

theorem canonical_eraseList {i : Interval} (hi : i.lower < i.upper) {l : List Interval} :
    ∀ {lo : Nat}, Canonical lo l → Canonical lo (eraseList i l) := by
  induction l with
  | nil => exact fun h => h
  | cons j l ih =>
    intro lo h
    exact canonical_cut_append hi h.1 h.2.1 (ih h.2.2)

/-! ## Sets -/

/-- A set of numbers, as the list of its maximal intervals. -/
structure IntervalSet where
  blocks : List Interval
  canonical : Canonical 0 blocks

namespace IntervalSet

instance : DecidableEq IntervalSet := fun s t =>
  decidable_of_iff (s.blocks = t.blocks) (by cases s; cases t; simp)

/-- The numbers of a set. -/
def toFinset (s : IntervalSet) : Finset Nat := covered s.blocks

/-- The set without numbers. -/
def empty : IntervalSet := ⟨[], trivial⟩

@[simp] theorem toFinset_empty : empty.toFinset = ∅ := rfl

/-- How many numbers a set has. -/
def size (s : IntervalSet) : Nat := totalSize s.blocks

theorem card_toFinset (s : IntervalSet) : s.toFinset.card = s.size := s.canonical.card_covered

/-- Adding an interval; an empty one adds nothing. -/
def insert (s : IntervalSet) (i : Interval) : IntervalSet :=
  if h : i.lower < i.upper then
    ⟨insertList i s.blocks, canonical_insertList s.canonical (Nat.zero_le _) h⟩
  else s

@[simp] theorem toFinset_insert (s : IntervalSet) (i : Interval) :
    (s.insert i).toFinset = i.toFinset ∪ s.toFinset := by
  rw [insert]
  split_ifs with h
  · exact covered_insertList s.canonical h
  · rw [Interval.toFinset_of_le (not_lt.1 h), Finset.empty_union]

/-- Removing an interval; an empty one removes nothing. -/
def erase (s : IntervalSet) (i : Interval) : IntervalSet :=
  if h : i.lower < i.upper then ⟨eraseList i s.blocks, canonical_eraseList h s.canonical⟩ else s

@[simp] theorem toFinset_erase (s : IntervalSet) (i : Interval) :
    (s.erase i).toFinset = s.toFinset \ i.toFinset := by
  rw [erase]
  split_ifs with h
  · exact covered_eraseList h s.blocks
  · rw [Interval.toFinset_of_le (not_lt.1 h), Finset.sdiff_empty]

theorem toFinset_foldl_insert (l : List Interval) (s : IntervalSet) :
    (l.foldl insert s).toFinset = s.toFinset ∪ covered l := by
  induction l generalizing s with
  | nil => simp
  | cons i l ih =>
    rw [List.foldl_cons, ih, toFinset_insert, covered_cons, Finset.union_comm i.toFinset,
      Finset.union_assoc]

theorem toFinset_foldl_erase (l : List Interval) (s : IntervalSet) :
    (l.foldl erase s).toFinset = s.toFinset \ covered l := by
  induction l generalizing s with
  | nil => simp
  | cons i l ih => rw [List.foldl_cons, ih, toFinset_erase, covered_cons, sdiff_sdiff_left,
      Finset.sup_eq_union]

/-- Adding all intervals of another set. -/
def union (s t : IntervalSet) : IntervalSet := t.blocks.foldl insert s

@[simp] theorem toFinset_union (s t : IntervalSet) :
    (s.union t).toFinset = s.toFinset ∪ t.toFinset := toFinset_foldl_insert t.blocks s

/-- Removing all intervals of another set. -/
def diff (s t : IntervalSet) : IntervalSet := t.blocks.foldl erase s

@[simp] theorem toFinset_diff (s t : IntervalSet) :
    (s.diff t).toFinset = s.toFinset \ t.toFinset := toFinset_foldl_erase t.blocks s

/-- Whether an interval lies in a set: as no two blocks touch, it lies in one of them. -/
def contains (s : IntervalSet) (i : Interval) : Bool :=
  decide (i.upper ≤ i.lower) || s.blocks.any fun j => j.lower ≤ i.lower ∧ i.upper ≤ j.upper

theorem subset_of_contains {s : IntervalSet} {i : Interval} (h : s.contains i = true) :
    i.toFinset ⊆ s.toFinset := by
  rw [contains, Bool.or_eq_true, decide_eq_true_iff, List.any_eq_true] at h
  rcases h with h | ⟨j, hj, h⟩
  · rw [Interval.toFinset_of_le h]
    exact Finset.empty_subset _
  · obtain ⟨h₁, h₂⟩ := of_decide_eq_true h
    exact (Finset.Ico_subset_Ico h₁ h₂).trans (toFinset_subset_covered hj)

/-- Whether an interval meets a set. -/
def intersects (s : IntervalSet) (i : Interval) : Bool :=
  s.blocks.any fun j => max j.lower i.lower < min j.upper i.upper

theorem disjoint_of_not_intersects {s : IntervalSet} {i : Interval}
    (h : s.intersects i = false) : Disjoint i.toFinset s.toFinset := by
  rw [intersects, List.any_eq_false] at h
  rw [Finset.disjoint_left]
  intro x hx hs
  have hall : ∀ l : List Interval, (∀ j ∈ l, j ∈ s.blocks) → x ∉ covered l := by
    intro l
    induction l with
    | nil => simp
    | cons j l ih =>
      intro hl hxl
      rcases Finset.mem_union.1 hxl with hxj | hxl
      · have hj := h j (hl j (by simp))
        rw [decide_eq_true_iff] at hj
        rw [Interval.mem_toFinset] at hx hxj
        omega
      · exact ih (fun k hk => hl k (by simp [hk])) hxl
  exact hall s.blocks (fun _ hj => hj) hs

theorem not_intersects_of_disjoint {s : IntervalSet} {i : Interval}
    (h : Disjoint i.toFinset s.toFinset) : s.intersects i = false := by
  rw [intersects, List.any_eq_false]
  intro j hj hmeets
  rw [decide_eq_true_iff] at hmeets
  -- the first number the two intervals have in common
  have hi : max j.lower i.lower ∈ i.toFinset := Interval.mem_toFinset.2 ⟨by omega, by omega⟩
  have hs : max j.lower i.lower ∈ s.toFinset :=
    toFinset_subset_covered hj (Interval.mem_toFinset.2 ⟨by omega, by omega⟩)
  exact Finset.disjoint_left.1 h hi hs

/-- A bound of the numbers of a set bounds its blocks. -/
theorem upper_le {s : IntervalSet} {n : Nat} (hs : s.toFinset ⊆ Finset.range n) {i : Interval}
    (hi : i ∈ s.blocks) : i.upper ≤ n := by
  have hlt := s.canonical.lt_of_mem hi
  have hlast := Finset.mem_range.1 (hs (toFinset_subset_covered hi
    (Interval.mem_toFinset.2 ⟨Nat.le_sub_one_of_lt hlt, Nat.sub_one_lt_of_lt hlt⟩)))
  omega

end IntervalSet

end Intervals
