import Mathlib.Data.List.Nodup
import Mathlib.Data.Fintype.Card

/-!
# Ordered sets as sorted lists

An ordered set keeps its elements in a strictly ascending list, which is also the order in
which it is walked through.
-/

/-- A set of values of a linear order, as the ascending list of its elements. -/
structure SortedSet (α : Type) [LinearOrder α] where
  /-- The elements, in ascending order. -/
  toList : List α
  sorted : toList.Pairwise (· < ·)

namespace SortedSet

variable {α : Type} [LinearOrder α]

/-- Insertion into an ascending list; an element that is there is not inserted again. -/
def insertList (a : α) : List α → List α
  | [] => [a]
  | b :: l => if a < b then a :: b :: l else if a = b then b :: l else b :: insertList a l

theorem mem_insertList {a x : α} {l : List α} : x ∈ insertList a l ↔ x = a ∨ x ∈ l := by
  induction l with
  | nil => simp [insertList]
  | cons b l ih =>
    rw [insertList]
    by_cases h₁ : a < b
    · simp [h₁]
    · by_cases h₂ : a = b
      · simp [h₂]
      · rw [if_neg h₁, if_neg h₂, List.mem_cons, ih, List.mem_cons]
        tauto

theorem sorted_insertList (a : α) {l : List α} (h : l.Pairwise (· < ·)) :
    (insertList a l).Pairwise (· < ·) := by
  induction l with
  | nil => simp [insertList]
  | cons b l ih =>
    obtain ⟨hb, hl⟩ := List.pairwise_cons.1 h
    rw [insertList]
    by_cases h₁ : a < b
    · rw [if_pos h₁, List.pairwise_cons]
      refine ⟨fun x hx => ?_, h⟩
      rcases List.mem_cons.1 hx with rfl | hx
      · exact h₁
      · exact h₁.trans (hb x hx)
    · by_cases h₂ : a = b
      · rw [if_neg h₁, if_pos h₂]
        exact h
      · rw [if_neg h₁, if_neg h₂, List.pairwise_cons]
        refine ⟨fun x hx => ?_, ih hl⟩
        rcases mem_insertList.1 hx with rfl | hx
        · exact lt_of_le_of_ne (not_lt.1 h₁) (Ne.symm h₂)
        · exact hb x hx

/-- The set without elements. -/
def empty : SortedSet α := ⟨[], List.Pairwise.nil⟩

/-- The set with one more element. -/
def insert (s : SortedSet α) (a : α) : SortedSet α :=
  ⟨insertList a s.toList, sorted_insertList a s.sorted⟩

/-- The set without one element. -/
def erase (s : SortedSet α) (a : α) : SortedSet α :=
  ⟨s.toList.erase a, s.sorted.sublist List.erase_sublist⟩

instance : Membership α (SortedSet α) := ⟨fun s a => a ∈ s.toList⟩

instance (a : α) (s : SortedSet α) : Decidable (a ∈ s) := inferInstanceAs (Decidable (a ∈ s.toList))

theorem mem_toList {a : α} {s : SortedSet α} : a ∈ s.toList ↔ a ∈ s := Iff.rfl

@[simp] theorem not_mem_empty (a : α) : a ∉ (empty : SortedSet α) := List.not_mem_nil

@[simp] theorem mem_insert {a x : α} {s : SortedSet α} : x ∈ s.insert a ↔ x = a ∨ x ∈ s :=
  mem_insertList

theorem nodup (s : SortedSet α) : s.toList.Nodup := s.sorted.imp ne_of_lt

/-- Sets with the same elements are the same. -/
theorem ext {s t : SortedSet α} (h : ∀ a, a ∈ s ↔ a ∈ t) : s = t := by
  have hperm : s.toList.Perm t.toList := (List.perm_ext_iff_of_nodup s.nodup t.nodup).2 h
  have heq : s.toList = t.toList :=
    hperm.eq_of_pairwise (fun a b _ _ hab hba => absurd (hab.trans hba) (lt_irrefl a)) s.sorted t.sorted
  cases s
  cases t
  simp only at heq
  subst heq
  rfl

@[simp] theorem mem_erase {a x : α} {s : SortedSet α} : x ∈ s.erase a ↔ x ≠ a ∧ x ∈ s :=
  s.nodup.mem_erase_iff

/-- The elements inserted one after the other are in the set, beside those it had. -/
theorem mem_foldl_insert {β : Type} (f : β → α) (l : List β) (s : SortedSet α) {x : α} :
    x ∈ l.foldl (fun s b => s.insert (f b)) s ↔ x ∈ s ∨ ∃ b ∈ l, f b = x := by
  induction l generalizing s with
  | nil => simp
  | cons b l ih =>
    rw [List.foldl_cons, ih, mem_insert]
    constructor
    · rintro ((rfl | h) | ⟨c, hc, h⟩)
      · exact Or.inr ⟨b, List.mem_cons_self, rfl⟩
      · exact Or.inl h
      · exact Or.inr ⟨c, List.mem_cons_of_mem b hc, h⟩
    · rintro (h | ⟨c, hc, h⟩)
      · exact Or.inl (Or.inr h)
      · rcases List.mem_cons.1 hc with rfl | hc
        · exact Or.inl (Or.inl h.symm)
        · exact Or.inr ⟨c, hc, h⟩

end SortedSet
