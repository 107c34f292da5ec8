import Mathlib.Order.Lattice
import Mathlib.Data.List.Pairwise
import Mathlib.Order.Defs.LinearOrder

/-!
# Ordered maps as sorted lists

An ordered map keeps its entries in a list whose keys strictly ascend, which is also the order in
which it is walked through.

* `toList_foldl_insertOrAssign` — ascending entries inserted one after the other stand behind those
  the map had.
-/

/-- A map from a linear order, as the list of its entries by ascending keys. -/
structure SortedMap (α β : Type) [LinearOrder α] where
  /-- The entries, by ascending keys. -/
  toList : List (α × β)
  sorted : toList.Pairwise fun p q => p.1 < q.1

namespace SortedMap

variable {α β : Type} [LinearOrder α]

/-- A value for a key in an ascending list: the value of an entry that is there is replaced. -/
def assignList (a : α) (b : β) : List (α × β) → List (α × β)
  | [] => [(a, b)]
  | p :: l =>
      if a < p.1 then (a, b) :: p :: l
      else if a = p.1 then (a, b) :: l
      else p :: assignList a b l

theorem mem_assignList {a : α} {b : β} {q : α × β} {l : List (α × β)}
    (h : q ∈ assignList a b l) : q = (a, b) ∨ q ∈ l := by
  induction l with
  | nil => exact Or.inl (List.mem_singleton.1 h)
  | cons p l ih =>
    rw [assignList] at h
    split at h
    · exact List.mem_cons.1 h
    · split at h
      · exact (List.mem_cons.1 h).imp_right (List.mem_cons_of_mem p)
      · rcases List.mem_cons.1 h with rfl | h
        · exact Or.inr List.mem_cons_self
        · exact (ih h).imp_right (List.mem_cons_of_mem p)

theorem sorted_assignList (a : α) (b : β) {l : List (α × β)}
    (h : l.Pairwise fun p q => p.1 < q.1) :
    (assignList a b l).Pairwise fun p q => p.1 < q.1 := by
  induction l with
  | nil => exact List.pairwise_singleton _ _
  | cons p l ih =>
    obtain ⟨hp, hl⟩ := List.pairwise_cons.1 h
    rw [assignList]
    split
    · next hlt =>
        refine List.pairwise_cons.2 ⟨fun q hq => ?_, h⟩
        rcases List.mem_cons.1 hq with rfl | hq
        · exact hlt
        · exact lt_trans hlt (hp q hq)
    · next hge =>
        split
        · next heq => exact List.pairwise_cons.2 ⟨fun q hq => heq ▸ hp q hq, hl⟩
        · next hne =>
            refine List.pairwise_cons.2 ⟨fun q hq => ?_, ih hl⟩
            rcases mem_assignList hq with rfl | hq
            · exact lt_of_le_of_ne (not_lt.1 hge) (Ne.symm hne)
            · exact hp q hq

/-- A key above all keys of the list goes behind them. -/
theorem assignList_of_lt (a : α) (b : β) {l : List (α × β)} (h : ∀ p ∈ l, p.1 < a) :
    assignList a b l = l ++ [(a, b)] := by
  induction l with
  | nil => rfl
  | cons p l ih =>
    have hp := h p List.mem_cons_self
    rw [assignList, if_neg (lt_asymm hp), if_neg (ne_of_gt hp),
      ih fun q hq => h q (List.mem_cons_of_mem p hq), List.cons_append]

/-- The map without entries. -/
def empty : SortedMap α β := ⟨[], List.Pairwise.nil⟩

/-- The map with a value for a key. -/
def insertOrAssign (m : SortedMap α β) (a : α) (b : β) : SortedMap α β :=
  ⟨assignList a b m.toList, sorted_assignList a b m.sorted⟩

/-- Maps with the same entries are the same. -/
theorem ext {m n : SortedMap α β} (h : m.toList = n.toList) : m = n := by
  cases m
  cases n
  simp only at h
  subst h
  rfl

/-- Ascending entries above those of a map are inserted behind them. -/
theorem toList_foldl_insertOrAssign (l : List (α × β)) (m : SortedMap α β)
    (h : (m.toList ++ l).Pairwise fun p q => p.1 < q.1) :
    (l.foldl (fun m p => m.insertOrAssign p.1 p.2) m).toList = m.toList ++ l := by
  induction l generalizing m with
  | nil => simp
  | cons p l ih =>
    have hbelow : ∀ q ∈ m.toList, q.1 < p.1 := fun q hq =>
      (List.pairwise_append.1 h).2.2 q hq p List.mem_cons_self
    have hinsert : (m.insertOrAssign p.1 p.2).toList = m.toList ++ [p] :=
      assignList_of_lt p.1 p.2 hbelow
    have hassoc : m.toList ++ [p] ++ l = m.toList ++ p :: l := by
      rw [List.append_assoc, List.singleton_append]
    rw [List.foldl_cons, ih, hinsert, hassoc]
    rw [hinsert, hassoc]
    exact h

end SortedMap
