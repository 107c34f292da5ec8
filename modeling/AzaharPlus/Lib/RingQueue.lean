import Mathlib.Data.Nat.ModEq
import Mathlib.Data.List.Range
import Mathlib.Logic.Function.Basic

/-!
# Queues in a ring

A queue kept in a ring of slots: the index of the oldest entry and the number of entries.  Any number
may be asked for; the entries are distinct slots only up to the size of the ring.

* `contents_push`, `contents_pop` — the entries behind a push into a free slot, and behind a pop.
* `contents_add` — the entries from a place in the middle of the queue.
* `contents_push_full` — a push into a full ring replaces the oldest entry.
-/

namespace AzaharPlus.RingQueue

variable {α : Type}

/-- The entries of a ring of `size` slots, the oldest one first. -/
def contents (size : Nat) (slot : Nat → α) (index count : Nat) : List α :=
  (List.range count).map fun i => slot ((index + i) % size)

@[simp] theorem length_contents (size : Nat) (slot : Nat → α) (index count : Nat) :
    (contents size slot index count).length = count := by
  rw [contents, List.length_map, List.length_range]

/-- Offsets below the size of the ring name distinct slots. -/
theorem offset_inj {size index i j : Nat} (hi : i < size) (hj : j < size)
    (h : (index + i) % size = (index + j) % size) : i = j := by
  have hmod : i % size = j % size := Nat.ModEq.add_left_cancel' index h
  rwa [Nat.mod_eq_of_lt hi, Nat.mod_eq_of_lt hj] at hmod

/-- The index counts around the ring. -/
theorem contents_mod (size : Nat) (slot : Nat → α) (index count : Nat) :
    contents size slot (index % size) count = contents size slot index count :=
  List.map_congr_left fun i _ => by rw [Nat.mod_add_mod]

/-- The entries depend on the slots of the ring only. -/
theorem contents_congr {size : Nat} {slot slot' : Nat → α} (hsize : 0 < size)
    (h : ∀ k < size, slot' k = slot k) (index count : Nat) :
    contents size slot' index count = contents size slot index count :=
  List.map_congr_left fun _ _ => h _ (Nat.mod_lt _ hsize)

theorem contents_add (size : Nat) (slot : Nat → α) (index k l : Nat) :
    contents size slot index (k + l) =
      contents size slot index k ++ contents size slot (index + k) l := by
  simp only [contents, List.range_add, List.map_append, List.map_map]
  congr 1
  refine List.map_congr_left fun i _ => ?_
  rw [Function.comp_apply, Nat.add_assoc]

/-- Behind a push into a free slot the new entry is the last one. -/
theorem contents_push {size : Nat} (slot : Nat → α) (index : Nat) {count : Nat} (hcount : count < size)
    (a : α) :
    contents size (Function.update slot ((index + count) % size) a) index (count + 1) =
      contents size slot index count ++ [a] := by
  unfold contents
  rw [List.range_succ, List.map_append, List.map_singleton, Function.update_self]
  congr 1
  apply List.map_congr_left
  intro i hi
  have hlt : i < count := List.mem_range.1 hi
  rw [Function.update_of_ne]
  intro heq
  exact absurd (offset_inj (Nat.lt_trans hlt hcount) hcount heq) (Nat.ne_of_lt hlt)

/-- The oldest entry, and those behind a pop. -/
theorem contents_pop (size : Nat) (slot : Nat → α) (index count : Nat) :
    contents size slot index (count + 1) =
      slot (index % size) :: contents size slot ((index + 1) % size) count := by
  unfold contents
  rw [List.range_succ_eq_map, List.map_cons, List.map_map, Nat.add_zero]
  congr 1
  apply List.map_congr_left
  intro i _
  rw [Function.comp_apply, Nat.mod_add_mod, Nat.add_assoc, Nat.succ_eq_add_one, Nat.add_comm 1 i]

/-- A push into a full ring replaces the oldest entry. -/
theorem contents_push_full {size : Nat} (slot : Nat → α) {index : Nat} (hsize : 0 < size) (a : α) :
    contents size (Function.update slot ((index + size) % size) a) index size =
      a :: (contents size slot index size).tail := by
  obtain ⟨n, rfl⟩ : ∃ n, size = n + 1 := ⟨size - 1, (Nat.succ_pred_eq_of_pos hsize).symm⟩
  rw [contents_pop, contents_pop, List.tail_cons, Nat.add_mod_right, Function.update_self]
  congr 1
  unfold contents
  apply List.map_congr_left
  intro i hi
  rw [Function.update_of_ne]
  intro heq
  rw [Nat.mod_add_mod, Nat.add_assoc] at heq
  have hzero : 1 + i = 0 :=
    offset_inj (by have := List.mem_range.1 hi; omega) (Nat.succ_pos n) heq
  omega

end AzaharPlus.RingQueue
