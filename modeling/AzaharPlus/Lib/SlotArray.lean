import Mathlib.Data.List.Basic
import Mathlib.Data.List.GetD
import Mathlib.Data.List.TakeDrop

/-!
# Loops over an array of slots

Three loops that rewrite an array through an index that only moves forward: copying the
chosen entries of another array in (`foldl_putStep`), copying the chosen entries of the
array itself together (`foldl_compactStep`) and overwriting what is left (`fillFrom_eq`).
-/

namespace SlotArray

variable {α : Type}

/-- Write an entry at the index of the state if it is chosen, and move on. -/
def putStep (keep : α → Bool) (st : List α × Nat) (e : α) : List α × Nat :=
  if keep e then (st.1.set st.2 e, st.2 + 1) else st

/-- Copy the entry at `readIndex` to the index of the state if it is chosen, and move on. -/
def compactStep (keep : α → Bool) (zero : α) (st : List α × Nat) (readIndex : Nat) : List α × Nat :=
  if keep (st.1.getD readIndex zero) then
    (if st.2 ≠ readIndex then st.1.set st.2 (st.1.getD readIndex zero) else st.1, st.2 + 1)
  else st

/-- Overwrite the entries from `w` to `n`. -/
def fillFrom (zero : α) (arr : List α) (w n : Nat) : List α :=
  (List.range' w (n - w)).foldl (fun a i => a.set i zero) arr

theorem take_set_succ {arr : List α} {w : Nat} (e : α) (h : w < arr.length) :
    (arr.set w e).take (w + 1) = arr.take w ++ [e] := by
  rw [List.take_add_one, List.getElem?_set_self h, List.take_set_of_le (Nat.le_refl w)]
  rfl

theorem drop_set_succ {arr : List α} {w r : Nat} (e : α) (h : w < r) :
    (arr.set w e).drop r = arr.drop r := by
  rw [List.drop_set_of_lt h]

/-- The chosen entries stand in order from the index on. -/
theorem foldl_putStep (keep : α → Bool) (l arr : List α) (w : Nat)
    (h : w + (l.filter keep).length ≤ arr.length) :
    (l.foldl (putStep keep) (arr, w)).1 =
      arr.take w ++ l.filter keep ++ arr.drop (w + (l.filter keep).length) := by
  induction l generalizing arr w with
  | nil => simp
  | cons e l ih =>
    rw [List.foldl_cons]
    by_cases hk : keep e
    · have hstep : putStep keep (arr, w) e = (arr.set w e, w + 1) := if_pos hk
      rw [hstep, List.filter_cons_of_pos hk]
      rw [List.filter_cons_of_pos hk, List.length_cons] at h
      rw [ih _ _ (by rw [List.length_set]; omega), take_set_succ e (by omega),
        drop_set_succ e (by omega), List.length_cons]
      simp only [List.append_assoc, List.cons_append, List.nil_append]
      congr 4
      omega
    · have hstep : putStep keep (arr, w) e = (arr, w) := if_neg hk
      rw [hstep, List.filter_cons_of_neg hk]
      rw [List.filter_cons_of_neg hk] at h
      exact ih arr w h

/-- The state of the compacting loop before entry `r` is looked at: the chosen entries so
far stand at the front, and the entries from `r` on are untouched. -/
structure Compacted (keep : α → Bool) (arr : List α) (r : Nat) (st : List α × Nat) : Prop where
  length_eq : st.1.length = arr.length
  index_eq : st.2 = ((arr.take r).filter keep).length
  front : st.1.take st.2 = (arr.take r).filter keep
  rest : st.1.drop r = arr.drop r

theorem Compacted.index_le {keep : α → Bool} {arr : List α} {r : Nat} {st : List α × Nat}
    (h : Compacted keep arr r st) : st.2 ≤ r := by
  rw [h.index_eq]
  calc ((arr.take r).filter keep).length
      ≤ (arr.take r).length := List.length_filter_le _ _
    _ ≤ r := List.length_take_le r arr

theorem Compacted.step {keep : α → Bool} {zero : α} {arr : List α} {r : Nat} {st : List α × Nat}
    (h : Compacted keep arr r st) (hr : r < arr.length) :
    Compacted keep arr (r + 1) (compactStep keep zero st r) := by
  have hr' : r < st.1.length := by rw [h.length_eq]; exact hr
  have hget : st.1[r] = arr[r] := by
    have h₀ := congrArg List.head? h.rest
    rw [List.head?_drop, List.head?_drop, List.getElem?_eq_getElem hr',
      List.getElem?_eq_getElem hr] at h₀
    exact Option.some.inj h₀
  have hgetD : st.1.getD r zero = arr[r] := by rw [List.getD_eq_getElem _ _ hr', hget]
  have hrest : st.1.drop (r + 1) = arr.drop (r + 1) := by
    rw [← List.drop_drop, ← List.drop_drop, h.rest]
  have htake : arr.take (r + 1) = arr.take r ++ [arr[r]] := by
    rw [List.take_add_one, List.getElem?_eq_getElem hr]
    rfl
  have hle := h.index_le
  unfold compactStep
  rw [hgetD]
  by_cases hk : keep arr[r]
  · -- the copy that the loop leaves out when both indices agree would change nothing
    have hset : (if st.2 ≠ r then st.1.set st.2 arr[r] else st.1) = st.1.set st.2 arr[r] := by
      by_cases hw : st.2 = r
      · rw [if_neg (not_not.2 hw), hw, ← hget, List.set_getElem_self]
      · rw [if_pos hw]
    have hf : (arr.take (r + 1)).filter keep = (arr.take r).filter keep ++ [arr[r]] := by
      rw [htake, List.filter_append, List.filter_cons_of_pos hk, List.filter_nil]
    rw [if_pos hk, hset]
    refine ⟨?_, ?_, ?_, ?_⟩
    · rw [List.length_set, h.length_eq]
    · rw [hf, List.length_append, ← h.index_eq]
      rfl
    · rw [take_set_succ _ (by omega), h.front, hf]
    · rw [drop_set_succ _ (by omega), hrest]
  · have hf : (arr.take (r + 1)).filter keep = (arr.take r).filter keep := by
      rw [htake, List.filter_append, List.filter_cons_of_neg hk, List.filter_nil, List.append_nil]
    rw [if_neg hk]
    exact ⟨h.length_eq, by rw [hf]; exact h.index_eq, by rw [hf]; exact h.front, hrest⟩

/-- The compacting loop brings the chosen entries to the front, in order. -/
theorem foldl_compactStep (keep : α → Bool) (zero : α) (arr : List α) {r : Nat}
    (hr : r ≤ arr.length) :
    Compacted keep arr r ((List.range r).foldl (compactStep keep zero) (arr, 0)) := by
  induction r with
  | zero => exact ⟨rfl, by simp, by simp, rfl⟩
  | succ r ih =>
    rw [List.range_succ, List.foldl_append]
    exact (ih (by omega)).step (by omega)

theorem fillFrom_eq (zero : α) {arr : List α} {w n : Nat} (hn : arr.length = n) (h : w ≤ n) :
    fillFrom zero arr w n = arr.take w ++ List.replicate (n - w) zero := by
  unfold fillFrom
  obtain ⟨k, hk⟩ : ∃ k, n - w = k := ⟨_, rfl⟩
  rw [hk]
  induction k generalizing arr w with
  | zero =>
    rw [List.take_of_length_le (by omega)]
    simp
  | succ k ih =>
    have hlen : (arr.set w zero).length = n := by rw [List.length_set, hn]
    rw [List.range'_succ, List.foldl_cons, ih hlen (by omega) (by omega),
      take_set_succ _ (by omega), List.replicate_succ, List.append_assoc]
    rfl

end SlotArray
