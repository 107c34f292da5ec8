import Mathlib.Data.List.Basic

/-!
# Files as arrays

A file of the host is a list that can be read, overwritten and resized at any place; what
is put between its end and a write, or at its end by a resize, is a given value `zero`.

Nothing here looks at the values, so that a function on values can be applied before or
after (`map_read`, `map_write`, `map_resize`).
-/

namespace HostFile

variable {α β : Type}

/-- The file with `n` values. -/
def resize (zero : α) (file : List α) (n : Nat) : List α :=
  file.take n ++ List.replicate (n - file.length) zero

/-- At most `n` values from `pos` on. -/
def read (file : List α) (pos n : Nat) : List α := (file.drop pos).take n

/-- The file with `data` from `pos` on.  Without data nothing is changed, wherever `pos` is. -/
def write (zero : α) (file : List α) (pos : Nat) (data : List α) : List α :=
  if data.isEmpty then file
  else resize zero file pos ++ data ++ file.drop (pos + data.length)

@[simp] theorem length_resize (zero : α) (file : List α) (n : Nat) :
    (resize zero file n).length = n := by
  simp only [resize, List.length_append, List.length_take, List.length_replicate]
  omega

theorem getD_resize (zero : α) (file : List α) (n i : Nat) :
    (resize zero file n).getD i zero = if i < n then file.getD i zero else zero := by
  simp only [resize, List.getD_eq_getElem?_getD, List.getElem?_append, List.length_take,
    List.getElem?_take, List.getElem?_replicate]
  split
  · next h => rw [if_pos (by omega), if_pos (by omega)]
  · next h =>
      by_cases hi : i < n
      · rw [if_pos hi, List.getElem?_eq_none (by omega)]
        split <;> rfl
      · rw [if_neg hi]
        split <;> rfl

theorem length_write (zero : α) (file : List α) (pos : Nat) {data : List α} (h : data ≠ []) :
    (write zero file pos data).length = max file.length (pos + data.length) := by
  unfold write
  rw [if_neg (by rwa [List.isEmpty_iff])]
  simp only [List.length_append, length_resize, List.length_drop]
  omega

theorem getD_write (zero : α) (file : List α) (pos : Nat) (data : List α) (i : Nat) :
    (write zero file pos data).getD i zero =
      if pos ≤ i ∧ i < pos + data.length then data.getD (i - pos) zero else file.getD i zero := by
  unfold write
  by_cases hempty : data.isEmpty
  · rw [if_pos hempty, List.isEmpty_iff.mp hempty]
    rw [if_neg (by simp only [List.length_nil]; omega)]
  · rw [if_neg hempty]
    simp only [List.getD_eq_getElem?_getD, List.getElem?_append, List.length_append, length_resize,
      List.getElem?_drop]
    by_cases hlow : i < pos
    · rw [if_pos (by omega), if_pos hlow, if_neg (by omega), ← List.getD_eq_getElem?_getD, getD_resize,
        if_pos hlow, List.getD_eq_getElem?_getD]
    · by_cases hin : i < pos + data.length
      · rw [if_pos hin, if_neg hlow, if_pos ⟨by omega, hin⟩]
      · rw [if_neg hin, if_neg (by omega), show pos + data.length + (i - (pos + data.length)) = i by omega]

theorem map_resize (f : α → β) (zero : α) (file : List α) (n : Nat) :
    (resize zero file n).map f = resize (f zero) (file.map f) n := by
  simp [resize]

theorem map_read (f : α → β) (file : List α) (pos n : Nat) :
    (read file pos n).map f = read (file.map f) pos n := by
  simp [read]

theorem map_write (f : α → β) (zero : α) (file : List α) (pos : Nat) (data : List α) :
    (write zero file pos data).map f = write (f zero) (file.map f) pos (data.map f) := by
  unfold write
  by_cases h : data.isEmpty
  · simp [h]
  · simp [h, map_resize]

end HostFile
