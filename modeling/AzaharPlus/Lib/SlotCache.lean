import Mathlib.Logic.Function.Basic

/-!
# Caches with slots that are replaced in turn

A number of slots keep values beside their keys; a new value takes the place of the oldest one.

* `SlotCache.Sound` — every slot in use holds the value of its key.
* `SlotCache.Sound.lookup`, `SlotCache.Sound.insert` — what is found is the value of the key, and
  storing such a value keeps the cache sound.
-/

namespace AzaharPlus

/-- Slots with keys and values, and the slot that is replaced next. -/
structure SlotCache (κ α : Type) where
  valid : Nat → Bool
  ids : Nat → κ
  values : Nat → α
  pos : Nat

namespace SlotCache

variable {κ α : Type} [DecidableEq κ]

/-- The first of the slots that holds a key. -/
def lookup (size : Nat) (c : SlotCache κ α) (id : κ) : Option α :=
  ((List.range size).find? fun i => c.valid i && decide (id = c.ids i)).map c.values

omit [DecidableEq κ] in
/-- The next slot takes a key and its value. -/
def insert (size : Nat) (c : SlotCache κ α) (id : κ) (value : α) : SlotCache κ α where
  valid := Function.update c.valid c.pos true
  ids := Function.update c.ids c.pos id
  values := Function.update c.values c.pos value
  pos := (c.pos + 1) % size

/-- Every slot in use holds the value of its key. -/
def Sound (f : κ → α) (c : SlotCache κ α) : Prop := ∀ i, c.valid i = true → c.values i = f (c.ids i)

variable {f : κ → α} {c : SlotCache κ α}

omit [DecidableEq κ] in
theorem sound_of_unused (h : ∀ i, c.valid i = false) : c.Sound f := by
  intro i hi
  rw [h i] at hi
  cases hi

theorem Sound.lookup (h : c.Sound f) {size : Nat} {id : κ} {value : α}
    (hfound : c.lookup size id = some value) : value = f id := by
  obtain ⟨i, hi, rfl⟩ := Option.map_eq_some_iff.1 hfound
  have hslot := List.find?_some hi
  rw [Bool.and_eq_true, decide_eq_true_eq] at hslot
  rw [h i hslot.1, hslot.2]

omit [DecidableEq κ] in
theorem Sound.insert (h : c.Sound f) (size : Nat) (id : κ) :
    (c.insert size id (f id)).Sound f := by
  intro i hi
  by_cases hpos : i = c.pos
  · subst hpos
    simp [SlotCache.insert]
  · simp only [SlotCache.insert, Function.update_of_ne hpos] at hi ⊢
    exact h i hi

end SlotCache

end AzaharPlus
