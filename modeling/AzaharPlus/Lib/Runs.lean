import Mathlib.Order.Basic
import Mathlib.Tactic.Common

/-!
# Maximal runs

A partial function on the natural numbers falls into runs of equal values.

* `IsRun.isMaximal` — a run that neither neighbour belongs to is as large as can be.
* `IsMaximalRun.next` — the run behind a maximal run begins where that ends, and has another value.
-/

namespace AzaharPlus.Runs

variable {κ : Type*} {f : Nat → Option κ} {a lo hi lo' hi' : Nat} {k k' : κ}

/-- All numbers from `lo` on and below `hi` have the value `k`. -/
def IsRun (f : Nat → Option κ) (lo hi : Nat) (k : κ) : Prop :=
  ∀ a, lo ≤ a → a < hi → f a = some k

/-- The largest run around `a`. -/
structure IsMaximalRun (f : Nat → Option κ) (a lo hi : Nat) (k : κ) : Prop where
  lo_le : lo ≤ a
  lt_hi : a < hi
  run : IsRun f lo hi k
  maximal : ∀ lo' hi' k', lo' ≤ a → a < hi' → IsRun f lo' hi' k' → lo ≤ lo' ∧ hi' ≤ hi

/-- A run is maximal if the numbers next to it have other values. -/
theorem IsRun.isMaximal (h : IsRun f lo hi k) (hlo : lo ≤ a) (hhi : a < hi)
    (hbelow : 0 < lo → f (lo - 1) ≠ some k) (hbehind : f hi ≠ some k) : IsMaximalRun f a lo hi k := by
  refine ⟨hlo, hhi, h, fun lo' hi' k' hlo' hhi' h' => ?_⟩
  obtain rfl : k' = k := Option.some.inj ((h' a hlo' hhi').symm.trans (h a hlo hhi))
  constructor
  · by_contra hlt
    exact hbelow (by omega) (h' (lo - 1) (by omega) (by omega))
  · by_contra hlt
    exact hbehind (h' hi (by omega) (by omega))

/-- Behind a maximal run there is another one. -/
theorem IsMaximalRun.next (h : IsMaximalRun f a lo hi k) (h' : IsMaximalRun f hi lo' hi' k') :
    lo' = hi ∧ k' ≠ k := by
  have hlo := h.lo_le
  have hhi := h.lt_hi
  have hlo' := h'.lo_le
  have hhi' := h'.lt_hi
  have hne : k' ≠ k := by
    rintro rfl
    -- otherwise the two runs were one
    have hboth : IsRun f lo hi' k' := by
      intro b h₁ h₂
      by_cases hb : b < hi
      · exact h.run b h₁ hb
      · exact h'.run b (by omega) h₂
    have hle := (h.maximal lo hi' k' hlo (by omega) hboth).2
    omega
  refine ⟨?_, hne⟩
  by_contra hlt
  have h₁ := h.run (hi - 1) (by omega) (by omega)
  have h₂ := h'.run (hi - 1) (by omega) (by omega)
  exact hne (Option.some.inj (h₂.symm.trans h₁))

end AzaharPlus.Runs
