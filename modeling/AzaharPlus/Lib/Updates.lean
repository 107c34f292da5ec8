import Mathlib.Data.Set.Basic

/-!
# Steps that write places

A step of a program may fail; `Writes inv observe places value f` says that from every state with
`inv` the step `f` does not fail, keeps `inv`, leaves `value k` at each place `k` of `places` and
leaves every other place alone.  States, places and what is seen of a place are arbitrary.

* `Writes.bind`, `Writes.foldlM`: a sequence and a loop write the places of their steps;
* `Writes.congr`: the places and values of a step, said in another way.
-/

namespace Updates

variable {σ ι κ α : Type} {inv : σ → Prop} {observe : κ → σ → α} {value : κ → α}

/-- The step succeeds, keeps the invariant, and writes just these places. -/
def Writes (inv : σ → Prop) (observe : κ → σ → α) (places : Set κ) (value : κ → α)
    (f : σ → Option σ) : Prop :=
  ∀ s, inv s → ∃ s', f s = some s' ∧ inv s' ∧ (∀ k ∈ places, observe k s' = value k) ∧
    ∀ k ∉ places, observe k s' = observe k s

/-- Doing nothing writes nothing. -/
theorem Writes.none : Writes inv observe ∅ value some := by
  intro s hs
  exact ⟨s, rfl, hs, fun k hk => absurd hk (Set.notMem_empty k), fun k _ => rfl⟩

/-- One step after the other. -/
theorem Writes.bind {A B : Set κ} {f g : σ → Option σ} (hf : Writes inv observe A value f)
    (hg : Writes inv observe B value g) : Writes inv observe (A ∪ B) value (fun s => f s >>= g) := by
  intro s hs
  obtain ⟨s₁, h₁, hs₁, hA, hA'⟩ := hf s hs
  obtain ⟨s₂, h₂, hs₂, hB, hB'⟩ := hg s₁ hs₁
  have hfg : (f s >>= g) = some s₂ := by
    rw [h₁]
    exact h₂
  refine ⟨s₂, hfg, hs₂, ?_, ?_⟩
  · intro k hk
    by_cases hkB : k ∈ B
    · exact hB k hkB
    · rw [hB' k hkB]
      apply hA
      exact hk.resolve_right hkB
  · intro k hk
    rw [hB' k fun h => hk (Or.inr h), hA' k fun h => hk (Or.inl h)]

/-- A loop writes what its turns write. -/
theorem Writes.foldlM {step : σ → ι → Option σ} {A : ι → Set κ} {l : List ι}
    (h : ∀ i ∈ l, Writes inv observe (A i) value fun s => step s i) :
    Writes inv observe {k | ∃ i ∈ l, k ∈ A i} value fun s => l.foldlM step s := by
  induction l with
  | nil =>
    have hempty : {k | ∃ i ∈ ([] : List ι), k ∈ A i} = (∅ : Set κ) := by
      ext k
      simp
    rw [hempty]
    exact Writes.none
  | cons i l ih =>
    have hcons : {k | ∃ j ∈ i :: l, k ∈ A j} = A i ∪ {k | ∃ j ∈ l, k ∈ A j} := by
      ext k
      simp
    rw [hcons]
    apply Writes.bind (h i (List.mem_cons_self ..))
    apply ih
    intro j hj
    exact h j (List.mem_cons_of_mem _ hj)

/-- The same places and values. -/
theorem Writes.congr {A B : Set κ} {value' : κ → α} {f : σ → Option σ}
    (h : Writes inv observe A value f) (hAB : ∀ k, k ∈ B ↔ k ∈ A) (hv : ∀ k ∈ B, value' k = value k) :
    Writes inv observe B value' f := by
  intro s hs
  obtain ⟨s', hf, hs', hA, hA'⟩ := h s hs
  refine ⟨s', hf, hs', ?_, ?_⟩
  · intro k hk
    rw [hv k hk]
    exact hA k ((hAB k).1 hk)
  · intro k hk
    exact hA' k fun hkA => hk ((hAB k).2 hkA)

end Updates
