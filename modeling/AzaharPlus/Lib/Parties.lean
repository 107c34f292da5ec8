import Mathlib.Data.List.Basic
import Mathlib.Logic.Function.Basic
import Mathlib.Tactic.Common

/-!
# Parties that follow one automaton each

A trace of events, each of which concerns one party, and an automaton that says what may happen
to a party next.  The states of all parties together advance with every event.

* `run_eq_some_iff` — a trace is accepted exactly if the events of each party, taken alone, are.
* `run_concat` — a trace with one more event.
-/

namespace AzaharPlus.Parties

variable {ι ε φ : Type*} [DecidableEq ι] (party : ε → ι) (next : φ → ε → Option φ)

/-- One event moves the party it concerns. -/
def advance (f : ι → φ) (e : ε) : Option (ι → φ) :=
  (next (f (party e)) e).map (Function.update f (party e))

/-- The states of the parties after a trace, if all of it was allowed. -/
def run (f : ι → φ) (trace : List ε) : Option (ι → φ) :=
  trace.foldlM (advance party next) f

/-- The events of one party. -/
def eventsOf (i : ι) (trace : List ε) : List ε :=
  trace.filter fun e => party e = i

theorem run_concat (f : ι → φ) (trace : List ε) (e : ε) :
    run party next f (trace ++ [e]) = (run party next f trace).bind (advance party next · e) := by
  rw [run, List.foldlM_append, ← run]
  cases run party next f trace <;> simp

variable {party next}

theorem advance_eq_some_iff {f g : ι → φ} {e : ε} :
    advance party next f e = some g ↔
      next (f (party e)) e = some (g (party e)) ∧ ∀ i, i ≠ party e → g i = f i := by
  constructor
  · intro h
    obtain ⟨x, hx, rfl⟩ := Option.map_eq_some_iff.mp h
    refine ⟨by simpa using hx, fun i hi => ?_⟩
    simp [hi]
  · rintro ⟨hnext, hother⟩
    refine Option.map_eq_some_iff.mpr ⟨_, hnext, funext fun i => ?_⟩
    by_cases hi : i = party e
    · subst hi
      simp
    · simp [hi, hother i hi]

/-- A trace is accepted exactly if the events of each party, taken alone, are. -/
theorem run_eq_some_iff {f g : ι → φ} {trace : List ε} :
    run party next f trace = some g ↔
      ∀ i, (eventsOf party i trace).foldlM next (f i) = some (g i) := by
  induction trace generalizing f with
  | nil => simp [run, eventsOf, funext_iff]
  | cons e trace ih =>
    have hcons : run party next f (e :: trace) =
        (advance party next f e).bind fun f' => run party next f' trace := rfl
    rw [hcons]
    constructor
    · intro h
      obtain ⟨f', hf', hrun⟩ := Option.bind_eq_some_iff.mp h
      obtain ⟨hnext, hother⟩ := advance_eq_some_iff.mp hf'
      intro i
      have hi := ih.mp hrun i
      by_cases he : party e = i
      · subst he
        simpa [eventsOf, hnext] using hi
      · rw [hother i (Ne.symm he)] at hi
        simpa [eventsOf, he] using hi
    · intro h
      have hparty := h (party e)
      simp only [eventsOf, List.filter_cons, decide_true, if_true, List.foldlM_cons] at hparty
      obtain ⟨x, hx, hrest⟩ := Option.bind_eq_some_iff.mp hparty
      refine Option.bind_eq_some_iff.mpr ⟨Function.update f (party e) x, ?_, ih.mpr fun i => ?_⟩
      · exact advance_eq_some_iff.mpr ⟨by simpa using hx, fun i hi => by simp [hi]⟩
      · by_cases he : i = party e
        · subst he
          simpa [eventsOf] using hrest
        · have hi := h i
          simp only [eventsOf, List.filter_cons, decide_eq_true_eq, Ne.symm he, if_false] at hi
          simpa [eventsOf, he] using hi

end AzaharPlus.Parties
