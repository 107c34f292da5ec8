import AzaharPlus.Audio.Signal
import Mathlib.Algebra.Order.Ring.Int
import Mathlib.Data.List.GetD
import Mathlib.Logic.Function.Iterate

/-!
# Resampling in pieces

`StepOverSamples` of `audio_core/interpolate.cpp` is given the input buffer by buffer and fills the
output frame by frame.  The positions in the whole input are `u64` numbers that wrap; as long as that
never takes the resampler back to an earlier sample, it does not matter how the input and the output
are cut.

* `emit_append`, `emit_drop` — the output from a part of the input, and from the rest.
* `fillFrames_eq` — buffers and frames of any sizes give the output of one call.
* `independent_iff` — they do exactly when no step goes back.
* `linear_exact` — linear interpolation gives a point between two samples, without a wrap.
-/

namespace AzaharPlus.Audio

/-! ## The calls -/

/-- `StepOverSamples` with room for some samples: the state, the rest of the input and the samples put
out. -/
def stepOver (fn : Interpolation) (stepSize : Nat) (state : InterpState) (input : List Sample)
    (room : Nat) : InterpState × List Sample × List Sample :=
  if input.isEmpty then (state, input, [])
  else
    let input := state.xn2 :: state.xn1 :: input
    let (inputi, fposition, output) := stepLoop fn input stepSize room 0 state.fposition []
    let sample (i : Nat) : Sample := input.getD i ⟨0, 0⟩
    (⟨sample (inputi + 1), sample inputi, (fposition + 2 ^ 64 - inputi * scaleFactor) % 2 ^ 64⟩,
      input.drop (inputi + 2), output)

/-- The loop of `GenerateFrame` for a frame with some room, the buffers that are dequeued given: what
is left of the current buffer is kept.  A call on an empty buffer does nothing. -/
def fill (fn : Interpolation) (stepSize : Nat) :
    List (List Sample) → InterpState → List Sample → Nat →
      InterpState × List Sample × List (List Sample) × List Sample
  | buffers, state, current, room =>
      let (state, current, output) :=
        if room = 0 then (state, current, []) else stepOver fn stepSize state current room
      if output.length = room then (state, current, buffers, output)
      else
        match buffers with
        | [] => (state, current, [], output)
        | buffer :: buffers =>
            let (state, current, buffers, rest) :=
              fill fn stepSize buffers state buffer (room - output.length)
            (state, current, buffers, output ++ rest)

/-- The samples put out in a sequence of frames. -/
def fillFrames (fn : Interpolation) (stepSize : Nat) :
    List Nat → List (List Sample) → InterpState → List Sample → List Sample
  | [], _, _, _ => []
  | room :: rooms, buffers, state, current =>
      let (state, current, buffers, output) := fill fn stepSize buffers state current room
      output ++ fillFrames fn stepSize rooms buffers state current

/-! ## The output of an input -/

theorem scaleFactor_pos : 0 < scaleFactor := by decide

/-- The position behind a step. -/
def step (stepSize p : Nat) : Nat := (p + stepSize) % 2 ^ 64

/-- The three samples at a position are there. -/
def Inside (length p : Nat) : Prop := p / scaleFactor + 2 < length

instance (length p : Nat) : Decidable (Inside length p) := inferInstanceAs (Decidable (_ < _))

/-- The output at a position. -/
def outputAt (fn : Interpolation) (x : List Sample) (p : Nat) : Sample :=
  fn (p % scaleFactor) (x.getD (p / scaleFactor) ⟨0, 0⟩) (x.getD (p / scaleFactor + 1) ⟨0, 0⟩)
    (x.getD (p / scaleFactor + 2) ⟨0, 0⟩)

/-- The outputs from a position on, up to the end of the input or of the room. -/
def emit (fn : Interpolation) (stepSize : Nat) (x : List Sample) : Nat → Nat → List Sample
  | 0, _ => []
  | room + 1, p =>
      if Inside x.length p then outputAt fn x p :: emit fn stepSize x room (step stepSize p) else []

/-- No step from a position inside of the input to another goes back to an earlier sample. -/
def Forward (stepSize length p : Nat) : Prop :=
  ∀ k, (∀ j ≤ k + 1, Inside length ((step stepSize)^[j] p)) →
    (step stepSize)^[k] p / scaleFactor ≤ (step stepSize)^[k + 1] p / scaleFactor

section

variable {fn : Interpolation} {stepSize : Nat}

theorem length_emit_le (x : List Sample) (room p : Nat) :
    (emit fn stepSize x room p).length ≤ room := by
  induction room generalizing p with
  | zero => exact Nat.le_refl 0
  | succ room ih =>
    rw [emit]
    split
    · exact Nat.succ_le_succ (ih _)
    · exact Nat.zero_le _

/-- The positions of the outputs are inside of the input. -/
theorem inside_of_lt_length_emit {x : List Sample} {room p j : Nat}
    (hj : j < (emit fn stepSize x room p).length) : Inside x.length ((step stepSize)^[j] p) := by
  induction room generalizing p j with
  | zero => exact absurd hj (Nat.not_lt_zero j)
  | succ room ih =>
    rw [emit] at hj
    split at hj
    · next hinside =>
        cases j with
        | zero => exact hinside
        | succ j =>
          rw [List.length_cons] at hj
          exact ih (p := step stepSize p) (Nat.lt_of_succ_lt_succ hj)
    · exact absurd hj (Nat.not_lt_zero j)

/-- What the loop of `StepOverSamples` leaves: the outputs, the position behind them, and the index of
the last output or, at the end of the input, of the two samples that are kept. -/
theorem stepLoop_spec (x : List Sample) (room inputi p : Nat) (output : List Sample) :
    ∃ last, stepLoop fn x stepSize room inputi p output =
        (last, (step stepSize)^[(emit fn stepSize x room p).length] p,
          output ++ emit fn stepSize x room p) ∧
      ((emit fn stepSize x room p).length = room ∧
          last = (if room = 0 then inputi else (step stepSize)^[room - 1] p / scaleFactor) ∨
        (emit fn stepSize x room p).length < room ∧ last = x.length - 2 ∧
          ¬ Inside x.length ((step stepSize)^[(emit fn stepSize x room p).length] p)) := by
  induction room generalizing inputi p output with
  | zero => exact ⟨inputi, by simp [stepLoop, emit], Or.inl ⟨rfl, rfl⟩⟩
  | succ room ih =>
    by_cases hinside : Inside x.length p
    · have hmore : ¬ p / scaleFactor + 2 ≥ x.length := Nat.not_le_of_gt hinside
      obtain ⟨last, hloop, hlast⟩ := ih (p / scaleFactor) (step stepSize p)
        (output ++ [outputAt fn x p])
      rw [stepLoop, if_neg hmore, emit, if_pos hinside, List.length_cons]
      refine ⟨last, ?_, ?_⟩
      · rw [Function.iterate_succ_apply, ← List.singleton_append, ← List.append_assoc]
        exact hloop
      · rw [Function.iterate_succ_apply]
        rcases hlast with ⟨hfull, heq⟩ | ⟨hshort, heq, hout⟩
        · refine Or.inl ⟨by rw [hfull], ?_⟩
          rw [heq, if_neg (Nat.succ_ne_zero room), Nat.add_sub_cancel]
          cases room with
          | zero => rfl
          | succ room =>
            rw [if_neg (Nat.succ_ne_zero room), Nat.add_sub_cancel,
              ← Function.iterate_succ_apply]
        · exact Or.inr ⟨Nat.succ_lt_succ hshort, heq, hout⟩
    · have hend : p / scaleFactor + 2 ≥ x.length := Nat.le_of_not_lt hinside
      rw [stepLoop, if_pos hend, emit, if_neg hinside]
      exact ⟨x.length - 2, by simp, Or.inr ⟨Nat.succ_pos room, rfl, hinside⟩⟩

/-! ## A part of the input, and the rest -/

/-- The outputs from the first part of an input are those from the whole, and the rest of the room is
left for the outputs behind them. -/
theorem emit_append (x y : List Sample) (room more p : Nat) :
    emit fn stepSize (x ++ y) (room + more) p =
      emit fn stepSize x room p ++
        emit fn stepSize (x ++ y) (room - (emit fn stepSize x room p).length + more)
          ((step stepSize)^[(emit fn stepSize x room p).length] p) := by
  induction room generalizing p with
  | zero => simp [emit]
  | succ room ih =>
    by_cases hinside : Inside x.length p
    · have hwhole : Inside (x ++ y).length p := by
        unfold Inside at hinside ⊢
        rw [List.length_append]
        omega
      have hout : outputAt fn (x ++ y) p = outputAt fn x p := by
        unfold Inside at hinside
        unfold outputAt
        rw [List.getD_append _ _ _ _ (by omega), List.getD_append _ _ _ _ (by omega),
          List.getD_append _ _ _ _ hinside]
      rw [Nat.add_right_comm, emit, if_pos hwhole, emit, if_pos hinside, hout, List.length_cons,
        Nat.succ_sub_succ, Function.iterate_succ_apply, List.cons_append, ← ih]
    · rw [emit, if_neg hinside]
      simp

/-- A step from inside of the input keeps behind the samples it is behind, counted from them too. -/
theorem step_sub (hstep : stepSize < 2 ^ 64) {length p c : Nat}
    (hinside : Inside length p) (hforward : Forward stepSize length p) (hc : c * scaleFactor ≤ p) :
    c * scaleFactor ≤ step stepSize p ∧
      step stepSize (p - c * scaleFactor) = step stepSize p - c * scaleFactor := by
  have hbehind : c * scaleFactor ≤ step stepSize p := by
    by_cases hnext : Inside length (step stepSize p)
    · have hle : p / scaleFactor ≤ step stepSize p / scaleFactor := by
        refine hforward 0 fun j hj => ?_
        rcases Nat.le_one_iff_eq_zero_or_eq_one.1 hj with rfl | rfl
        · exact hinside
        · exact hnext
      have hdiv : c ≤ step stepSize p / scaleFactor :=
        Nat.le_trans ((Nat.le_div_iff_mul_le scaleFactor_pos).2 hc) hle
      exact (Nat.le_div_iff_mul_le scaleFactor_pos).1 hdiv
    · -- a step that wraps stays inside
      have hnowrap : p + stepSize < 2 ^ 64 := by
        by_contra hwrap
        apply hnext
        have hle : step stepSize p ≤ p := by
          unfold step
          omega
        exact Nat.lt_of_le_of_lt (Nat.add_le_add_right (Nat.div_le_div_right hle) 2) hinside
      unfold step
      omega
  refine ⟨hbehind, ?_⟩
  unfold step at hbehind ⊢
  omega

theorem step_lt (stepSize p : Nat) : step stepSize p < 2 ^ 64 := Nat.mod_lt _ (by decide)

theorem iterate_step_lt {p : Nat} (hp : p < 2 ^ 64) (k : Nat) : (step stepSize)^[k] p < 2 ^ 64 := by
  cases k with
  | zero => exact hp
  | succ k =>
    rw [Function.iterate_succ_apply']
    exact step_lt _ _

theorem Forward.next {length p : Nat} (h : Forward stepSize length p) (hinside : Inside length p) :
    Forward stepSize length (step stepSize p) := by
  intro k hk
  rw [← Function.iterate_succ_apply, ← Function.iterate_succ_apply]
  refine h (k + 1) fun j hj => ?_
  cases j with
  | zero => exact hinside
  | succ j =>
    rw [Function.iterate_succ_apply]
    exact hk j (by omega)

theorem Forward.iterate {length p k : Nat} (h : Forward stepSize length p)
    (hinside : ∀ j < k, Inside length ((step stepSize)^[j] p)) :
    Forward stepSize length ((step stepSize)^[k] p) := by
  induction k with
  | zero => exact h
  | succ k ih =>
    rw [Function.iterate_succ_apply']
    exact (ih fun j hj => hinside j (by omega)).next (hinside k (by omega))

/-- The sample and the fraction of a position counted from a sample on. -/
theorem sub_mul_scale (scale : Nat) (hscale : 0 < scale) {p c : Nat} (hc : c * scale ≤ p) :
    c + (p - c * scale) / scale = p / scale ∧ (p - c * scale) % scale = p % scale := by
  have hdiv : c ≤ p / scale := (Nat.le_div_iff_mul_le hscale).2 hc
  rw [Nat.mul_comm] at hc
  rw [Nat.mul_comm c, Nat.sub_mul_div, Nat.sub_mul_mod hc]
  exact ⟨Nat.add_sub_of_le hdiv, rfl⟩

theorem index_sub {p c : Nat} (hc : c * scaleFactor ≤ p) :
    c + (p - c * scaleFactor) / scaleFactor = p / scaleFactor :=
  (sub_mul_scale scaleFactor scaleFactor_pos hc).1

theorem inside_sub {length p c : Nat} (hc : c * scaleFactor ≤ p) :
    Inside (length - c) (p - c * scaleFactor) ↔ Inside length p := by
  unfold Inside
  rw [← index_sub hc, Nat.add_assoc, Nat.lt_sub_iff_add_lt']

/-- Positions counted from a sample on. -/
theorem iterate_step_sub (hstep : stepSize < 2 ^ 64) {length p c : Nat}
    (hforward : Forward stepSize length p) (hc : c * scaleFactor ≤ p) {k : Nat}
    (hinside : ∀ j < k, Inside length ((step stepSize)^[j] p)) :
    c * scaleFactor ≤ (step stepSize)^[k] p ∧
      (step stepSize)^[k] (p - c * scaleFactor) = (step stepSize)^[k] p - c * scaleFactor := by
  induction k with
  | zero =>
    rw [Function.iterate_zero_apply, Function.iterate_zero_apply]
    exact ⟨hc, rfl⟩
  | succ k ih =>
    have hbefore := fun j (hj : j < k) => hinside j (Nat.lt_succ_of_lt hj)
    obtain ⟨hle, heq⟩ := ih hbefore
    rw [Function.iterate_succ_apply', Function.iterate_succ_apply', heq]
    exact step_sub hstep (hinside k k.lt_succ_self) (hforward.iterate hbefore) hle

theorem Forward.drop (hstep : stepSize < 2 ^ 64) {length p c : Nat}
    (h : Forward stepSize length p) (hc : c * scaleFactor ≤ p) :
    Forward stepSize (length - c) (p - c * scaleFactor) := by
  intro k hk
  have hinside : ∀ j ≤ k + 1, Inside length ((step stepSize)^[j] p) := by
    intro j
    induction j using Nat.strongRecOn with
    | _ j ih =>
      intro hj
      obtain ⟨hle, heq⟩ := iterate_step_sub hstep h hc fun i hi => ih i hi (by omega)
      have hrest := hk j hj
      rw [heq] at hrest
      exact (inside_sub hle).1 hrest
  have hindex : ∀ j ≤ k + 1, c + (step stepSize)^[j] (p - c * scaleFactor) / scaleFactor =
      (step stepSize)^[j] p / scaleFactor := by
    intro j hj
    obtain ⟨hle, heq⟩ := iterate_step_sub hstep h hc fun i hi =>
      hinside i (Nat.le_of_lt (Nat.lt_of_lt_of_le hi hj))
    rw [heq]
    exact index_sub hle
  have hle := h k hinside
  rw [← hindex k (by omega), ← hindex (k + 1) (Nat.le_refl _)] at hle
  exact Nat.le_of_add_le_add_left hle

/-- The outputs of the rest of an input, the positions counted from there. -/
theorem emit_drop (hstep : stepSize < 2 ^ 64) {x : List Sample} {p c : Nat}
    (hforward : Forward stepSize x.length p) (hc : c * scaleFactor ≤ p) (room : Nat) :
    emit fn stepSize (x.drop c) room (p - c * scaleFactor) = emit fn stepSize x room p := by
  induction room generalizing p with
  | zero => rw [emit, emit]
  | succ room ih =>
    have hlength : (x.drop c).length = x.length - c := List.length_drop
    by_cases hinside : Inside x.length p
    · have hrest : Inside (x.drop c).length (p - c * scaleFactor) := by
        rw [hlength]
        exact (inside_sub hc).2 hinside
      have hindex := index_sub hc
      have hfraction := (sub_mul_scale scaleFactor scaleFactor_pos hc).2
      have hget : ∀ i, (x.drop c).getD i ⟨0, 0⟩ = x.getD (c + i) ⟨0, 0⟩ := by
        intro i
        simp only [List.getD_eq_getElem?_getD, List.getElem?_drop]
      have hout : outputAt fn (x.drop c) (p - c * scaleFactor) = outputAt fn x p := by
        unfold outputAt
        rw [hfraction, hget, hget, hget, ← Nat.add_assoc, ← Nat.add_assoc, hindex]
      obtain ⟨hnext, hstepSub⟩ := step_sub hstep hinside hforward hc
      rw [emit, if_pos hrest, emit, if_pos hinside, hout, hstepSub,
        ih (hforward.next hinside) hnext]
    · have hrest : ¬ Inside (x.drop c).length (p - c * scaleFactor) := by
        rw [hlength]
        exact fun h => hinside ((inside_sub hc).1 h)
      rw [emit, if_neg hrest, emit, if_neg hinside]

/-! ## One call -/

/-- Behind samples that were read, a position does not wrap. -/
theorem sub_of_le {p b : Nat} (hp : p < 2 ^ 64) (hb : b ≤ p) : (p + 2 ^ 64 - b) % 2 ^ 64 = p - b := by
  omega

/-- Two samples of a list and those behind them. -/
theorem drop_eq_cons_cons {x : List Sample} {i : Nat} (hi : i + 2 ≤ x.length) :
    x.drop i = x.getD i ⟨0, 0⟩ :: x.getD (i + 1) ⟨0, 0⟩ :: x.drop (i + 2) := by
  rw [List.drop_eq_getElem_cons (show i < x.length by omega),
    List.drop_eq_getElem_cons (show i + 1 < x.length by omega),
    List.getD_eq_getElem _ _ (by omega), List.getD_eq_getElem _ _ (by omega)]

/-- The samples before a position and the input behind them. -/
def stream (state : InterpState) (input : List Sample) : List Sample :=
  state.xn2 :: state.xn1 :: input

/-- A call puts out what its buffer gives, and leaves the rest of the whole input. -/
theorem stepOver_spec (hstep : stepSize < 2 ^ 64) {state : InterpState}
    (hposition : state.fposition < 2 ^ 64) (current tail : List Sample)
    (hforward : Forward stepSize (stream state (current ++ tail)).length state.fposition)
    {room : Nat} (hroom : 0 < room) {state' : InterpState} {rest output : List Sample}
    (hcall : stepOver fn stepSize state current room = (state', rest, output)) :
    output.length ≤ room ∧ (output.length < room → rest = []) ∧ state'.fposition < 2 ^ 64 ∧
      Forward stepSize (stream state' (rest ++ tail)).length state'.fposition ∧
      ∀ more, emit fn stepSize (stream state (current ++ tail)) (room + more) state.fposition =
        output ++ emit fn stepSize (stream state' (rest ++ tail)) (room - output.length + more)
          state'.fposition := by
  obtain ⟨x, hx⟩ : ∃ x, x = stream state current := ⟨_, rfl⟩
  have hwhole : stream state (current ++ tail) = x ++ tail := by rw [hx]; rfl
  rw [hwhole] at hforward
  by_cases hempty : current = []
  · -- nothing to read
    have hnone : (state', rest, output) = (state, [], []) := by
      rw [← hcall, hempty]
      rfl
    cases hnone
    subst hempty
    rw [List.nil_append] at hwhole ⊢
    rw [hwhole]
    exact ⟨Nat.zero_le _, fun _ => rfl, hposition, hforward, fun more => rfl⟩
  · obtain ⟨last, hloop, hlast⟩ := @stepLoop_spec fn stepSize x room 0 state.fposition []
    obtain ⟨n, hn⟩ : ∃ n, n = (emit fn stepSize x room state.fposition).length := ⟨_, rfl⟩
    rw [← hn] at hloop hlast
    have hlength : 3 ≤ x.length := by
      have hpos := List.length_pos_iff.2 hempty
      rw [hx, stream, List.length_cons, List.length_cons]
      omega
    have hwithin : ∀ {q}, Inside x.length q → Inside (x ++ tail).length q := by
      intro q hq
      refine Nat.lt_of_lt_of_le hq ?_
      rw [List.length_append]
      exact Nat.le_add_right _ _
    have hinside : ∀ j < n, Inside (x ++ tail).length ((step stepSize)^[j] state.fposition) :=
      fun j hj => hwithin (inside_of_lt_length_emit (hn ▸ hj))
    have hnext := hforward.iterate hinside
    have hlt := @iterate_step_lt stepSize _ hposition n
    have hshape : last * scaleFactor ≤ (step stepSize)^[n] state.fposition ∧ last + 2 ≤ x.length ∧
        (n < room → last + 2 = x.length) := by
      rcases hlast with ⟨hfull, heq⟩ | ⟨hshort, heq, hout⟩
      · have hlastInside : Inside x.length ((step stepSize)^[room - 1] state.fposition) :=
          inside_of_lt_length_emit (by rw [← hn, hfull]; exact Nat.sub_lt hroom Nat.one_pos)
        have hprev : ∀ j < room - 1,
            Inside (x ++ tail).length ((step stepSize)^[j] state.fposition) :=
          fun j hj => hinside j (by rw [hfull]; exact Nat.lt_of_lt_of_le hj (Nat.sub_le _ _))
        rw [if_neg (Nat.pos_iff_ne_zero.1 hroom)] at heq
        have hle : last * scaleFactor ≤ (step stepSize)^[room - 1] state.fposition := by
          rw [heq]
          exact Nat.div_mul_le_self _ _
        have hstepped := (step_sub hstep (hwithin hlastInside) (hforward.iterate hprev) hle).1
        rw [← Function.iterate_succ_apply' (step stepSize), Nat.succ_eq_add_one,
          Nat.sub_add_cancel hroom, ← hfull] at hstepped
        refine ⟨hstepped, ?_, fun h => absurd hfull (Nat.ne_of_lt h)⟩
        rw [heq]
        exact Nat.le_of_lt hlastInside
      · have hreach : last ≤ (step stepSize)^[n] state.fposition / scaleFactor := by
          have hend := Nat.le_of_not_lt hout
          rw [heq]
          exact Nat.sub_le_of_le_add hend
        exact ⟨(Nat.le_div_iff_mul_le scaleFactor_pos).1 hreach, by omega, fun _ => by omega⟩
    obtain ⟨hbehind, hkept, hend⟩ := hshape
    -- what the call returns
    have hresult : (state', rest, output) =
        (⟨x.getD (last + 1) ⟨0, 0⟩, x.getD last ⟨0, 0⟩,
          (step stepSize)^[n] state.fposition - last * scaleFactor⟩, x.drop (last + 2),
          emit fn stepSize x room state.fposition) := by
      have hisEmpty : current.isEmpty = false := by
        cases current with
        | nil => exact absurd rfl hempty
        | cons => rfl
      rw [← hcall, ← sub_of_le hlt hbehind]
      unfold stepOver
      rw [if_neg (by rw [hisEmpty]; decide)]
      have hstream : state.xn2 :: state.xn1 :: current = x := hx.symm
      simp only [hstream, hloop, List.nil_append]
    cases hresult
    have hrest : stream ⟨x.getD (last + 1) ⟨0, 0⟩, x.getD last ⟨0, 0⟩,
        (step stepSize)^[n] state.fposition - last * scaleFactor⟩ (x.drop (last + 2) ++ tail) =
          (x ++ tail).drop last := by
      rw [List.drop_append_of_le_length (by omega), drop_eq_cons_cons hkept]
      rfl
    rw [hrest, hwhole]
    refine ⟨length_emit_le _ _ _, fun hshort => ?_, Nat.lt_of_le_of_lt (Nat.sub_le _ _) hlt, ?_,
      fun more => ?_⟩
    · rw [hend (hn ▸ hshort), List.drop_length]
    · rw [List.length_drop]
      exact hnext.drop hstep hbehind
    · rw [emit_append, ← hn, emit_drop hstep hnext hbehind]

/-! ## Frames -/

/-- Without input nothing is put out. -/
theorem emit_stream_nil (state : InterpState) (room p : Nat) :
    emit fn stepSize (stream state []) room p = [] := by
  cases room with
  | zero => rfl
  | succ room =>
    rw [emit, if_neg]
    exact Nat.not_lt.2 (Nat.le_add_left _ _)

/-- The call at a turn of the loop; a full frame makes none. -/
theorem call_spec (hstep : stepSize < 2 ^ 64) {state : InterpState}
    (hposition : state.fposition < 2 ^ 64) (current tail : List Sample)
    (hforward : Forward stepSize (stream state (current ++ tail)).length state.fposition)
    {room : Nat} {state' : InterpState} {rest output : List Sample}
    (hcall : (if room = 0 then (state, current, []) else stepOver fn stepSize state current room) =
      (state', rest, output)) :
    output.length ≤ room ∧ (output.length < room → rest = []) ∧ state'.fposition < 2 ^ 64 ∧
      Forward stepSize (stream state' (rest ++ tail)).length state'.fposition ∧
      ∀ more, emit fn stepSize (stream state (current ++ tail)) (room + more) state.fposition =
        output ++ emit fn stepSize (stream state' (rest ++ tail)) (room - output.length + more)
          state'.fposition := by
  by_cases hroom : room = 0
  · rw [if_pos hroom] at hcall
    cases hcall
    refine ⟨Nat.zero_le _, fun h => absurd h (by rw [hroom]; exact Nat.not_lt_zero _), hposition,
      hforward, fun more => ?_⟩
    rw [hroom, List.nil_append, List.length_nil]
  · rw [if_neg hroom] at hcall
    exact stepOver_spec hstep hposition current tail hforward (Nat.pos_of_ne_zero hroom) hcall

/-- A frame puts out what the whole input gives, and leaves the rest of it. -/
theorem fill_spec (hstep : stepSize < 2 ^ 64) (buffers : List (List Sample)) {state : InterpState}
    (hposition : state.fposition < 2 ^ 64) (current : List Sample) (room : Nat)
    (hforward : Forward stepSize (stream state (current ++ buffers.flatten)).length state.fposition)
    {state' : InterpState} {rest output : List Sample} {buffers' : List (List Sample)}
    (hfill : fill fn stepSize buffers state current room = (state', rest, buffers', output)) :
    state'.fposition < 2 ^ 64 ∧
      Forward stepSize (stream state' (rest ++ buffers'.flatten)).length state'.fposition ∧
      ∀ more, emit fn stepSize (stream state (current ++ buffers.flatten)) (room + more)
          state.fposition =
        output ++ emit fn stepSize (stream state' (rest ++ buffers'.flatten)) more
          state'.fposition := by
  induction buffers generalizing state current room state' rest buffers' output with
  | nil =>
    obtain ⟨⟨state₁, rest₁, output₁⟩, hcall⟩ : ∃ r, (if room = 0 then (state, current, [])
      else stepOver fn stepSize state current room) = r := ⟨_, rfl⟩
    obtain ⟨hle, hempty, hlt, hnext, houtput⟩ :=
      call_spec hstep hposition current [].flatten hforward hcall
    rw [fill] at hfill
    simp only [hcall] at hfill
    by_cases hfull : output₁.length = room
    · rw [if_pos hfull] at hfill
      cases hfill
      refine ⟨hlt, hnext, fun more => ?_⟩
      rw [houtput, hfull, Nat.sub_self, Nat.zero_add]
    · rw [if_neg hfull] at hfill
      cases hfill
      refine ⟨hlt, hnext, fun more => ?_⟩
      -- the input is at its end
      rw [houtput, hempty (Nat.lt_of_le_of_ne hle hfull)]
      simp only [List.flatten_nil, List.append_nil, emit_stream_nil]
  | cons buffer buffers ih =>
    obtain ⟨⟨state₁, rest₁, output₁⟩, hcall⟩ : ∃ r, (if room = 0 then (state, current, [])
      else stepOver fn stepSize state current room) = r := ⟨_, rfl⟩
    obtain ⟨hle, hempty, hlt, hnext, houtput⟩ :=
      call_spec hstep hposition current (buffer :: buffers).flatten hforward hcall
    rw [fill] at hfill
    simp only [hcall] at hfill
    by_cases hfull : output₁.length = room
    · rw [if_pos hfull] at hfill
      cases hfill
      refine ⟨hlt, hnext, fun more => ?_⟩
      rw [houtput, hfull, Nat.sub_self, Nat.zero_add]
    · rw [if_neg hfull] at hfill
      -- the buffer is consumed, and the next one is dequeued
      rw [hempty (Nat.lt_of_le_of_ne hle hfull), List.nil_append, List.flatten_cons] at hnext houtput
      obtain ⟨⟨state₂, rest₂, buffers₂, output₂⟩, hrec⟩ : ∃ r,
        fill fn stepSize buffers state₁ buffer (room - output₁.length) = r := ⟨_, rfl⟩
      simp only [hrec] at hfill
      cases hfill
      obtain ⟨hlt₂, hnext₂, houtput₂⟩ := ih hlt buffer (room - output₁.length) hnext hrec
      refine ⟨hlt₂, hnext₂, fun more => ?_⟩
      rw [List.flatten_cons, houtput, houtput₂, List.append_assoc]

/-- Frames put out what the whole input gives. -/
theorem fillFrames_eq (hstep : stepSize < 2 ^ 64) (rooms : List Nat) (buffers : List (List Sample))
    {state : InterpState} (hposition : state.fposition < 2 ^ 64) (current : List Sample)
    (hforward : Forward stepSize (stream state (current ++ buffers.flatten)).length
      state.fposition) :
    fillFrames fn stepSize rooms buffers state current =
      emit fn stepSize (stream state (current ++ buffers.flatten)) rooms.sum state.fposition := by
  induction rooms generalizing buffers state current with
  | nil => rfl
  | cons room rooms ih =>
    obtain ⟨⟨state', rest, buffers', output⟩, hfill⟩ : ∃ r,
      fill fn stepSize buffers state current room = r := ⟨_, rfl⟩
    obtain ⟨hlt, hnext, houtput⟩ := fill_spec hstep buffers hposition current room hforward hfill
    rw [fillFrames, List.sum_cons, houtput]
    simp only [hfill]
    rw [ih buffers' hlt rest hnext]

/-- One call puts out what its input gives. -/
theorem stepOver_output (state : InterpState) (input : List Sample) (room : Nat) :
    (stepOver fn stepSize state input room).2.2 =
      emit fn stepSize (stream state input) room state.fposition := by
  cases input with
  | nil => exact (emit_stream_nil state room state.fposition).symm
  | cons a input =>
    obtain ⟨last, hloop, -⟩ := @stepLoop_spec fn stepSize (stream state (a :: input)) room 0
      state.fposition []
    have hstream : state.xn2 :: state.xn1 :: a :: input = stream state (a :: input) := rfl
    unfold stepOver
    simp only [List.isEmpty_cons, Bool.false_eq_true, if_false, hstream, hloop, List.nil_append]

/-! ## When it does not matter how input and output are cut -/

/-- Buffers and frames of any sizes give the output of one call on the whole input. -/
def Independent (fn : Interpolation) (stepSize : Nat) (state : InterpState) (input : List Sample) :
    Prop :=
  ∀ buffers : List (List Sample), buffers.flatten = input → ∀ rooms : List Nat,
    fillFrames fn stepSize rooms buffers state [] =
      (stepOver fn stepSize state input rooms.sum).2.2

theorem independent_of_forward (hstep : stepSize < 2 ^ 64) {state : InterpState}
    (hposition : state.fposition < 2 ^ 64) {input : List Sample}
    (hforward : Forward stepSize (input.length + 2) state.fposition) :
    Independent fn stepSize state input := by
  intro buffers hbuffers rooms
  subst hbuffers
  rw [fillFrames_eq hstep rooms buffers hposition [] hforward, stepOver_output, List.nil_append]

/-- With all positions inside of the input, the room is filled. -/
theorem length_emit_of_inside {x : List Sample} {room p : Nat}
    (h : ∀ j < room, Inside x.length ((step stepSize)^[j] p)) :
    (emit fn stepSize x room p).length = room := by
  induction room generalizing p with
  | zero => rfl
  | succ room ih =>
    have hinside : Inside x.length p := h 0 (Nat.succ_pos room)
    rw [emit, if_pos hinside, List.length_cons, ih]
    intro j hj
    rw [← Function.iterate_succ_apply]
    exact h (j + 1) (Nat.succ_lt_succ hj)

/-- A call that fills its room leaves the position counted from the sample of the last output. -/
theorem stepOver_full {state : InterpState} {input : List Sample} {k : Nat}
    (h : ∀ j ≤ k, Inside (stream state input).length ((step stepSize)^[j] state.fposition)) :
    (stepOver fn stepSize state input (k + 1)).1.fposition =
        ((step stepSize)^[k + 1] state.fposition + 2 ^ 64 -
          (step stepSize)^[k] state.fposition / scaleFactor * scaleFactor) % 2 ^ 64 ∧
      (stepOver fn stepSize state input (k + 1)).2.1 =
        (stream state input).drop ((step stepSize)^[k] state.fposition / scaleFactor + 2) := by
  obtain ⟨last, hloop, hlast⟩ := @stepLoop_spec fn stepSize (stream state input) (k + 1) 0
    state.fposition []
  have hfull : (emit fn stepSize (stream state input) (k + 1) state.fposition).length = k + 1 :=
    length_emit_of_inside fun j hj => h j (Nat.le_of_lt_succ hj)
  rw [hfull] at hloop hlast
  have heq : last = (step stepSize)^[k] state.fposition / scaleFactor := by
    rcases hlast with ⟨-, heq⟩ | ⟨hshort, -, -⟩
    · rw [heq, if_neg (Nat.succ_ne_zero k), Nat.add_sub_cancel]
    · exact absurd hshort (Nat.lt_irrefl _)
  have hisEmpty : ¬ input.isEmpty = true := by
    intro hempty
    rw [List.isEmpty_iff.1 hempty] at h
    exact absurd (h 0 (Nat.zero_le k)) (Nat.not_lt.2 (Nat.le_add_left _ _))
  have hstream : state.xn2 :: state.xn1 :: input = stream state input := rfl
  unfold stepOver
  rw [if_neg hisEmpty]
  simp only [hstream, hloop, heq, and_self]

/-- Counted from a sample that was left behind, a position is past the input. -/
theorem not_inside_of_back {length p i : Nat} (hlength : length ≤ 2 ^ 40 + 2)
    (hi : i * scaleFactor ≤ 2 ^ 64) (hback : p / scaleFactor < i) :
    ¬ Inside (length - i) ((p + 2 ^ 64 - i * scaleFactor) % 2 ^ 64) := by
  have hlt : p < i * scaleFactor := (Nat.div_lt_iff_lt_mul scaleFactor_pos).1 hback
  have hwrap : (p + 2 ^ 64 - i * scaleFactor) % 2 ^ 64 = p + 2 ^ 64 - i * scaleFactor :=
    Nat.mod_eq_of_lt (by omega)
  have hfar : 2 ^ 40 - i ≤ (p + 2 ^ 64 - i * scaleFactor) / scaleFactor := by
    rw [Nat.le_div_iff_mul_le scaleFactor_pos, Nat.sub_mul]
    have hturn : 2 ^ 40 * scaleFactor = 2 ^ 64 := by decide
    omega
  unfold Inside
  rw [hwrap]
  omega

/-- Without further buffers, a frame puts out what is left of the current one. -/
theorem fill_nil_output (state : InterpState) (current : List Sample) (room : Nat) :
    (fill fn stepSize [] state current (room + 1)).2.2.2 =
      emit fn stepSize (stream state current) (room + 1) state.fposition := by
  rw [fill, ← stepOver_output]
  simp only [Nat.succ_ne_zero, if_false]
  split <;> rfl

/-- A frame that is filled by its first buffer. -/
theorem fill_single (state : InterpState) (input : List Sample) (room : Nat)
    (hfull : (stepOver fn stepSize state input (room + 1)).2.2.length = room + 1) :
    fill fn stepSize [input] state [] (room + 1) =
      ((stepOver fn stepSize state input (room + 1)).1,
        (stepOver fn stepSize state input (room + 1)).2.1, [],
        (stepOver fn stepSize state input (room + 1)).2.2) := by
  have hnothing : stepOver fn stepSize state [] (room + 1) = (state, [], []) := rfl
  rw [fill]
  simp only [Nat.succ_ne_zero, if_false, hnothing, List.length_nil, Nat.sub_zero]
  rw [if_neg (Nat.succ_ne_zero room).symm, fill]
  simp only [Nat.succ_ne_zero, if_false, hfull, if_true, List.nil_append]

theorem forward_of_independent {state : InterpState} (hposition : state.fposition < 2 ^ 64)
    {input : List Sample} (hlength : input.length ≤ 2 ^ 40)
    (h : Independent fn stepSize state input) :
    Forward stepSize (input.length + 2) state.fposition := by
  intro k hk
  by_contra hback
  have hinside : ∀ j ≤ k + 1,
      Inside (stream state input).length ((step stepSize)^[j] state.fposition) := hk
  have hbefore : ∀ j ≤ k,
      Inside (stream state input).length ((step stepSize)^[j] state.fposition) :=
    fun j hj => hinside j (Nat.le_succ_of_le hj)
  obtain ⟨hnext, hrest⟩ := @stepOver_full fn stepSize state input k hbefore
  -- one frame up to the step back, and one more sample
  have hwhole : (stepOver fn stepSize state input [k + 1, 1].sum).2.2.length = k + 2 := by
    rw [stepOver_output]
    exact length_emit_of_inside fun j hj => hinside j (Nat.le_of_lt_succ hj)
  have hfirst : (stepOver fn stepSize state input (k + 1)).2.2.length = k + 1 := by
    rw [stepOver_output]
    exact length_emit_of_inside fun j hj => hbefore j (Nat.le_of_lt_succ hj)
  have hlast : (step stepSize)^[k] state.fposition / scaleFactor + 2 < input.length + 2 :=
    hk k (Nat.le_succ k)
  have hscaled : (step stepSize)^[k] state.fposition / scaleFactor * scaleFactor ≤ 2 ^ 64 :=
    Nat.le_trans (Nat.div_mul_le_self _ _) (Nat.le_of_lt (iterate_step_lt hposition k))
  have hpast := not_inside_of_back (Nat.add_le_add_right hlength 2) hscaled (Nat.lt_of_not_le hback)
  have hkept : (stream (stepOver fn stepSize state input (k + 1)).1
      (stepOver fn stepSize state input (k + 1)).2.1).length =
        input.length + 2 - (step stepSize)^[k] state.fposition / scaleFactor := by
    rw [hrest]
    simp only [stream, List.length_cons, List.length_drop]
    omega
  have hcut := congrArg List.length (h [input] List.flatten_singleton [k + 1, 1])
  rw [hwhole, fillFrames] at hcut
  simp only [fill_single state input k hfirst] at hcut
  simp only [fillFrames, List.append_nil, List.length_append, hfirst, fill_nil_output _ _ 0] at hcut
  rw [emit, if_neg (by rw [hkept, hnext]; exact hpast)] at hcut
  exact absurd hcut (Nat.ne_of_lt (Nat.lt_succ_self (k + 1)))

/-- Inputs and steps that stay away from the end of the positions are resampled forward. -/
theorem forward_of_bound {length p : Nat} (hbound : length * scaleFactor + stepSize ≤ 2 ^ 64) :
    Forward stepSize length p := by
  intro k hk
  have hinside : (step stepSize)^[k] p / scaleFactor + 2 < length := hk k (Nat.le_succ k)
  have hbelow : (step stepSize)^[k] p < length * scaleFactor := by
    rw [← Nat.div_lt_iff_lt_mul scaleFactor_pos]
    exact Nat.lt_of_le_of_lt (Nat.le_add_right _ 2) hinside
  have hnowrap : (step stepSize)^[k] p + stepSize < 2 ^ 64 :=
    Nat.lt_of_lt_of_le (Nat.add_lt_add_right hbelow stepSize) hbound
  rw [Function.iterate_succ_apply', step, Nat.mod_eq_of_lt hnowrap]
  exact Nat.div_le_div_right (Nat.le_add_right _ _)

end

/-- When no step goes back to an earlier sample, buffers and frames of any sizes give the output of one
call; up to the number of samples that positions can tell apart, only then. -/
theorem independent_iff (fn : Interpolation) {stepSize : Nat} (hstep : stepSize < 2 ^ 64)
    (state : InterpState) (hposition : state.fposition < 2 ^ 64) (input : List Sample) :
    (Forward stepSize (input.length + 2) state.fposition →
        Independent fn stepSize state input) ∧
      (input.length ≤ 2 ^ 40 →
        (Independent fn stepSize state input ↔
          Forward stepSize (input.length + 2) state.fposition)) :=
  ⟨independent_of_forward hstep hposition, fun hlength =>
    ⟨forward_of_independent hposition hlength, independent_of_forward hstep hposition⟩⟩

theorem independent_linear :
    Independent interpLinear (2 ^ 23) ⟨⟨7, 7⟩, ⟨3, 3⟩, 5⟩ [⟨1, 2⟩, ⟨3, 4⟩, ⟨5, 6⟩] :=
  (independent_iff interpLinear (by decide) ⟨⟨7, 7⟩, ⟨3, 3⟩, 5⟩ (by decide) _).1
    (forward_of_bound (by decide))

/-- A step back over 65536 samples. -/
theorem not_forward_back : ¬ Forward (2 ^ 64 - 2 ^ 40) 65542 (2 ^ 40) := by
  intro h
  have hback := h 0 (by decide +kernel)
  exact absurd hback (by decide +kernel)

/-- The position runs over its end and the resampler starts again at the first sample. -/
theorem wrapping_depends :
    ¬ Independent interpNone (2 ^ 64 - 2 ^ 40) ⟨⟨0, 0⟩, ⟨0, 0⟩, 2 ^ 40⟩
      (List.replicate 65540 ⟨1, 1⟩) := by
  intro h
  have hforward := forward_of_independent (by decide) (by rw [List.length_replicate]; decide) h
  rw [List.length_replicate] at hforward
  exact not_forward_back hforward

/-! ## Linear interpolation -/

/-- The point at a fraction of the way from one sample to another, rounded down, where the way is
saturated. -/
def pointBetween (fraction : Nat) (x0 x1 : Int) : Int :=
  x0 + fraction * clamp (x1 - x0) / scaleFactor

/-- A fraction of a way is no longer than the way. -/
theorem fraction_of_way {fraction : Nat} (h : fraction < scaleFactor) (delta : Int) :
    min 0 delta ≤ fraction * delta / scaleFactor ∧ fraction * delta / scaleFactor ≤ max 0 delta := by
  have hscale : (0 : Int) < scaleFactor := by decide
  have hle : (fraction : Int) ≤ scaleFactor := by exact_mod_cast Nat.le_of_lt h
  have hnonneg : (0 : Int) ≤ fraction := Int.natCast_nonneg fraction
  rcases le_total 0 delta with hup | hdown
  · rw [min_eq_left hup, max_eq_right hup]
    constructor
    · exact Int.ediv_nonneg (mul_nonneg hnonneg hup) (le_of_lt hscale)
    · calc fraction * delta / scaleFactor ≤ scaleFactor * delta / scaleFactor :=
            Int.ediv_le_ediv hscale (mul_le_mul_of_nonneg_right hle hup)
        _ = delta := Int.mul_ediv_cancel_left _ (ne_of_gt hscale)
  · rw [min_eq_right hdown, max_eq_left hdown]
    constructor
    · calc delta = scaleFactor * delta / scaleFactor :=
            (Int.mul_ediv_cancel_left _ (ne_of_gt hscale)).symm
        _ ≤ fraction * delta / scaleFactor :=
            Int.ediv_le_ediv hscale (mul_le_mul_of_nonpos_right hle hdown)
    · exact Int.ediv_nonpos_of_nonpos_of_neg (mul_nonpos_of_nonneg_of_nonpos hnonneg hdown) hscale

/-- The point is between both samples. -/
theorem pointBetween_bounds {fraction : Nat} (h : fraction < scaleFactor) (x0 x1 : Int) :
    min x0 x1 ≤ pointBetween fraction x0 x1 ∧ pointBetween fraction x0 x1 ≤ max x0 x1 := by
  obtain ⟨hlow, hhigh⟩ := fraction_of_way h (clamp (x1 - x0))
  have hclamp : min 0 (x1 - x0) ≤ min 0 (clamp (x1 - x0)) ∧
      max 0 (clamp (x1 - x0)) ≤ max 0 (x1 - x0) := by
    unfold clamp
    omega
  unfold pointBetween
  omega

/-- A product of `u64` that is divided by the scale is the product of integers divided by it, but for
multiples of 2⁴⁰. -/
theorem product_div (product : Int) :
    product % 2 ^ 64 / scaleFactor = product / scaleFactor % 2 ^ 40 := by
  have hscale : (scaleFactor : Int) = 16777216 := rfl
  rw [hscale]
  omega

/-- A channel is computed without a wrap. -/
theorem linearChannel_toInt {fraction : Nat} (h : fraction < scaleFactor) (x0 x1 : Int16) :
    (linearChannel fraction x0 x1).toInt = pointBetween fraction x0.toInt x1.toInt := by
  obtain ⟨hlow, hhigh⟩ := pointBetween_bounds h x0.toInt x1.toInt
  have hx0 := x0.le_toInt
  have hx0' := x0.toInt_lt
  have hx1 := x1.le_toInt
  have hx1' := x1.toInt_lt
  unfold pointBetween at hlow hhigh ⊢
  unfold linearChannel toS16
  simp only
  rw [product_div, Int16.toInt_ofInt, show Int16.size = 65536 from rfl, Int.bmod_def]
  omega

/-- Linear interpolation gives, in both channels, the point at the fraction of the way between the
samples, so that nothing wraps. -/
theorem linear_exact {fraction : Nat} (h : fraction < scaleFactor) (x0 x1 x2 : Sample) :
    ((interpLinear fraction x0 x1 x2).left.toInt =
        x0.left.toInt + fraction * clamp (x1.left.toInt - x0.left.toInt) / scaleFactor ∧
      min x0.left.toInt x1.left.toInt ≤ (interpLinear fraction x0 x1 x2).left.toInt ∧
      (interpLinear fraction x0 x1 x2).left.toInt ≤ max x0.left.toInt x1.left.toInt) ∧
    ((interpLinear fraction x0 x1 x2).right.toInt =
        x0.right.toInt + fraction * clamp (x1.right.toInt - x0.right.toInt) / scaleFactor ∧
      min x0.right.toInt x1.right.toInt ≤ (interpLinear fraction x0 x1 x2).right.toInt ∧
      (interpLinear fraction x0 x1 x2).right.toInt ≤ max x0.right.toInt x1.right.toInt) := by
  have hleft := linearChannel_toInt h x0.left x1.left
  have hright := linearChannel_toInt h x0.right x1.right
  have hleftBounds := pointBetween_bounds h x0.left.toInt x1.left.toInt
  have hrightBounds := pointBetween_bounds h x0.right.toInt x1.right.toInt
  rw [← hleft] at hleftBounds
  rw [← hright] at hrightBounds
  exact ⟨⟨hleft, hleftBounds⟩, hright, hrightBounds⟩

theorem linear_exact_full_way :
    (interpLinear (2 ^ 24 - 1) ⟨32767, -5⟩ ⟨-32768, 6⟩ ⟨0, 0⟩).left.toInt = -1 ∧
      (interpLinear (2 ^ 24 - 1) ⟨32767, -5⟩ ⟨-32768, 6⟩ ⟨0, 0⟩).right.toInt = 5 := by
  obtain ⟨⟨hleft, -, -⟩, hright, -, -⟩ :=
    linear_exact (show 2 ^ 24 - 1 < scaleFactor by decide) ⟨32767, -5⟩ ⟨-32768, 6⟩ ⟨0, 0⟩
  exact ⟨hleft.trans (by decide), hright.trans (by decide)⟩

end AzaharPlus.Audio
