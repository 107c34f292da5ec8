import AzaharPlus.Pica.LoopNests
import AzaharPlus.Pica.ShaderFlow

/-!
# Nested loops in the shader interpreter

What `RunInterpreter` executes when a program nests loops.  `LOOP` sets aL before the old value is
saved, so an inner loop leaves its own first value behind; and one instruction closes one scope only.

* `At` — a state between two instructions outside of all `IF` and `CALL` scopes.
* `runs_closed`, `runs_open` — a nest whose loops are all closed, and one that leaves scopes open.
* `runsNested_iff` — the nests that are executed as they are meant to be.
* `nested_loops_differ` — two loops for which they are not.
-/

namespace AzaharPlus.Pica

namespace Interpreter

variable {F : Type}

local instance loopIntegers : NeZero 4 := ⟨Nat.succ_ne_zero 3⟩

local instance loopDescriptions : NeZero 128 := ⟨Nat.succ_ne_zero 127⟩

local instance loopBooleans : NeZero 16 := ⟨Nat.succ_ne_zero 15⟩

local instance loopLengths : NeZero 256 := ⟨Nat.succ_ne_zero 255⟩

local instance instructionWords : NeZero 4096 := ⟨Nat.succ_ne_zero 4095⟩

/-- The register aL. -/
def al (s : Interpreter F) : Int := s.unit.addressRegisters 2

section Runs

variable (floats : ShaderFloats F) (nihstro : Nihstro) (setup : ShaderSetup F)

/-! ## Traces -/

/-- The instructions of so many turns, with aL before each of them. -/
def visits (s : Interpreter F) : Nat → Trace
  | 0 => []
  | n + 1 => visits s n ++
      [((steps floats nihstro setup s n).programCounter, (steps floats nihstro setup s n).al)]

/-- The instructions of a run to another state. -/
def Visits (s : Interpreter F) (trace : Trace) (t : Interpreter F) : Prop :=
  visits floats nihstro setup s trace.length = trace ∧
    steps floats nihstro setup s trace.length = t

theorem steps_add (s : Interpreter F) (m n : Nat) :
    steps floats nihstro setup s (m + n) =
      steps floats nihstro setup (steps floats nihstro setup s m) n := by
  induction n with
  | zero => rfl
  | succ n ih => rw [← Nat.add_assoc, steps, steps, ih]

theorem visits_add (s : Interpreter F) (m n : Nat) :
    visits floats nihstro setup s (m + n) = visits floats nihstro setup s m ++
      visits floats nihstro setup (steps floats nihstro setup s m) n := by
  induction n with
  | zero => rw [Nat.add_zero, visits, List.append_nil]
  | succ n ih => rw [← Nat.add_assoc, visits, visits, ih, steps_add, List.append_assoc]

theorem mem_visits (s : Interpreter F) {k n : Nat} (h : k < n) :
    ((steps floats nihstro setup s k).programCounter, (steps floats nihstro setup s k).al) ∈
      visits floats nihstro setup s n := by
  induction n with
  | zero => exact absurd h (Nat.not_lt_zero k)
  | succ n ih =>
    rw [visits, List.mem_append]
    rcases Nat.lt_or_eq_of_le (Nat.le_of_lt_succ h) with hlt | rfl
    · exact Or.inl (ih hlt)
    · exact Or.inr (List.mem_singleton.2 rfl)

variable {floats nihstro setup}

theorem Visits.refl (s : Interpreter F) : Visits floats nihstro setup s [] s := ⟨rfl, rfl⟩

theorem Visits.trans {s t u : Interpreter F} {trace trace' : Trace}
    (h : Visits floats nihstro setup s trace t) (h' : Visits floats nihstro setup t trace' u) :
    Visits floats nihstro setup s (trace ++ trace') u := by
  unfold Visits
  rw [List.length_append, visits_add, steps_add, h.1, h.2, h'.1, h'.2]
  exact ⟨rfl, rfl⟩

theorem visits_step (s : Interpreter F) :
    Visits floats nihstro setup s [(s.programCounter, s.al)] (step floats nihstro setup s) :=
  ⟨rfl, rfl⟩

/-! ## Instructions outside of `IF` and `CALL` scopes -/

variable (nihstro setup) in
/-- The operation at an address. -/
def operationOf (address : Nat) : Operation :=
  (nihstro.instruction (setup.programCode address)).operation

/-- Instructions without any flow of control. -/
def Plain : Operation → Prop
  | .arithmetic _ _ => True
  | .multiplyAdd _ => True
  | .nop => True
  | .emit => True
  | .setemit _ _ _ => True
  | .unhandled => True
  | _ => False

variable (floats nihstro setup) in
/-- No assertion fails in a run. -/
def NoAssert (s : Interpreter F) : Prop :=
  ∀ n, (steps floats nihstro setup s n).status ≠ .asserted

variable (floats nihstro setup) in
/-- The interpreter has come to an address outside of all `IF` and `CALL` scopes. -/
structure At (s : Interpreter F) (address : Nat) (loops : List LoopStackElement) (value : Int) :
    Prop where
  status : s.status = .running
  noAssert : NoAssert floats nihstro setup s
  programCounter : s.programCounter = address
  ifStack : s.ifStack = []
  callStack : s.callStack = []
  loopStack : s.loopStack = loops
  al : s.al = value

theorem NoAssert.step {s : Interpreter F} (h : NoAssert floats nihstro setup s) :
    NoAssert floats nihstro setup (step floats nihstro setup s) := by
  intro n
  have hnext := h (1 + n)
  rwa [steps_add] at hnext

/-- An instruction that stops the interpreter has an assertion that fails. -/
theorem asserted_of_halts {s : Interpreter F} (h : s.status = .running)
    (hplain : Plain (operationAt nihstro setup s))
    (hhalts : halts s.unit (operationAt nihstro setup s) = true) :
    (step floats nihstro setup s).status = .asserted := by
  rw [step_of_running floats nihstro setup h, status_closeLoop, (loopStack_closeIf _ _).2.2.1,
    closeCalls_eq]
  change (executed floats nihstro setup s).1.status = .asserted
  unfold executed execute
  unfold operationAt at hplain hhalts
  cases hop : (nihstro.instruction (setup.programCode s.programCounter)).operation with
  | emit =>
    rw [hop] at hhalts
    simp only [emit]
    split
    · rfl
    · rename_i emitter hsome
      rw [halts, show s.unit.emitter = some emitter from hsome] at hhalts
      have hge : 3 ≤ emitter.vertexId := by simpa using hhalts
      rw [if_neg (by omega)]
  | setemit vertexId primEmit winding =>
    rw [hop] at hhalts
    simp only [setEmit]
    split
    · rfl
    · rename_i emitter hsome
      rw [halts, show s.unit.emitter = some emitter from hsome] at hhalts
      cases hhalts
  | arithmetic op common => rw [hop] at hhalts; cases hhalts
  | multiplyAdd mad => rw [hop] at hhalts; cases hhalts
  | nop => rw [hop] at hhalts; cases hhalts
  | unhandled => rw [hop] at hhalts; cases hhalts
  | _ => rw [hop] at hplain; cases hplain

/-- What the instructions of a nest do up to the closing of loops. -/
theorem step_eq_closeLoop {s : Interpreter F} {a : Nat} {loops : List LoopStackElement} {v : Int}
    (h : At floats nihstro setup s a loops v) (ha : a < 4096) {op : Operation}
    (hop : operationOf nihstro setup a = op) (htaken : taken setup s.unit op = none)
    (hifs : ifScopes setup s.unit [] op = []) (hcalls : callScopes setup s.unit a [] op = [])
    (hbreaks : breaks s.unit op = false) (hhalts : halts s.unit op = false) :
    ∃ next, step floats nihstro setup s = closeLoop a false next ∧
      next.status = .running ∧ next.programCounter = a + 1 ∧ next.ifStack = [] ∧
      next.callStack = [] ∧ next.loopStack = loopScopes setup a loops op ∧
      next.al = nextAL setup s.unit op := by
  have hpc : s.programCounter < 2 ^ 31 := by
    rw [h.programCounter]
    omega
  have hspec := executed_spec floats nihstro setup s hpc
  have hat : operationAt nihstro setup s = op := by
    rw [← hop, operationAt, h.programCounter]
    rfl
  rw [hat] at hspec
  have hifStack : (executed floats nihstro setup s).1.ifStack = [] := by
    rw [hspec.ifStack, h.ifStack, hifs]
  have hcallStack : (executed floats nihstro setup s).1.callStack = [] := by
    rw [hspec.callStack, h.callStack, h.programCounter, hcalls]
  refine ⟨{ (executed floats nihstro setup s).1 with programCounter := a + 1 },
    ?_, ?_, rfl, hifStack, hcallStack, ?_, hspec.al⟩
  · rw [step_of_running floats nihstro setup h.status, closeCalls_eq]
    simp only
    rw [hcallStack, hspec.isBreak, hbreaks, hspec.programCounter, htaken, h.programCounter,
      closeIf_eq]
    simp only
    rw [hifStack]
    simp only [closingIf, returns, Option.getD_none]
  · exact hspec.status.2 ⟨h.status, hhalts⟩
  · change (executed floats nihstro setup s).1.loopStack = _
    rw [hspec.loopStack, h.loopStack, h.programCounter]

/-- A plain instruction, up to the closing of loops. -/
theorem step_plain_eq {s : Interpreter F} {a : Nat} {loops : List LoopStackElement} {v : Int}
    (h : At floats nihstro setup s a loops v) (ha : a < 4096)
    (hplain : Plain (operationOf nihstro setup a)) :
    ∃ next, step floats nihstro setup s = closeLoop a false next ∧
      next.status = .running ∧ next.programCounter = a + 1 ∧ next.ifStack = [] ∧
      next.callStack = [] ∧ next.loopStack = loops ∧ next.al = v := by
  have hat : operationAt nihstro setup s = operationOf nihstro setup a := by
    rw [operationAt, h.programCounter]
    rfl
  have hhalts : halts s.unit (operationOf nihstro setup a) = false := by
    rw [← Bool.not_eq_true]
    intro hhalts
    rw [← hat] at hplain hhalts
    exact h.noAssert 1 (asserted_of_halts h.status hplain hhalts)
  have hal : s.unit.addressRegisters 2 = v := h.al
  cases hop : operationOf nihstro setup a with
  | arithmetic op common =>
    obtain ⟨next, hnext⟩ := step_eq_closeLoop h ha hop rfl rfl rfl rfl (hop ▸ hhalts)
    exact ⟨next, hal ▸ hnext⟩
  | multiplyAdd mad =>
    obtain ⟨next, hnext⟩ := step_eq_closeLoop h ha hop rfl rfl rfl rfl (hop ▸ hhalts)
    exact ⟨next, hal ▸ hnext⟩
  | nop =>
    obtain ⟨next, hnext⟩ := step_eq_closeLoop h ha hop rfl rfl rfl rfl (hop ▸ hhalts)
    exact ⟨next, hal ▸ hnext⟩
  | emit =>
    obtain ⟨next, hnext⟩ := step_eq_closeLoop h ha hop rfl rfl rfl rfl (hop ▸ hhalts)
    exact ⟨next, hal ▸ hnext⟩
  | setemit vertexId primEmit winding =>
    obtain ⟨next, hnext⟩ := step_eq_closeLoop h ha hop rfl rfl rfl rfl (hop ▸ hhalts)
    exact ⟨next, hal ▸ hnext⟩
  | unhandled =>
    obtain ⟨next, hnext⟩ := step_eq_closeLoop h ha hop rfl rfl rfl rfl (hop ▸ hhalts)
    exact ⟨next, hal ▸ hnext⟩
  | _ => rw [hop] at hplain; cases hplain

/-- The innermost loop does not end behind an address. -/
def NoEnd (loops : List LoopStackElement) (address : Nat) : Prop :=
  ∀ top ∈ loops.head?, top.endAddress ≠ address

theorem closeLoop_of_noEnd {a : Nat} {s : Interpreter F} (h : NoEnd s.loopStack (a + 1)) :
    closeLoop a false s = s := by
  have hclosing : closingLoop a false s.loopStack = none := by
    unfold closingLoop
    split
    · rfl
    · rename_i top rest hcons
      rw [hcons] at h
      have hne := h top rfl
      simp [hne]
  rw [closeLoop_eq, hclosing]

/-- A plain instruction that is not the last one of the innermost loop. -/
theorem step_plain {s : Interpreter F} {a : Nat} {loops : List LoopStackElement} {v : Int}
    (h : At floats nihstro setup s a loops v) (ha : a < 4096)
    (hplain : Plain (operationOf nihstro setup a)) (hend : NoEnd loops (a + 1)) :
    At floats nihstro setup (step floats nihstro setup s) (a + 1) loops v := by
  obtain ⟨next, heq, hstatus, hpc, hifs, hcalls, hloops, hal⟩ := step_plain_eq h ha hplain
  have hnext := h.noAssert.step
  rw [heq, closeLoop_of_noEnd (by rw [hloops]; exact hend)] at hnext ⊢
  exact ⟨hstatus, hnext, hpc, hifs, hcalls, hloops, hal⟩

/-- The last instruction of a loop that is entered again. -/
theorem step_again {s : Interpreter F} {a : Nat} {top : LoopStackElement}
    {loops : List LoopStackElement} {v : Int} (h : At floats nihstro setup s a (top :: loops) v)
    (ha : a < 4096) (hplain : Plain (operationOf nihstro setup a)) (hend : top.endAddress = a + 1)
    (hcounter : top.loopDowncounter ≠ 0) :
    At floats nihstro setup (step floats nihstro setup s) top.entryAddress
      ({ top with loopDowncounter := top.loopDowncounter - 1 } :: loops)
      (v + top.addressIncrement) := by
  obtain ⟨next, heq, hstatus, hpc, hifs, hcalls, hloops, hal⟩ := step_plain_eq h ha hplain
  have hnext := h.noAssert.step
  have hclosing : closingLoop a false next.loopStack = some top := by
    rw [hloops]
    exact if_pos (Or.inl hend)
  rw [heq, closeLoop_eq, hclosing] at hnext ⊢
  simp only [hcounter, hloops, List.tail_cons, ne_eq, not_false_eq_true, and_self, if_true]
    at hnext ⊢
  refine ⟨hstatus, hnext, rfl, hifs, hcalls, rfl, ?_⟩
  change Function.update next.unit.addressRegisters 2 _ 2 = _
  rw [Function.update_self, ← hal]
  rfl

/-- The last instruction of a loop that is closed; aL is restored when there is another loop around
it. -/
theorem step_close {s : Interpreter F} {a : Nat} {top : LoopStackElement}
    {loops : List LoopStackElement} {v : Int} (h : At floats nihstro setup s a (top :: loops) v)
    (ha : a < 4096) (hplain : Plain (operationOf nihstro setup a)) (hend : top.endAddress = a + 1)
    (hcounter : top.loopDowncounter = 0) :
    At floats nihstro setup (step floats nihstro setup s) (a + 1) loops
      (if loops = [] then v + top.addressIncrement else top.previousAL) := by
  obtain ⟨next, heq, hstatus, hpc, hifs, hcalls, hloops, hal⟩ := step_plain_eq h ha hplain
  have hnext := h.noAssert.step
  have hclosing : closingLoop a false next.loopStack = some top := by
    rw [hloops]
    exact if_pos (Or.inl hend)
  rw [heq, closeLoop_eq, hclosing] at hnext ⊢
  simp only [hcounter, hloops, List.tail_cons, ne_eq, not_true_eq_false, and_false, if_false]
    at hnext ⊢
  by_cases hempty : loops = []
  · rw [if_neg (not_not.2 hempty)] at hnext ⊢
    rw [if_pos hempty]
    refine ⟨hstatus, hnext, hend, hifs, hcalls, rfl, ?_⟩
    change Function.update next.unit.addressRegisters 2 _ 2 = _
    rw [Function.update_self, ← hal]
    rfl
  · rw [if_pos hempty] at hnext ⊢
    rw [if_neg hempty]
    refine ⟨hstatus, hnext, hend, hifs, hcalls, rfl, ?_⟩
    change Function.update (Function.update next.unit.addressRegisters 2
      (next.unit.addressRegisters 2 + top.addressIncrement)) 2 (top.previousAL : Int) 2 = _
    rw [Function.update_self]

/-- `LOOP`, when there is room for its scope. -/
theorem step_loop {s : Interpreter F} {a : Nat} {loops : List LoopStackElement} {v : Int}
    (h : At floats nihstro setup s a loops v) (ha : a < 4096) {flow : FlowControl}
    (hop : operationOf nihstro setup a = .loop flow) (hroom : loops.length ≤ 3)
    (hend : (loopScope setup a flow).endAddress ≠ a + 1) :
    At floats nihstro setup (step floats nihstro setup s) (a + 1)
      (loopScope setup a flow :: loops) (loopParam setup flow).2.1 := by
  obtain ⟨next, heq, hstatus, hpc, hifs, hcalls, hloops, hal⟩ :=
    step_eq_closeLoop h ha hop rfl rfl rfl rfl rfl
  have hpush : next.loopStack = loopScope setup a flow :: loops := by
    rw [hloops]
    exact List.take_of_length_le (Nat.succ_le_succ hroom)
  have hnext := h.noAssert.step
  have hnoEnd : NoEnd next.loopStack (a + 1) := by
    rw [hpush]
    intro top htop
    cases htop
    exact hend
  rw [heq, closeLoop_of_noEnd hnoEnd] at hnext ⊢
  exact ⟨hstatus, hnext, hpc, hifs, hcalls, hpush, hal⟩

/-! ## Straight code -/

/-- Plain instructions one after another, none of them the last one of the innermost loop. -/
theorem runs_straight {s : Interpreter F} {a : Nat} {loops : List LoopStackElement} {v : Int}
    (h : At floats nihstro setup s a loops v) (n : Nat) (ha : a + n ≤ 4096)
    (hplain : ∀ i < n, Plain (operationOf nihstro setup (a + i)))
    (hend : ∀ i < n, NoEnd loops (a + i + 1)) :
    ∃ t, Visits floats nihstro setup s (straight a n v) t ∧
      At floats nihstro setup t (a + n) loops v := by
  induction n with
  | zero => exact ⟨s, Visits.refl s, h⟩
  | succ n ih =>
    obtain ⟨t, hvisits, ht⟩ := ih (by omega) (fun i hi => hplain i (Nat.lt_succ_of_lt hi))
      (fun i hi => hend i (Nat.lt_succ_of_lt hi))
    have hnext := step_plain ht (by omega) (hplain n (Nat.lt_succ_self n))
      (hend n (Nat.lt_succ_self n))
    have hlast : Visits floats nihstro setup t [(t.programCounter, t.al)] _ := visits_step t
    rw [ht.programCounter, ht.al] at hlast
    refine ⟨_, ?_, hnext⟩
    rw [straight, List.range_succ, List.map_append]
    exact hvisits.trans hlast

/-- Plain instructions up to the last one of the innermost loop. -/
theorem runs_to_end {s : Interpreter F} {a : Nat} {top : LoopStackElement}
    {loops : List LoopStackElement} {v : Int} (h : At floats nihstro setup s a (top :: loops) v)
    (n : Nat) (ha : a + (n + 1) ≤ 4096)
    (hplain : ∀ i < n + 1, Plain (operationOf nihstro setup (a + i)))
    (hend : top.endAddress = a + (n + 1)) :
    ∃ t, Visits floats nihstro setup s (straight a (n + 1) v) t ∧
      if top.loopDowncounter = 0 then
        At floats nihstro setup t (a + (n + 1)) loops
          (if loops = [] then v + top.addressIncrement else top.previousAL)
      else
        At floats nihstro setup t top.entryAddress
          ({ top with loopDowncounter := top.loopDowncounter - 1 } :: loops)
          (v + top.addressIncrement) := by
  obtain ⟨t, hvisits, ht⟩ := runs_straight h n (by omega)
    (fun i hi => hplain i (Nat.lt_succ_of_lt hi)) (fun i hi top' htop => by
      cases htop
      omega)
  have hlast : Visits floats nihstro setup t [(t.programCounter, t.al)] _ := visits_step t
  rw [ht.programCounter, ht.al] at hlast
  refine ⟨step floats nihstro setup t, ?_, ?_⟩
  · rw [straight, List.range_succ, List.map_append]
    exact hvisits.trans hlast
  · split
    · rename_i hzero
      exact step_close ht (show a + n < 4096 by omega) (hplain n (Nat.lt_succ_self n)) hend hzero
    · rename_i hne
      exact step_again ht (show a + n < 4096 by omega) (hplain n (Nat.lt_succ_self n)) hend hne

/-! ## Iterations -/

/-- The iterations of a loop from a value of aL on: `it` is what is executed in one of them, and `rest`
the value at its end. -/
def iterations (it : Int → Trace) (rest : Int → Int) (z : Int) : Nat → Int → Trace
  | 0, v => it v
  | n + 1, v => it v ++ iterations it rest z n (rest v + z)

/-- The value of aL behind them. -/
def iterationsAL (rest : Int → Int) (z : Int) : Nat → Int → Int
  | 0, v => rest v + z
  | n + 1, v => iterationsAL rest z n (rest v + z)

/-- A loop whose iterations are known. -/
theorem runs_iterations {entry stop y z : Nat} {loops : List LoopStackElement} (it : Int → Trace)
    (rest : Int → Int)
    (hit : ∀ (s : Interpreter F) (v : Int) (c : Nat),
      At floats nihstro setup s entry (⟨entry, stop, c, z, y⟩ :: loops) v →
        ∃ t, Visits floats nihstro setup s (it v) t ∧
          if c = 0 then
            At floats nihstro setup t stop loops (if loops = [] then rest v + z else y)
          else At floats nihstro setup t entry (⟨entry, stop, c - 1, z, y⟩ :: loops) (rest v + z))
    (c : Nat) {s : Interpreter F} {v : Int}
    (h : At floats nihstro setup s entry (⟨entry, stop, c, z, y⟩ :: loops) v) :
    ∃ t, Visits floats nihstro setup s (iterations it rest z c v) t ∧
      At floats nihstro setup t stop loops
        (if loops = [] then iterationsAL rest z c v else y) := by
  induction c generalizing s v with
  | zero => exact hit s v 0 h
  | succ c ih =>
    obtain ⟨t, hvisits, ht⟩ := hit s v (c + 1) h
    rw [if_neg (Nat.succ_ne_zero c)] at ht
    obtain ⟨u, hvisits', hu⟩ := ih ht
    exact ⟨u, hvisits.trans hvisits', hu⟩

/-- Iterations whose value grows by `z` each time. -/
theorem iterations_add (it : Int → Trace) (y z : Nat) (c : Nat) :
    iterations it id z c y = (List.range (c + 1)).flatMap fun k => it (y + k * z : Nat) := by
  induction c generalizing y with
  | zero => simp [iterations]
  | succ c ih =>
    have hvalue : ((id (y : Int)) + (z : Int)) = ((y + z : Nat) : Int) := by simp
    rw [iterations, hvalue, ih, List.range_succ_eq_map (n := c + 1), List.flatMap_cons,
      List.flatMap_map, Nat.zero_mul, Nat.add_zero]
    congr 2
    funext k
    rw [Nat.succ_mul, Nat.add_assoc, Nat.add_comm z]

theorem iterationsAL_add (y z c : Nat) :
    iterationsAL id z c y = ((y + (c + 1) * z : Nat) : Int) := by
  induction c generalizing y with
  | zero => simp [iterationsAL]
  | succ c ih =>
    have hvalue : ((id (y : Int)) + (z : Int)) = ((y + z : Nat) : Int) := by simp
    rw [iterationsAL, hvalue, ih, Nat.succ_mul (c + 1), Nat.add_assoc, Nat.add_comm z]

/-- Iterations that end with the same value each time. -/
theorem iterations_const (it : Int → Trace) (r z v : Int) (c : Nat) :
    iterations it (fun _ => r) z c v =
      it v ++ (List.range c).flatMap fun _ => it (r + z) := by
  induction c generalizing v with
  | zero => simp [iterations]
  | succ c ih => rw [iterations, ih, List.range_succ_eq_map, List.flatMap_cons, List.flatMap_map]

theorem iterationsAL_const (r z v : Int) (c : Nat) : iterationsAL (fun _ => r) z c v = r + z := by
  induction c generalizing v with
  | zero => rfl
  | succ c ih => exact ih _

/-! ## Nests in a program -/

variable (nihstro setup) in
/-- A `LOOP` with these numbers of words and this integer uniform stands at an address. -/
def LoopAt (a size : Nat) (param : Nat × Nat × Nat) : Prop :=
  ∃ flow, operationOf nihstro setup a = .loop flow ∧ loopParam setup flow = param ∧
    flow.destOffset.val + 1 = a + size

variable (nihstro setup) in
/-- A nest stands at an address of the program. -/
def Placed : Nest → Nat → Prop
  | .body x y z n, a =>
      LoopAt nihstro setup a (n + 2) (x, y, z) ∧
        ∀ i < n + 1, Plain (operationOf nihstro setup (a + 1 + i))
  | .loop x y z pre inner post, a =>
      LoopAt nihstro setup a (Nest.loop x y z pre inner post).size (x, y, z) ∧
        (∀ i < pre, Plain (operationOf nihstro setup (a + 1 + i))) ∧
        Placed inner (a + 1 + pre) ∧
        ∀ i < post, Plain (operationOf nihstro setup (a + 1 + pre + inner.size + i))

/-- `LOOP` with its scope. -/
theorem runs_loopAt {s : Interpreter F} {a size x y z : Nat} {loops : List LoopStackElement}
    {v : Int} (h : At floats nihstro setup s a loops v)
    (hloop : LoopAt nihstro setup a size (x, y, z)) (hsize : 2 ≤ size) (hroom : loops.length ≤ 3) :
    a + size ≤ 4096 ∧ ∃ t, Visits floats nihstro setup s [(a, v)] t ∧
      At floats nihstro setup t (a + 1) (⟨a + 1, a + size, x, z, y⟩ :: loops) y := by
  obtain ⟨flow, hop, hparam, hdest⟩ := hloop
  have hlt := flow.destOffset.isLt
  have hscope : loopScope setup a flow = ⟨a + 1, a + size, x, z, y⟩ := by
    unfold loopScope
    rw [hparam, hdest]
  have hstep := step_loop h (by omega) hop hroom (by rw [hscope]; simp only; omega)
  rw [hscope, hparam] at hstep
  have hvisit : Visits floats nihstro setup s [(s.programCounter, s.al)] _ := visits_step s
  rw [h.programCounter, h.al] at hvisit
  exact ⟨by omega, _, hvisit, hstep⟩

/-- A nest whose loops are all closed. -/
theorem runs_closed {N : Nest} (hcloses : N.Closes) {a : Nat} (hplaced : Placed nihstro setup N a)
    {s : Interpreter F} {loops : List LoopStackElement} {v : Int}
    (hroom : loops.length + N.depth ≤ 4) (h : At floats nihstro setup s a loops v) :
    ∃ t, Visits floats nihstro setup s ((a, v) :: N.actual a) t ∧
      At floats nihstro setup t (a + N.size) loops
        (if loops = [] then (N.actualAL : Int) else N.left) := by
  induction N generalizing a s loops v with
  | body x y z n =>
    obtain ⟨hloop, hplain⟩ := hplaced
    obtain ⟨hend, t, hvisits, ht⟩ := runs_loopAt h hloop (by omega)
      (by unfold Nest.depth at hroom; omega)
    -- an iteration is straight code up to the end of the loop
    have hit (s : Interpreter F) (w : Int) (c : Nat)
        (hs : At floats nihstro setup s (a + 1) (⟨a + 1, a + (n + 2), c, z, y⟩ :: loops) w) :
        ∃ t, Visits floats nihstro setup s (straight (a + 1) (n + 1) w) t ∧
          if c = 0 then
            At floats nihstro setup t (a + (n + 2)) loops (if loops = [] then id w + z else y)
          else At floats nihstro setup t (a + 1) (⟨a + 1, a + (n + 2), c - 1, z, y⟩ :: loops)
            (id w + z) := by
      have hrun := runs_to_end hs n (by omega) hplain (by simp only; omega)
      rwa [show a + 1 + (n + 1) = a + (n + 2) by omega] at hrun
    obtain ⟨u, hvisits', hu⟩ := runs_iterations _ id hit x ht
    rw [iterationsAL_add] at hu
    rw [iterations_add (fun w => straight (a + 1) (n + 1) w)] at hvisits'
    exact ⟨u, hvisits.trans hvisits', hu⟩
  | loop x y z pre inner post ih =>
    obtain ⟨hloop, hpre, hinner, hpost⟩ := hplaced
    have hsize : (Nest.loop x y z pre inner post).size = 1 + pre + inner.size + post := rfl
    have hdepth : (Nest.loop x y z pre inner post).depth = inner.depth + 1 := rfl
    have htwo := inner.two_le_size
    obtain ⟨hend, t, hvisits, ht⟩ := runs_loopAt h hloop (by omega) (by omega)
    obtain ⟨m, hm⟩ : ∃ m, post = m + 1 := Nat.exists_eq_succ_of_ne_zero (Nat.ne_of_gt hcloses.2)
    -- an iteration: straight code, the inner loop, straight code up to the end
    have hit (s : Interpreter F) (w : Int) (c : Nat)
        (hs : At floats nihstro setup s (a + 1)
          (⟨a + 1, a + (Nest.loop x y z pre inner post).size, c, z, y⟩ :: loops) w) :
        ∃ t, Visits floats nihstro setup s
            (Nest.iteration a pre w (inner.actual (a + 1 + pre)) inner.size post inner.left) t ∧
          if c = 0 then
            At floats nihstro setup t (a + (Nest.loop x y z pre inner post).size) loops
              (if loops = [] then (inner.left : Int) + z else y)
          else At floats nihstro setup t (a + 1)
            (⟨a + 1, a + (Nest.loop x y z pre inner post).size, c - 1, z, y⟩ :: loops)
            ((inner.left : Int) + z) := by
      obtain ⟨t1, hv1, h1⟩ := runs_straight hs pre (by omega) hpre (fun i hi top htop => by
        cases htop
        simp only
        omega)
      obtain ⟨t2, hv2, h2⟩ := ih hcloses.1 hinner (by simp only [List.length_cons]; omega) h1
      rw [if_neg (List.cons_ne_nil _ _)] at h2
      subst hm
      obtain ⟨t3, hv3, h3⟩ := runs_to_end h2 m (by omega) hpost (by simp only; omega)
      rw [show a + 1 + pre + inner.size + (m + 1) =
        a + (Nest.loop x y z pre inner (m + 1)).size by omega] at h3
      exact ⟨t3, hv1.trans (hv2.trans hv3), h3⟩
    obtain ⟨u, hvisits', hu⟩ := runs_iterations _ (fun _ => (inner.left : Int)) hit x ht
    rw [iterationsAL_const] at hu
    rw [iterations_const (fun w =>
      Nest.iteration a pre w (inner.actual (a + 1 + pre)) inner.size post inner.left)] at hvisits'
    refine ⟨u, ?_, ?_⟩
    · rw [Nest.actual, if_pos hcloses]
      exact hvisits.trans hvisits'
    · rw [Nest.actualAL, Nest.left, if_pos hcloses, if_pos hcloses]
      exact_mod_cast hu

/-- A nest that leaves scopes open: nothing behind it ends them. -/
theorem runs_open {N : Nest} (hopen : ¬ N.Closes) {a : Nat} (hplaced : Placed nihstro setup N a)
    {s : Interpreter F} {loops : List LoopStackElement} {v : Int}
    (hroom : loops.length + N.depth ≤ 4) (h : At floats nihstro setup s a loops v) :
    ∃ t loops', Visits floats nihstro setup s ((a, v) :: N.actual a) t ∧
      At floats nihstro setup t (a + N.size) loops' N.left ∧
      ∀ k, NoEnd loops' (a + N.size + k + 1) := by
  induction N generalizing a s loops v with
  | body x y z n => exact absurd trivial hopen
  | loop x y z pre inner post ih =>
    obtain ⟨hloop, hpre, hinner, hpost⟩ := hplaced
    have hsize : (Nest.loop x y z pre inner post).size = 1 + pre + inner.size + post := rfl
    have hdepth : (Nest.loop x y z pre inner post).depth = inner.depth + 1 := rfl
    have htwo := inner.two_le_size
    obtain ⟨hend, t, hv, ht⟩ := runs_loopAt h hloop (by omega) (by omega)
    obtain ⟨t1, hv1, h1⟩ := runs_straight ht pre (by omega) hpre (fun i hi top htop => by
      cases htop
      simp only
      omega)
    -- behind the inner loop the innermost scope that is open has ended
    have hbehind : ∃ t2 loops', Visits floats nihstro setup t1
          ((a + 1 + pre, (y : Int)) :: inner.actual (a + 1 + pre)) t2 ∧
        At floats nihstro setup t2 (a + 1 + pre + inner.size) loops' inner.left ∧
        ∀ k, NoEnd loops' (a + 1 + pre + inner.size + k + 1) := by
      by_cases hcloses : inner.Closes
      · obtain ⟨t2, hv2, h2⟩ := runs_closed hcloses hinner
          (by simp only [List.length_cons]; omega) h1
        rw [if_neg (List.cons_ne_nil _ _)] at h2
        have hzero : post = 0 := by
          by_contra hne
          exact hopen ⟨hcloses, Nat.pos_of_ne_zero hne⟩
        refine ⟨t2, _, hv2, h2, fun k top htop => ?_⟩
        cases htop
        simp only
        omega
      · exact ih hcloses hinner (by simp only [List.length_cons]; omega) h1
    obtain ⟨t2, loops', hv2, h2, hnoEnd⟩ := hbehind
    obtain ⟨t3, hv3, h3⟩ := runs_straight h2 post (by omega) hpost (fun i _ => hnoEnd i)
    refine ⟨t3, loops', ?_, ?_, fun k => ?_⟩
    · rw [Nest.actual, if_neg hopen, List.append_nil]
      exact hv.trans (hv1.trans (hv2.trans hv3))
    · rw [Nest.left, if_neg hopen, hsize,
        show a + (1 + pre + inner.size + post) = a + 1 + pre + inner.size + post by omega]
      exact h3
    · have hlater := hnoEnd (post + k)
      rwa [show a + 1 + pre + inner.size + (post + k) + 1 =
        a + (Nest.loop x y z pre inner post).size + k + 1 by omega] at hlater

/-- **What the interpreter executes** of a nest that is in no other loop. -/
theorem runs_nest {N : Nest} {a : Nat} (hplaced : Placed nihstro setup N a) (hdepth : N.depth ≤ 4)
    {s : Interpreter F} {v : Int} (h : At floats nihstro setup s a [] v) :
    ∃ t, Visits floats nihstro setup s ((a, v) :: N.actual a) t ∧
      t.programCounter = a + N.size ∧ t.al = N.actualAL := by
  have hroom : ([] : List LoopStackElement).length + N.depth ≤ 4 := by
    rw [List.length_nil, Nat.zero_add]
    exact hdepth
  by_cases hcloses : N.Closes
  · obtain ⟨t, hvisits, ht⟩ := runs_closed hcloses hplaced hroom h
    exact ⟨t, hvisits, ht.programCounter, ht.al⟩
  · obtain ⟨t, loops', hvisits, ht, _⟩ := runs_open hcloses hplaced hroom h
    refine ⟨t, hvisits, ht.programCounter, ht.al.trans ?_⟩
    cases N with
    | body x y z n => exact absurd trivial hcloses
    | loop x y z pre inner post => rw [Nest.left, Nest.actualAL, if_neg hcloses, if_neg hcloses]

variable (floats nihstro setup) in
/-- A nest at an address is executed as it is meant to be: the instructions, aL during each of them,
and the address and aL behind it. -/
def RunsNested (N : Nest) (a : Nat) (s : Interpreter F) : Prop :=
  visits floats nihstro setup s ((N.expected a).length + 1) = (a, s.al) :: N.expected a ∧
    (steps floats nihstro setup s ((N.expected a).length + 1)).programCounter = a + N.size ∧
    (steps floats nihstro setup s ((N.expected a).length + 1)).al = N.finalAL

/-- **Nested loops.**  From a `LOOP` outside of all scopes, a nest of up to four loops is executed as it
is meant to be when the values of the loops agree, and only then; it is meant to execute the innermost
body as often as the loops say together. -/
theorem runsNested_iff (floats : ShaderFloats F) (nihstro : Nihstro) (setup : ShaderSetup F)
    (N : Nest) (a : Nat) (hplaced : Placed nihstro setup N a) (hdepth : N.depth ≤ 4)
    (s : Interpreter F) (h : At floats nihstro setup s a [] s.al) :
    (RunsNested floats nihstro setup N a s ↔
        N.Agrees ∧ (¬ N.Closes → N.left = N.y + N.z)) ∧
      (N.expected a).countP (fun e => e.1 == N.bodyAddress a) = N.times := by
  refine ⟨?_, N.count_expected a⟩
  obtain ⟨t, ⟨hvisits, hsteps⟩, hpc, hal⟩ := runs_nest hplaced hdepth h
  have htwo := N.two_le_size
  constructor
  · rintro ⟨hexpected, hpc', hal'⟩
    have hends : (N.expected a).length = (N.actual a).length := by
      rcases Nat.lt_trichotomy (N.expected a).length (N.actual a).length with hlt | heq | hgt
      · -- the interpreter is still inside of the nest
        have hmem := mem_visits floats nihstro setup s (Nat.succ_lt_succ hlt)
        rw [List.length_cons] at hvisits
        rw [hvisits, hpc'] at hmem
        rcases List.mem_cons.1 hmem with heq | hmem
        · have := congrArg Prod.fst heq
          simp only at this
          omega
        · exact absurd (N.inside_actual a _ hmem).2 (Nat.lt_irrefl _)
      · exact heq
      · -- it has left the nest before
        have hmem := mem_visits floats nihstro setup s (Nat.succ_lt_succ hgt)
        rw [List.length_cons] at hsteps
        rw [hexpected, hsteps, hpc] at hmem
        rcases List.mem_cons.1 hmem with heq | hmem
        · have := congrArg Prod.fst heq
          simp only at this
          omega
        · exact absurd (N.inside_expected a _ hmem).2 (Nat.lt_irrefl _)
    rw [List.length_cons, ← hends] at hvisits hsteps
    have hagrees : N.Agrees :=
      (N.expected_eq_actual_iff a).1 (List.cons.inj (hexpected.symm.trans hvisits)).2
    rw [hsteps, hal] at hal'
    exact ⟨hagrees, (Nest.actualAL_eq_finalAL_iff hagrees).1 (Int.ofNat.inj hal')⟩
  · rintro ⟨hagrees, hleft⟩
    rw [← (N.expected_eq_actual_iff a).2 hagrees] at hvisits hsteps
    rw [(Nest.actualAL_eq_finalAL_iff hagrees).2 hleft] at hal
    refine ⟨hvisits, ?_, ?_⟩
    · rw [List.length_cons] at hsteps
      rw [hsteps]
      exact hpc
    · rw [List.length_cons] at hsteps
      rw [hsteps]
      exact hal

end Runs

/-! ## Two loops -/

/-- A run that comes to its end has no assertion that fails. -/
theorem noAssert_of_ended {floats : ShaderFloats F} {nihstro : Nihstro} {setup : ShaderSetup F}
    {s : Interpreter F} {n : Nat}
    (hrunning : ∀ k < n, (steps floats nihstro setup s k).status = .running)
    (hended : (steps floats nihstro setup s n).status = .ended) :
    NoAssert floats nihstro setup s := by
  have hlater (d : Nat) : (steps floats nihstro setup s (n + d)).status = .ended := by
    induction d with
    | zero => exact hended
    | succ d ih =>
      rw [← Nat.add_assoc, steps, step_of_stopped _ _ _ (by rw [ih]; decide)]
      exact ih
  intro k
  rcases Nat.lt_or_ge k n with hlt | hge
  · rw [hrunning k hlt]
    decide
  · obtain ⟨d, rfl⟩ := Nat.exists_eq_add_of_le hge
    rw [hlater d]
    decide

/-- A `LOOP` up to an address with an integer uniform. -/
def loopTo (dest : Fin 4096) (id : Fin 4) : FlowControl := ⟨dest, 0, 0, id, .or, false, false⟩

/-- The words of `END` and `LOOP`; the others count as `NOP`. -/
def loopWords : Nihstro where
  instruction w :=
    if bitField w 26 6 = 0x22 then ⟨0, .stop⟩
    else if bitField w 26 6 = 0x29 then
      ⟨0, .loop (loopTo (Fin.ofNat 4096 (bitField w 10 12)) (Fin.ofNat 4 (bitField w 22 2)))⟩
    else ⟨0, .nop⟩
  swizzle _ := ⟨fun _ => false, fun _ i => i, fun _ => true⟩

/-- The words of two loops, the inner one with one instruction in its body. -/
def twoLoopsCode (post address : Nat) : BitVec 32 :=
  if address = 0 then BitVec.ofNat 32 (0xa4000000 + (2 + post) * 2 ^ 10)
  else if address = 1 then 0xa4400800
  else if address < 3 + post then 0x84000000
  else 0x88000000

/-- The two loops with their integer uniforms. -/
def twoLoops (outer inner : Vec4 Nat) (post : Nat) : ShaderSetup Nat :=
  { emptySetup with
    i := fun id => if id = 0 then outer else inner
    programCode := twoLoopsCode post }

theorem operationOf_twoLoops (outer inner : Vec4 Nat) (post address : Nat) :
    operationOf loopWords (twoLoops outer inner post) address =
      (loopWords.instruction (twoLoopsCode post address)).operation := rfl

/-- The two loops are placed as a nest. -/
theorem placed_twoLoops (x y z x' y' z' : Nat) {post : Nat} (hpost : post < 2) :
    Placed loopWords (twoLoops ![x, y, z, 0] ![x', y', z', 0] post)
      (.loop (x % 2 ^ 8) (y % 2 ^ 8) (z % 2 ^ 8) 0
        (.body (x' % 2 ^ 8) (y' % 2 ^ 8) (z' % 2 ^ 8) 0) post) 0 := by
  have houter : (loopWords.instruction (twoLoopsCode post 0)).operation =
      .loop (loopTo (Fin.ofNat 4096 (2 + post)) 0) := by
    rcases Nat.le_one_iff_eq_zero_or_eq_one.1 (Nat.le_of_lt_succ hpost) with rfl | rfl <;> decide
  have hdest : (Fin.ofNat 4096 (2 + post)).val + 1 = 3 + post := by
    rw [Fin.val_ofNat]
    omega
  have hinner : (loopWords.instruction (twoLoopsCode post 1)).operation = .loop (loopTo 2 1) := by
    rw [twoLoopsCode, if_neg Nat.one_ne_zero, if_pos rfl]
    decide
  have hbody (a : Nat) (ha : 2 ≤ a) (hlast : a < 3 + post) :
      Plain (operationOf loopWords (twoLoops ![x, y, z, 0] ![x', y', z', 0] post) a) := by
    rw [operationOf_twoLoops, twoLoopsCode, if_neg (by omega), if_neg (by omega), if_pos hlast]
    trivial
  have hsize : (Nest.body (x' % 2 ^ 8) (y' % 2 ^ 8) (z' % 2 ^ 8) 0).size = 2 := rfl
  refine ⟨⟨_, houter, rfl, hdest.trans (by simp only [Nest.size]; omega)⟩,
    fun i hi => absurd hi (Nat.not_lt_zero i), ⟨⟨loopTo 2 1, hinner, rfl, rfl⟩, fun i hi => ?_⟩,
    fun i hi => ?_⟩
  · exact hbody _ (by omega) (by omega)
  · exact hbody _ (by omega) (by omega)

/-- The interpreter comes to their end. -/
theorem at_twoLoops {outer inner : Vec4 Nat} {post n : Nat}
    (hrunning : ∀ k < n, (steps natFloats loopWords (twoLoops outer inner post)
      (start emptyUnit 0) k).status = .running)
    (hended : (steps natFloats loopWords (twoLoops outer inner post)
      (start emptyUnit 0) n).status = .ended) :
    At natFloats loopWords (twoLoops outer inner post) (start emptyUnit 0) 0 [] 0 :=
  ⟨rfl, noAssert_of_ended hrunning hended, rfl, rfl, rfl, rfl, rfl⟩

/-- Two loops that agree: both start from the same value, and the outer one does not change it. -/
theorem runsNested_iff_agree :
    RunsNested natFloats loopWords (twoLoops ![1, 2, 0, 0] ![1, 2, 3, 0] 1)
        (.loop 1 2 0 0 (.body 1 2 3 0) 1) 0 (start emptyUnit 0) ∧
      ((Nest.loop 1 2 0 0 (.body 1 2 3 0) 1).expected 0).countP (fun e => e.1 == 2) = 4 := by
  obtain ⟨hruns, htimes⟩ := runsNested_iff natFloats loopWords
    (twoLoops ![1, 2, 0, 0] ![1, 2, 3, 0] 1) (.loop 1 2 0 0 (.body 1 2 3 0) 1) 0
    (placed_twoLoops 1 2 0 1 2 3 (by decide)) (by decide) (start emptyUnit 0)
    (at_twoLoops (n := 10) (by decide +kernel) (by decide +kernel))
  exact ⟨hruns.2 (by decide), htimes⟩

/-- Two loops that are meant to begin with 0 at the inner one and to count with the outer one, and two
loops with the same end; no assertion fails. -/
theorem nested_loops_differ :
    (Placed loopWords (twoLoops ![1, 0, 1, 0] ![0, 0, 0, 0] 1) (.loop 1 0 1 0 (.body 0 0 0 0) 1) 0 ∧
      At natFloats loopWords (twoLoops ![1, 0, 1, 0] ![0, 0, 0, 0] 1) (start emptyUnit 0) 0 [] 0 ∧
      ¬ RunsNested natFloats loopWords (twoLoops ![1, 0, 1, 0] ![0, 0, 0, 0] 1)
        (.loop 1 0 1 0 (.body 0 0 0 0) 1) 0 (start emptyUnit 0)) ∧
    Placed loopWords (twoLoops ![1, 0, 1, 0] ![1, 0, 1, 0] 0) (.loop 1 0 1 0 (.body 1 0 1 0) 0) 0 ∧
      At natFloats loopWords (twoLoops ![1, 0, 1, 0] ![1, 0, 1, 0] 0) (start emptyUnit 0) 0 [] 0 ∧
      ¬ RunsNested natFloats loopWords (twoLoops ![1, 0, 1, 0] ![1, 0, 1, 0] 0)
        (.loop 1 0 1 0 (.body 1 0 1 0) 0) 0 (start emptyUnit 0) :=
  ⟨⟨placed_twoLoops 1 0 1 0 0 0 (by decide),
      at_twoLoops (n := 8) (by decide +kernel) (by decide +kernel),
      fun hruns => absurd hruns.2.2 (by decide +kernel)⟩,
    placed_twoLoops 1 0 1 1 0 1 (by decide),
    at_twoLoops (n := 5) (by decide +kernel) (by decide +kernel),
    fun hruns => absurd hruns.1 (by decide +kernel)⟩

end Interpreter

end AzaharPlus.Pica
