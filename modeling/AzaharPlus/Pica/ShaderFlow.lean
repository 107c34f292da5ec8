import AzaharPlus.Pica.ShaderInterpreter

/-!
# What an instruction does to the flow of control

Each instruction of `RunInterpreter` by its effect on the program counter, on the three stacks and on
the register aL.

* `KeepsFlow` — what the instructions that only work on registers leave as it is.
* `executed_execute` — the effect of the switch.
* `programCounter_step` — where a turn of the loop goes.
-/

namespace AzaharPlus.Pica

namespace Interpreter

variable {F : Type}

/-! ## The effect of an operation -/

section Effect

variable (setup : ShaderSetup F) (unit : ShaderUnit F)

/-- Where an instruction sets the program counter to. -/
def taken : Operation → Option Nat
  | .jmpc flow => if evaluateCondition unit flow then some flow.destOffset else none
  | .jmpu flow =>
      if setup.b flow.boolUniformId = (flow.numInstructions.val % 2 == 0) then some flow.destOffset
      else none
  | .call flow => some flow.destOffset
  | .callu flow => if setup.b flow.boolUniformId then some flow.destOffset else none
  | .callc flow => if evaluateCondition unit flow then some flow.destOffset else none
  | .ifu flow => if setup.b flow.boolUniformId then none else some flow.destOffset
  | .ifc flow => if evaluateCondition unit flow then none else some flow.destOffset
  | _ => none

/-- The scope of an `IF` whose condition holds. -/
def ifScope (flow : FlowControl) : IfStackElement :=
  ⟨flow.destOffset, flow.destOffset + flow.numInstructions⟩

/-- The scope of a `CALL` at an address. -/
def callScope (address : Nat) (flow : FlowControl) : CallStackElement :=
  ⟨flow.destOffset + flow.numInstructions, address + 1⟩

/-- The scope of a `LOOP` at an address: what is saved as the previous aL is the new one. -/
def loopScope (address : Nat) (flow : FlowControl) : LoopStackElement :=
  { entryAddress := address + 1
    endAddress := flow.destOffset + 1
    loopDowncounter := (loopParam setup flow).1
    addressIncrement := (loopParam setup flow).2.2
    previousAL := (loopParam setup flow).2.1 }

/-- The scopes of `IF` behind an instruction. -/
def ifScopes (stack : List IfStackElement) : Operation → List IfStackElement
  | .ifu flow => if setup.b flow.boolUniformId then pushBack 8 (ifScope flow) stack else stack
  | .ifc flow => if evaluateCondition unit flow then pushBack 8 (ifScope flow) stack else stack
  | _ => stack

/-- The scopes of `CALL` behind an instruction at an address. -/
def callScopes (address : Nat) (stack : List CallStackElement) : Operation → List CallStackElement
  | .call flow => pushBack 4 (callScope address flow) stack
  | .callu flow =>
      if setup.b flow.boolUniformId then pushBack 4 (callScope address flow) stack else stack
  | .callc flow =>
      if evaluateCondition unit flow then pushBack 4 (callScope address flow) stack else stack
  | _ => stack

/-- The scopes of `LOOP` behind an instruction at an address. -/
def loopScopes (address : Nat) (stack : List LoopStackElement) : Operation → List LoopStackElement
  | .loop flow => pushBack 4 (loopScope setup address flow) stack
  | _ => stack

/-- An instruction leaves a loop. -/
def breaks : Operation → Bool
  | .leave => true
  | .leaveIf flow => evaluateCondition unit flow
  | _ => false

/-- The interpreter stops with an instruction, or an assertion fails. -/
def halts : Operation → Bool
  | .stop => true
  | .emit => unit.emitter.all fun emitter => decide (3 ≤ emitter.vertexId)
  | .setemit _ _ _ => unit.emitter.isNone
  | _ => false

/-- The register aL behind an instruction. -/
def nextAL : Operation → Int
  | .loop flow => (loopParam setup flow).2.1
  | _ => unit.addressRegisters 2

/-- What the switch over the instructions does to the flow of control. -/
structure Executed (s : Interpreter F) (op : Operation) (t : Interpreter F × Bool) : Prop where
  programCounter : (t.1.programCounter + 1) % 2 ^ 32 =
    (taken setup s.unit op).getD (s.programCounter + 1)
  ifStack : t.1.ifStack = ifScopes setup s.unit s.ifStack op
  callStack : t.1.callStack = callScopes setup s.unit s.programCounter s.callStack op
  loopStack : t.1.loopStack = loopScopes setup s.programCounter s.loopStack op
  isBreak : t.2 = breaks s.unit op
  status : t.1.status = .running ↔ s.status = .running ∧ halts s.unit op = false
  al : t.1.unit.addressRegisters 2 = nextAL setup s.unit op

end Effect

/-! ## Instructions that work on registers -/

/-- The flow of control is as it was. -/
structure KeepsFlow (s t : Interpreter F) : Prop where
  programCounter : t.programCounter = s.programCounter
  ifStack : t.ifStack = s.ifStack
  callStack : t.callStack = s.callStack
  loopStack : t.loopStack = s.loopStack
  status : t.status = s.status
  al : t.unit.addressRegisters 2 = s.unit.addressRegisters 2

theorem KeepsFlow.trans {s t u : Interpreter F} (h : KeepsFlow s t) (h' : KeepsFlow t u) :
    KeepsFlow s u :=
  ⟨h'.1.trans h.1, h'.2.trans h.2, h'.3.trans h.3, h'.4.trans h.4, h'.5.trans h.5, h'.6.trans h.6⟩

theorem keepsFlow_use (s : Interpreter F) (accesses : List Access) :
    KeepsFlow s (s.use accesses) := ⟨rfl, rfl, rfl, rfl, rfl, rfl⟩

theorem keepsFlow_writeDest (s : Interpreter F) (dest : DestRegister) (swizzle : SwizzlePattern)
    (value : Vec4 F) : KeepsFlow s (s.writeDest dest swizzle value) := by
  cases dest with
  | output index => exact ⟨rfl, rfl, rfl, rfl, rfl, rfl⟩
  | temporary index => exact ⟨rfl, rfl, rfl, rfl, rfl, rfl⟩

variable (floats : ShaderFloats F) (nihstro : Nihstro) (setup : ShaderSetup F)

theorem keepsFlow_executeArithmetic (s : Interpreter F) (op : ArithmeticOp) (common : CommonFormat)
    (swizzle : SwizzlePattern) :
    KeepsFlow s (s.executeArithmetic floats setup op common swizzle) := by
  unfold executeArithmetic
  simp only
  split
  · exact (keepsFlow_use s _).trans (keepsFlow_writeDest _ _ _ _)
  · split
    · exact ⟨rfl, rfl, rfl, rfl, rfl, rfl⟩
    · exact ⟨rfl, rfl, rfl, rfl, rfl, rfl⟩
    · exact ⟨rfl, rfl, rfl, rfl, rfl, rfl⟩

theorem keepsFlow_executeMultiplyAdd (s : Interpreter F) (mad : MadFormat) :
    KeepsFlow s (s.executeMultiplyAdd floats nihstro setup mad) :=
  (keepsFlow_use s _).trans (keepsFlow_writeDest _ _ _ _)

/-! ## The switch -/

/-- An operation that works on registers alone. -/
theorem executed_of_keepsFlow (op : Operation) {s t : Interpreter F} (h : KeepsFlow s t)
    (hpc : s.programCounter < 2 ^ 31) (htaken : taken setup s.unit op = none)
    (hifs : ifScopes setup s.unit s.ifStack op = s.ifStack)
    (hcalls : callScopes setup s.unit s.programCounter s.callStack op = s.callStack)
    (hloops : loopScopes setup s.programCounter s.loopStack op = s.loopStack)
    {isBreak : Bool} (hbreak : isBreak = breaks s.unit op) (hhalts : halts s.unit op = false)
    (hal : nextAL setup s.unit op = s.unit.addressRegisters 2) :
    Executed setup s op (t, isBreak) where
  programCounter := by
    rw [h.programCounter, htaken]
    exact Nat.mod_eq_of_lt (by omega)
  ifStack := h.ifStack.trans hifs.symm
  callStack := h.callStack.trans hcalls.symm
  loopStack := h.loopStack.trans hloops.symm
  isBreak := hbreak
  status := by
    rw [h.status, hhalts]
    exact (and_iff_left rfl).symm
  al := h.al.trans hal.symm

/-- The increment takes the program counter to where a jump goes. -/
theorem jump_succ (s : Interpreter F) (dest : Fin 4096) :
    ((s.jump dest).programCounter + 1) % 2 ^ 32 = dest := by
  have hlt := dest.isLt
  unfold jump
  simp only
  split
  · omega
  · omega

/-- A jump, behind reads of registers. -/
theorem executed_jump (op : Operation) {s t : Interpreter F} (h : KeepsFlow s t)
    (dest : Fin 4096) (htaken : taken setup s.unit op = some dest.val)
    (hifs : ifScopes setup s.unit s.ifStack op = s.ifStack)
    (hcalls : callScopes setup s.unit s.programCounter s.callStack op = s.callStack)
    (hloops : loopScopes setup s.programCounter s.loopStack op = s.loopStack)
    (hbreak : breaks s.unit op = false) (hhalts : halts s.unit op = false)
    (hal : nextAL setup s.unit op = s.unit.addressRegisters 2) :
    Executed setup s op (t.jump dest, false) where
  programCounter := by
    rw [jump_succ, htaken]
    rfl
  ifStack := h.ifStack.trans hifs.symm
  callStack := h.callStack.trans hcalls.symm
  loopStack := h.loopStack.trans hloops.symm
  isBreak := hbreak.symm
  status := by
    rw [hhalts]
    exact (iff_of_eq (congrArg (· = Status.running) h.status)).trans (and_iff_left rfl).symm
  al := h.al.trans hal.symm

/-- A call that is taken, behind reads of registers. -/
theorem executed_call (op : Operation) {s t : Interpreter F} (h : KeepsFlow s t)
    (flow : FlowControl) (htaken : taken setup s.unit op = some flow.destOffset.val)
    (hifs : ifScopes setup s.unit s.ifStack op = s.ifStack)
    (hcalls : callScopes setup s.unit s.programCounter s.callStack op =
      pushBack 4 (callScope s.programCounter flow) s.callStack)
    (hloops : loopScopes setup s.programCounter s.loopStack op = s.loopStack)
    (hbreak : breaks s.unit op = false) (hhalts : halts s.unit op = false)
    (hal : nextAL setup s.unit op = s.unit.addressRegisters 2) :
    Executed setup s op (t.doCall flow, false) where
  programCounter := by
    rw [doCall, jump_succ, htaken]
    rfl
  ifStack := h.ifStack.trans hifs.symm
  callStack := by
    rw [hcalls, ← h.programCounter, ← h.callStack]
    rfl
  loopStack := h.loopStack.trans hloops.symm
  isBreak := hbreak.symm
  status := by
    rw [hhalts]
    exact (iff_of_eq (congrArg (· = Status.running) h.status)).trans (and_iff_left rfl).symm
  al := h.al.trans hal.symm

/-- An `IF`, behind reads of registers. -/
theorem executed_if (op : Operation) {s t : Interpreter F} (h : KeepsFlow s t)
    (hpc : s.programCounter < 2 ^ 31) (flow : FlowControl) (condition : Bool)
    (htaken : taken setup s.unit op = if condition then none else some flow.destOffset.val)
    (hifs : ifScopes setup s.unit s.ifStack op =
      if condition then pushBack 8 (ifScope flow) s.ifStack else s.ifStack)
    (hcalls : callScopes setup s.unit s.programCounter s.callStack op = s.callStack)
    (hloops : loopScopes setup s.programCounter s.loopStack op = s.loopStack)
    (hbreak : breaks s.unit op = false) (hhalts : halts s.unit op = false)
    (hal : nextAL setup s.unit op = s.unit.addressRegisters 2) :
    Executed setup s op (t.doIf flow condition, false) := by
  cases condition with
  | false => exact executed_jump setup op h flow.destOffset htaken hifs hcalls hloops hbreak hhalts hal
  | true =>
    refine ⟨?_, ?_, h.callStack.trans hcalls.symm, h.loopStack.trans hloops.symm, hbreak.symm, ?_,
      h.al.trans hal.symm⟩
    · rw [htaken]
      change (t.programCounter + 1) % 2 ^ 32 = s.programCounter + 1
      rw [h.programCounter]
      exact Nat.mod_eq_of_lt (by omega)
    · rw [hifs, ← h.ifStack]
      rfl
    · rw [hhalts]
      exact (iff_of_eq (congrArg (· = Status.running) h.status)).trans (and_iff_left rfl).symm

/-- `EMIT` -/
theorem executed_emit (s : Interpreter F) (accesses : List Access) (hpc : s.programCounter < 2 ^ 31) :
    Executed setup s .emit ((s.use accesses).emit, false) := by
  have hnext : (s.programCounter + 1) % 2 ^ 32 = s.programCounter + 1 :=
    Nat.mod_eq_of_lt (by omega)
  unfold emit
  split
  · rename_i hnone
    refine ⟨hnext, rfl, rfl, rfl, rfl, ?_, rfl⟩
    have hhalts : halts s.unit .emit = true := by
      rw [halts, show s.unit.emitter = none from hnone]
      rfl
    simp [hhalts]
  · rename_i emitter hsome
    have hhalts : halts s.unit .emit = decide (3 ≤ emitter.vertexId) := by
      rw [halts, show s.unit.emitter = some emitter from hsome]
      rfl
    split
    · rename_i hlt
      refine ⟨hnext, rfl, rfl, rfl, rfl, ?_, rfl⟩
      rw [hhalts, decide_eq_false (by omega)]
      exact (and_iff_left rfl).symm
    · rename_i hge
      refine ⟨hnext, rfl, rfl, rfl, rfl, ?_, rfl⟩
      rw [hhalts, decide_eq_true (by omega)]
      simp

/-- `SETEMIT` -/
theorem executed_setEmit (s : Interpreter F) (accesses : List Access)
    (hpc : s.programCounter < 2 ^ 31) (vertexId : Fin 4) (primEmit winding : Bool) :
    Executed setup s (.setemit vertexId primEmit winding)
      ((s.use accesses).setEmit vertexId primEmit winding, false) := by
  have hnext : (s.programCounter + 1) % 2 ^ 32 = s.programCounter + 1 :=
    Nat.mod_eq_of_lt (by omega)
  unfold setEmit
  split
  · rename_i hnone
    refine ⟨hnext, rfl, rfl, rfl, rfl, ?_, rfl⟩
    have hhalts : halts s.unit (.setemit vertexId primEmit winding) = true := by
      rw [halts, show s.unit.emitter = none from hnone]
      rfl
    simp [hhalts]
  · rename_i emitter hsome
    refine ⟨hnext, rfl, rfl, rfl, rfl, ?_, rfl⟩
    have hhalts : halts s.unit (.setemit vertexId primEmit winding) = false := by
      rw [halts, show s.unit.emitter = some emitter from hsome]
      rfl
    rw [hhalts]
    exact (and_iff_left rfl).symm

/-- `LOOP`: aL is set before it is saved. -/
theorem executed_loop (s : Interpreter F) (a b : List Access) (hpc : s.programCounter < 2 ^ 31)
    (flow : FlowControl) :
    Executed setup s (.loop flow)
      ((((s.use a).use b).setAL (loopParam setup flow).2.1).doLoop flow (loopParam setup flow),
        false) where
  programCounter := Nat.mod_eq_of_lt (by change s.programCounter + 1 < 2 ^ 32; omega)
  ifStack := rfl
  callStack := rfl
  loopStack := by
    have hsaved : (((loopParam setup flow).2.1 : Int) % 2 ^ 8).toNat = (loopParam setup flow).2.1 := by
      have hlt : (loopParam setup flow).2.1 < 2 ^ 8 := Nat.mod_lt _ (by decide)
      omega
    unfold doLoop setAL loopScopes loopScope
    simp only [Function.update_self, hsaved]
    rfl
  isBreak := rfl
  status := (and_iff_left rfl).symm
  al := by
    unfold doLoop setAL
    simp only [Function.update_self]
    rfl

/-- **The switch over the instructions** has the effect of the operation. -/
theorem executed_execute (s : Interpreter F) (instr : Instruction) (hpc : s.programCounter < 2 ^ 31) :
    Executed setup s instr.operation (s.execute floats nihstro setup instr) := by
  have hnext : (s.programCounter + 1) % 2 ^ 32 = s.programCounter + 1 :=
    Nat.mod_eq_of_lt (by omega)
  unfold execute
  cases hop : instr.operation with
  | arithmetic op common =>
    exact executed_of_keepsFlow setup (.arithmetic op common)
      ((keepsFlow_use s _).trans (keepsFlow_executeArithmetic floats setup _ _ _ _))
      hpc rfl rfl rfl rfl rfl rfl rfl
  | multiplyAdd mad =>
    exact executed_of_keepsFlow setup (.multiplyAdd mad)
      ((keepsFlow_use s _).trans (keepsFlow_executeMultiplyAdd floats nihstro setup _ _))
      hpc rfl rfl rfl rfl rfl rfl rfl
  | nop => exact executed_of_keepsFlow setup .nop (keepsFlow_use s _) hpc rfl rfl rfl rfl rfl rfl rfl
  | unhandled =>
    exact executed_of_keepsFlow setup .unhandled (keepsFlow_use s _) hpc rfl rfl rfl rfl rfl rfl rfl
  | leave => exact executed_of_keepsFlow setup .leave (keepsFlow_use s _) hpc rfl rfl rfl rfl rfl rfl rfl
  | leaveIf flow =>
    exact executed_of_keepsFlow setup (.leaveIf flow) ((keepsFlow_use s _).trans (keepsFlow_use _ _)) hpc
      rfl rfl rfl rfl rfl rfl rfl
  | stop =>
    refine ⟨hnext, rfl, rfl, rfl, rfl, ?_, rfl⟩
    simp [halts]
  | jmpc flow =>
    simp only
    split
    · rename_i hcondition
      exact executed_jump setup (.jmpc flow) ((keepsFlow_use s _).trans (keepsFlow_use _ _)) _
        (if_pos hcondition) rfl rfl rfl rfl rfl rfl
    · rename_i hcondition
      exact executed_of_keepsFlow setup (.jmpc flow) ((keepsFlow_use s _).trans (keepsFlow_use _ _)) hpc
        (if_neg hcondition) rfl rfl rfl rfl rfl rfl
  | jmpu flow =>
    simp only
    split
    · rename_i hcondition
      exact executed_jump setup (.jmpu flow) ((keepsFlow_use s _).trans (keepsFlow_use _ _)) _
        (if_pos hcondition) rfl rfl rfl rfl rfl rfl
    · rename_i hcondition
      exact executed_of_keepsFlow setup (.jmpu flow) ((keepsFlow_use s _).trans (keepsFlow_use _ _)) hpc
        (if_neg hcondition) rfl rfl rfl rfl rfl rfl
  | call flow => exact executed_call setup (.call flow) (keepsFlow_use s _) flow rfl rfl rfl rfl rfl rfl rfl
  | callu flow =>
    simp only
    split
    · rename_i hcondition
      exact executed_call setup (.callu flow) ((keepsFlow_use s _).trans (keepsFlow_use _ _)) flow
        (if_pos hcondition) rfl (if_pos hcondition) rfl rfl rfl rfl
    · rename_i hcondition
      exact executed_of_keepsFlow setup (.callu flow) ((keepsFlow_use s _).trans (keepsFlow_use _ _)) hpc
        (if_neg hcondition) rfl (if_neg hcondition) rfl rfl rfl rfl
  | callc flow =>
    simp only
    split
    · rename_i hcondition
      exact executed_call setup (.callc flow) ((keepsFlow_use s _).trans (keepsFlow_use _ _)) flow
        (if_pos hcondition) rfl (if_pos hcondition) rfl rfl rfl rfl
    · rename_i hcondition
      exact executed_of_keepsFlow setup (.callc flow) ((keepsFlow_use s _).trans (keepsFlow_use _ _)) hpc
        (if_neg hcondition) rfl (if_neg hcondition) rfl rfl rfl rfl
  | ifu flow =>
    exact executed_if setup (.ifu flow) ((keepsFlow_use s _).trans (keepsFlow_use _ _)) hpc flow _
      rfl rfl rfl rfl rfl rfl rfl
  | ifc flow =>
    exact executed_if setup (.ifc flow) ((keepsFlow_use s _).trans (keepsFlow_use _ _)) hpc flow _
      rfl rfl rfl rfl rfl rfl rfl
  | loop flow => exact executed_loop setup s _ _ hpc flow
  | emit => exact executed_emit setup s _ hpc
  | setemit vertexId primEmit winding => exact executed_setEmit setup s _ hpc vertexId primEmit winding

/-! ## The scopes that end -/

/-- The address to which the ending scopes of `CALL` return, if there are any, and the scopes that
stay. -/
def returns : Nat → Nat → List CallStackElement → Option Nat × List CallStackElement
  | 0, _, stack => (none, stack)
  | _ + 1, _, [] => (none, [])
  | turns + 1, next, top :: rest =>
      if top.endAddress ≠ next then (none, top :: rest)
      else if turns > 0 then
        (some ((returns turns top.returnAddress rest).1.getD top.returnAddress),
          (returns turns top.returnAddress rest).2)
      else (none, rest)

/-- The scope of `IF` whose `else` is behind an address. -/
def closingIf (old : Nat) : List IfStackElement → Option IfStackElement
  | [] => none
  | top :: _ => if top.elseAddress = old + 1 then some top else none

/-- The scope of `LOOP` that ends behind an address or is left. -/
def closingLoop (old : Nat) (isBreak : Bool) : List LoopStackElement → Option LoopStackElement
  | [] => none
  | top :: _ => if top.endAddress = old + 1 ∨ isBreak = true then some top else none

/-- Where an ending scope of `LOOP` goes. -/
def loopTarget (isBreak : Bool) (top : LoopStackElement) : Nat :=
  if isBreak = false ∧ top.loopDowncounter ≠ 0 then top.entryAddress else top.endAddress

theorem closeCalls_eq (turns next : Nat) (s : Interpreter F) :
    closeCalls turns next s =
      { s with
        programCounter := (returns turns next s.callStack).1.getD s.programCounter
        callStack := (returns turns next s.callStack).2 } := by
  induction turns generalizing next s with
  | zero => rfl
  | succ turns ih =>
    unfold closeCalls
    split
    · rename_i hnil
      rw [hnil]
      simp only [returns, Option.getD_none]
      rw [← hnil]
    · rename_i top rest hcons
      rw [hcons, returns]
      by_cases hend : top.endAddress ≠ next
      · simp only [if_pos hend, Option.getD_none]
        rw [← hcons]
      · simp only [if_neg hend]
        by_cases hturns : turns > 0
        · simp only [if_pos hturns, ih, Option.getD_some]
        · have hzero : turns = 0 := by omega
          subst hzero
          simp only [if_neg hturns, ih]
          rfl

theorem closeIf_eq (old : Nat) (s : Interpreter F) :
    closeIf old s =
      match closingIf old s.ifStack with
      | some top => { s with programCounter := top.endAddress, ifStack := s.ifStack.tail }
      | none => s := by
  unfold closeIf
  cases hstack : s.ifStack with
  | nil => rfl
  | cons top rest =>
    unfold closingIf
    by_cases helse : top.elseAddress = old + 1
    · simp only [if_pos helse, List.tail_cons]
    · simp only [if_neg helse]

theorem closeLoop_eq (old : Nat) (isBreak : Bool) (s : Interpreter F) :
    closeLoop old isBreak s =
      match closingLoop old isBreak s.loopStack with
      | some top =>
        let t := (s.setAL (s.unit.addressRegisters 2 + top.addressIncrement)).use
          [.addressRegister 2]
        if isBreak = false ∧ top.loopDowncounter ≠ 0 then
          { t with
            programCounter := top.entryAddress
            loopStack :=
              { top with loopDowncounter := top.loopDowncounter - 1 } :: s.loopStack.tail }
        else
          { if s.loopStack.tail ≠ [] then t.setAL top.previousAL else t with
            programCounter := top.endAddress
            loopStack := s.loopStack.tail }
      | none => s := by
  unfold closeLoop
  cases hstack : s.loopStack with
  | nil => rfl
  | cons top rest =>
    unfold closingLoop
    by_cases hend : top.endAddress = old + 1 ∨ isBreak = true
    · simp only [if_pos hend, List.tail_cons]
      rfl
    · simp only [if_neg hend]

/-! ## A turn of the loop -/

/-- The operation at the program counter. -/
def operationAt (s : Interpreter F) : Operation :=
  (nihstro.instruction (setup.programCode s.programCounter)).operation

/-- The state behind the switch. -/
def executed (s : Interpreter F) : Interpreter F × Bool :=
  (s.use [.programCode s.programCounter]).execute floats nihstro setup
    (nihstro.instruction (setup.programCode s.programCounter))

theorem executed_spec (s : Interpreter F) (hpc : s.programCounter < 2 ^ 31) :
    Executed setup s (operationAt nihstro setup s) (executed floats nihstro setup s) := by
  have hspec := executed_execute floats nihstro setup (s.use [.programCode s.programCounter])
    (nihstro.instruction (setup.programCode s.programCounter)) hpc
  exact ⟨hspec.1, hspec.2, hspec.3, hspec.4, hspec.5, hspec.6, hspec.7⟩

/-- Where a turn of the loop goes: the scope of a loop decides before that of an `IF`, this one before
those of calls, and these before the instruction itself. -/
def nextAddress (s : Interpreter F) : Nat :=
  let op := operationAt nihstro setup s
  let old := s.programCounter
  match closingLoop old (breaks s.unit op) (loopScopes setup old s.loopStack op) with
  | some top => loopTarget (breaks s.unit op) top
  | none =>
      match closingIf old (ifScopes setup s.unit s.ifStack op) with
      | some top => top.endAddress
      | none =>
          (returns 4 (old + 1) (callScopes setup s.unit old s.callStack op)).1.getD
            ((taken setup s.unit op).getD (old + 1))

theorem step_of_running {s : Interpreter F} (h : s.status = .running) :
    step floats nihstro setup s =
      closeLoop s.programCounter (executed floats nihstro setup s).2
        (closeIf s.programCounter (closeCalls 4 (s.programCounter + 1)
          { (executed floats nihstro setup s).1 with
            programCounter :=
              ((executed floats nihstro setup s).1.programCounter + 1) % 2 ^ 32 })) := by
  unfold step
  rw [if_pos h]
  rfl

/-- A turn of the loop when the interpreter has stopped. -/
theorem step_of_stopped {s : Interpreter F} (h : s.status ≠ .running) :
    step floats nihstro setup s = s := if_neg h

theorem loopStack_closeIf (old : Nat) (s : Interpreter F) :
    (closeIf old s).loopStack = s.loopStack ∧ (closeIf old s).unit = s.unit ∧
      (closeIf old s).status = s.status ∧ (closeIf old s).accesses = s.accesses := by
  rw [closeIf_eq]
  split
  · exact ⟨rfl, rfl, rfl, rfl⟩
  · exact ⟨rfl, rfl, rfl, rfl⟩

theorem status_closeLoop (old : Nat) (isBreak : Bool) (s : Interpreter F) :
    (closeLoop old isBreak s).status = s.status := by
  rw [closeLoop_eq]
  split
  · simp only
    split
    · rfl
    · split
      · rfl
      · rfl
  · rfl

theorem programCounter_closeLoop (old : Nat) (isBreak : Bool) (s : Interpreter F) :
    (closeLoop old isBreak s).programCounter =
      match closingLoop old isBreak s.loopStack with
      | some top => loopTarget isBreak top
      | none => s.programCounter := by
  rw [closeLoop_eq]
  unfold loopTarget
  split
  · simp only
    split
    · rfl
    · rfl
  · rfl

/-- **Where a turn of the loop goes.** -/
theorem programCounter_step {s : Interpreter F} (h : s.status = .running)
    (hpc : s.programCounter < 2 ^ 31) :
    (step floats nihstro setup s).programCounter = nextAddress nihstro setup s := by
  have hspec := executed_spec floats nihstro setup s hpc
  rw [step_of_running floats nihstro setup h, programCounter_closeLoop, (loopStack_closeIf _ _).1,
    closeCalls_eq]
  simp only
  rw [hspec.loopStack, hspec.isBreak, closeIf_eq]
  simp only
  rw [hspec.ifStack, hspec.callStack, hspec.programCounter]
  unfold nextAddress
  simp only
  split
  · rfl
  · split
    · rfl
    · rfl

/-- A turn of the loop is followed by another one unless its instruction stops the interpreter. -/
theorem status_step {s : Interpreter F} (h : s.status = .running)
    (hpc : s.programCounter < 2 ^ 31) :
    (step floats nihstro setup s).status = .running ↔
      halts s.unit (operationAt nihstro setup s) = false := by
  have hspec := executed_spec floats nihstro setup s hpc
  rw [step_of_running floats nihstro setup h, status_closeLoop, (loopStack_closeIf _ _).2.2.1,
    closeCalls_eq]
  exact hspec.status.trans (and_iff_right h)

end Interpreter

end AzaharPlus.Pica
