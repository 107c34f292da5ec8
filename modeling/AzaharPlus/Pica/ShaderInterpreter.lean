import AzaharPlus.Pica.ShaderUnit

/-!
# The shader interpreter

`RunInterpreter` of `video_core/shader/shader_interpreter.cpp`.  The encoding of instructions and
swizzle patterns belongs to nihstro and is a parameter, and so are the operations on floats; the types
of decoded instructions have the widths of nihstro's fields.  The records for the debugger are left
out.

* `execute` — the switch over the instructions.
* `closeCalls`, `closeIf`, `closeLoop` — the stacks behind an instruction.
* `step` — a turn of the loop.
-/

namespace AzaharPlus.Pica

/-! ## Instructions -/

/-- `SourceRegister`, by its type and index. -/
inductive SourceRegister where
  | input (index : Fin 16)
  | temporary (index : Fin 16)
  | floatUniform (index : Fin 96)
  deriving DecidableEq, Repr

/-- `DestRegister`, by its type and index. -/
inductive DestRegister where
  | output (index : Fin 16)
  | temporary (index : Fin 16)
  deriving DecidableEq, Repr

/-- `CompareOpType::Op` -/
inductive CompareOp where
  | equal
  | notEqual
  | lessThan
  | lessEqual
  | greaterThan
  | greaterEqual
  | unknown
  deriving DecidableEq, Repr

/-- `SwizzlePattern` -/
structure SwizzlePattern where
  negate : Fin 3 → Bool
  selector : Fin 3 → Fin 4 → Fin 4
  destComponentEnabled : Fin 4 → Bool

/-- `FlowControlType::Op` -/
inductive ConditionOp where
  | or
  | and
  | justX
  | justY
  deriving DecidableEq, Repr

/-- `FlowControlType` -/
structure FlowControl where
  destOffset : Fin 4096
  numInstructions : Fin 256
  boolUniformId : Fin 16
  intUniformId : Fin 4
  op : ConditionOp
  refx : Bool
  refy : Bool
  deriving DecidableEq, Repr

/-- The arithmetic instructions; `DPHI`, `SGEI` and `SLTI` differ from the others in their operands. -/
inductive ArithmeticOp where
  | add
  | mul
  | flr
  | max
  | min
  | dp3
  | dp4
  | dph
  | rcp
  | rsq
  | mova
  | mov
  | sge
  | slt
  | cmp (x y : CompareOp)
  | ex2
  | lg2
  | unhandled
  deriving DecidableEq, Repr

/-- The operands of an arithmetic instruction. -/
structure CommonFormat where
  src1 : SourceRegister
  src2 : SourceRegister
  isInverted : Bool
  addressRegisterIndex : Fin 4
  dest : DestRegister
  deriving DecidableEq, Repr

/-- The operands of `MAD` and `MADI`. -/
structure MadFormat where
  src1 : SourceRegister
  src2 : SourceRegister
  src3 : SourceRegister
  isInverted : Bool
  addressRegisterIndex : Fin 4
  dest : DestRegister
  operandDescId : Fin 32
  deriving DecidableEq, Repr

/-- The instructions by their opcodes; `stop` is `END`, and `leave` and `leaveIf` are `BREAK` and
`BREAKC`. -/
inductive Operation where
  | arithmetic (op : ArithmeticOp) (common : CommonFormat)
  | multiplyAdd (mad : MadFormat)
  | stop
  | jmpc (flow : FlowControl)
  | jmpu (flow : FlowControl)
  | call (flow : FlowControl)
  | callu (flow : FlowControl)
  | callc (flow : FlowControl)
  | nop
  | ifu (flow : FlowControl)
  | ifc (flow : FlowControl)
  | loop (flow : FlowControl)
  | leave
  | leaveIf (flow : FlowControl)
  | emit
  | setemit (vertexId : Fin 4) (primEmit winding : Bool)
  | unhandled
  deriving DecidableEq, Repr

/-- `Instruction` -/
structure Instruction where
  operandDescId : Fin 128
  operation : Operation
  deriving DecidableEq, Repr

/-- How nihstro reads the words of a program. -/
structure Nihstro where
  instruction : BitVec 32 → Instruction
  swizzle : BitVec 32 → SwizzlePattern

/-- The operations on `f24` that the instructions use; `rcp`, `rsq`, `floor`, `exp2` and `log2` go by way
of `float`, and `toInt` is the conversion to `s32`. -/
structure ShaderFloats (F : Type) where
  zero : F
  one : F
  add : F → F → F
  mul : F → F → F
  neg : F → F
  lt : F → F → Bool
  le : F → F → Bool
  eq : F → F → Bool
  floor : F → F
  rcp : F → F
  rsq : F → F
  exp2 : F → F
  log2 : F → F
  toInt : F → Int

/-! ## The state -/

/-- `IfStackElement` -/
structure IfStackElement where
  elseAddress : Nat
  endAddress : Nat
  deriving DecidableEq, Repr

/-- `CallStackElement` -/
structure CallStackElement where
  endAddress : Nat
  returnAddress : Nat
  deriving DecidableEq, Repr

/-- `LoopStackElement` -/
structure LoopStackElement where
  entryAddress : Nat
  endAddress : Nat
  loopDowncounter : Nat
  addressIncrement : Nat
  previousAL : Nat
  deriving DecidableEq, Repr

/-- `push_back` of `circular_buffer`, whose last element stands first here: a full buffer loses its
first element. -/
def pushBack {α : Type} (capacity : Nat) (e : α) (stack : List α) : List α :=
  (e :: stack).take capacity

/-- An element of an array is read or written. -/
inductive Access where
  | programCode (index : Nat)
  | swizzleData (index : Nat)
  | input (index : Nat)
  | temporary (index : Nat)
  | output (index : Nat)
  | floatUniform (index : Nat)
  | boolUniform (index : Nat)
  | intUniform (index : Nat)
  | addressRegister (index : Nat)
  | conditionalCode (index : Nat)
  | emitterVertex (index : Nat)
  | emitterAttribute (index : Nat)
  deriving DecidableEq, Repr

/-- The interpreter goes on, has come to `END`, or an assertion has failed. -/
inductive Status where
  | running
  | ended
  | asserted
  deriving DecidableEq, Repr

/-- The variables of `RunInterpreter` and the shader unit, with the elements that have been used. -/
structure Interpreter (F : Type) where
  programCounter : Nat
  ifStack : List IfStackElement
  callStack : List CallStackElement
  loopStack : List LoopStackElement
  unit : ShaderUnit F
  status : Status
  accesses : List Access

namespace Interpreter

local instance sourceOperands : NeZero 3 := ⟨Nat.succ_ne_zero 2⟩

local instance components : NeZero 4 := ⟨Nat.succ_ne_zero 3⟩

variable {F : Type}

/-- Elements are used. -/
def use (s : Interpreter F) (accesses : List Access) : Interpreter F :=
  { s with accesses := s.accesses ++ accesses }

/-- An assignment to the program counter that the increment behind the switch takes to an address. -/
def jump (s : Interpreter F) (dest : Nat) : Interpreter F :=
  { s with programCounter := if dest = 0 then 2 ^ 32 - 1 else dest - 1 }

section Code

variable (floats : ShaderFloats F) (nihstro : Nihstro) (setup : ShaderSetup F)

/-! ## Operands -/

/-- The index of a uniform relative to an address register; a value that is no `s8` counts as 0. -/
def relativeIndex (register : Int) (index : Nat) : Nat :=
  let offset := if register < -128 ∨ register > 127 then 0 else register
  ((index + offset) % 128).toNat

/-- `LookupSourceRegister` -/
def lookupSourceRegister (unit : ShaderUnit F) (sourceReg : SourceRegister)
    (addressRegisterIndex : Nat) : Vec4 F × List Access :=
  match sourceReg with
  | .input index => (unit.input index, [.input index])
  | .temporary index => (unit.temporary index, [.temporary index])
  | .floatUniform index =>
      if addressRegisterIndex ≠ 0 then
        let index := relativeIndex (unit.addressRegisters (addressRegisterIndex - 1)) index
        if index ≥ 96 then (fun _ => floats.one, [.addressRegister (addressRegisterIndex - 1)])
        else (setup.f index, [.addressRegister (addressRegisterIndex - 1), .floatUniform index])
      else (setup.f index, [.floatUniform index])

/-- An operand behind its swizzle pattern. -/
def operand (swizzle : SwizzlePattern) (k : Fin 3) (v : Vec4 F) : Vec4 F := fun i =>
  if swizzle.negate k then floats.neg (v (swizzle.selector k i)) else v (swizzle.selector k i)

/-- `std::inner_product` of the first components. -/
def dot (components : List (Fin 4)) (src1 src2 : Vec4 F) : F :=
  components.foldl (fun acc i => floats.add acc (floats.mul (src1 i) (src2 i))) floats.zero

/-- What an arithmetic instruction writes to its destination. -/
def arithmeticResult (op : ArithmeticOp) (src1 src2 : Vec4 F) : Option (Vec4 F) :=
  match op with
  | .add => some fun i => floats.add (src1 i) (src2 i)
  | .mul => some fun i => floats.mul (src1 i) (src2 i)
  | .flr => some fun i => floats.floor (src1 i)
  | .max => some fun i => if floats.lt (src2 i) (src1 i) then src1 i else src2 i
  | .min => some fun i => if floats.lt (src1 i) (src2 i) then src1 i else src2 i
  | .dp3 => some fun _ => dot floats [0, 1, 2] src1 src2
  | .dp4 => some fun _ => dot floats [0, 1, 2, 3] src1 src2
  | .dph => some fun _ => dot floats [0, 1, 2, 3] (Function.update src1 3 floats.one) src2
  | .rcp => some fun _ => floats.rcp (src1 0)
  | .rsq => some fun _ => floats.rsq (src1 0)
  | .mov => some src1
  | .sge => some fun i => if floats.le (src2 i) (src1 i) then floats.one else floats.zero
  | .slt => some fun i => if floats.lt (src1 i) (src2 i) then floats.one else floats.zero
  | .ex2 => some fun _ => floats.exp2 (src1 0)
  | .lg2 => some fun _ => floats.log2 (src1 0)
  | .mova => none
  | .cmp _ _ => none
  | .unhandled => none

/-- The comparisons of `CMP`; an unknown one leaves the code as it was. -/
def compare (op : CompareOp) (a b : F) (old : Bool) : Bool :=
  match op with
  | .equal => floats.eq a b
  | .notEqual => !floats.eq a b
  | .lessThan => floats.lt a b
  | .lessEqual => floats.le a b
  | .greaterThan => floats.lt b a
  | .greaterEqual => floats.le b a
  | .unknown => old

/-- The components of a destination that the mask enables are written. -/
def writeDest (s : Interpreter F) (dest : DestRegister) (swizzle : SwizzlePattern)
    (value : Vec4 F) : Interpreter F :=
  match dest with
  | .output index =>
      { s with unit := { s.unit with
          output := Function.update s.unit.output index fun i =>
            if swizzle.destComponentEnabled i then value i else s.unit.output index i } }.use
        [.output index]
  | .temporary index =>
      { s with unit := { s.unit with
          temporary := Function.update s.unit.temporary index fun i =>
            if swizzle.destComponentEnabled i then value i else s.unit.temporary index i } }.use
        [.temporary index]

/-- `MOVA` -/
def writeAddressRegisters (s : Interpreter F) (swizzle : SwizzlePattern) (src1 : Vec4 F) :
    Interpreter F :=
  { s with unit := { s.unit with
      addressRegisters := fun i =>
        if i = 0 ∧ swizzle.destComponentEnabled 0 = true then floats.toInt (src1 0)
        else if i = 1 ∧ swizzle.destComponentEnabled 1 = true then floats.toInt (src1 1)
        else s.unit.addressRegisters i } }.use [.addressRegister 0, .addressRegister 1]

/-- `CMP` -/
def writeConditionalCode (s : Interpreter F) (x y : CompareOp) (src1 src2 : Vec4 F) :
    Interpreter F :=
  { s with unit := { s.unit with
      conditionalCode := fun i =>
        if i = 0 then compare floats x (src1 0) (src2 0) (s.unit.conditionalCode 0)
        else if i = 1 then compare floats y (src1 1) (src2 1) (s.unit.conditionalCode 1)
        else s.unit.conditionalCode i } }.use [.conditionalCode 0, .conditionalCode 1]

/-- The arithmetic instructions. -/
def executeArithmetic (s : Interpreter F) (op : ArithmeticOp) (common : CommonFormat)
    (swizzle : SwizzlePattern) : Interpreter F :=
  let (v1, a1) := lookupSourceRegister floats setup s.unit common.src1
    (if common.isInverted then 0 else common.addressRegisterIndex)
  let (v2, a2) := lookupSourceRegister floats setup s.unit common.src2
    (if common.isInverted then common.addressRegisterIndex else 0)
  let src1 := operand floats swizzle 0 v1
  let src2 := operand floats swizzle 1 v2
  let s := s.use (a1 ++ a2)
  match arithmeticResult floats op src1 src2 with
  | some value => s.writeDest common.dest swizzle value
  | none =>
      match op with
      | .mova => s.writeAddressRegisters floats swizzle src1
      | .cmp x y => s.writeConditionalCode floats x y src1 src2
      | _ => s

/-- `MAD` and `MADI` -/
def executeMultiplyAdd (s : Interpreter F) (mad : MadFormat) : Interpreter F :=
  let swizzle := nihstro.swizzle (setup.swizzleData mad.operandDescId)
  let (v1, a1) := lookupSourceRegister floats setup s.unit mad.src1 0
  let (v2, a2) := lookupSourceRegister floats setup s.unit mad.src2
    (if mad.isInverted then 0 else mad.addressRegisterIndex)
  let (v3, a3) := lookupSourceRegister floats setup s.unit mad.src3
    (if mad.isInverted then mad.addressRegisterIndex else 0)
  let src1 := operand floats swizzle 0 v1
  let src2 := operand floats swizzle 1 v2
  let src3 := operand floats swizzle 2 v3
  (s.use (.swizzleData mad.operandDescId :: a1 ++ a2 ++ a3)).writeDest mad.dest swizzle fun i =>
    floats.add (floats.mul (src1 i) (src2 i)) (src3 i)

/-! ## Flow control -/

/-- `evaluate_condition` -/
def evaluateCondition (unit : ShaderUnit F) (flow : FlowControl) : Bool :=
  let resultX := flow.refx == unit.conditionalCode 0
  let resultY := flow.refy == unit.conditionalCode 1
  match flow.op with
  | .or => resultX || resultY
  | .and => resultX && resultY
  | .justX => resultX
  | .justY => resultY

/-- `do_if` -/
def doIf (s : Interpreter F) (flow : FlowControl) (condition : Bool) : Interpreter F :=
  if condition then
    { s with
      ifStack := pushBack 8
        ⟨flow.destOffset, flow.destOffset + flow.numInstructions⟩ s.ifStack }
  else s.jump flow.destOffset

/-- `do_call` -/
def doCall (s : Interpreter F) (flow : FlowControl) : Interpreter F :=
  { s with
    callStack := pushBack 4
      ⟨flow.destOffset + flow.numInstructions, s.programCounter + 1⟩ s.callStack }.jump
    flow.destOffset

/-- The integer uniform of a loop: `x`, `y` and `z`. -/
def loopParam (flow : FlowControl) : Nat × Nat × Nat :=
  (setup.i flow.intUniformId 0 % 2 ^ 8, setup.i flow.intUniformId 1 % 2 ^ 8,
    setup.i flow.intUniformId 2 % 2 ^ 8)

/-- An assignment to `address_registers[2]`. -/
def setAL (s : Interpreter F) (value : Int) : Interpreter F :=
  { s with unit := { s.unit with
      addressRegisters := Function.update s.unit.addressRegisters 2 value } }

/-- `do_loop` -/
def doLoop (s : Interpreter F) (flow : FlowControl) (param : Nat × Nat × Nat) : Interpreter F :=
  { s with
    loopStack := pushBack 4
      { entryAddress := s.programCounter + 1
        endAddress := flow.destOffset + 1
        loopDowncounter := param.1
        addressIncrement := param.2.2
        previousAL := (s.unit.addressRegisters 2 % 2 ^ 8).toNat } s.loopStack }.setAL param.2.1

/-- `Emit`; the vertices that are handed on are left out. -/
def emit (s : Interpreter F) : Interpreter F :=
  match s.unit.emitter with
  | none => { s with status := .asserted }
  | some emitter =>
      if emitter.vertexId < 3 then
        let regs := bitSet emitter.outputMask.val
        { s with unit := { s.unit with
            emitter := some { emitter with
              buffer := Function.update emitter.buffer emitter.vertexId
                (storeOutputs s.unit.output regs 0 (emitter.buffer emitter.vertexId)) } } }.use
          (Access.emitterVertex emitter.vertexId :: regs.map Access.output ++
            (List.range regs.length).map Access.emitterAttribute)
      else { s with status := .asserted }

/-- `SETEMIT` -/
def setEmit (s : Interpreter F) (vertexId : Fin 4) (primEmit winding : Bool) : Interpreter F :=
  match s.unit.emitter with
  | none => { s with status := .asserted }
  | some emitter =>
      { s with unit := { s.unit with
          emitter := some { emitter with
            vertexId := vertexId, primEmit := primEmit, winding := winding } } }

/-- The conditions are read. -/
def useCondition (s : Interpreter F) : Interpreter F :=
  s.use [.conditionalCode 0, .conditionalCode 1]

/-- The switch over the instructions, and `is_break`. -/
def execute (s : Interpreter F) (instr : Instruction) : Interpreter F × Bool :=
  let s := s.use [.swizzleData instr.operandDescId]
  match instr.operation with
  | .arithmetic op common =>
      (s.executeArithmetic floats setup op common
        (nihstro.swizzle (setup.swizzleData instr.operandDescId)), false)
  | .multiplyAdd mad => (s.executeMultiplyAdd floats nihstro setup mad, false)
  | .stop => ({ s with status := .ended }, false)
  | .jmpc flow =>
      (if evaluateCondition s.unit flow then s.useCondition.jump flow.destOffset
        else s.useCondition, false)
  | .jmpu flow =>
      let s := s.use [.boolUniform flow.boolUniformId]
      (if setup.b flow.boolUniformId = (flow.numInstructions.val % 2 == 0) then
          s.jump flow.destOffset
        else s, false)
  | .call flow => (s.doCall flow, false)
  | .callu flow =>
      let s := s.use [.boolUniform flow.boolUniformId]
      (if setup.b flow.boolUniformId then s.doCall flow else s, false)
  | .callc flow =>
      (if evaluateCondition s.unit flow then s.useCondition.doCall flow
        else s.useCondition, false)
  | .nop => (s, false)
  | .ifu flow =>
      ((s.use [.boolUniform flow.boolUniformId]).doIf flow (setup.b flow.boolUniformId), false)
  | .ifc flow => (s.useCondition.doIf flow (evaluateCondition s.unit flow), false)
  | .loop flow =>
      let param := loopParam setup flow
      let s := s.use [.intUniform flow.intUniformId, .addressRegister 2]
      ((s.setAL param.2.1).doLoop flow param, false)
  | .leave => (s, true)
  | .leaveIf flow => (s.useCondition, evaluateCondition s.unit flow)
  | .emit => (s.emit, false)
  | .setemit vertexId primEmit winding => (s.setEmit vertexId primEmit winding, false)
  | .unhandled => (s, false)

/-! ## The stacks behind an instruction -/

/-- The loop over the scopes of calls, with the turns that remain: the fourth scope does not update the
program counter. -/
def closeCalls : Nat → Nat → Interpreter F → Interpreter F
  | 0, _, s => s
  | turns + 1, nextProgramCounter, s =>
      match s.callStack with
      | [] => s
      | top :: rest =>
          if top.endAddress ≠ nextProgramCounter then s
          else if turns > 0 then
            closeCalls turns top.returnAddress
              { s with programCounter := top.returnAddress, callStack := rest }
          else closeCalls turns nextProgramCounter { s with callStack := rest }

/-- The scope of an `IF` is closed. -/
def closeIf (oldProgramCounter : Nat) (s : Interpreter F) : Interpreter F :=
  match s.ifStack with
  | [] => s
  | top :: rest =>
      if top.elseAddress = oldProgramCounter + 1 then
        { s with programCounter := top.endAddress, ifStack := rest }
      else s

/-- The scope of a `LOOP` is entered again or closed. -/
def closeLoop (oldProgramCounter : Nat) (isBreak : Bool) (s : Interpreter F) : Interpreter F :=
  match s.loopStack with
  | [] => s
  | top :: rest =>
      if top.endAddress = oldProgramCounter + 1 ∨ isBreak = true then
        let s := (s.setAL (s.unit.addressRegisters 2 + top.addressIncrement)).use
          [.addressRegister 2]
        if isBreak = false ∧ top.loopDowncounter ≠ 0 then
          { s with
            programCounter := top.entryAddress
            loopStack := { top with loopDowncounter := top.loopDowncounter - 1 } :: rest }
        else
          { if rest ≠ [] then s.setAL top.previousAL else s with
            programCounter := top.endAddress
            loopStack := rest }
      else s

/-- A turn of the loop. -/
def step (s : Interpreter F) : Interpreter F :=
  if s.status = .running then
    let old := s.programCounter
    let instr := nihstro.instruction (setup.programCode old)
    let (executed, isBreak) := (s.use [.programCode old]).execute floats nihstro setup instr
    let next := { executed with programCounter := (executed.programCounter + 1) % 2 ^ 32 }
    closeLoop old isBreak (closeIf old (closeCalls 4 (old + 1) next))
  else s

/-- The state after so many turns. -/
def steps (s : Interpreter F) : Nat → Interpreter F
  | 0 => s
  | n + 1 => step floats nihstro setup (steps s n)

/-- The state in which `RunInterpreter` begins. -/
def start (unit : ShaderUnit F) (entryPoint : Nat) : Interpreter F :=
  ⟨entryPoint, [], [], [], unit, .running, []⟩

end Code

/-- Operations on numbers in the place of floats. -/
def natFloats : ShaderFloats Nat where
  zero := 0
  one := 1
  add := (· + ·)
  mul := (· * ·)
  neg := id
  lt a b := decide (a < b)
  le a b := decide (a ≤ b)
  eq a b := decide (a = b)
  floor := id
  rcp := id
  rsq := id
  exp2 := id
  log2 := id
  toInt a := a

end Interpreter

end AzaharPlus.Pica
