import Mathlib.Data.List.Nodup
import Mathlib.Data.List.Perm.Subperm
import AzaharPlus.Pica.ShaderFlow

/-!
# Array bounds of the shader interpreter

The arrays that `RunInterpreter` uses are indexed in bounds, apart from the program: the program
counter can leave it.

* `inBounds_execute` — the elements that an instruction uses.
* `Leaves` — the turns that leave the program, and `leaves_iff`.
* `inBounds_iff` — a run stays in its arrays when no turn leaves the program, and only then.
* `leaves_program` — programs that are left.
-/

namespace AzaharPlus.Pica

/-- An index is within its array. -/
def Access.InBounds : Access → Prop
  | .programCode index => index < 4096
  | .swizzleData index => index < 4096
  | .input index => index < 16
  | .temporary index => index < 16
  | .output index => index < 16
  | .floatUniform index => index < 96
  | .boolUniform index => index < 16
  | .intUniform index => index < 4
  | .addressRegister index => index < 3
  | .conditionalCode index => index < 2
  | .emitterVertex index => index < 3
  | .emitterAttribute index => index < 16

namespace Interpreter

variable {F : Type}

local instance flowIntegers : NeZero 4 := ⟨Nat.succ_ne_zero 3⟩

local instance flowBooleans : NeZero 16 := ⟨Nat.succ_ne_zero 15⟩

local instance swizzleWords : NeZero 128 := ⟨Nat.succ_ne_zero 127⟩

local instance flowLengths : NeZero 256 := ⟨Nat.succ_ne_zero 255⟩

local instance flowAddresses : NeZero 4096 := ⟨Nat.succ_ne_zero 4095⟩

/-- All elements that have been used are within their arrays. -/
def InBounds (s : Interpreter F) : Prop := ∀ a ∈ s.accesses, a.InBounds

/-! ## Instructions -/

/-- More elements have been used, all of them within their arrays. -/
def AddsInBounds (s t : Interpreter F) : Prop :=
  ∃ more, t.accesses = s.accesses ++ more ∧ ∀ a ∈ more, a.InBounds

theorem addsInBounds_of_eq {s t : Interpreter F} (h : t.accesses = s.accesses) : AddsInBounds s t :=
  ⟨[], by rw [h, List.append_nil], fun _ ha => absurd ha List.not_mem_nil⟩

theorem AddsInBounds.trans {s t u : Interpreter F} (h : AddsInBounds s t) (h' : AddsInBounds t u) :
    AddsInBounds s u := by
  obtain ⟨more, heq, hmore⟩ := h
  obtain ⟨more', heq', hmore'⟩ := h'
  exact ⟨more ++ more', by rw [heq', heq, List.append_assoc],
    List.forall_mem_append.2 ⟨hmore, hmore'⟩⟩

theorem AddsInBounds.carries {s t : Interpreter F} (h : AddsInBounds s t) :
    InBounds t ↔ InBounds s := by
  obtain ⟨more, heq, hmore⟩ := h
  rw [InBounds, heq, List.forall_mem_append]
  exact and_iff_left hmore

theorem addsInBounds_use (s : Interpreter F) {accesses : List Access}
    (h : ∀ a ∈ accesses, a.InBounds) : AddsInBounds s (s.use accesses) := ⟨accesses, rfl, h⟩

variable (floats : ShaderFloats F) (nihstro : Nihstro) (setup : ShaderSetup F)

/-- The elements of a source operand, also of one relative to an address register. -/
theorem inBounds_lookup (unit : ShaderUnit F) (sourceReg : SourceRegister)
    {addressRegisterIndex : Nat} (h : addressRegisterIndex < 4) :
    ∀ a ∈ (lookupSourceRegister floats setup unit sourceReg addressRegisterIndex).2, a.InBounds := by
  have hregister : addressRegisterIndex - 1 < 3 := by omega
  cases sourceReg with
  | input index =>
    intro a ha
    rw [List.mem_singleton.1 ha]
    exact index.isLt
  | temporary index =>
    intro a ha
    rw [List.mem_singleton.1 ha]
    exact index.isLt
  | floatUniform index =>
    unfold lookupSourceRegister
    simp only
    split
    · split
      · intro a ha
        rw [List.mem_singleton.1 ha]
        exact hregister
      · rename_i hlt
        intro a ha
        rcases List.mem_cons.1 ha with rfl | ha
        · exact hregister
        · rw [List.mem_singleton.1 ha]
          exact Nat.lt_of_not_le hlt
    · intro a ha
      rw [List.mem_singleton.1 ha]
      exact index.isLt

theorem inBounds_writeDest (s : Interpreter F) (dest : DestRegister) (swizzle : SwizzlePattern)
    (value : Vec4 F) : AddsInBounds s (s.writeDest dest swizzle value) := by
  cases dest with
  | output index =>
    refine addsInBounds_use _ fun a ha => ?_
    rw [List.mem_singleton.1 ha]
    exact index.isLt
  | temporary index =>
    refine addsInBounds_use _ fun a ha => ?_
    rw [List.mem_singleton.1 ha]
    exact index.isLt

/-- The first two elements of an array are within it. -/
theorem inBounds_pair {event : Nat → Access} (h0 : (event 0).InBounds) (h1 : (event 1).InBounds) :
    ∀ a ∈ [event 0, event 1], a.InBounds := by
  intro a ha
  rcases List.mem_cons.1 ha with rfl | ha
  · exact h0
  · rw [List.mem_singleton.1 ha]
    exact h1

theorem inBounds_executeArithmetic (s : Interpreter F) (op : ArithmeticOp) (common : CommonFormat)
    (swizzle : SwizzlePattern) :
    AddsInBounds s (s.executeArithmetic floats setup op common swizzle) := by
  have hindex := common.addressRegisterIndex.isLt
  have h1 := inBounds_lookup floats setup s.unit common.src1
    (show (if common.isInverted then 0 else common.addressRegisterIndex.val) < 4 by split <;> omega)
  have h2 := inBounds_lookup floats setup s.unit common.src2
    (show (if common.isInverted then common.addressRegisterIndex.val else 0) < 4 by split <;> omega)
  have huse := addsInBounds_use s (List.forall_mem_append.2 ⟨h1, h2⟩)
  unfold executeArithmetic
  simp only
  split
  · exact huse.trans (inBounds_writeDest _ _ _ _)
  · split
    · exact huse.trans (addsInBounds_use _
        (inBounds_pair (show 0 < 3 by decide) (show 1 < 3 by decide)))
    · exact huse.trans (addsInBounds_use _
        (inBounds_pair (show 0 < 2 by decide) (show 1 < 2 by decide)))
    · exact huse

theorem inBounds_executeMultiplyAdd (s : Interpreter F) (mad : MadFormat) :
    AddsInBounds s (s.executeMultiplyAdd floats nihstro setup mad) := by
  have hindex := mad.addressRegisterIndex.isLt
  have hdesc : (Access.swizzleData mad.operandDescId).InBounds :=
    Nat.lt_trans mad.operandDescId.isLt (by decide)
  have h1 := inBounds_lookup floats setup s.unit mad.src1 (show 0 < 4 by decide)
  have h2 := inBounds_lookup floats setup s.unit mad.src2
    (show (if mad.isInverted then 0 else mad.addressRegisterIndex.val) < 4 by split <;> omega)
  have h3 := inBounds_lookup floats setup s.unit mad.src3
    (show (if mad.isInverted then mad.addressRegisterIndex.val else 0) < 4 by split <;> omega)
  refine AddsInBounds.trans (addsInBounds_use s ?_) (inBounds_writeDest _ _ _ _)
  exact List.forall_mem_append.2
    ⟨List.forall_mem_append.2 ⟨List.forall_mem_cons.2 ⟨hdesc, h1⟩, h2⟩, h3⟩

theorem inBounds_useCondition (s : Interpreter F) : AddsInBounds s s.useCondition :=
  addsInBounds_use s (inBounds_pair (show 0 < 2 by decide) (show 1 < 2 by decide))

/-- The registers of an output mask. -/
theorem mem_bitSet {mask : Fin (2 ^ 16)} {reg : Nat} (h : reg ∈ bitSet mask) : reg < 16 := by
  have hbit := (List.mem_filter.1 h).2
  by_contra hge
  have hlt : mask.val < 2 ^ reg := Nat.lt_of_lt_of_le mask.isLt (Nat.pow_le_pow_right (by decide) (by omega))
  rw [Nat.testBit_lt_two_pow hlt] at hbit
  cases hbit

theorem length_bitSet (mask : Fin (2 ^ 16)) : (bitSet mask).length ≤ 16 := by
  have hnodup : (bitSet mask).Nodup := List.Nodup.filter _ List.nodup_range
  have hsubset : bitSet mask ⊆ List.range 16 := fun reg h => List.mem_range.2 (mem_bitSet h)
  have hle := (List.Nodup.subperm hnodup hsubset).length_le
  rwa [List.length_range] at hle

theorem inBounds_emit (s : Interpreter F) : AddsInBounds s s.emit := by
  unfold emit
  split
  · exact addsInBounds_of_eq rfl
  · rename_i emitter _
    split
    · rename_i hlt
      refine addsInBounds_use _ (List.forall_mem_append.2 ⟨List.forall_mem_cons.2 ⟨hlt, ?_⟩, ?_⟩)
      · intro a ha
        obtain ⟨reg, hreg, rfl⟩ := List.mem_map.1 ha
        exact mem_bitSet hreg
      · intro a ha
        obtain ⟨i, hi, rfl⟩ := List.mem_map.1 ha
        exact Nat.lt_of_lt_of_le (List.mem_range.1 hi) (length_bitSet _)
    · exact addsInBounds_of_eq rfl

theorem inBounds_setEmit (s : Interpreter F) (vertexId : Fin 4) (primEmit winding : Bool) :
    AddsInBounds s (s.setEmit vertexId primEmit winding) := by
  unfold setEmit
  split
  · exact addsInBounds_of_eq rfl
  · exact addsInBounds_of_eq rfl

theorem inBounds_doIf (s : Interpreter F) (flow : FlowControl) (condition : Bool) :
    AddsInBounds s (s.doIf flow condition) := by
  cases condition with
  | false => exact addsInBounds_of_eq rfl
  | true => exact addsInBounds_of_eq rfl

/-- **Every index but that of the program** is within its array. -/
theorem inBounds_execute (s : Interpreter F) (instr : Instruction) :
    AddsInBounds s (s.execute floats nihstro setup instr).1 := by
  have hdesc : AddsInBounds s (s.use [.swizzleData instr.operandDescId]) := by
    refine addsInBounds_use s (List.forall_mem_singleton.2 ?_)
    exact Nat.lt_trans instr.operandDescId.isLt (by decide)
  have hbool (t : Interpreter F) (i : Fin 16) : AddsInBounds t (t.use [.boolUniform i]) :=
    addsInBounds_use t (List.forall_mem_singleton.2 i.isLt)
  unfold execute
  cases hop : instr.operation with
  | arithmetic op common => exact hdesc.trans (inBounds_executeArithmetic floats setup _ _ _ _)
  | multiplyAdd mad => exact hdesc.trans (inBounds_executeMultiplyAdd floats nihstro setup _ _)
  | stop => exact hdesc
  | jmpc flow =>
    simp only
    split
    · exact hdesc.trans (inBounds_useCondition _)
    · exact hdesc.trans (inBounds_useCondition _)
  | jmpu flow =>
    simp only
    split
    · exact hdesc.trans (hbool _ _)
    · exact hdesc.trans (hbool _ _)
  | call flow => exact hdesc
  | callu flow =>
    simp only
    split
    · exact hdesc.trans (hbool _ _)
    · exact hdesc.trans (hbool _ _)
  | callc flow =>
    simp only
    split
    · exact hdesc.trans (inBounds_useCondition _)
    · exact hdesc.trans (inBounds_useCondition _)
  | nop => exact hdesc
  | ifu flow => exact (hdesc.trans (hbool _ _)).trans (inBounds_doIf _ _ _)
  | ifc flow => exact (hdesc.trans (inBounds_useCondition _)).trans (inBounds_doIf _ _ _)
  | loop flow =>
    refine hdesc.trans (addsInBounds_use _ (List.forall_mem_cons.2
      ⟨flow.intUniformId.isLt, List.forall_mem_singleton.2 ?_⟩))
    exact show 2 < 3 by decide
  | leave => exact hdesc
  | leaveIf flow => exact hdesc.trans (inBounds_useCondition _)
  | emit => exact hdesc.trans (inBounds_emit _)
  | setemit vertexId primEmit winding => exact hdesc.trans (inBounds_setEmit _ _ _ _)
  | unhandled => exact hdesc

/-! ## Turns of the loop -/

theorem inBounds_closeLoop (old : Nat) (isBreak : Bool) (s : Interpreter F) :
    AddsInBounds s (closeLoop old isBreak s) := by
  have hal (t : Interpreter F) : AddsInBounds t (t.use [.addressRegister 2]) :=
    addsInBounds_use t (List.forall_mem_singleton.2 (show 2 < 3 by decide))
  rw [closeLoop_eq]
  split
  · simp only
    split
    · exact hal _
    · split
      · exact hal _
      · exact hal _
  · exact addsInBounds_of_eq rfl

/-- A turn of the loop uses the program at the program counter, and else stays in bounds. -/
theorem inBounds_step {s : Interpreter F} (h : s.status = .running) :
    InBounds (step floats nihstro setup s) ↔ InBounds s ∧ s.programCounter < 4096 := by
  have hexecute := inBounds_execute floats nihstro setup (s.use [.programCode s.programCounter])
    (nihstro.instruction (setup.programCode s.programCounter))
  have hclose (next : Interpreter F) :
      AddsInBounds next (closeIf s.programCounter (closeCalls 4 (s.programCounter + 1) next)) := by
    refine addsInBounds_of_eq ?_
    rw [(loopStack_closeIf _ _).2.2.2, closeCalls_eq]
  rw [step_of_running floats nihstro setup h, (inBounds_closeLoop _ _ _).carries,
    (hclose _).carries]
  refine hexecute.carries.trans ?_
  rw [InBounds, use, List.forall_mem_append, List.forall_mem_singleton]
  rfl

/-! ## Leaving the program -/

/-- The turns after which the program counter is not in the program: a scope of `LOOP` is entered again
or closed, a scope of `IF` is closed, scopes of `CALL` return, or the last word falls through. -/
inductive Leaves (s : Interpreter F) : Prop
  | loop (top : LoopStackElement)
      (hclosing : closingLoop s.programCounter (breaks s.unit (operationAt nihstro setup s))
        (loopScopes setup s.programCounter s.loopStack (operationAt nihstro setup s)) = some top)
      (hout : 4096 ≤ loopTarget (breaks s.unit (operationAt nihstro setup s)) top)
  | ifEnd (top : IfStackElement)
      (hloop : closingLoop s.programCounter (breaks s.unit (operationAt nihstro setup s))
        (loopScopes setup s.programCounter s.loopStack (operationAt nihstro setup s)) = none)
      (hclosing : closingIf s.programCounter
        (ifScopes setup s.unit s.ifStack (operationAt nihstro setup s)) = some top)
      (hout : 4096 ≤ top.endAddress)
  | callEnd (address : Nat)
      (hloop : closingLoop s.programCounter (breaks s.unit (operationAt nihstro setup s))
        (loopScopes setup s.programCounter s.loopStack (operationAt nihstro setup s)) = none)
      (hif : closingIf s.programCounter
        (ifScopes setup s.unit s.ifStack (operationAt nihstro setup s)) = none)
      (hreturns : (returns 4 (s.programCounter + 1) (callScopes setup s.unit s.programCounter
        s.callStack (operationAt nihstro setup s))).1 = some address)
      (hout : 4096 ≤ address)
  | fallThrough
      (hloop : closingLoop s.programCounter (breaks s.unit (operationAt nihstro setup s))
        (loopScopes setup s.programCounter s.loopStack (operationAt nihstro setup s)) = none)
      (hif : closingIf s.programCounter
        (ifScopes setup s.unit s.ifStack (operationAt nihstro setup s)) = none)
      (hreturns : (returns 4 (s.programCounter + 1) (callScopes setup s.unit s.programCounter
        s.callStack (operationAt nihstro setup s))).1 = none)
      (htaken : taken setup s.unit (operationAt nihstro setup s) = none)
      (hlast : s.programCounter = 4095)

/-- Instructions jump inside the program. -/
theorem taken_lt (unit : ShaderUnit F) {op : Operation} {address : Nat}
    (h : taken setup unit op = some address) : address < 4096 := by
  have hif {c : Prop} [Decidable c] {dest : Fin 4096}
      (h : (if c then some dest.val else none) = some address) : address < 4096 := by
    split at h
    · cases h
      exact dest.isLt
    · cases h
  have helse {c : Prop} [Decidable c] {dest : Fin 4096}
      (h : (if c then none else some dest.val) = some address) : address < 4096 := by
    split at h
    · cases h
    · cases h
      exact dest.isLt
  cases op with
  | jmpc flow => exact hif h
  | jmpu flow => exact hif h
  | call flow =>
    cases h
    exact flow.destOffset.isLt
  | callu flow => exact hif h
  | callc flow => exact hif h
  | ifu flow => exact helse h
  | ifc flow => exact helse h
  | _ => cases h

/-- A turn goes behind the program in the four cases of `Leaves`. -/
theorem leaves_iff {s : Interpreter F} (hpc : s.programCounter < 4096) :
    4096 ≤ nextAddress nihstro setup s ↔ Leaves nihstro setup s := by
  unfold nextAddress
  simp only
  cases hloop : closingLoop s.programCounter (breaks s.unit (operationAt nihstro setup s))
      (loopScopes setup s.programCounter s.loopStack (operationAt nihstro setup s)) with
  | some top =>
    constructor
    · exact .loop top hloop
    · rintro (⟨top', hclosing, hout⟩ | ⟨_, hnone, _⟩ | ⟨_, hnone, _⟩ | ⟨hnone, _⟩)
      · rw [hloop] at hclosing
        cases hclosing
        exact hout
      · exact absurd (hloop.symm.trans hnone) (Option.some_ne_none _)
      · exact absurd (hloop.symm.trans hnone) (Option.some_ne_none _)
      · exact absurd (hloop.symm.trans hnone) (Option.some_ne_none _)
  | none =>
    cases hif : closingIf s.programCounter
        (ifScopes setup s.unit s.ifStack (operationAt nihstro setup s)) with
    | some top =>
      constructor
      · exact .ifEnd top hloop hif
      · rintro (⟨_, hsome, _⟩ | ⟨top', _, hclosing, hout⟩ | ⟨_, _, hnone, _⟩ | ⟨_, hnone, _⟩)
        · exact absurd (hsome.symm.trans hloop) (Option.some_ne_none _)
        · rw [hif] at hclosing
          cases hclosing
          exact hout
        · exact absurd (hif.symm.trans hnone) (Option.some_ne_none _)
        · exact absurd (hif.symm.trans hnone) (Option.some_ne_none _)
    | none =>
      cases hreturns : (returns 4 (s.programCounter + 1) (callScopes setup s.unit
          s.programCounter s.callStack (operationAt nihstro setup s))).1 with
      | some address =>
        constructor
        · exact .callEnd address hloop hif hreturns
        · rintro (⟨_, hsome, _⟩ | ⟨_, _, hsome, _⟩ | ⟨_, _, _, hreturns', hout⟩ | ⟨_, _, hnone, _⟩)
          · exact absurd (hsome.symm.trans hloop) (Option.some_ne_none _)
          · exact absurd (hsome.symm.trans hif) (Option.some_ne_none _)
          · rw [hreturns] at hreturns'
            cases hreturns'
            exact hout
          · exact absurd (hreturns.symm.trans hnone) (Option.some_ne_none _)
      | none =>
        constructor
        · intro hout
          cases htaken : taken setup s.unit (operationAt nihstro setup s) with
          | some address =>
            have hlt := taken_lt setup s.unit htaken
            rw [htaken] at hout
            exact absurd hout (Nat.not_le_of_lt hlt)
          | none =>
            rw [htaken] at hout
            have hlast : 4096 ≤ s.programCounter + 1 := hout
            exact .fallThrough hloop hif hreturns htaken (by omega)
        · rintro (⟨_, hsome, _⟩ | ⟨_, _, hsome, _⟩ | ⟨_, _, _, hsome, _⟩ |
            ⟨_, _, _, htaken, hlast⟩)
          · exact absurd (hsome.symm.trans hloop) (Option.some_ne_none _)
          · exact absurd (hsome.symm.trans hif) (Option.some_ne_none _)
          · exact absurd (hsome.symm.trans hreturns) (Option.some_ne_none _)
          · rw [htaken, hlast]
            exact Nat.le_refl _

/-! ## Runs -/

/-- The turns so far are in bounds when each of them was in the program. -/
theorem inBounds_steps (s : Interpreter F) (hs : InBounds s) (n : Nat) :
    InBounds (steps floats nihstro setup s n) ↔
      ∀ k < n, (steps floats nihstro setup s k).status = .running →
        (steps floats nihstro setup s k).programCounter < 4096 := by
  induction n with
  | zero => exact ⟨fun _ k hk => absurd hk (Nat.not_lt_zero k), fun _ => hs⟩
  | succ n ih =>
    have hturn : InBounds (steps floats nihstro setup s (n + 1)) ↔
        InBounds (steps floats nihstro setup s n) ∧
          ((steps floats nihstro setup s n).status = .running →
            (steps floats nihstro setup s n).programCounter < 4096) := by
      rw [steps]
      by_cases hrunning : (steps floats nihstro setup s n).status = .running
      · rw [inBounds_step floats nihstro setup hrunning]
        simp [hrunning]
      · rw [step_of_stopped floats nihstro setup hrunning]
        simp [hrunning]
    rw [hturn, ih]
    constructor
    · rintro ⟨hall, hlast⟩ k hk
      rcases Nat.lt_or_eq_of_le (Nat.le_of_lt_succ hk) with hlt | rfl
      · exact hall k hlt
      · exact hlast
    · intro hall
      exact ⟨fun k hk => hall k (Nat.lt_succ_of_lt hk), hall n (Nat.lt_succ_self n)⟩

/-- A turn stays in the program, or no other turn follows it. -/
def Stays (s : Interpreter F) : Prop :=
  s.status = .running → halts s.unit (operationAt nihstro setup s) = false →
    ¬ Leaves nihstro setup s

/-- The turn that comes is in the program when the last one did not leave it. -/
theorem programCounter_lt_iff {s : Interpreter F} (h : s.status = .running)
    (hpc : s.programCounter < 4096) :
    ((step floats nihstro setup s).status = .running →
        (step floats nihstro setup s).programCounter < 4096) ↔ Stays nihstro setup s := by
  have hsmall : s.programCounter < 2 ^ 31 := Nat.lt_trans hpc (by decide)
  rw [status_step floats nihstro setup h hsmall, programCounter_step floats nihstro setup h hsmall,
    Stays, ← leaves_iff nihstro setup hpc, Nat.not_le]
  exact ⟨fun hnext _ => hnext, fun hnext => hnext h⟩

/-- **The interpreter stays in its arrays**, from an entry point in the program, when every turn stays
in the program, and only then. -/
theorem inBounds_iff (floats : ShaderFloats F) (nihstro : Nihstro) (setup : ShaderSetup F)
    (unit : ShaderUnit F) (entryPoint : Nat) (hentry : entryPoint < 4096) :
    (∀ n, InBounds (steps floats nihstro setup (start unit entryPoint) n)) ↔
      ∀ n, Stays nihstro setup (steps floats nihstro setup (start unit entryPoint) n) := by
  have hstart : InBounds (start unit entryPoint) := fun a ha => absurd ha List.not_mem_nil
  have hruns := inBounds_steps floats nihstro setup (start unit entryPoint) hstart
  constructor
  · intro hall n hrunning
    have hpc (k : Nat) (hk : (steps floats nihstro setup (start unit entryPoint) k).status =
        .running) := (hruns (k + 1)).1 (hall (k + 1)) k (Nat.lt_succ_self k) hk
    exact (programCounter_lt_iff floats nihstro setup hrunning (hpc n hrunning)).1
      (hpc (n + 1)) hrunning
  · intro hstays n
    refine (hruns n).2 fun k _ => ?_
    -- the turns before have not left the program
    induction k with
    | zero => exact fun _ => hentry
    | succ k ih =>
        by_cases hrunning : (steps floats nihstro setup (start unit entryPoint) k).status = .running
        · exact (programCounter_lt_iff floats nihstro setup hrunning
            (ih (by omega) hrunning)).2 (hstays k)
        · rw [steps, step_of_stopped floats nihstro setup hrunning]
          exact fun h => absurd h hrunning

/-! ## Programs of a few words -/

/-- A call of the one instruction at address 0. -/
def callOfFirst : FlowControl := ⟨0, 1, 0, 0, .or, false, false⟩

/-- The words of `END` and of this call; the others count as `NOP`. -/
def fewWords : Nihstro where
  instruction w :=
    if w = 0x88000000 then ⟨0, .stop⟩
    else if w = 0x90000001 then ⟨1, .call callOfFirst⟩
    else ⟨0, .nop⟩
  swizzle _ := ⟨fun _ => false, fun _ i => i, fun _ => true⟩

/-- A program of `NOP` with another word at the end. -/
def lastWord (w : BitVec 32) : ShaderSetup Nat :=
  { emptySetup with programCode := fun i => if i = 4095 then w else 0x84000000 }

/-- A program of `NOP` with the call and `END` at the end. -/
def callThenEnd : ShaderSetup Nat :=
  { lastWord 0x88000000 with
    programCode := fun i => if i = 4094 then 0x90000001 else (lastWord 0x88000000).programCode i }

/-- The interpreter calls the first instruction, returns to `END` and stops there. -/
theorem inBounds_iff_call :
    (4094 < 4096) ∧
      ∀ n, InBounds (steps natFloats fewWords callThenEnd (start emptyUnit 4094) n) := by
  refine ⟨by decide,
    (inBounds_iff natFloats fewWords callThenEnd emptyUnit 4094 (by decide)).2 ?_⟩
  have hended (n : Nat) :
      (steps natFloats fewWords callThenEnd (start emptyUnit 4094) (n + 3)).status = .ended := by
    induction n with
    | zero => rfl
    | succ n ih =>
        rw [steps, step_of_stopped _ _ _ (by rw [ih]; decide)]
        exact ih
  intro n hrunning hhalts
  match n with
  | 0 => exact fun h => absurd ((leaves_iff fewWords callThenEnd (by decide)).2 h) (by decide)
  | 1 => exact fun h => absurd ((leaves_iff fewWords callThenEnd (by decide)).2 h) (by decide)
  | 2 => exact absurd hhalts (by decide)
  | n + 3 => exact absurd (hrunning.symm.trans (hended n)) (by decide)

/-- With `NOP` at the end the interpreter goes on behind the program, and a call there returns behind
it. -/
theorem leaves_program :
    (.programCode 4096 ∈
        (steps natFloats fewWords (lastWord 0x84000000) (start emptyUnit 4095) 2).accesses ∧
      .programCode 4096 ∈
        (steps natFloats fewWords (lastWord 0x90000001) (start emptyUnit 4095) 3).accesses) ∧
    ¬ (Access.programCode 4096).InBounds :=
  ⟨⟨by decide, by decide⟩, Nat.lt_irrefl 4096⟩

end Interpreter

end AzaharPlus.Pica
