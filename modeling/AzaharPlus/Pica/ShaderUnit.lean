import AzaharPlus.Pica.InternalRegs

/-!
# Shader units

`ShaderUnit` of `video_core/pica/shader_unit.cpp`: the registers of a shader unit, how the attributes
of a vertex get into them and how the outputs of a shader are taken from them.

* `loadInput`, `writeOutput` — `LoadInput` and `WriteOutput`.
* `storeOutputs_apply` — what `WriteOutput` leaves in a buffer.
-/

namespace AzaharPlus.Pica

/-- `AttributeBuffer` -/
abbrev AttributeBuffer (F : Type) := Nat → Vec4 F

/-- `GeometryEmitter`; its handlers are left out, and the mask has the width of the register from which
it is set. -/
structure GeometryEmitter (F : Type) where
  buffer : Nat → AttributeBuffer F
  vertexId : Nat
  primEmit : Bool
  winding : Bool
  outputMask : Fin (2 ^ 16)

/-- `ShaderUnit` -/
structure ShaderUnit (F : Type) where
  addressRegisters : Nat → Int
  conditionalCode : Nat → Bool
  input : AttributeBuffer F
  temporary : AttributeBuffer F
  output : AttributeBuffer F
  emitter : Option (GeometryEmitter F)

/-- A shader unit that has not been used. -/
def emptyUnit : ShaderUnit Nat :=
  ⟨fun _ => 0, fun _ => false, fun _ _ => 0, fun _ _ => 0, fun _ _ => 0, none⟩

/-! ## The registers of a shader -/

section ShaderRegs

variable (regs : Nat → BitVec 32) (kind : ShaderKind)

/-- `max_input_attribute_index` -/
def maxInputAttributeIndex : Nat := bitField (regs (shaderBase kind + 0x09)) 0 4

/-- `input_to_uniform` -/
def inputToUniform : Nat := bitField (regs (shaderBase kind + 0x09)) 8 8

/-- `shader_mode` -/
def shaderMode : Nat := bitField (regs (shaderBase kind + 0x09)) 24 8

/-- `main_offset` -/
def mainOffset : Nat := bitField (regs (shaderBase kind + 0x0a)) 0 16

/-- `GetRegisterForAttribute` -/
def registerForAttribute (attr : Nat) : Nat :=
  ((regs (shaderBase kind + 0x0c)).toNat * 2 ^ 32 + (regs (shaderBase kind + 0x0b)).toNat) /
    2 ^ (attr * 4) % 16

/-- `output_mask` -/
def outputMask : Nat := bitField (regs (shaderBase kind + 0x0d)) 0 16

end ShaderRegs

/-- The members of `Common::BitSet<u32>`, in the order of its iterator. -/
def bitSet (mask : Nat) : List Nat := (List.range 32).filter mask.testBit

/-! ## Inputs and outputs -/

section

variable {F : Type}

/-- The loop of `LoadInput`, for the attributes below a number. -/
def loadAttributes (regs : Nat → BitVec 32) (kind : ShaderKind) (buffer : AttributeBuffer F) :
    Nat → AttributeBuffer F → AttributeBuffer F
  | 0, input => input
  | attr + 1, input =>
      Function.update (loadAttributes regs kind buffer attr input)
        (registerForAttribute regs kind attr) (buffer attr)

/-- `LoadInput` -/
def ShaderUnit.loadInput (regs : Nat → BitVec 32) (kind : ShaderKind) (buffer : AttributeBuffer F)
    (unit : ShaderUnit F) : ShaderUnit F :=
  { unit with
    input := loadAttributes regs kind buffer (maxInputAttributeIndex regs kind + 1) unit.input }

/-- The loop of `WriteOutput`, for the registers that remain. -/
def storeOutputs (output : AttributeBuffer F) :
    List Nat → Nat → AttributeBuffer F → AttributeBuffer F
  | [], _, buffer => buffer
  | reg :: rest, outputIndex, buffer =>
      storeOutputs output rest (outputIndex + 1)
        (Function.update buffer outputIndex (output reg))

/-- `WriteOutput` -/
def ShaderUnit.writeOutput (regs : Nat → BitVec 32) (kind : ShaderKind) (unit : ShaderUnit F)
    (buffer : AttributeBuffer F) : AttributeBuffer F :=
  storeOutputs unit.output (bitSet (outputMask regs kind)) 0 buffer

/-- What `WriteOutput` leaves in a buffer: the registers in order, and behind them what was there. -/
theorem storeOutputs_apply (output : AttributeBuffer F) (regs : List Nat) (k : Nat)
    (buffer : AttributeBuffer F) (i : Nat) :
    storeOutputs output regs k buffer i =
      if k ≤ i then ((regs[i - k]?).map output).getD (buffer i) else buffer i := by
  induction regs generalizing k buffer with
  | nil => simp [storeOutputs]
  | cons reg rest ih =>
    rw [storeOutputs, ih]
    rcases Nat.lt_trichotomy i k with hlt | heq | hgt
    · rw [if_neg (by omega), if_neg (by omega), Function.update_of_ne (by omega)]
    · rw [if_neg (by omega), if_pos (by omega), heq, Function.update_self, Nat.sub_self]
      rfl
    · rw [if_pos (by omega), if_pos (by omega), Function.update_of_ne (by omega)]
      obtain ⟨d, rfl⟩ := Nat.exists_eq_add_of_lt hgt
      rw [show k + d + 1 - (k + 1) = d by omega, show k + d + 1 - k = d + 1 by omega,
        List.getElem?_cons_succ]

end

end AzaharPlus.Pica
