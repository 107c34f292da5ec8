import Mathlib.Algebra.Group.Nat.Defs
import Mathlib.Algebra.Group.Int.Defs
import Mathlib.Algebra.GroupWithZero.Nat
import Mathlib.Logic.Function.Basic
import Mathlib.Data.Fin.VecNotation

/-!
# Writes to the internal registers

`PicaCore::WriteInternalReg` of `video_core/pica/pica_core.cpp`, with the queues of packed attributes
(`packed_attribute.h`), the uniforms and programs of the shaders (`shader_setup.cpp`) and the
position in the command list.  The lookup tables of lighting, fog and procedural textures are left
out, the float formats are parameters, and what is drawn is only recorded.

* `switchLabel` — the cases of the switch over the registers.
* `writeInternalReg` — a write and what it sets off.
-/

namespace AzaharPlus.Pica

/-! ## Bit fields -/

/-- The value of a `BitField`. -/
def bitField (w : BitVec 32) (position bits : Nat) : Nat := w.toNat / 2 ^ position % 2 ^ bits

/-- `BitField::Assign`, for a field at the lowest bits. -/
def assignLow (w : BitVec 32) (bits value : Nat) : BitVec 32 :=
  BitVec.ofNat 32 (w.toNat / 2 ^ bits * 2 ^ bits + value % 2 ^ bits)

theorem bitField_lt (w : BitVec 32) (position bits : Nat) : bitField w position bits < 2 ^ bits :=
  Nat.mod_lt _ (Nat.two_pow_pos bits)

/-- `ExpandBitsToBytes` -/
def expandBitsToBytes : List (BitVec 32) :=
  [0x00000000, 0x000000ff, 0x0000ff00, 0x0000ffff, 0x00ff0000, 0x00ff00ff,
    0x00ffff00, 0x00ffffff, 0xff000000, 0xff0000ff, 0xff00ff00, 0xff00ffff,
    0xffff0000, 0xffff00ff, 0xffffff00, 0xffffffff]

/-- `any_byte_match` -/
def anyByteMatch (a b : BitVec 32) : Bool :=
  bitField a 0 8 = bitField b 0 8 || bitField a 8 8 = bitField b 8 8 ||
    bitField a 16 8 = bitField b 16 8 || bitField a 24 8 = bitField b 24 8

/-! ## Packed attributes -/

/-- The float formats of the code: `f24::FromRaw` and `f24::FromFloat32` of a word. -/
structure FloatFormats (F : Type) where
  fromRaw : Nat → F
  fromFloat32 : BitVec 32 → F

/-- `Common::Vec4` -/
abbrev Vec4 (F : Type) := Fin 4 → F

/-- `PackedAttribute`, with the words that were pushed since it was emptied. -/
structure PackedAttribute where
  buffer : Nat → BitVec 32
  index : Nat
  pushed : List (BitVec 32)

namespace PackedAttribute

variable {F : Type} (floats : FloatFormats F) (q : PackedAttribute)

/-- `Push` -/
def push (word : BitVec 32) (isFloat32 : Bool) : PackedAttribute × Bool :=
  let index := q.index + 1
  ({ buffer := Function.update q.buffer q.index word, index := index, pushed := q.pushed ++ [word] },
    (decide (index ≥ 4) && isFloat32) || (decide (index ≥ 3) && !isFloat32))

/-- `Reset` -/
def reset : PackedAttribute := { q with index := 0, pushed := [] }

/-- `AsFloat24` -/
def asFloat24 (buffer : Nat → BitVec 32) : Vec4 F :=
  ![floats.fromRaw (bitField (buffer 2) 0 24),
    floats.fromRaw (bitField (buffer 1) 0 16 * 2 ^ 8 + bitField (buffer 2) 24 8),
    floats.fromRaw (bitField (buffer 0) 0 8 * 2 ^ 16 + bitField (buffer 1) 16 16),
    floats.fromRaw (bitField (buffer 0) 8 24)]

/-- `AsFloat32` -/
def asFloat32 (buffer : Nat → BitVec 32) : Vec4 F := fun i => floats.fromFloat32 (buffer (3 - i))

/-- What `Get` makes of the words. -/
def decode (isFloat32 : Bool) (buffer : Nat → BitVec 32) : Vec4 F :=
  if isFloat32 then asFloat32 floats buffer else asFloat24 floats buffer

/-- `Get` -/
def get (isFloat32 : Bool) : PackedAttribute × Vec4 F :=
  (q.reset, decode floats isFloat32 q.buffer)

end PackedAttribute

/-! ## The state -/

/-- `GS` and `VS`. -/
inductive ShaderKind where
  | gs
  | vs
  deriving DecidableEq, Repr

/-- `ShaderSetup` -/
structure ShaderSetup (F : Type) where
  f : Nat → Vec4 F
  b : Nat → Bool
  i : Nat → Vec4 Nat
  uniformQueue : PackedAttribute
  programCode : Nat → BitVec 32
  swizzleData : Nat → BitVec 32

/-- `ImmediateModeState` -/
structure ImmediateModeState (F : Type) where
  inputVertex : Nat → Vec4 F
  currentAttribute : Nat
  resetGeometryPipeline : Bool
  queue : PackedAttribute

/-- `CommandList`; its words are those of memory from `addr` on. -/
structure CommandList where
  addr : Nat
  length : Nat
  currentIndex : Nat

/-- What happens during the writes. -/
inductive RegEvent (F : Type) where
  /-- A word of a command list is read. -/
  | read (index length : Nat)
  /-- `Push` is called. -/
  | push (index : Nat)
  /-- A vector is complete, made of so many words since its queue was emptied. -/
  | complete (isFloat32 : Bool) (words : List (BitVec 32)) (vector : Vec4 F)
  | storeDefault (index : Nat)
  | storeInput (index : Nat)
  | drawImmediate
  | drawArrays (isIndexed : Bool)
  | reconfigureAssembler (topology : Nat)
  | resetAssembler
  | signalInterrupt

/-- The part of `PicaCore` that register writes change, with what has happened. -/
structure PicaCore (F : Type) where
  regs : Nat → BitVec 32
  cmdList : CommandList
  stopRequested : Bool
  immediate : ImmediateModeState F
  inputDefaultAttributes : Nat → Vec4 F
  vsSetup : ShaderSetup F
  gsSetup : ShaderSetup F
  history : List (RegEvent F)

/-! ## The registers -/

/-- `NUM_REGS` -/
def numRegs : Nat := 0x300

/-- The first register of a shader. -/
def shaderBase : ShaderKind → Nat
  | .gs => 0x280
  | .vs => 0x2b0

/-- The cases of the switch in `WriteInternalReg`. -/
inductive RegCase where
  | irqRequest
  | triangleTopology
  | restartPrimitive
  | defaultAttributeIndex
  | defaultAttributeValue
  | commandTrigger (channel : Nat)
  | triggerDraw (isIndexed : Bool)
  | boolUniforms (kind : ShaderKind)
  | intUniform (kind : ShaderKind) (index : Nat)
  | floatUniform (kind : ShaderKind)
  | programWord (kind : ShaderKind)
  | swizzleWord (kind : ShaderKind)
  | vsOutputMask
  | lightingLut
  | fogLut
  | proctexLut
  | other
  deriving DecidableEq, Repr

/-- The registers of a shader, counted from its first one. -/
def shaderLabel (kind : ShaderKind) (offset : Nat) : RegCase :=
  if offset = 0x00 then .boolUniforms kind
  else if 0x01 ≤ offset ∧ offset ≤ 0x04 then .intUniform kind (offset - 0x01)
  else if offset = 0x0d ∧ kind = .vs then .vsOutputMask
  else if 0x11 ≤ offset ∧ offset ≤ 0x18 then .floatUniform kind
  else if 0x1c ≤ offset ∧ offset ≤ 0x23 then .programWord kind
  else if 0x26 ≤ offset ∧ offset ≤ 0x2d then .swizzleWord kind
  else .other

/-- The case of a register. -/
def switchLabel (id : Nat) : RegCase :=
  if id = 0x010 then .irqRequest
  else if 0x0b0 ≤ id ∧ id ≤ 0x0b7 then .proctexLut
  else if 0x0e8 ≤ id ∧ id ≤ 0x0ef then .fogLut
  else if 0x1c8 ≤ id ∧ id ≤ 0x1cf then .lightingLut
  else if id = 0x22e ∨ id = 0x22f then .triggerDraw (id = 0x22f)
  else if id = 0x232 then .defaultAttributeIndex
  else if 0x233 ≤ id ∧ id ≤ 0x235 then .defaultAttributeValue
  else if id = 0x23c ∨ id = 0x23d then .commandTrigger (id - 0x23c)
  else if id = 0x25e then .triangleTopology
  else if id = 0x25f then .restartPrimitive
  else if 0x280 ≤ id ∧ id < 0x2b0 then shaderLabel .gs (id - 0x280)
  else if 0x2b0 ≤ id ∧ id < 0x2e0 then shaderLabel .vs (id - 0x2b0)
  else .other

namespace PicaCore

variable {F : Type} (floats : FloatFormats F) (s : PicaCore F)

/-- `vs_default_attributes_setup.index` -/
def defaultAttributeIndex : Nat := (s.regs 0x232).toNat

/-- `max_input_attrib_index` -/
def maxInputAttribIndex : Nat := bitField (s.regs 0x242) 0 4

/-- `command_buffer.GetSize` -/
def commandBufferSize (channel : Nat) : Nat := 8 * bitField (s.regs (0x238 + channel)) 0 20

/-- `command_buffer.GetPhysicalAddress` -/
def commandBufferAddress (channel : Nat) : Nat := 8 * bitField (s.regs (0x23a + channel)) 0 28

/-- The geometry shader unit shares its program with the vertex shader. -/
def sharesProgram : Bool := bitField (s.regs 0x244) 0 1 = 0

/-- It shares its other configuration. -/
def sharesConfig : Bool := s.sharesProgram && bitField (s.regs 0x229) 0 2 = 0

/-- `vs_setup` and `gs_setup`. -/
def setup : ShaderKind → ShaderSetup F
  | .vs => s.vsSetup
  | .gs => s.gsSetup

/-- A new value for one of them. -/
def withSetup (kind : ShaderKind) (setup : ShaderSetup F) : PicaCore F :=
  match kind with
  | .vs => { s with vsSetup := setup }
  | .gs => { s with gsSetup := setup }

/-- `uniform_setup.IsFloat32` -/
def isFloat32 (kind : ShaderKind) : Bool := bitField (s.regs (shaderBase kind + 0x10)) 31 1 = 1

/-- `uniform_setup.index` -/
def uniformIndex (kind : ShaderKind) : Nat := bitField (s.regs (shaderBase kind + 0x10)) 0 7

/-- A new value for a register. -/
def setReg (id : Nat) (value : BitVec 32) : PicaCore F :=
  { s with regs := Function.update s.regs id value }

/-- Something has happened. -/
def record (event : RegEvent F) : PicaCore F := { s with history := s.history ++ [event] }

/-- `CommandList::Reset` -/
def resetCommandList (addr size : Nat) : PicaCore F :=
  { s with cmdList := ⟨addr, size / 4, 0⟩ }

/-- `DrawImmediate`; the vertex that is drawn is left out. -/
def drawImmediate : PicaCore F :=
  { s with
    immediate := { s.immediate with currentAttribute := 0, resetGeometryPipeline := false } }.record
      .drawImmediate

/-- `SubmitImmediate` behind a complete attribute. -/
def placeAttribute (attr : Vec4 F) : PicaCore F :=
  if s.defaultAttributeIndex < 0xf then
    ({ s with
        inputDefaultAttributes :=
          Function.update s.inputDefaultAttributes s.defaultAttributeIndex attr }.setReg 0x232
        (s.regs 0x232 + 1)).record (.storeDefault s.defaultAttributeIndex)
  else
    let placed :=
      { s with
        immediate := { s.immediate with
          inputVertex :=
            Function.update s.immediate.inputVertex s.immediate.currentAttribute attr } }.record
        (.storeInput s.immediate.currentAttribute)
    if s.immediate.currentAttribute < s.maxInputAttribIndex then
      { placed with
        immediate := { placed.immediate with
          currentAttribute := s.immediate.currentAttribute + 1 } }
    else placed.drawImmediate

/-- `SubmitImmediate` -/
def submitImmediate (value : BitVec 32) : PicaCore F :=
  let (queue, complete) := s.immediate.queue.push value false
  let pushed := { s with immediate := { s.immediate with queue := queue } }.record
    (.push s.immediate.queue.index)
  if complete = false then pushed
  else if s.defaultAttributeIndex > 0xf then pushed
  else
    let (empty, attr) := queue.get floats false
    ({ pushed with immediate := { pushed.immediate with queue := empty } }.record
      (.complete false queue.pushed attr)).placeAttribute attr

/-- The call of `Push` in `WriteUniformFloatReg`, and whether the queue is full. -/
def pushUniform (kind : ShaderKind) (value : BitVec 32) : PicaCore F × Bool :=
  let (queue, full) := (s.setup kind).uniformQueue.push value (s.isFloat32 kind)
  ((s.withSetup kind { s.setup kind with uniformQueue := queue }).record
    (.push (s.setup kind).uniformQueue.index), full)

/-- The call of `Get` in `WriteUniformFloatReg`. -/
def takeUniform (kind : ShaderKind) : PicaCore F × Vec4 F :=
  let queue := (s.setup kind).uniformQueue
  let (empty, uniform) := queue.get floats (s.isFloat32 kind)
  ((s.withSetup kind { s.setup kind with uniformQueue := empty }).record
    (.complete (s.isFloat32 kind) queue.pushed uniform), uniform)

/-- `WriteUniformFloatReg` behind a complete uniform. -/
def storeUniform (kind : ShaderKind) (uniform : Vec4 F) : PicaCore F × Option Nat :=
  let index := s.uniformIndex kind
  if index ≥ 96 then (s, none)
  else
    ((s.withSetup kind
        { s.setup kind with f := Function.update (s.setup kind).f index uniform }).setReg
      (shaderBase kind + 0x10) (assignLow (s.regs (shaderBase kind + 0x10)) 7 (index + 1)),
      some index)

/-- `WriteUniformFloatReg` -/
def writeUniformFloatReg (kind : ShaderKind) (value : BitVec 32) : PicaCore F × Option Nat :=
  let (pushed, full) := s.pushUniform kind value
  if full = false then (pushed, none)
  else
    let (taken, uniform) := pushed.takeUniform floats kind
    taken.storeUniform kind uniform

/-- A word for the memory of a shader at an offset that its registers keep; the vertex shader's words
are also those of a geometry shader unit that shares its program. -/
def writeShaderWord (kind : ShaderKind) (offsetReg limit : Nat) (value : BitVec 32)
    (store : ShaderSetup F → Nat → BitVec 32 → ShaderSetup F) : PicaCore F :=
  let offset := (s.regs offsetReg).toNat
  if offset ≥ limit then s
  else
    let stored := s.withSetup kind (store (s.setup kind) offset value)
    let shared :=
      if kind = .vs ∧ s.sharesProgram = true then
        stored.withSetup .gs (store (stored.setup .gs) offset value)
      else stored
    shared.setReg offsetReg (s.regs offsetReg + 1)

/-- `WriteUniformBoolReg` -/
def writeUniformBoolReg (kind : ShaderKind) (value : Nat) : PicaCore F :=
  s.withSetup kind { s.setup kind with b := fun i => value / 2 ^ i % 2 = 1 }

/-- `WriteUniformIntReg` -/
def writeUniformIntReg (kind : ShaderKind) (index : Nat) (word : BitVec 32) : PicaCore F :=
  s.withSetup kind { s.setup kind with
    i := Function.update (s.setup kind).i index
      ![bitField word 0 8, bitField word 8 8, bitField word 16 8, bitField word 24 8] }

/-- A uniform of the vertex shader is also one of a geometry shader unit that shares its
configuration. -/
def forBoth (kind : ShaderKind) (write : ShaderKind → PicaCore F → PicaCore F) : PicaCore F :=
  let written := write kind s
  if kind = .vs ∧ s.sharesConfig = true then write .gs written else written

/-- The switch in `WriteInternalReg`. -/
def sideEffect (value : BitVec 32) : RegCase → PicaCore F
  | .irqRequest =>
      if anyByteMatch (s.regs 0x010) (s.regs 0x020) then
        { s with stopRequested := s.stopRequested || s.regs 0x034 != 0 }.record .signalInterrupt
      else s
  | .triangleTopology => s.record (.reconfigureAssembler (bitField (s.regs 0x25e) 8 2))
  | .restartPrimitive => s.record .resetAssembler
  | .defaultAttributeIndex =>
      { s with
        immediate := { s.immediate with
          currentAttribute := 0
          resetGeometryPipeline := true
          queue := s.immediate.queue.reset } }
  | .defaultAttributeValue => s.submitImmediate floats value
  | .commandTrigger channel =>
      s.resetCommandList (s.commandBufferAddress channel) (s.commandBufferSize channel)
  | .triggerDraw isIndexed => s.record (.drawArrays isIndexed)
  | .boolUniforms kind =>
      s.forBoth kind fun kind' t =>
        t.writeUniformBoolReg kind' (bitField (s.regs (shaderBase kind)) 0 16)
  | .intUniform kind index =>
      s.forBoth kind fun kind' t =>
        t.writeUniformIntReg kind' index (s.regs (shaderBase kind + 0x01 + index))
  | .floatUniform kind =>
      let (written, stored) := s.writeUniformFloatReg floats kind value
      match stored with
      | none => written
      | some index =>
          if kind = .vs ∧ s.sharesConfig = true then
            written.withSetup .gs { written.gsSetup with
              f := Function.update written.gsSetup.f index (written.vsSetup.f index) }
          else written
  | .programWord kind =>
      s.writeShaderWord kind (shaderBase kind + 0x1b) (if kind = .gs then 4096 else 512) value
        fun setup offset word =>
          { setup with programCode := Function.update setup.programCode offset word }
  | .swizzleWord kind =>
      s.writeShaderWord kind (shaderBase kind + 0x25) 4096 value
        fun setup offset word =>
          { setup with swizzleData := Function.update setup.swizzleData offset word }
  | .vsOutputMask =>
      if s.sharesConfig then s.setReg 0x28d (assignLow (s.regs 0x28d) 16 value.toNat) else s
  | .lightingLut => s.setReg 0x1c5 (assignLow (s.regs 0x1c5) 8 (bitField (s.regs 0x1c5) 0 8 + 1))
  | .fogLut => s.setReg 0x0e6 (assignLow (s.regs 0x0e6) 16 (bitField (s.regs 0x0e6) 0 16 + 1))
  | .proctexLut => s.setReg 0x0af (assignLow (s.regs 0x0af) 8 (bitField (s.regs 0x0af) 0 8 + 1))
  | .other => s

/-- The bytes of a register that a write changes. -/
def maskedWrite (id : Nat) (value : BitVec 32) (mask : BitVec 4) : PicaCore F :=
  let writeMask := expandBitsToBytes.getD mask.toNat 0
  s.setReg id ((s.regs id &&& ~~~writeMask) ||| (value &&& writeMask))

/-- `WriteInternalReg` -/
def writeInternalReg (id : Nat) (value : BitVec 32) (mask : BitVec 4) : PicaCore F :=
  if id ≥ numRegs then s
  else (s.maskedWrite id value mask).sideEffect floats value (switchLabel id)

end PicaCore

/-! ## A state without any writes -/

/-- Float formats that keep the numbers of the words. -/
def rawFloats : FloatFormats Nat := ⟨id, BitVec.toNat⟩

/-- No register has been written. -/
def emptySetup : ShaderSetup Nat where
  f := fun _ => ![0, 0, 0, 0]
  b := fun _ => false
  i := fun _ => ![0, 0, 0, 0]
  uniformQueue := ⟨fun _ => 0, 0, []⟩
  programCode := fun _ => 0
  swizzleData := fun _ => 0

@[inherit_doc emptySetup]
def emptyCore : PicaCore Nat where
  regs := fun _ => 0
  cmdList := ⟨0, 0, 0⟩
  stopRequested := false
  immediate := ⟨fun _ => ![0, 0, 0, 0], 0, true, ⟨fun _ => 0, 0, []⟩⟩
  inputDefaultAttributes := fun _ => ![0, 0, 0, 0]
  vsSetup := emptySetup
  gsSetup := emptySetup
  history := []

end AzaharPlus.Pica
