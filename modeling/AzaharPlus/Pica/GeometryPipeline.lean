import AzaharPlus.Pica.ShaderUnit

/-!
# The geometry pipeline

`GeometryPipeline` of `video_core/pica/geometry_pipeline.cpp`: the outputs of the vertex shader are
collected for the geometry shader, in one of three ways that the registers choose.

* `makeBackend`, `reconfigure` — the constructors of the backends and `Reconfigure`.
* `submitIndex`, `submitVertex` — the calls behind it.
-/

namespace AzaharPlus.Pica

/-! ## The registers -/

section Regs

variable (regs : Nat → BitVec 32)

/-- `use_gs` -/
def useGs : Nat := bitField (regs 0x229) 0 2

/-- `variable_primitive` -/
def variablePrimitive : Nat := bitField (regs 0x229) 31 1

/-- `vs_outmap_total_minus_1_a` -/
def vsOutmapTotalMinus1A : Nat := bitField (regs 0x24a) 0 4

/-- `vs_outmap_total_minus_1_b` -/
def vsOutmapTotalMinus1B : Nat := bitField (regs 0x251) 0 4

/-- `gs_config.mode` -/
def gsMode : Nat := bitField (regs 0x252) 0 8

/-- `gs_config.fixed_vertex_num_minus_1` -/
def fixedVertexNumMinus1 : Nat := bitField (regs 0x252) 8 4

/-- `gs_config.stride_minus_1` -/
def strideMinus1 : Nat := bitField (regs 0x252) 12 4

/-- `gs_config.start_index` -/
def startIndex : Nat := bitField (regs 0x252) 16 8

/-- `vs_output_num` of the backends. -/
def vsOutputNum : Nat := vsOutmapTotalMinus1A regs + 1

/-- `main_vertex_num` behind an index. -/
def mainVertexNum : BitVec 32 := regs 0x254 + 1

end Regs

/-! ## The state -/

/-- `GeometryPipeline_Point`, with its pointers as indices. -/
structure PointBackend (F : Type) where
  attributeBuffer : AttributeBuffer F
  bufferCur : Nat
  bufferEnd : Nat
  vsOutputNum : Nat

/-- `GeometryPipeline_VariablePrimitive`, with its pointer as an index of the uniforms; the last index
and the vertices behind it are kept too. -/
structure VariableBackend where
  needIndex : Bool
  mainVertexNum : BitVec 32
  totalVertexNum : BitVec 32
  bufferCur : Nat
  vsOutputNum : Nat
  announced : BitVec 32
  received : Nat

/-- `GeometryPipeline_FixedPrimitive`, with its pointers as indices of the uniforms. -/
structure FixedBackend where
  bufferBegin : Nat
  bufferCur : Nat
  bufferEnd : Nat
  vsOutputNum : Nat

/-- `GeometryPipelineBackend` -/
inductive Backend (F : Type) where
  | point (b : PointBackend F)
  | variablePrimitive (b : VariableBackend)
  | fixedPrimitive (b : FixedBackend)

/-- What happens in the pipeline. -/
inductive PipelineEvent (F : Type) where
  /-- An entry of the attribute buffer is written. -/
  | storeAttribute (index : Nat)
  /-- A float uniform is written. -/
  | storeUniform (index : Nat)
  /-- So many vertices have come behind an index; with the last one the buffer is full. -/
  | count (announced received : Nat) (full : Bool)
  /-- The geometry shader is invoked. -/
  | invoke
  /-- A vertex goes to the primitive assembler. -/
  | handle (vertex : AttributeBuffer F)

/-- `GeometryPipeline`, with what has happened since it was configured. -/
structure GeometryPipeline (F : Type) where
  backend : Option (Backend F)
  gs : ShaderSetup F
  gsUnit : ShaderUnit F
  history : List (PipelineEvent F)

/-- `std::copy` of the first entries of a buffer. -/
def copyVertex {F : Type} (input : AttributeBuffer F) (n cur : Nat) (target : Nat → Vec4 F) :
    Nat → Vec4 F :=
  fun i => if cur ≤ i ∧ i < cur + n then input (i - cur) else target i

namespace GeometryPipeline

variable {F : Type}

/-! ## The code -/

section Code

variable (regs : Nat → BitVec 32)

/-- The constructor of the backend in point mode; its buffer is indeterminate. -/
def makePoint (attributeBuffer : AttributeBuffer F) : Option (Backend F) :=
  if variablePrimitive regs = 0 ∧ inputToUniform regs .gs = 0 ∧
      (maxInputAttributeIndex regs .gs + 1) % vsOutputNum regs = 0 then
    some (.point ⟨attributeBuffer, 0, maxInputAttributeIndex regs .gs + 1, vsOutputNum regs⟩)
  else none

/-- The constructor of the backend for primitives of variable size; the members of `indeterminate`
are not set. -/
def makeVariable (indeterminate : VariableBackend) : Option (Backend F) :=
  if variablePrimitive regs = 1 ∧ inputToUniform regs .gs = 1 then
    some (.variablePrimitive
      { indeterminate with needIndex := true, vsOutputNum := vsOutputNum regs })
  else none

/-- The constructor of the backend for primitives of fixed size. -/
def makeFixed : Option (Backend F) :=
  if variablePrimitive regs = 0 ∧ inputToUniform regs .gs = 1 ∧
      vsOutputNum regs = strideMinus1 regs + 1 then
    some (.fixedPrimitive ⟨startIndex regs, startIndex regs,
      startIndex regs + vsOutputNum regs * (fixedVertexNumMinus1 regs + 1), vsOutputNum regs⟩)
  else none

/-- The switch in `Reconfigure`. -/
def makeBackend (attributeBuffer : AttributeBuffer F) (indeterminate : VariableBackend) :
    Option (Backend F) :=
  match gsMode regs with
  | 0 => makePoint regs attributeBuffer
  | 1 => makeVariable regs indeterminate
  | 2 => makeFixed regs
  | _ => none

/-- `IsEmpty` -/
def isEmpty : Backend F → Bool
  | .point b => b.bufferCur = 0
  | .variablePrimitive b => b.needIndex
  | .fixedPrimitive b => b.bufferCur = b.bufferBegin

/-- `ConfigOutput` -/
def configOutput (unit : ShaderUnit F) : ShaderUnit F :=
  { unit with emitter := unit.emitter.map fun e =>
    { e with outputMask := ⟨outputMask regs .gs, bitField_lt _ _ _⟩ } }

/-- `Reconfigure`; there is no result when an assertion fails. -/
def reconfigure (attributeBuffer : AttributeBuffer F) (indeterminate : VariableBackend)
    (p : GeometryPipeline F) : Option (GeometryPipeline F) :=
  if p.backend.all isEmpty = false then none
  else if useGs regs = 0 then some { p with backend := none, history := [] }
  else if shaderMode regs .gs = 0x08 ∧ useGs regs = 2 ∧
      vsOutmapTotalMinus1A regs = vsOutmapTotalMinus1B regs then
    (makeBackend regs attributeBuffer indeterminate).map fun backend =>
      { p with backend := some backend, gsUnit := configOutput regs p.gsUnit, history := [] }
  else none

/-- `NeedIndexInput` -/
def needIndexInput (p : GeometryPipeline F) : Bool :=
  match p.backend with
  | some (.variablePrimitive b) => b.needIndex
  | _ => false

/-- `SubmitIndex`, where `vertexNum` makes a float of an index; only one backend takes indices. -/
def submitIndex (vertexNum : BitVec 32 → F) (val : BitVec 32) (p : GeometryPipeline F) :
    Option (GeometryPipeline F) :=
  match p.backend with
  | some (.variablePrimitive b) =>
      some { p with
        backend := some (.variablePrimitive
          { b with
            needIndex := false
            mainVertexNum := mainVertexNum regs
            totalVertexNum := val
            bufferCur := 1
            announced := val
            received := 0 })
        gs := { p.gs with f := Function.update p.gs.f 0 fun _ => vertexNum val }
        history := p.history ++ [.storeUniform 0] }
  | _ => none

/-- The shader is invoked when the buffer is full. -/
def invokeIf (run : ShaderSetup F → ShaderUnit F → ShaderUnit F) (full : Bool)
    (p : GeometryPipeline F) : GeometryPipeline F :=
  if full then
    { p with
      gs := { p.gs with b := Function.update p.gs.b 15 true }
      gsUnit := run p.gs p.gsUnit
      history := p.history ++ [.invoke] }
  else p

/-- `SubmitVertex` in point mode. -/
def submitPoint (input : AttributeBuffer F) (b : PointBackend F) (p : GeometryPipeline F) :
    GeometryPipeline F × Bool :=
  let buffer := copyVertex input b.vsOutputNum b.bufferCur b.attributeBuffer
  let cur := b.bufferCur + b.vsOutputNum
  let history := p.history ++
    (List.range b.vsOutputNum).map fun k => .storeAttribute (b.bufferCur + k)
  if cur = b.bufferEnd then
    ({ p with
      backend := some (.point { b with attributeBuffer := buffer, bufferCur := 0 })
      gsUnit := p.gsUnit.loadInput regs .gs buffer
      history := history }, true)
  else
    ({ p with
      backend := some (.point { b with attributeBuffer := buffer, bufferCur := cur })
      history := history }, false)

/-- `SubmitVertex` for primitives of variable size. -/
def submitVariable (input : AttributeBuffer F) (b : VariableBackend) (p : GeometryPipeline F) :
    GeometryPipeline F × Bool :=
  let n := if b.mainVertexNum ≠ 0 then b.vsOutputNum else 1
  let main := if b.mainVertexNum ≠ 0 then b.mainVertexNum - 1 else b.mainVertexNum
  let total := b.totalVertexNum - 1
  let full := total == 0
  ({ p with
    backend := some (.variablePrimitive
      { b with
        needIndex := b.needIndex || full
        mainVertexNum := main
        totalVertexNum := total
        bufferCur := b.bufferCur + n
        received := b.received + 1 })
    gs := { p.gs with f := copyVertex input n b.bufferCur p.gs.f }
    history := p.history ++ ((List.range n).map fun k => .storeUniform (b.bufferCur + k)) ++
      [.count b.announced.toNat (b.received + 1) full] }, full)

/-- `SubmitVertex` for primitives of fixed size. -/
def submitFixed (input : AttributeBuffer F) (b : FixedBackend) (p : GeometryPipeline F) :
    GeometryPipeline F × Bool :=
  let cur := b.bufferCur + b.vsOutputNum
  let full := cur == b.bufferEnd
  ({ p with
    backend := some (.fixedPrimitive { b with bufferCur := if full then b.bufferBegin else cur })
    gs := { p.gs with f := copyVertex input b.vsOutputNum b.bufferCur p.gs.f }
    history := p.history ++
      (List.range b.vsOutputNum).map fun k => .storeUniform (b.bufferCur + k) }, full)

/-- `SubmitVertex` -/
def submitVertex (run : ShaderSetup F → ShaderUnit F → ShaderUnit F) (input : AttributeBuffer F)
    (p : GeometryPipeline F) : GeometryPipeline F :=
  match p.backend with
  | none => { p with history := p.history ++ [.handle input] }
  | some (.point b) =>
      let (q, full) := p.submitPoint regs input b
      q.invokeIf run full
  | some (.variablePrimitive b) =>
      let (q, full) := p.submitVariable input b
      q.invokeIf run full
  | some (.fixedPrimitive b) =>
      let (q, full) := p.submitFixed input b
      q.invokeIf run full

end Code

end GeometryPipeline

end AzaharPlus.Pica
