import AzaharPlus.Lib.SlotCache
import AzaharPlus.Pica.VertexLoader
import AzaharPlus.Pica.GeometryPipeline

/-!
# The cache of shaded vertices

`PicaCore::LoadVertices` of `video_core/pica/pica_core.cpp` keeps the outputs of the vertex shader for
the vertices of an indexed draw that came last.

* `Draw.loadDirectly` — a draw in which the shader runs for each vertex.
* `Draw.Cached` — what holds of the cache between two vertices, and `Draw.cached_turn` keeps it.
* `Draw.loadVertices_eq` — the draw with the cache sends the same.
-/

namespace AzaharPlus.Pica

/-- The calls of the geometry pipeline in `LoadVertices`. -/
structure PipelineCalls (F σ : Type) where
  needIndexInput : σ → Bool
  submitIndex : Nat → σ → σ
  submitVertex : AttributeBuffer F → σ → σ

/-- The calls of `GeometryPipeline`. -/
def GeometryPipeline.calls {F : Type} (regs : Nat → BitVec 32) (vertexNum : BitVec 32 → F)
    (run : ShaderSetup F → ShaderUnit F → ShaderUnit F) : PipelineCalls F (GeometryPipeline F) where
  needIndexInput := GeometryPipeline.needIndexInput
  submitIndex vertex p := (p.submitIndex regs vertexNum (BitVec.ofNat 32 vertex)).getD p
  submitVertex input p := p.submitVertex regs run input

/-- What is sent to the geometry pipeline. -/
inductive Sent (F : Type) where
  | index (vertex : Nat)
  | vertex (output : AttributeBuffer F)

/-- What `LoadVertices` reads during a draw; `formats` and `inputs` are what was in the memory of the
loader and of the buffer for attributes. -/
structure Draw (F : Type) where
  regs : Nat → BitVec 32
  memory : Nat → BitVec 8
  floats : VertexFloats F
  defaults : AttributeBuffer F
  run : ShaderUnit F → ShaderUnit F
  isIndexed : Bool
  formats : Nat → VertexAttributeFormat
  inputs : Nat → AttributeBuffer F

/-- The variables of `LoadVertices`, with what has been sent. -/
structure LoadState (F σ : Type) where
  cache : SlotCache Nat (AttributeBuffer F)
  vsOutput : AttributeBuffer F
  unit : ShaderUnit F
  pipeline : σ
  sent : List (Sent F)

/-- `VERTEX_CACHE_SIZE` -/
def vertexCacheSize : Nat := 64

namespace Draw

variable {F σ : Type} (d : Draw F) (calls : PipelineCalls F σ)

/-! ## The code -/

/-- The loader of the draw. -/
def loader : VertexLoader := VertexLoader.ofRegs d.regs d.formats

/-- `num_vertices` -/
def numVertices : Nat := (d.regs 0x228).toNat

/-- `vertex_offset` -/
def vertexOffset : Nat := (d.regs 0x22a).toNat

/-- The address of the index buffer. -/
def indexAddress : Nat :=
  (physicalBaseAddress d.regs + bitField (d.regs 0x227) 0 28) % 2 ^ 32

/-- `index_u16` -/
def indexU16 : Bool := bitField (d.regs 0x227) 31 1 ≠ 0

/-- The vertex of a turn. -/
def vertexAt (index : Nat) : Nat :=
  if d.isIndexed then
    if d.indexU16 then VertexLoader.bytesAt d.memory (d.indexAddress + 2 * index) 2
    else VertexLoader.bytesAt d.memory (d.indexAddress + index) 1
  else (index + d.vertexOffset) % 2 ^ 32

/-- The vertex is loaded and the shader runs for it. -/
def shade (index vertex : Nat) (s : LoadState F σ) : LoadState F σ :=
  let input := d.loader.loadVertex d.floats d.memory (physicalBaseAddress d.regs) vertex d.defaults
    (d.inputs index)
  let unit := d.run (s.unit.loadInput d.regs .vs input)
  { s with unit := unit, vsOutput := unit.writeOutput d.regs .vs s.vsOutput }

/-- The output of the shader goes to the cache. -/
def store (vertex : Nat) (s : LoadState F σ) : LoadState F σ :=
  { s with cache := s.cache.insert vertexCacheSize (vertex % 2 ^ 16) s.vsOutput }

/-- A vertex is sent. -/
def send (s : LoadState F σ) : LoadState F σ :=
  { s with
    pipeline := calls.submitVertex s.vsOutput s.pipeline
    sent := s.sent ++ [.vertex s.vsOutput] }

/-- A turn of the loop. -/
def turn (index : Nat) (s : LoadState F σ) : LoadState F σ :=
  let vertex := d.vertexAt index
  if d.isIndexed then
    if calls.needIndexInput s.pipeline then
      { s with
        pipeline := calls.submitIndex vertex s.pipeline
        sent := s.sent ++ [.index vertex] }
    else
      match s.cache.lookup vertexCacheSize vertex with
      | some output => send calls { s with vsOutput := output }
      | none => send calls (store vertex (d.shade index vertex s))
  else send calls (d.shade index vertex s)

/-- The loop after so many turns. -/
def turns (s : LoadState F σ) : Nat → LoadState F σ
  | 0 => s
  | n + 1 => d.turn calls n (turns s n)

/-- The variables before the loop; those of the cache and `vs_output` are not set. -/
def start (ids : Nat → Nat) (values : Nat → AttributeBuffer F) (vsOutput : AttributeBuffer F)
    (unit : ShaderUnit F) (pipeline : σ) : LoadState F σ :=
  ⟨⟨fun _ => false, ids, values, 0⟩, vsOutput, unit, pipeline, []⟩

/-- `LoadVertices`, behind the configuration of the geometry pipeline. -/
def loadVertices (ids : Nat → Nat) (values : Nat → AttributeBuffer F)
    (vsOutput : AttributeBuffer F) (unit : ShaderUnit F) (pipeline : σ) : LoadState F σ :=
  d.turns calls (start ids values vsOutput unit pipeline) d.numVertices

/-! ## Without a cache -/

/-- The outputs of the shader are a function of the attributes that are loaded. -/
def OutputFrom (out : (Nat → Option (Vec4 F)) → AttributeBuffer F) : Prop :=
  ∀ (unit : ShaderUnit F) (input : AttributeBuffer F), ∀ reg ∈ bitSet (outputMask d.regs .vs),
    (d.run (unit.loadInput d.regs .vs input)).output reg = out (d.loader.loaded input) reg

variable (out : (Nat → Option (Vec4 F)) → AttributeBuffer F) (rest : AttributeBuffer F)

/-- The outputs of the shader for a vertex, in a buffer with certain entries behind them. -/
def shaderVertex (vertex : Nat) : AttributeBuffer F := fun i =>
  match (bitSet (outputMask d.regs .vs))[i]? with
  | some reg =>
      out (d.loader.attributes d.floats d.memory (physicalBaseAddress d.regs) vertex d.defaults) reg
  | none => rest i

/-- The draw in which the shader runs for each vertex, after so many of them. -/
def loadDirectly (pipeline : σ) : Nat → σ × List (Sent F)
  | 0 => (pipeline, [])
  | n + 1 =>
      let (p, sent) := loadDirectly pipeline n
      let vertex := d.vertexAt n
      if d.isIndexed && calls.needIndexInput p then
        (calls.submitIndex vertex p, sent ++ [.index vertex])
      else
        (calls.submitVertex (d.shaderVertex out rest vertex) p,
          sent ++ [.vertex (d.shaderVertex out rest vertex)])

/-! ## What holds of the cache -/

/-- Every slot in use holds the outputs for its vertex, and the entries behind the outputs are never
written. -/
structure Cached (s : LoadState F σ) : Prop where
  sound : s.cache.Sound (d.shaderVertex out rest)
  rest : ∀ i, (bitSet (outputMask d.regs .vs))[i]? = none → s.vsOutput i = rest i

variable {d out rest}

/-- The buffer behind a run of the shader. -/
theorem vsOutput_shade (hout : d.OutputFrom out) {s : LoadState F σ}
    (h : ∀ i, (bitSet (outputMask d.regs .vs))[i]? = none → s.vsOutput i = rest i)
    (index vertex : Nat) :
    (d.shade index vertex s).vsOutput = d.shaderVertex out rest vertex := by
  funext i
  unfold shade ShaderUnit.writeOutput shaderVertex
  simp only
  rw [storeOutputs_apply, if_pos (Nat.zero_le i), Nat.sub_zero]
  cases hreg : (bitSet (outputMask d.regs .vs))[i]? with
  | none => exact h i hreg
  | some reg =>
    have hmem := List.mem_of_getElem? hreg
    rw [Option.map_some, Option.getD_some, hout _ _ reg hmem,
      VertexLoader.loaded_loadVertex]

/-- The indices of an indexed draw are 16 bits long at most. -/
theorem vertexAt_lt (h : d.isIndexed = true) (index : Nat) : d.vertexAt index < 2 ^ 16 := by
  unfold vertexAt
  rw [if_pos h]
  split
  · simp only [VertexLoader.bytesAt]
    have hlow := (d.memory (d.indexAddress + 2 * index)).isLt
    have hhigh := (d.memory (d.indexAddress + 2 * index + 1)).isLt
    omega
  · simp only [VertexLoader.bytesAt]
    have hlow := (d.memory (d.indexAddress + index)).isLt
    omega

theorem cached_start (ids : Nat → Nat) (values : Nat → AttributeBuffer F)
    (vsOutput : AttributeBuffer F) (unit : ShaderUnit F) (pipeline : σ) :
    d.Cached out vsOutput (start ids values vsOutput unit pipeline) :=
  ⟨SlotCache.sound_of_unused fun _ => rfl, fun _ _ => rfl⟩

/-- A turn keeps the cache sound, and sends what is sent without a cache. -/
theorem cached_turn (hout : d.OutputFrom out) (index : Nat) {s : LoadState F σ}
    (h : d.Cached out rest s) :
    d.Cached out rest (d.turn calls index s) ∧
      ((d.turn calls index s).pipeline, (d.turn calls index s).sent) =
        if d.isIndexed && calls.needIndexInput s.pipeline then
          (calls.submitIndex (d.vertexAt index) s.pipeline,
            s.sent ++ [.index (d.vertexAt index)])
        else
          (calls.submitVertex (d.shaderVertex out rest (d.vertexAt index)) s.pipeline,
            s.sent ++ [.vertex (d.shaderVertex out rest (d.vertexAt index))]) := by
  have hrest (vertex : Nat) : ∀ i, (bitSet (outputMask d.regs .vs))[i]? = none →
      d.shaderVertex out rest vertex i = rest i := by
    intro i hi
    unfold shaderVertex
    rw [hi]
  have hshade := vsOutput_shade hout h.rest index (d.vertexAt index)
  unfold turn
  simp only
  by_cases hindexed : d.isIndexed = true
  · rw [if_pos hindexed, hindexed, Bool.true_and]
    split
    · exact ⟨⟨h.sound, h.rest⟩, rfl⟩
    · split
      · -- the vertex is in the cache
        rename_i output hfound
        have houtput : output = d.shaderVertex out rest (d.vertexAt index) := h.sound.lookup hfound
        subst houtput
        exact ⟨⟨h.sound, hrest _⟩, rfl⟩
      · -- the shader runs, and the outputs take the next slot
        have hid : d.vertexAt index % 2 ^ 16 = d.vertexAt index :=
          Nat.mod_eq_of_lt (vertexAt_lt hindexed index)
        unfold send store
        simp only [hshade, hid]
        exact ⟨⟨h.sound.insert _ _, hrest _⟩, rfl⟩
  · rw [if_neg hindexed, Bool.eq_false_iff.2 hindexed, Bool.false_and]
    unfold send
    simp only [hshade]
    exact ⟨⟨h.sound, hrest _⟩, rfl⟩

/-- The loop with the cache and the draw without one, after so many vertices. -/
theorem cached_turns (hout : d.OutputFrom out) {s : LoadState F σ} (h : d.Cached out rest s)
    (hsent : s.sent = []) (n : Nat) :
    d.Cached out rest (d.turns calls s n) ∧
      ((d.turns calls s n).pipeline, (d.turns calls s n).sent) =
        d.loadDirectly calls out rest s.pipeline n := by
  induction n with
  | zero => exact ⟨h, by rw [turns, loadDirectly, hsent]⟩
  | succ n ih =>
    obtain ⟨hcached, heq⟩ := ih
    obtain ⟨hnext, hsend⟩ := cached_turn calls hout n hcached
    refine ⟨hnext, ?_⟩
    rw [turns, hsend, loadDirectly, ← heq]

/-- **The cache is invisible.**  Whatever was in the cache and the buffers, a draw sends the indices
and the outputs of the shader that it sends without a cache. -/
theorem loadVertices_eq (d : Draw F) (calls : PipelineCalls F σ)
    (out : (Nat → Option (Vec4 F)) → AttributeBuffer F) (hout : d.OutputFrom out)
    (ids : Nat → Nat) (values : Nat → AttributeBuffer F) (vsOutput : AttributeBuffer F)
    (unit : ShaderUnit F) (pipeline : σ) :
    ((d.loadVertices calls ids values vsOutput unit pipeline).pipeline,
        (d.loadVertices calls ids values vsOutput unit pipeline).sent) =
      d.loadDirectly calls out vsOutput pipeline d.numVertices :=
  (cached_turns calls hout (cached_start ids values vsOutput unit pipeline) rfl d.numVertices).2

/-- Registers for one attribute of four bytes, read and handed on by the shader unchanged. -/
def oneAttributeRegs (id : Nat) : BitVec 32 :=
  if id = 0x201 then 0xd
  else if id = 0x205 then 0x10040000
  else if id = 0x227 then 0x100
  else if id = 0x228 then 4
  else if id = 0x2bd then 1
  else 0

/-- An indexed draw of the vertices 2, 1, 2 and 1 with these registers. -/
def drawOfFour : Draw Nat where
  regs := oneAttributeRegs
  memory := fun a => if a = 0x100 ∨ a = 0x102 then 2 else if a = 0x101 ∨ a = 0x103 then 1
    else BitVec.ofNat 8 a
  floats := { rawFloats with fromInt := Int.toNat, zero := 0, one := 1 }
  defaults := fun _ _ => 0
  run := fun unit => { unit with output := unit.input }
  isIndexed := true
  formats := fun _ => .byte
  inputs := fun _ _ _ => 0

/-- The first attribute is what the shader hands on. -/
theorem outputFrom_drawOfFour :
    drawOfFour.OutputFrom fun attributes reg => (attributes reg).getD fun _ => 0 := by
  intro unit input reg hreg
  have hmem : reg ∈ [0] := hreg
  have hmax : maxInputAttributeIndex drawOfFour.regs .vs = 0 := by decide
  have hregister : registerForAttribute drawOfFour.regs .vs 0 = 0 := by decide
  have hloads : drawOfFour.loader.Loads 0 := by decide +kernel
  have houtput (u : ShaderUnit Nat) : (drawOfFour.run u).output = u.input := rfl
  have hloaded : drawOfFour.loader.loaded input 0 = some (input 0) := if_pos hloads
  rw [List.mem_singleton.1 hmem, houtput, ShaderUnit.loadInput]
  simp only [hmax, loadAttributes, hregister, Function.update_self, hloaded, Option.getD_some]

/-- The vertices of the draw are sent to a pipeline without a geometry shader. -/
theorem loadVertices_eq_four :
    (drawOfFour.loadVertices
        (GeometryPipeline.calls oneAttributeRegs BitVec.toNat fun _ unit => unit)
        (fun _ => 0) (fun _ _ _ => 7) (fun _ _ => 7) emptyUnit
        ⟨none, emptySetup, emptyUnit, []⟩).sent =
      [2, 1, 2, 1].map fun vertex => .vertex
        (drawOfFour.shaderVertex (fun attributes reg => (attributes reg).getD fun _ => 0)
          (fun _ _ => 7) vertex) :=
  congrArg Prod.snd (loadVertices_eq drawOfFour
    (GeometryPipeline.calls oneAttributeRegs BitVec.toNat fun _ unit => unit) _
    outputFrom_drawOfFour (fun _ => 0) (fun _ _ _ => 7) (fun _ _ => 7) emptyUnit
    ⟨none, emptySetup, emptyUnit, []⟩)

end Draw

end AzaharPlus.Pica
