import AzaharPlus.Pica.InternalRegs

/-!
# Queues of packed attributes

Words that are written to the registers of default attributes and of float uniforms wait in queues
until a vector is complete.

* `QueuesOk` — what holds between two register writes, while `WriteFits` holds of each of them.
* `queuesOk_write` — one write keeps it, with a case for each kind of register.
* `queues_in_bounds` — no queue overflows in a run of such writes.
* `queue_overflows` — two runs in which a write does not fit.
-/

namespace AzaharPlus.Pica

/-! ## What is expected of the queues -/

/-- How many words make a vector. -/
def wordsPerVector (isFloat32 : Bool) : Nat := if isFloat32 then 4 else 3

/-- The most recent words of a queue, as a buffer. -/
def recentWords (words : List (BitVec 32)) (n : Nat) : Nat → BitVec 32 :=
  fun i => (words.drop (words.length - n)).getD i 0

/-- Arrays are indexed in bounds, and a complete vector is made of the words pushed last. -/
def EventOk {F : Type} (floats : FloatFormats F) : RegEvent F → Prop
  | .push index => index < 4
  | .storeDefault index => index < 16
  | .storeInput index => index < 16
  | .complete isFloat32 words vector =>
      wordsPerVector isFloat32 ≤ words.length ∧
        vector = PackedAttribute.decode floats isFloat32
          (recentWords words (wordsPerVector isFloat32))
  | _ => True

/-- A register write. -/
structure RegWrite where
  id : Nat
  value : BitVec 32
  mask : BitVec 4

section Runs

variable {F : Type} (floats : FloatFormats F)

/-- The write of a word fits: a third word of a default attribute is for one of the sixteen
attributes, and a queue of three words is not taken for one of the other float format. -/
def WriteFits (s : PicaCore F) (w : RegWrite) : Prop :=
  match switchLabel w.id with
  | .defaultAttributeValue => s.immediate.queue.index < 2 ∨ s.defaultAttributeIndex ≤ 0xf
  | .floatUniform kind => (s.setup kind).uniformQueue.index < 3 ∨ s.isFloat32 kind = true
  | _ => True

/-- The writes of a run. -/
def runWrites (s : PicaCore F) : List RegWrite → PicaCore F
  | [] => s
  | w :: ws => runWrites (s.writeInternalReg floats w.id w.value w.mask) ws

/-- Each write of a run fits. -/
def AllFit (s : PicaCore F) : List RegWrite → Prop
  | [] => True
  | w :: ws => WriteFits s w ∧ AllFit (s.writeInternalReg floats w.id w.value w.mask) ws

/-- Nothing waits in the queues, and nothing has happened. -/
structure Fresh (s : PicaCore F) : Prop where
  immediate : s.immediate.queue.index = 0 ∧ s.immediate.queue.pushed = []
  uniforms : ∀ kind, (s.setup kind).uniformQueue.index = 0 ∧ (s.setup kind).uniformQueue.pushed = []
  current : s.immediate.currentAttribute = 0
  history : s.history = []

/-! ## The invariant -/

/-- The buffer of a queue holds the words that were pushed since it was emptied. -/
structure Holds (q : PackedAttribute) : Prop where
  index : q.index = q.pushed.length
  buffer : ∀ i < q.pushed.length, q.buffer i = q.pushed.getD i 0

/-- What holds between two writes. -/
structure QueuesOk (s : PicaCore F) : Prop where
  immediate : Holds s.immediate.queue
  immediate_lt : s.immediate.queue.index < 3
  uniforms : ∀ kind, Holds (s.setup kind).uniformQueue
  uniforms_lt : ∀ kind, (s.setup kind).uniformQueue.index < 4
  current : s.immediate.currentAttribute < 16
  events : ∀ e ∈ s.history, EventOk floats e

variable {floats}

theorem holds_of_empty {q : PackedAttribute} (h : q.index = 0 ∧ q.pushed = []) : Holds q := by
  refine ⟨by rw [h.1, h.2]; rfl, fun i hi => ?_⟩
  rw [h.2] at hi
  exact absurd hi (Nat.not_lt_zero i)

theorem holds_reset (q : PackedAttribute) : Holds q.reset := holds_of_empty ⟨rfl, rfl⟩

theorem Holds.push {q : PackedAttribute} (h : Holds q) (word : BitVec 32) (isFloat32 : Bool) :
    Holds (q.push word isFloat32).1 := by
  have hlength : (q.pushed ++ [word]).length = q.pushed.length + 1 := List.length_append
  refine ⟨(congrArg (· + 1) h.index).trans hlength.symm, fun i hi => ?_⟩
  change Function.update q.buffer q.index word i = (q.pushed ++ [word]).getD i 0
  have hi' : i < q.pushed.length + 1 := hlength ▸ hi
  rw [List.getD_eq_getElem?_getD]
  by_cases hlast : i = q.index
  · have hplace : i = q.pushed.length := hlast.trans h.index
    rw [hlast, Function.update_self, h.index, List.getElem?_concat_length]
    rfl
  · have hindex := h.index
    rw [Function.update_of_ne hlast, h.buffer i (by omega), List.getElem?_append_left (by omega),
      List.getD_eq_getElem?_getD]

/-- A vector only depends on so many words of the buffer. -/
theorem decode_congr {isFloat32 : Bool} {a b : Nat → BitVec 32}
    (h : ∀ i < wordsPerVector isFloat32, a i = b i) :
    PackedAttribute.decode floats isFloat32 a = PackedAttribute.decode floats isFloat32 b := by
  cases isFloat32 with
  | true =>
    funext i
    have hword := h (3 - i) (by simp only [wordsPerVector, if_true]; omega)
    simp only [PackedAttribute.decode, if_true, PackedAttribute.asFloat32, hword]
  | false =>
    have h₀ := h 0 (by decide)
    have h₁ := h 1 (by decide)
    have h₂ := h 2 (by decide)
    simp only [PackedAttribute.decode, Bool.false_eq_true, if_false, PackedAttribute.asFloat24, h₀,
      h₁, h₂]

/-- A queue that has just so many words as a vector is made of. -/
theorem eventOk_complete {q : PackedAttribute} (h : Holds q) {isFloat32 : Bool}
    (hlength : q.index = wordsPerVector isFloat32) :
    EventOk floats (.complete isFloat32 q.pushed
      (PackedAttribute.decode floats isFloat32 q.buffer)) := by
  have hindex := h.index
  refine ⟨by omega, decode_congr fun i hi => ?_⟩
  rw [recentWords, h.buffer i (by omega)]
  have hall : q.pushed.length - wordsPerVector isFloat32 = 0 := by omega
  rw [hall, List.drop_zero]

/-! ## Steps that leave the queues alone -/

/-- The queues and the current attribute are the same, and what has happened meanwhile is fine. -/
structure Leaves (floats : FloatFormats F) (s t : PicaCore F) : Prop where
  immediate : t.immediate.queue = s.immediate.queue
  current : t.immediate.currentAttribute = s.immediate.currentAttribute
  uniforms : ∀ kind, (t.setup kind).uniformQueue = (s.setup kind).uniformQueue
  events : ∀ e ∈ t.history, e ∈ s.history ∨ EventOk floats e

theorem Leaves.refl (s : PicaCore F) : Leaves floats s s :=
  ⟨rfl, rfl, fun _ => rfl, fun _ he => Or.inl he⟩

theorem Leaves.trans {s t u : PicaCore F} (h : Leaves floats s t) (h' : Leaves floats t u) :
    Leaves floats s u where
  immediate := h'.immediate.trans h.immediate
  current := h'.current.trans h.current
  uniforms kind := (h'.uniforms kind).trans (h.uniforms kind)
  events e he := (h'.events e he).elim (h.events e) Or.inr

theorem QueuesOk.leaves {s t : PicaCore F} (h : QueuesOk floats s) (hleaves : Leaves floats s t) :
    QueuesOk floats t where
  immediate := hleaves.immediate ▸ h.immediate
  immediate_lt := hleaves.immediate ▸ h.immediate_lt
  uniforms kind := hleaves.uniforms kind ▸ h.uniforms kind
  uniforms_lt kind := hleaves.uniforms kind ▸ h.uniforms_lt kind
  current := hleaves.current ▸ h.current
  events e he := (hleaves.events e he).elim (h.events e) id

theorem leaves_setReg (s : PicaCore F) (id : Nat) (value : BitVec 32) :
    Leaves floats s (s.setReg id value) :=
  ⟨rfl, rfl, fun kind => by cases kind <;> rfl, fun _ he => Or.inl he⟩

theorem leaves_stop (s : PicaCore F) (stop : Bool) :
    Leaves floats s { s with stopRequested := stop } :=
  ⟨rfl, rfl, fun kind => by cases kind <;> rfl, fun _ he => Or.inl he⟩

theorem leaves_record (s : PicaCore F) {event : RegEvent F} (h : EventOk floats event) :
    Leaves floats s (s.record event) := by
  refine ⟨rfl, rfl, fun kind => by cases kind <;> rfl, fun e he => ?_⟩
  rcases List.mem_append.1 he with hold | hnew
  · exact Or.inl hold
  · exact Or.inr (List.mem_singleton.1 hnew ▸ h)

theorem leaves_withSetup (s : PicaCore F) (kind : ShaderKind) {setup : ShaderSetup F}
    (h : setup.uniformQueue = (s.setup kind).uniformQueue) :
    Leaves floats s (s.withSetup kind setup) := by
  cases kind with
  | vs => exact ⟨rfl, rfl, fun kind => by cases kind; exacts [rfl, h], fun _ he => Or.inl he⟩
  | gs => exact ⟨rfl, rfl, fun kind => by cases kind; exacts [h, rfl], fun _ he => Or.inl he⟩

theorem leaves_writeShaderWord (s : PicaCore F) (kind : ShaderKind) (offsetReg limit : Nat)
    (value : BitVec 32) {store : ShaderSetup F → Nat → BitVec 32 → ShaderSetup F}
    (h : ∀ setup offset word, (store setup offset word).uniformQueue = setup.uniformQueue) :
    Leaves floats s (s.writeShaderWord kind offsetReg limit value store) := by
  unfold PicaCore.writeShaderWord
  simp only
  split
  · exact Leaves.refl s
  · refine Leaves.trans ?_ (leaves_setReg _ _ _)
    have hstored : Leaves floats s
        (s.withSetup kind (store (s.setup kind) (s.regs offsetReg).toNat value)) :=
      leaves_withSetup s kind (h _ _ _)
    split
    · exact hstored.trans (leaves_withSetup _ .gs (h _ _ _))
    · exact hstored

theorem leaves_forBoth (s : PicaCore F) (kind : ShaderKind)
    {write : ShaderKind → PicaCore F → PicaCore F}
    (h : ∀ kind t, Leaves floats t (write kind t)) : Leaves floats s (s.forBoth kind write) := by
  unfold PicaCore.forBoth
  simp only
  split
  · exact (h kind s).trans (h .gs _)
  · exact h kind s

/-- A write to any other register. -/
theorem leaves_sideEffect (s : PicaCore F) (value : BitVec 32) {c : RegCase}
    (hindex : c ≠ .defaultAttributeIndex) (hvalue : c ≠ .defaultAttributeValue)
    (hfloat : ∀ kind, c ≠ .floatUniform kind) : Leaves floats s (s.sideEffect floats value c) := by
  cases c with
  | irqRequest =>
    by_cases hmatch : anyByteMatch (s.regs 0x010) (s.regs 0x020) = true
    · simp only [PicaCore.sideEffect, hmatch, if_true]
      exact (leaves_stop s _).trans (leaves_record _ trivial)
    · simp only [PicaCore.sideEffect, hmatch]
      exact Leaves.refl s
  | triangleTopology => exact leaves_record s trivial
  | restartPrimitive => exact leaves_record s trivial
  | defaultAttributeIndex => exact absurd rfl hindex
  | defaultAttributeValue => exact absurd rfl hvalue
  | commandTrigger channel =>
    exact ⟨rfl, rfl, fun kind => by cases kind <;> rfl, fun _ he => Or.inl he⟩
  | triggerDraw isIndexed => exact leaves_record s trivial
  | boolUniforms kind =>
    rw [PicaCore.sideEffect]
    refine leaves_forBoth s kind fun kind t => ?_
    exact leaves_withSetup t kind rfl
  | intUniform kind index =>
    rw [PicaCore.sideEffect]
    refine leaves_forBoth s kind fun kind t => ?_
    exact leaves_withSetup t kind rfl
  | floatUniform kind => exact absurd rfl (hfloat kind)
  | programWord kind =>
    rw [PicaCore.sideEffect]
    refine leaves_writeShaderWord s kind _ _ value ?_
    intro setup offset word
    rfl
  | swizzleWord kind =>
    rw [PicaCore.sideEffect]
    refine leaves_writeShaderWord s kind _ _ value ?_
    intro setup offset word
    rfl
  | vsOutputMask =>
    by_cases hshared : s.sharesConfig = true
    · simp only [PicaCore.sideEffect, hshared, if_true]
      exact leaves_setReg s _ _
    · simp only [PicaCore.sideEffect, hshared]
      exact Leaves.refl s
  | lightingLut => exact leaves_setReg s _ _
  | fogLut => exact leaves_setReg s _ _
  | proctexLut => exact leaves_setReg s _ _
  | other => exact Leaves.refl s

/-! ## The three registers that use the queues -/

theorem QueuesOk.record {s : PicaCore F} (h : QueuesOk floats s) {event : RegEvent F}
    (hevent : EventOk floats event) : QueuesOk floats (s.record event) :=
  h.leaves (leaves_record s hevent)

/-- A queue of default attributes is replaced. -/
theorem QueuesOk.withQueue {s : PicaCore F} (h : QueuesOk floats s) {queue : PackedAttribute}
    (hholds : Holds queue) (hlt : queue.index < 3) :
    QueuesOk floats { s with immediate := { s.immediate with queue := queue } } where
  immediate := hholds
  immediate_lt := hlt
  uniforms kind := by cases kind; exacts [h.uniforms .gs, h.uniforms .vs]
  uniforms_lt kind := by cases kind; exacts [h.uniforms_lt .gs, h.uniforms_lt .vs]
  current := h.current
  events := h.events

/-- The current attribute is replaced. -/
theorem QueuesOk.withCurrent {s : PicaCore F} (h : QueuesOk floats s)
    {immediate : ImmediateModeState F} (hqueue : immediate.queue = s.immediate.queue)
    (hlt : immediate.currentAttribute < 16) :
    QueuesOk floats { s with immediate := immediate } where
  immediate := by
    change Holds immediate.queue
    rw [hqueue]
    exact h.immediate
  immediate_lt := by
    change immediate.queue.index < 3
    rw [hqueue]
    exact h.immediate_lt
  uniforms kind := by cases kind; exacts [h.uniforms .gs, h.uniforms .vs]
  uniforms_lt kind := by cases kind; exacts [h.uniforms_lt .gs, h.uniforms_lt .vs]
  current := hlt
  events := h.events

theorem QueuesOk.drawImmediate {s : PicaCore F} (h : QueuesOk floats s) :
    QueuesOk floats s.drawImmediate := by
  have hevent : EventOk floats (.drawImmediate : RegEvent F) := trivial
  have hdrawn : QueuesOk floats
      { s with
        immediate := { s.immediate with currentAttribute := 0, resetGeometryPipeline := false } } :=
    h.withCurrent rfl (Nat.zero_lt_succ 15)
  exact hdrawn.record hevent

/-- An attribute finds its place among sixteen. -/
theorem QueuesOk.placeAttribute {s : PicaCore F} (h : QueuesOk floats s) (attr : Vec4 F) :
    QueuesOk floats (s.placeAttribute attr) := by
  have hcurrent := h.current
  have hmax : s.maxInputAttribIndex < 16 := bitField_lt _ _ _
  unfold PicaCore.placeAttribute
  split
  · rename_i hdefault
    have hevent : EventOk floats (.storeDefault s.defaultAttributeIndex) :=
      Nat.lt_succ_of_lt hdefault
    refine QueuesOk.record ?_ hevent
    refine QueuesOk.leaves ?_ (leaves_setReg _ _ _)
    exact h.leaves ⟨rfl, rfl, fun kind => by cases kind <;> rfl, fun _ he => Or.inl he⟩
  · have hevent : EventOk floats (.storeInput s.immediate.currentAttribute) := hcurrent
    have hplaced : QueuesOk floats
        { s with
          immediate := { s.immediate with
            inputVertex :=
              Function.update s.immediate.inputVertex s.immediate.currentAttribute attr } } :=
      h.withCurrent rfl hcurrent
    have hrecorded := hplaced.record hevent
    simp only
    split
    · exact hrecorded.withCurrent rfl (by simp only; omega)
    · exact hrecorded.drawImmediate

/-- `SubmitImmediate` with a word that fits. -/
theorem QueuesOk.submitImmediate {s : PicaCore F} (h : QueuesOk floats s) (value : BitVec 32)
    (hfits : s.immediate.queue.index < 2 ∨ s.defaultAttributeIndex ≤ 0xf) :
    QueuesOk floats (s.submitImmediate floats value) := by
  have hindex := h.immediate_lt
  have hpush := h.immediate.push value false
  have hnext : (s.immediate.queue.push value false).1.index = s.immediate.queue.index + 1 := rfl
  have hfull : (s.immediate.queue.push value false).2 =
      decide (s.immediate.queue.index + 1 ≥ 3) := by
    simp [PackedAttribute.push]
  have hevent : EventOk floats (.push s.immediate.queue.index) := Nat.lt_succ_of_lt hindex
  unfold PicaCore.submitImmediate
  simp only
  by_cases hthird : s.immediate.queue.index = 2
  · have hindex16 : ¬ s.defaultAttributeIndex > 0xf := by omega
    have hcomplete : (s.immediate.queue.push value false).2 ≠ false := by
      rw [hfull, hthird]
      decide
    rw [if_neg hcomplete, if_neg hindex16]
    refine QueuesOk.placeAttribute (QueuesOk.record ?_ (eventOk_complete hpush ?_)) _
    · exact (h.record hevent).withQueue (holds_reset _) (Nat.zero_lt_succ 2)
    · rw [hnext, hthird]
      rfl
  · have hincomplete : (s.immediate.queue.push value false).2 = false := by
      rw [hfull, decide_eq_false_iff_not]
      omega
    rw [if_pos hincomplete]
    exact (h.withQueue hpush (by omega)).record hevent

/-- The queue of a shader is replaced. -/
theorem QueuesOk.withUniformQueue {s : PicaCore F} (h : QueuesOk floats s) (kind : ShaderKind)
    {queue : PackedAttribute} (hholds : Holds queue) (hlt : queue.index < 4) :
    QueuesOk floats (s.withSetup kind { s.setup kind with uniformQueue := queue }) := by
  cases kind with
  | vs =>
    exact ⟨h.immediate, h.immediate_lt, fun kind => by cases kind; exacts [h.uniforms .gs, hholds],
      fun kind => by cases kind; exacts [h.uniforms_lt .gs, hlt], h.current, h.events⟩
  | gs =>
    exact ⟨h.immediate, h.immediate_lt, fun kind => by cases kind; exacts [hholds, h.uniforms .vs],
      fun kind => by cases kind; exacts [hlt, h.uniforms_lt .vs], h.current, h.events⟩

theorem isFloat32_pushUniform (s : PicaCore F) (kind : ShaderKind) (value : BitVec 32) :
    (s.pushUniform kind value).1.isFloat32 kind = s.isFloat32 kind := by
  cases kind with
  | vs => rfl
  | gs => rfl

theorem uniformQueue_pushUniform (s : PicaCore F) (kind : ShaderKind) (value : BitVec 32) :
    ((s.pushUniform kind value).1.setup kind).uniformQueue =
      ((s.setup kind).uniformQueue.push value (s.isFloat32 kind)).1 := by
  cases kind with
  | vs => rfl
  | gs => rfl

/-- The queue is full when it has as many words as a vector is made of. -/
theorem pushUniform_full (s : PicaCore F) (kind : ShaderKind) (value : BitVec 32) :
    (s.pushUniform kind value).2 = true ↔
      wordsPerVector (s.isFloat32 kind) ≤ (s.setup kind).uniformQueue.index + 1 := by
  change ((s.setup kind).uniformQueue.push value (s.isFloat32 kind)).2 = true ↔ _
  cases s.isFloat32 kind with
  | true => simp [PackedAttribute.push, wordsPerVector]
  | false => simp [PackedAttribute.push, wordsPerVector]

/-- A uniform is taken from a full queue, and the queue is empty then. -/
theorem QueuesOk.takeUniform {s : PicaCore F} (h : QueuesOk floats s) (kind : ShaderKind)
    (value : BitVec 32)
    (hfull : (s.setup kind).uniformQueue.index + 1 = wordsPerVector (s.isFloat32 kind)) :
    QueuesOk floats ((s.pushUniform kind value).1.takeUniform floats kind).1 := by
  have hpush := (h.uniforms kind).push value (s.isFloat32 kind)
  have hevent : EventOk floats (.push (s.setup kind).uniformQueue.index) := h.uniforms_lt kind
  have hempty := (h.withUniformQueue kind
    (holds_reset ((s.setup kind).uniformQueue.push value (s.isFloat32 kind)).1)
    (Nat.zero_lt_succ 3)).record hevent
  unfold PicaCore.takeUniform
  simp only [isFloat32_pushUniform, uniformQueue_pushUniform]
  refine QueuesOk.record ?_ (eventOk_complete hpush hfull)
  cases kind with
  | vs => exact hempty
  | gs => exact hempty

theorem QueuesOk.storeUniform {s : PicaCore F} (h : QueuesOk floats s) (kind : ShaderKind)
    (uniform : Vec4 F) : QueuesOk floats (s.storeUniform kind uniform).1 := by
  unfold PicaCore.storeUniform
  simp only
  split
  · exact h
  · refine QueuesOk.leaves ?_ (leaves_setReg _ _ _)
    exact h.leaves (leaves_withSetup s kind rfl)

/-- `WriteUniformFloatReg` with a word that fits. -/
theorem QueuesOk.writeUniformFloatReg {s : PicaCore F} (h : QueuesOk floats s) (kind : ShaderKind)
    (value : BitVec 32)
    (hfits : (s.setup kind).uniformQueue.index < 3 ∨ s.isFloat32 kind = true) :
    QueuesOk floats (s.writeUniformFloatReg floats kind value).1 := by
  have hindex := h.uniforms_lt kind
  have hfull := pushUniform_full s kind value
  unfold PicaCore.writeUniformFloatReg
  simp only
  by_cases hmore : (s.pushUniform kind value).2 = false
  · rw [if_pos hmore]
    rw [← Bool.not_eq_true, hfull] at hmore
    have hwords : wordsPerVector (s.isFloat32 kind) ≤ 4 := by
      cases s.isFloat32 kind with
      | true => decide
      | false => decide
    have hlt : ((s.setup kind).uniformQueue.push value (s.isFloat32 kind)).1.index < 4 := by
      change (s.setup kind).uniformQueue.index + 1 < 4
      omega
    exact (h.withUniformQueue kind ((h.uniforms kind).push value _) hlt).record hindex
  · rw [if_neg hmore]
    rw [Bool.not_eq_false, hfull] at hmore
    refine (h.takeUniform kind value ?_).storeUniform kind _
    cases hmode : s.isFloat32 kind with
    | true =>
      rw [hmode] at hmore
      simp only [wordsPerVector, if_true] at hmore ⊢
      omega
    | false =>
      rw [hmode] at hmore hfits
      simp only [wordsPerVector, Bool.false_eq_true, if_false, or_false] at hmore hfits ⊢
      omega

/-! ## Runs -/

theorem QueuesOk.maskedWrite {s : PicaCore F} (h : QueuesOk floats s) (id : Nat)
    (value : BitVec 32) (mask : BitVec 4) : QueuesOk floats (s.maskedWrite id value mask) :=
  h.leaves (leaves_setReg _ _ _)

theorem regs_maskedWrite_of_ne (s : PicaCore F) {id id' : Nat} (h : id' ≠ id) (value : BitVec 32)
    (mask : BitVec 4) : (s.maskedWrite id value mask).regs id' = s.regs id' :=
  Function.update_of_ne h _ _

/-- The registers that decide whether a write fits are not those that are written. -/
theorem writeFits_maskedWrite {s : PicaCore F} {w : RegWrite} (h : WriteFits s w) :
    WriteFits (s.maskedWrite w.id w.value w.mask) w := by
  unfold WriteFits at h ⊢
  cases hcase : switchLabel w.id with
  | defaultAttributeValue =>
    have hother : 0x232 ≠ w.id := by
      intro heq
      rw [← heq] at hcase
      exact absurd hcase (by decide)
    rw [hcase] at h
    simp only [PicaCore.defaultAttributeIndex] at h ⊢
    rw [regs_maskedWrite_of_ne s hother]
    exact h
  | floatUniform kind =>
    have hother : shaderBase kind + 0x10 ≠ w.id := by
      intro heq
      rw [← heq] at hcase
      revert hcase
      cases kind with
      | vs => decide
      | gs => decide
    rw [hcase] at h
    simp only [PicaCore.isFloat32] at h ⊢
    rw [regs_maskedWrite_of_ne s hother]
    cases kind with
    | vs => exact h
    | gs => exact h
  | _ => trivial

/-- The other registers with an effect on the queues. -/
theorem QueuesOk.sideEffect {s : PicaCore F} (h : QueuesOk floats s) (value : BitVec 32)
    {c : RegCase}
    (hvalue : c = .defaultAttributeValue →
      s.immediate.queue.index < 2 ∨ s.defaultAttributeIndex ≤ 0xf)
    (hfloat : ∀ kind, c = .floatUniform kind →
      (s.setup kind).uniformQueue.index < 3 ∨ s.isFloat32 kind = true) :
    QueuesOk floats (s.sideEffect floats value c) := by
  by_cases hindex : c = .defaultAttributeIndex
  · subst hindex
    have hempty : QueuesOk floats
        { s with
          immediate := { s.immediate with
            queue := s.immediate.queue.reset } } :=
      h.withQueue (holds_reset _) (Nat.zero_lt_succ 2)
    exact hempty.withCurrent rfl (Nat.zero_lt_succ 15)
  · by_cases hset : c = .defaultAttributeValue
    · have hfits := hvalue hset
      subst hset
      exact h.submitImmediate value hfits
    · by_cases huniform : ∃ kind, c = .floatUniform kind
      · obtain ⟨kind, hkind⟩ := huniform
        have hwritten := h.writeUniformFloatReg kind value (hfloat kind hkind)
        subst hkind
        rw [PicaCore.sideEffect]
        simp only
        split
        · exact hwritten
        · split
          · exact hwritten.leaves (leaves_withSetup _ .gs rfl)
          · exact hwritten
      · exact h.leaves (leaves_sideEffect s value hindex hset fun kind hkind => huniform ⟨kind, hkind⟩)

/-- One write keeps the invariant. -/
theorem queuesOk_write {s : PicaCore F} (h : QueuesOk floats s) {w : RegWrite}
    (hfits : WriteFits s w) :
    QueuesOk floats (s.writeInternalReg floats w.id w.value w.mask) := by
  have hmasked := writeFits_maskedWrite hfits
  unfold WriteFits at hmasked
  unfold PicaCore.writeInternalReg
  split
  · exact h
  · refine (h.maskedWrite w.id w.value w.mask).sideEffect w.value ?_ ?_
    · intro hcase
      rw [hcase] at hmasked
      exact hmasked
    · intro kind hcase
      rw [hcase] at hmasked
      exact hmasked

theorem QueuesOk.of_fresh {s : PicaCore F} (h : Fresh s) : QueuesOk floats s where
  immediate := holds_of_empty h.immediate
  immediate_lt := by rw [h.immediate.1]; decide
  uniforms kind := holds_of_empty (h.uniforms kind)
  uniforms_lt kind := by rw [(h.uniforms kind).1]; decide
  current := by rw [h.current]; decide
  events e he := by
    rw [h.history] at he
    exact absurd he List.not_mem_nil

theorem queuesOk_run {s : PicaCore F} (h : QueuesOk floats s) {writes : List RegWrite}
    (hfit : AllFit floats s writes) : QueuesOk floats (runWrites floats s writes) := by
  induction writes generalizing s with
  | nil => exact h
  | cons w ws ih => exact ih (queuesOk_write h hfit.1) hfit.2

/-- In a run of writes that fit, queues and arrays are indexed in bounds, and each vector is made of
the words that were pushed last. -/
theorem queues_in_bounds (floats : FloatFormats F) (s : PicaCore F) (hs : Fresh s)
    (writes : List RegWrite) (hfit : AllFit floats s writes) :
    ∀ e ∈ (runWrites floats s writes).history, EventOk floats e :=
  (queuesOk_run (QueuesOk.of_fresh hs) hfit).events

end Runs

/-! ## Runs of a few writes -/

theorem fresh_emptyCore : Fresh emptyCore :=
  ⟨⟨rfl, rfl⟩, fun kind => by cases kind; exacts [⟨rfl, rfl⟩, ⟨rfl, rfl⟩], rfl, rfl⟩

/-- Three words for the first default attribute. -/
theorem queues_in_bounds_attribute :
    Fresh emptyCore ∧ ∀ e ∈ (runWrites rawFloats emptyCore
      [⟨0x232, 0, 15⟩, ⟨0x233, 1, 15⟩, ⟨0x234, 2, 15⟩, ⟨0x235, 3, 15⟩]).history,
      EventOk rawFloats e := by
  exact ⟨fresh_emptyCore, queues_in_bounds rawFloats emptyCore fresh_emptyCore _
    ⟨trivial, Or.inl (by decide), Or.inl (by decide), Or.inr (by decide), trivial⟩⟩

/-- Words for the attribute 16 are not taken from the queue, and the fifth is written behind it.
Three words of a uniform in the long format and one in the short format make a vector of the three
words before the last. -/
theorem queue_overflows :
    (runWrites rawFloats emptyCore
        [⟨0x232, 16, 15⟩, ⟨0x233, 1, 15⟩, ⟨0x233, 2, 15⟩, ⟨0x233, 3, 15⟩, ⟨0x233, 4, 15⟩,
          ⟨0x233, 5, 15⟩]).history = [.push 0, .push 1, .push 2, .push 3, .push 4] ∧
      ¬ EventOk rawFloats (.push 4 : RegEvent Nat) ∧
      ∃ vector, (runWrites rawFloats emptyCore
          [⟨0x2c0, 0x80000000, 15⟩, ⟨0x2c1, 1, 15⟩, ⟨0x2c1, 2, 15⟩, ⟨0x2c1, 3, 15⟩,
            ⟨0x2c0, 0, 15⟩, ⟨0x2c1, 4, 15⟩]).history.getLast? =
              some (.complete false [1, 2, 3, 4] vector) ∧
        ¬ EventOk rawFloats (.complete false [1, 2, 3, 4] vector) := by
  refine ⟨rfl, fun h => absurd (show 4 < 4 from h) (by decide), _, rfl, fun h => ?_⟩
  exact absurd (congrFun h.2 0) (by decide)

end AzaharPlus.Pica
