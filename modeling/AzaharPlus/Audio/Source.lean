import AzaharPlus.Lib.Heap
import AzaharPlus.Audio.Signal

/-!
# An audio source

`audio_core/hle/source.cpp`: one of the sources of the DSP.  The application passes a configuration
with dirty bits every frame; the source queues the buffers it names, decodes them, resamples them into
a frame, filters the frame and reports its status.

What is left undefined by the source, taking more samples from a buffer than it has, is `none`, and so
is a loop that does not end within the fuel (a looping buffer of no samples keeps the loop of
`GenerateFrame` going).  The arithmetic of `float` is a parameter.

* `tick`: one frame; `mixInto`: what the source adds to an intermediate mix;
* `save`, `load`: the serialisation of the source.
-/

namespace AzaharPlus.Audio

/-! ## Configurations -/

/-- `Format`, with the value no format has. -/
inductive Format
  | pcm8 | pcm16 | adpcm | unknown
  deriving DecidableEq, Repr

/-- `MonoOrStereo`, with the values that are neither. -/
inductive MonoOrStereo
  | mono | stereo | unknown
  deriving DecidableEq, Repr

/-- `InterpolationMode`, with the values no mode has. -/
inductive InterpolationMode
  | polyphase | linear | none | unknown
  deriving DecidableEq, Repr

/-- `SourceConfiguration::Configuration::Buffer`. -/
structure ConfigBuffer where
  physicalAddress : UInt32 := 0
  length : UInt32 := 0
  adpcmPs : UInt16 := 0
  adpcmYn : UInt16 × UInt16 := (0, 0)
  adpcmDirty : UInt8 := 0
  isLooping : UInt8 := 0
  bufferId : UInt16 := 0
  deriving DecidableEq, Repr

/-- The operations on `float` a source uses. -/
structure FloatOps (F : Type) where
  zero : F
  one : F
  /-- `rate_multiplier <= 0`. -/
  notPositive : F → Bool
  /-- `static_cast<u64>(rate * scale_factor)`. -/
  stepSize : F → Nat
  /-- `static_cast<u32>(frame_position * rate_multiplier)`. -/
  advance : Nat → F → UInt32
  /-- `static_cast<s32>(gain * sample)`. -/
  amplify : F → Int16 → Int

/-- `SourceConfiguration::Configuration`. -/
structure Configuration (F : Type) where
  dirtyRaw : UInt32
  gain : Fin 3 → Fin 4 → F
  rateMultiplier : F
  interpolationMode : InterpolationMode
  simpleFilterEnabled : Bool
  biquadFilterEnabled : Bool
  /-- `b0` and `a1`. -/
  simpleFilter : Int16 × Int16
  /-- `a2`, `a1`, `b2`, `b1` and `b0`. -/
  biquadFilter : Int16 × Int16 × Int16 × Int16 × Int16
  buffersDirty : UInt16
  buffers : List ConfigBuffer
  enable : UInt8
  syncCount : UInt16
  playPosition : UInt32
  physicalAddress : UInt32
  length : UInt32
  monoOrStereo : MonoOrStereo
  format : Format
  adpcmPs : UInt16
  adpcmYn : UInt16 × UInt16
  adpcmDirty : Bool
  isLooping : Bool
  bufferId : UInt16

/-- A bit of `dirty_raw`. -/
def Configuration.dirty {F : Type} (config : Configuration F) (bit : Nat) : Bool :=
  config.dirtyRaw.toNat.testBit bit

/-! ## The state -/

/-- `Source::Buffer`. -/
structure Buffer where
  physicalAddress : UInt32
  length : UInt32
  adpcmPs : UInt8
  adpcmYn : UInt16 × UInt16
  adpcmDirty : Bool
  isLooping : Bool
  bufferId : UInt16
  monoOrStereo : MonoOrStereo
  format : Format
  fromQueue : Bool
  playPosition : UInt32
  hasPlayed : Bool
  deriving DecidableEq, Repr

/-- The unnamed structure `state` of `Source`. -/
structure SourceState (F : Type) where
  enabled : Bool
  syncCount : UInt16
  gain : Fin 3 → Fin 4 → F
  /-- The container of the priority queue. -/
  inputQueue : List Buffer
  monoOrStereo : MonoOrStereo
  format : Format
  currentSampleNumber : UInt32
  currentBufferPhysicalAddress : UInt32
  currentBuffer : List Sample
  bufferUpdate : Bool
  lastBufferId : UInt16
  currentBufferId : UInt16
  adpcmCoeffs : List Int16
  adpcmState : ADPCMState
  rateMultiplier : F
  interpolationMode : InterpolationMode
  interpState : InterpState
  filters : SourceFilters

/-- `Source`. -/
structure Source (F : Type) where
  state : SourceState F
  currentFrame : List Sample

/-- The frame `fill({})` leaves. -/
def silence : List Sample := List.replicate samplesPerFrame ⟨0, 0⟩

section

variable {F : Type} (ops : FloatOps F)

/-- The initialisers of `state`. -/
def initialState : SourceState F where
  enabled := false
  syncCount := 0
  gain := fun _ _ => ops.zero
  inputQueue := []
  monoOrStereo := .mono
  format := .adpcm
  currentSampleNumber := 0
  currentBufferPhysicalAddress := 0
  currentBuffer := []
  bufferUpdate := false
  lastBufferId := 0
  currentBufferId := 0
  adpcmCoeffs := List.replicate 16 0
  adpcmState := ⟨0, 0⟩
  rateMultiplier := ops.one
  interpolationMode := .polyphase
  interpState := {}
  filters := {}

/-- `Source::Reset`, which the constructor calls. -/
def reset : Source F := ⟨initialState ops, silence⟩

/-- The order of the queue: lower ids come first. -/
def bufferKey (b : Buffer) : Nat := b.bufferId.toNat

/-- `input_queue.push`. -/
def pushBuffer (queue : List Buffer) (b : Buffer) : List Buffer :=
  Heap.pushHeap bufferKey (queue ++ [b])

/-- `input_queue.pop`. -/
def popBuffer (queue : List Buffer) : List Buffer := (Heap.popHeap bufferKey queue).dropLast

/-- `static_cast<s32>(length) < 0`. -/
def negativeLength (length : UInt32) : Bool := 2 ^ 31 ≤ length.toNat

/-! ## Memory -/

/-- `GetPhysicalPointer`: the bytes from an address on, or null. -/
abbrev Memory := UInt32 → Option Data

/-- The address the DMA uses. -/
def maskAddress (address : UInt32) : UInt32 := address &&& 0xFFFFFFFC

/-- `num_channels`. -/
def numChannels (m : MonoOrStereo) : Nat := if m = .stereo then 2 else 1

/-- `current_buffer.erase(begin, begin + count)`. -/
def eraseSamples (buffer : List Sample) (count : Nat) : Option (List Sample) :=
  if count ≤ buffer.length then some (buffer.drop count) else none

/-! ## Reading the configuration -/

/-- The part of `ParseConfig` for `partial_embedded_buffer_dirty`. -/
def partialUpdate (memory : Memory) (config : Configuration F) (s : SourceState F) : SourceState F :=
  match memory (maskAddress s.currentBufferPhysicalAddress), s.format with
  | some data, .pcm16 =>
    let buffer := decodePCM16 (numChannels s.monoOrStereo) data config.length.toNat
    -- the length may have been decreased
    if buffer.length < s.currentSampleNumber.toNat then
      { s with currentBuffer := buffer, currentSampleNumber := 0 }
    else { s with currentBuffer := buffer.drop s.currentSampleNumber.toNat }
  | _, _ => s

/-- The part of `ParseConfig` for `embedded_buffer_dirty`. -/
def queueEmbedded (config : Configuration F) (playPosition : UInt32) (s : SourceState F) : SourceState F :=
  if negativeLength config.length then s
  else
    { s with
      inputQueue := pushBuffer s.inputQueue
        { physicalAddress := config.physicalAddress, length := config.length
          adpcmPs := config.adpcmPs.toUInt8, adpcmYn := config.adpcmYn, adpcmDirty := config.adpcmDirty
          isLooping := config.isLooping, bufferId := config.bufferId, monoOrStereo := s.monoOrStereo
          format := s.format, fromQueue := false, playPosition := playPosition, hasPlayed := false } }

/-- A buffer of the queue of the configuration. -/
def queueBuffer (s : SourceState F) (b : ConfigBuffer) : SourceState F :=
  if negativeLength b.length then s
  else
    { s with
      inputQueue := pushBuffer s.inputQueue
        { physicalAddress := b.physicalAddress, length := b.length, adpcmPs := b.adpcmPs.toUInt8
          adpcmYn := b.adpcmYn, adpcmDirty := b.adpcmDirty != 0, isLooping := b.isLooping != 0
          bufferId := b.bufferId, monoOrStereo := s.monoOrStereo, format := s.format, fromQueue := true
          playPosition := 0, hasPlayed := false } }

/-- The part of `ParseConfig` for `buffer_queue_dirty`. -/
def queueBuffers (config : Configuration F) (s : SourceState F) : SourceState F :=
  ((List.range 4).filter fun i => config.buffersDirty.toNat.testBit i).foldl
    (fun s i => queueBuffer s (config.buffers.getD i {})) s

/-- A step of `ParseConfig` that is taken when a bit is set. -/
def whenDirty {α : Type} (flag : Bool) (f : α → α) (a : α) : α := if flag then f a else a

/-- The part of `ParseConfig` for the filters. -/
def configureFilters (config : Configuration F) (f : SourceFilters) : SourceFilters :=
  let f := whenDirty (config.dirty 22) (fun f =>
    f.enable config.simpleFilterEnabled config.biquadFilterEnabled) f
  let f := whenDirty (config.dirty 23) (fun f => f.configureSimple config.simpleFilter) f
  whenDirty (config.dirty 24) (fun f => f.configureBiquad config.biquadFilter) f

/-- `ParseConfig`, from its `partial_reset_flag` on. -/
def applyConfig (memory : Memory) (config : Configuration F) (adpcmCoeffs : List Int16) (s : SourceState F) :
    SourceState F :=
  let s := whenDirty (config.dirty 4) (fun s => { s with inputQueue := [] }) s
  let s := whenDirty (config.dirty 16) (fun s => { s with enabled := config.enable != 0 }) s
  let s := whenDirty (config.dirty 28) (fun s => { s with syncCount := config.syncCount }) s
  let s := whenDirty (config.dirty 18) (fun s => { s with
    rateMultiplier := if ops.notPositive config.rateMultiplier then ops.one else config.rateMultiplier }) s
  let s := whenDirty (config.dirty 2) (fun s => { s with adpcmCoeffs := adpcmCoeffs }) s
  let s := whenDirty (config.dirty 25) (fun s => { s with gain := Function.update s.gain 0 (config.gain 0) }) s
  let s := whenDirty (config.dirty 26) (fun s => { s with gain := Function.update s.gain 1 (config.gain 1) }) s
  let s := whenDirty (config.dirty 27) (fun s => { s with gain := Function.update s.gain 2 (config.gain 2) }) s
  let s := { s with filters := configureFilters config s.filters }
  let s := whenDirty (config.dirty 17) (fun s => { s with interpolationMode := config.interpolationMode }) s
  let s := whenDirty (config.dirty 0 || config.dirty 30) (fun s => { s with format := config.format }) s
  let s := whenDirty (config.dirty 1 || config.dirty 30) (fun s => { s with
    monoOrStereo := config.monoOrStereo }) s
  let playPosition := if config.dirty 21 then config.playPosition else 0
  let s := whenDirty (config.dirty 3) (partialUpdate memory config) s
  let s := whenDirty (config.dirty 30) (queueEmbedded config playPosition) s
  whenDirty (config.dirty 19) (queueBuffers config) s

/-- `ParseConfig`. -/
def parseConfig (memory : Memory) (config : Configuration F) (adpcmCoeffs : List Int16) (source : Source F) :
    Source F :=
  if config.dirtyRaw = 0 then source
  else
    let source := if config.dirty 29 then reset ops else source
    { source with state := applyConfig ops memory config adpcmCoeffs source.state }

/-! ## Making a frame -/

/-- The history of the decoder is set by a buffer that brings one. -/
def takeHistory (buf : Buffer) (s : SourceState F) : SourceState F :=
  if buf.adpcmDirty then
    { s with adpcmState := ⟨toS16 buf.adpcmYn.1.toNat, toS16 buf.adpcmYn.2.toNat⟩ }
  else s

/-- A buffer is decoded. -/
def decodeBuffer (buf : Buffer) (data : Data) (s : SourceState F) : SourceState F :=
  match buf.format with
  | .pcm8 => { s with currentBuffer := decodePCM8 (numChannels buf.monoOrStereo) data buf.length.toNat }
  | .pcm16 => { s with currentBuffer := decodePCM16 (numChannels buf.monoOrStereo) data buf.length.toNat }
  | .adpcm =>
    let decoded := decodeADPCM data buf.length.toNat s.adpcmCoeffs s.adpcmState
    { s with adpcmState := decoded.1, currentBuffer := decoded.2 }
  | .unknown => s

/-- A buffer is the current one; if it loops it is queued again. -/
def startBuffer (buf : Buffer) (s : SourceState F) : SourceState F :=
  { s with
    currentSampleNumber := if !buf.hasPlayed then buf.playPosition else 0
    currentBufferPhysicalAddress := buf.physicalAddress
    currentBufferId := buf.bufferId
    lastBufferId := 0
    bufferUpdate := buf.fromQueue && !buf.hasPlayed
    inputQueue := if buf.isLooping then pushBuffer s.inputQueue { buf with hasPlayed := true }
      else s.inputQueue }

/-- `DequeueBuffer`: the state and whether there was a buffer. -/
def dequeueBuffer (memory : Memory) (s : SourceState F) : Option (SourceState F × Bool) :=
  match s.inputQueue.head? with
  | none => some (s, false)
  | some buf =>
    let s := takeHistory buf { s with inputQueue := popBuffer s.inputQueue }
    match memory (maskAddress buf.physicalAddress) with
    | none => some ({ s with currentBuffer := [] }, true)
    | some data =>
      let s := startBuffer buf (decodeBuffer buf data s)
      (eraseSamples s.currentBuffer s.currentSampleNumber.toNat).map fun buffer =>
        ({ s with currentBuffer := buffer }, true)

/-- The resampler of a mode. -/
def interpolation : InterpolationMode → Option Interpolation
  | .none => some interpNone
  | .linear => some interpLinear
  | .polyphase => some interpLinear
  | .unknown => Option.none

/-- The resampling of the current buffer into the frame. -/
def interpolate (s : SourceState F) (frame : List Sample) : SourceState F × List Sample :=
  match interpolation s.interpolationMode with
  | some fn =>
    let stepped := stepOverSamples fn s.interpState s.currentBuffer (ops.stepSize s.rateMultiplier) frame
    ({ s with interpState := stepped.1, currentBuffer := stepped.2.1 }, stepped.2.2)
  | none => (s, frame)

/-- The loop of `GenerateFrame`, with the samples of the frame written so far. -/
def frameLoop (memory : Memory) : Nat → SourceState F → List Sample → Option (SourceState F × List Sample)
  | 0, _, _ => none
  | fuel + 1, s, frame =>
    if frame.length < samplesPerFrame then
      if s.currentBuffer.isEmpty then
        match dequeueBuffer memory s with
        | none => none
        | some (s, false) => some (s, frame)
        | some (s, true) => frameLoop memory fuel (interpolate ops s frame).1 (interpolate ops s frame).2
      else frameLoop memory fuel (interpolate ops s frame).1 (interpolate ops s frame).2
    else some (s, frame)

/-- The end of the last buffer. -/
def stopSource (s : SourceState F) : SourceState F :=
  { s with enabled := false, bufferUpdate := true, lastBufferId := s.currentBufferId, currentBufferId := 0 }

/-- The end of `GenerateFrame`: the position is advanced and the frame is filtered. -/
def finishFrame (s : SourceState F) (frame : List Sample) : SourceState F × List Sample :=
  let filtered := s.filters.processFrame (frame ++ silence.drop frame.length)
  ({ s with
      currentSampleNumber := s.currentSampleNumber + ops.advance frame.length s.rateMultiplier
      filters := filtered.1 }, filtered.2)

/-- `GenerateFrame`: the state and the frame. -/
def generateFrame (memory : Memory) (fuel : Nat) (s : SourceState F) :
    Option (SourceState F × List Sample) :=
  if s.currentBuffer.isEmpty then
    (dequeueBuffer memory s).map fun r => if r.2 then (r.1, silence) else (stopSource r.1, silence)
  else (frameLoop ops memory fuel s []).map fun r => finishFrame ops r.1 r.2

/-! ## A tick -/

/-- `SourceStatus::Status`. -/
structure Status where
  isEnabled : Bool
  currentBufferIdDirty : Bool
  syncCount : UInt16
  bufferPosition : UInt32
  currentBufferId : UInt16
  lastBufferId : UInt16
  deriving DecidableEq, Repr

/-- `GetCurrentStatus`. -/
def getCurrentStatus (s : SourceState F) : SourceState F × Status :=
  ({ s with bufferUpdate := false },
    ⟨s.enabled, s.bufferUpdate, s.syncCount, s.currentSampleNumber, s.currentBufferId, s.lastBufferId⟩)

/-- What a call of `Tick` is given: the configuration, the coefficients and the guest's memory. -/
structure TickInput (F : Type) where
  config : Configuration F
  adpcmCoeffs : List Int16
  memory : Memory

/-- `Tick`. -/
def tick (fuel : Nat) (input : TickInput F) (source : Source F) : Option (Source F × Status) :=
  let source := parseConfig ops input.memory input.config input.adpcmCoeffs source
  if source.state.enabled then
    (generateFrame ops input.memory fuel source.state).map fun r =>
      (⟨(getCurrentStatus r.1).1, r.2⟩, (getCurrentStatus r.1).2)
  else some ({ source with state := (getCurrentStatus source.state).1 }, (getCurrentStatus source.state).2)

/-- A sample of `QuadFrame32`. -/
structure Quad where
  c0 : Int
  c1 : Int
  c2 : Int
  c3 : Int
  deriving DecidableEq, Repr

/-- `MixInto`. -/
def mixInto (source : Source F) (mixId : Fin 3) (dest : List Quad) : List Quad :=
  if !source.state.enabled then dest
  else
    let gains := source.state.gain mixId
    dest.zipWith (fun q sample =>
      ⟨q.c0 + ops.amplify (gains 0) sample.left, q.c1 + ops.amplify (gains 1) sample.right,
        q.c2 + ops.amplify (gains 2) sample.left, q.c3 + ops.amplify (gains 3) sample.right⟩)
      source.currentFrame

/-- What a tick gives: the status, and what the source adds to the intermediate mixes. -/
structure TickOutput where
  status : Status
  mix : Fin 3 → List Quad → List Quad

/-- A sequence of ticks, with what each of them gives. -/
def runTicks (fuel : Nat) : List (TickInput F) → Source F → Option (Source F × List TickOutput)
  | [], source => some (source, [])
  | input :: inputs, source => do
    let (source, status) ← tick ops fuel input source
    let (last, outputs) ← runTicks fuel inputs source
    return (last, ⟨status, mixInto ops source⟩ :: outputs)

/-! ## Savestates -/

/-- The archive of a source: the fields `serialize` lists. -/
structure Archive (F : Type) where
  enabled : Bool
  syncCount : UInt16
  gain : Fin 3 → Fin 4 → F
  inputQueue : List Buffer
  monoOrStereo : MonoOrStereo
  format : Format
  currentSampleNumber : UInt32
  currentBufferPhysicalAddress : UInt32
  currentBuffer : List Sample
  bufferUpdate : Bool
  currentBufferId : UInt16
  adpcmCoeffs : List Int16
  rateMultiplier : F
  interpolationMode : InterpolationMode

/-- `serialize`, when saving. -/
def save (source : Source F) : Archive F where
  enabled := source.state.enabled
  syncCount := source.state.syncCount
  gain := source.state.gain
  inputQueue := source.state.inputQueue
  monoOrStereo := source.state.monoOrStereo
  format := source.state.format
  currentSampleNumber := source.state.currentSampleNumber
  currentBufferPhysicalAddress := source.state.currentBufferPhysicalAddress
  currentBuffer := source.state.currentBuffer
  bufferUpdate := source.state.bufferUpdate
  currentBufferId := source.state.currentBufferId
  adpcmCoeffs := source.state.adpcmCoeffs
  rateMultiplier := source.state.rateMultiplier
  interpolationMode := source.state.interpolationMode

/-- `serialize`, when loading into a source. -/
def load (archive : Archive F) (source : Source F) : Source F :=
  { source with
    state := { source.state with
      enabled := archive.enabled
      syncCount := archive.syncCount
      gain := archive.gain
      inputQueue := archive.inputQueue
      monoOrStereo := archive.monoOrStereo
      format := archive.format
      currentSampleNumber := archive.currentSampleNumber
      currentBufferPhysicalAddress := archive.currentBufferPhysicalAddress
      currentBuffer := archive.currentBuffer
      bufferUpdate := archive.bufferUpdate
      currentBufferId := archive.currentBufferId
      adpcmCoeffs := archive.adpcmCoeffs
      rateMultiplier := archive.rateMultiplier
      interpolationMode := archive.interpolationMode } }

end

end AzaharPlus.Audio
