import AzaharPlus.Audio.SourceSavestate

/-!
# What a savestate of a source loses

A source and the one loaded from its archive give the same output for every sequence of ticks exactly
when the fields the archive leaves out can not be heard.  Each of these fields is brought to the ear by
a few ticks of the application's choice: a tick that switches the source off reports the id of the last
buffer, a buffer that is played without interpolation shows the resampler, one encoded in ADPCM the
history of the decoder, and the filters show themselves by what they do to a pulse.

* `soundKept_iff_inaudible`: the sound is kept exactly when nothing that is lost can be heard;
* `not_soundKept`: a source that has played its buffers to the end reports another status.
-/

namespace AzaharPlus.Audio

variable {F : Type} (ops : FloatOps F)

local instance gains : NeZero 3 := ⟨Nat.succ_ne_zero 2⟩

/-! ## The claim and its condition -/

/-- The source that is loaded from the archive of another, freshly constructed before. -/
def reload (s : Source F) : Source F := load (save s) (reset ops)

/-- Saving and loading does not change what any sequence of ticks gives. -/
def SoundKept (s : Source F) : Prop :=
  ∀ fuel inputs, (runTicks ops fuel inputs (reload ops s)).map Prod.snd =
    (runTicks ops fuel inputs s).map Prod.snd

/-- What is left out of the archive can not be heard. -/
structure Inaudible (s : SourceState F) : Prop where
  lastBufferId : s.lastBufferId = 0
  adpcmState : s.adpcmState = ⟨0, 0⟩
  interpState : s.interpState = {}
  simpleDisabled : s.filters.simpleFilterEnabled = false
  biquadDisabled : s.filters.biquadFilterEnabled = false
  simpleFilter : s.filters.simpleFilter = {}
  transparent : s.filters.biquadFilter.Transparent
  biquadX1 : s.filters.biquadFilter.x1 = ⟨0, 0⟩
  biquadX2 : s.filters.biquadFilter.x2 = ⟨0, 0⟩

/-- A source that loses nothing that can be heard is like the one loaded from its archive. -/
theorem alike_reload {s : Source F} (h : Inaudible s.state) : Alike s (reload ops s) := by
  refine ⟨{}, ?_, ⟨h.simpleDisabled, h.biquadDisabled, h.simpleFilter, Or.inr ⟨h.transparent, ?_, ?_, ?_⟩⟩⟩
  · obtain ⟨state, frame⟩ := s
    obtain ⟨hlast, hadpcm, hinterp, -, -, -, -, -, -⟩ := h
    simp only at hlast hadpcm hinterp
    simp only [reload, load, save, reset, initialState, SourceState.withFilters, hlast, hadpcm, hinterp]
  · exact ⟨rfl, rfl, rfl, rfl, rfl⟩
  · exact h.biquadX1
  · exact h.biquadX2

/-! ## Telling sources apart -/

/-- The same output for every sequence of ticks. -/
def SameOutputs (fuel : Nat) (s t : Source F) : Prop :=
  ∀ inputs, (runTicks ops fuel inputs s).map Prod.snd = (runTicks ops fuel inputs t).map Prod.snd

theorem runTicks_cons {fuel : Nat} {s s' : Source F} {input : TickInput F} {status : Status}
    (hs : tick ops fuel input s = some (s', status)) (inputs : List (TickInput F)) :
    runTicks ops fuel (input :: inputs) s =
      (runTicks ops fuel inputs s').map fun r => (r.1, ⟨status, mixInto ops s'⟩ :: r.2) := by
  rw [runTicks, hs]
  simp only [Option.bind_eq_bind, Option.bind_some]
  cases runTicks ops fuel inputs s' <;> rfl

/-- One tick of two sources that can not be told apart. -/
theorem SameOutputs.tick {fuel : Nat} {s t s' t' : Source F} {input : TickInput F} {status status' : Status}
    (h : SameOutputs ops fuel s t) (hs : tick ops fuel input s = some (s', status))
    (ht : tick ops fuel input t = some (t', status')) :
    status = status' ∧ mixInto ops s' = mixInto ops t' ∧ SameOutputs ops fuel s' t' := by
  have hone := h [input]
  rw [runTicks_cons ops hs, runTicks_cons ops ht] at hone
  simp only [runTicks, Option.map_some, Option.some.injEq, List.cons.injEq, TickOutput.mk.injEq, and_true]
    at hone
  refine ⟨hone.1, hone.2, ?_⟩
  intro inputs
  have hall := h (input :: inputs)
  rw [runTicks_cons ops hs, runTicks_cons ops ht] at hall
  cases hx : runTicks ops fuel inputs s' <;> cases hy : runTicks ops fuel inputs t' <;>
    rw [hx, hy] at hall <;> simp_all

/-- What the tests need of `float`: the number one, and the number just below it. -/
structure FloatOps.Faithful (ops : FloatOps F) : Prop where
  one_positive : ops.notPositive ops.one = false
  stepSize_one : ops.stepSize ops.one = 2 ^ 24
  amplify_one : ∀ x, ops.amplify ops.one x = x.toInt
  below_one : ∃ r, ops.notPositive r = false ∧ ops.stepSize r = 2 ^ 24 - 1 ∧ ops.advance 0 r = 0 ∧
    ops.advance 1 r = 0 ∧ ops.advance 2 r = 1

/-- Frames that add the same to a mix with full gain are the same. -/
theorem frame_eq_of_mix (hops : ops.Faithful) {s t : Source F} (h : mixInto ops s = mixInto ops t)
    (hs : s.state.enabled = true) (ht : t.state.enabled = true)
    (hsg : s.state.gain 0 = fun _ => ops.one) (htg : t.state.gain 0 = fun _ => ops.one) :
    s.currentFrame = t.currentFrame := by
  have hmap : ∀ (frame : List Sample) (n : Nat), frame.length ≤ n →
      (List.replicate n (⟨0, 0, 0, 0⟩ : Quad)).zipWith (fun q sample =>
        (⟨q.c0 + sample.left.toInt, q.c1 + sample.right.toInt, q.c2 + sample.left.toInt,
          q.c3 + sample.right.toInt⟩ : Quad)) frame =
      frame.map fun sample => ⟨0 + sample.left.toInt, 0 + sample.right.toInt, 0 + sample.left.toInt,
        0 + sample.right.toInt⟩ := by
    intro frame n hn
    apply List.ext_getElem
    · simp only [List.length_zipWith, List.length_replicate, List.length_map]
      omega
    · intro i h₁ h₂
      simp only [List.getElem_zipWith, List.getElem_replicate, List.getElem_map]
  have hinj : Function.Injective fun sample : Sample =>
      (⟨0 + sample.left.toInt, 0 + sample.right.toInt, 0 + sample.left.toInt,
        0 + sample.right.toInt⟩ : Quad) := by
    intro a b hab
    simp only [Int.zero_add, Quad.mk.injEq, Int16.toInt_inj] at hab
    obtain ⟨al, ar⟩ := a
    obtain ⟨bl, br⟩ := b
    simp only [Sample.mk.injEq]
    exact ⟨hab.1, hab.2.1⟩
  have hmix := congrFun (congrFun h 0)
    (List.replicate (s.currentFrame.length + t.currentFrame.length) ⟨0, 0, 0, 0⟩)
  simp only [mixInto, hs, ht, hsg, htg, hops.amplify_one, Bool.not_true, Bool.false_eq_true, if_false]
    at hmix
  rw [hmap _ _ (by omega), hmap _ _ (by omega)] at hmix
  exact List.map_injective_iff.2 hinj hmix

/-! ## A test configuration -/

/-- A configuration with full gain and the rate one, without interpolation. -/
def testConfig (dirtyRaw : UInt32) : Configuration F where
  dirtyRaw := dirtyRaw
  gain := fun _ _ => ops.one
  rateMultiplier := ops.one
  interpolationMode := .none
  simpleFilterEnabled := false
  biquadFilterEnabled := false
  simpleFilter := (0, 0)
  biquadFilter := (0, 0, 0, 0, 0)
  buffersDirty := 0
  buffers := []
  enable := 1
  syncCount := 0
  playPosition := 0
  physicalAddress := 0
  length := 0
  monoOrStereo := .mono
  format := .pcm16
  adpcmPs := 0
  adpcmYn := (0, 0)
  adpcmDirty := false
  isLooping := false
  bufferId := 0

theorem whenDirty_pos {α : Type} {flag : Bool} (h : flag = true) (f : α → α) (a : α) :
    whenDirty flag f a = f a := if_pos h

theorem whenDirty_neg {α : Type} {flag : Bool} (h : flag = false) (f : α → α) (a : α) :
    whenDirty flag f a = a := by
  rw [whenDirty, h]
  rfl

/-- A configuration that does not reset the source. -/
theorem parseConfig_eq (memory : Memory) (config : Configuration F) (adpcmCoeffs : List Int16)
    {d : UInt32} (hraw : config.dirtyRaw = d) (hd : d ≠ 0 ∧ d.toNat.testBit 29 = false) (s : Source F) :
    parseConfig ops memory config adpcmCoeffs s =
      ⟨applyConfig ops memory config adpcmCoeffs s.state, s.currentFrame⟩ := by
  rw [parseConfig, Configuration.dirty, hraw, if_neg hd.1, hd.2]
  rfl

/-- Switching the source off shows the id of the last buffer. -/
theorem lastBufferId_eq_of_sameOutputs {fuel : Nat} {s t : Source F} (h : SameOutputs ops fuel s t) :
    s.state.lastBufferId = t.state.lastBufferId := by
  have happly : ∀ s : SourceState F, applyConfig ops (fun _ => none)
      { testConfig ops 0x10000 with enable := 0 } [] s = { s with enabled := false } := by
    intro s
    simp (disch := decide) only [applyConfig, configureFilters, Configuration.dirty, testConfig, whenDirty_pos,
      whenDirty_neg]
    rfl
  have htick : ∀ s : Source F,
      tick ops fuel ⟨{ testConfig ops 0x10000 with enable := 0 }, [], fun _ => none⟩ s =
        some (⟨(getCurrentStatus { s.state with enabled := false }).1, s.currentFrame⟩,
          (getCurrentStatus { s.state with enabled := false }).2) := by
    intro s
    simp only [tick]
    rw [parseConfig_eq ops _ _ _ (d := 0x10000) rfl (by decide), happly]
    rfl
  obtain ⟨hstatus, -, -⟩ := h.tick ops (htick s) (htick t)
  exact congrArg Status.lastBufferId hstatus

/-! ## Playing samples of one's choice -/

/-- Two bytes make a sample. -/
theorem toS16_bytes (x : Int16) : toS16 (((UInt8.ofNat (x.toUInt16.toNat % 256)).toNat : Int) +
    256 * ((UInt8.ofNat (x.toUInt16.toNat / 256)).toNat : Int)) = x := by
  have hlt := x.toUInt16.toNat_lt
  have hsize : UInt8.size = 256 := rfl
  rw [UInt8.toNat_ofNat_of_lt' (by omega), UInt8.toNat_ofNat_of_lt' (by omega)]
  rw [show ((x.toUInt16.toNat % 256 : Nat) : Int) + 256 * ((x.toUInt16.toNat / 256 : Nat) : Int) =
    (x.toUInt16.toNat : Int) by omega, toS16, Int16.ofInt_eq_ofNat]
  apply Int16.toBitVec_inj.1
  simp

/-- Memory that holds samples from sample `offset` on. -/
def pcmData (offset : Nat) (xs : List Int16) : Data := fun j =>
  let x := (xs.getD (j / 2 - offset) 0).toUInt16.toNat
  if j % 2 = 0 then UInt8.ofNat (x % 256) else UInt8.ofNat (x / 256)

theorem decodePCM16_pcmData (offset : Nat) (xs : List Int16) :
    (decodePCM16 1 (pcmData offset xs) (offset + xs.length)).drop offset = xs.map Sample.fill := by
  apply List.ext_getElem
  · simp only [decodePCM16, List.length_drop, List.length_map, List.length_range]
    omega
  · intro i h₁ h₂
    simp only [List.length_map] at h₂
    simp only [decodePCM16, List.getElem_drop, List.getElem_map, List.getElem_range, if_true, pcmData]
    rw [if_pos (by omega), if_neg (by omega), show (offset + i) * 2 / 2 - offset = i by omega,
      show ((offset + i) * 2 + 1) / 2 - offset = i by omega, toS16_bytes,
      List.getD_eq_getElem?_getD, List.getElem?_eq_getElem h₂, Option.getD_some]

/-- The samples of the current buffer that are left out. -/
def playOffset (played count : Nat) : Nat := if played + count < 2 ^ 32 then played else 0

/-- The part of a source's state that is set by a test: the current buffer, a rate and the filters. -/
def playState (config : Configuration F) (xs : List Int16) (s : SourceState F) : SourceState F :=
  { s with
    inputQueue := []
    enabled := true
    rateMultiplier := config.rateMultiplier
    gain := Function.update s.gain 0 (config.gain 0)
    filters := configureFilters config s.filters
    interpolationMode := .none
    format := .pcm16
    monoOrStereo := .mono
    currentBuffer := xs.map Sample.fill
    currentSampleNumber := UInt32.ofNat (playOffset s.currentSampleNumber.toNat xs.length) }

/-- The dirty bits of a test that plays samples. -/
def playBits : List UInt32 := [0x0247001b, 0x0387001b, 0x02c7001b, 0x0347001b]

/-- The current buffer is replaced by samples of one's choice. -/
theorem applyConfig_play {config : Configuration F} {d : UInt32} (hd : d ∈ playBits)
    (hraw : config.dirtyRaw = d) (henable : config.enable = 1)
    (hrate : ops.notPositive config.rateMultiplier = false) (hmode : config.interpolationMode = .none)
    (hformat : config.format = .pcm16) (hmono : config.monoOrStereo = .mono) {xs : List Int16}
    (hpos : 0 < xs.length) (hsmall : xs.length < 160) (s : SourceState F)
    (hlength : config.length = UInt32.ofNat (playOffset s.currentSampleNumber.toNat xs.length + xs.length)) :
    applyConfig ops
        (fun _ => some (pcmData (playOffset s.currentSampleNumber.toNat xs.length) xs)) config [] s =
      playState config xs s := by
  have happly : ∀ memory, applyConfig ops memory config [] s = partialUpdate memory config { s with
      inputQueue := []
      enabled := true
      rateMultiplier := config.rateMultiplier
      gain := Function.update s.gain 0 (config.gain 0)
      filters := configureFilters config s.filters
      interpolationMode := .none
      format := .pcm16
      monoOrStereo := .mono } := by
    intro memory
    simp only [playBits, List.mem_cons, List.not_mem_nil, or_false] at hd
    rcases hd with rfl | rfl | rfl | rfl <;>
      simp (disch := decide) only [applyConfig, configureFilters, Configuration.dirty, hraw, whenDirty_pos,
        whenDirty_neg, henable, hrate, hmode, hformat, hmono] <;> rfl
  rw [happly]
  have hlt := s.currentSampleNumber.toNat_lt
  have hoffset : playOffset s.currentSampleNumber.toNat xs.length + xs.length < 2 ^ 32 := by
    rw [playOffset]
    split_ifs <;> omega
  have htoNat : config.length.toNat = playOffset s.currentSampleNumber.toNat xs.length + xs.length := by
    rw [hlength, UInt32.toNat_ofNat_of_lt' hoffset]
  have hdrop := decodePCM16_pcmData (playOffset s.currentSampleNumber.toNat xs.length) xs
  have hdecoded : (decodePCM16 1 (pcmData (playOffset s.currentSampleNumber.toNat xs.length) xs)
      (playOffset s.currentSampleNumber.toNat xs.length + xs.length)).length =
      playOffset s.currentSampleNumber.toNat xs.length + xs.length := by
    simp [decodePCM16]
  simp only [partialUpdate, numChannels, htoNat, reduceCtorEq, if_false]
  by_cases hwrap : s.currentSampleNumber.toNat + xs.length < 2 ^ 32
  · have hplayed : playOffset s.currentSampleNumber.toNat xs.length = s.currentSampleNumber.toNat :=
      if_pos hwrap
    rw [hplayed] at hdrop hdecoded ⊢
    rw [if_neg (by omega), hdrop, playState, hplayed, UInt32.ofNat_toNat]
  · have hplayed : playOffset s.currentSampleNumber.toNat xs.length = 0 := if_neg hwrap
    rw [hplayed] at hdrop hdecoded ⊢
    rw [List.drop_zero] at hdrop
    rw [if_pos (by omega), hdrop, playState, hplayed]
    rfl

/-! ## The resampler without interpolation -/

/-- At the rate one the samples come out as they went in, two samples late. -/
theorem stepLoop_rate_one (input : List Sample) {k n room : Nat} (inputi : Nat) (hn : input.length = n + 2)
    (hk : k ≤ n) (hroom : n - k < room) (hsmall : n < 2 ^ 30) (output : List Sample) :
    stepLoop interpNone input scaleFactor room inputi (k * scaleFactor) output =
      (n, n * scaleFactor, output ++ (input.take n).drop k) := by
  have hscale : scaleFactor = 2 ^ 24 := rfl
  induction room generalizing k inputi output with
  | zero => omega
  | succ room ih =>
    have hdiv : k * scaleFactor / scaleFactor = k := Nat.mul_div_cancel _ (by decide)
    rw [stepLoop, hdiv]
    by_cases hend : k = n
    · subst hend
      simp only [ge_iff_le, hn, le_refl, if_true, Nat.add_sub_cancel]
      rw [List.drop_of_length_le (by rw [List.length_take]; omega), List.append_nil]
    · have hnext : (k * scaleFactor + scaleFactor) % 2 ^ 64 = (k + 1) * scaleFactor := by
        rw [Nat.add_mul, Nat.one_mul]
        apply Nat.mod_eq_of_lt
        rw [hscale]
        omega
      have htake : (input.take n).drop k = input.getD k ⟨0, 0⟩ :: (input.take n).drop (k + 1) := by
        rw [List.drop_eq_getElem_cons (by rw [List.length_take]; omega), List.getElem_take,
          List.getD_eq_getElem?_getD, List.getElem?_eq_getElem (by omega), Option.getD_some]
      rw [if_neg (by omega), hnext, ih _ (by omega) (by omega), htake, List.append_assoc]
      rfl

/-- A short buffer at the rate one is used up. -/
theorem stepOverSamples_rate_one {state : InterpState} (hposition : state.fposition = 0) (xs : List Sample)
    (hpos : 0 < xs.length) (hsmall : xs.length < 160) :
    ∃ state', stepOverSamples interpNone state xs (2 ^ 24) [] =
      (state', [], (state.xn2 :: state.xn1 :: xs).take xs.length) := by
  have hempty : xs.isEmpty = false := by
    cases xs
    · simp at hpos
    · rfl
  have hroom : xs.length - 0 < 160 := hsmall
  have hloop := stepLoop_rate_one (state.xn2 :: state.xn1 :: xs) 0 (n := xs.length) (k := 0) (by simp) (by omega)
    hroom (by omega) []
  rw [Nat.zero_mul, List.nil_append, List.drop_zero] at hloop
  simp only [stepOverSamples, hempty, Bool.false_eq_true, if_false, hposition, samplesPerFrame, List.length_nil,
    Nat.sub_zero]
  rw [show (2 ^ 24 : Nat) = scaleFactor from rfl, hloop]
  exact ⟨_, by rw [List.drop_of_length_le (by simp)]⟩

/-! ## A test -/

/-- What a test says of the filters. -/
structure FilterTest where
  bits : UInt32
  simpleEnabled : Bool := false
  biquadEnabled : Bool := false
  /-- `b0` and `a1`. -/
  simple : Int16 × Int16 := (0, 0)
  /-- `a2`, `a1`, `b2`, `b1` and `b0`. -/
  biquad : Int16 × Int16 × Int16 × Int16 × Int16 := (0, 0, 0, 0, 0)

/-- The configuration of a test that plays samples at a rate. -/
def FilterTest.config (test : FilterTest) (rate : F) (length : Nat) : Configuration F :=
  { testConfig ops test.bits with
    rateMultiplier := rate
    simpleFilterEnabled := test.simpleEnabled
    biquadFilterEnabled := test.biquadEnabled
    simpleFilter := test.simple
    biquadFilter := test.biquad
    length := UInt32.ofNat length }

/-- The test of a source that has played `played` samples of its buffer. -/
def FilterTest.input (test : FilterTest) (rate : F) (played : Nat) (xs : List Int16) : TickInput F where
  config := test.config ops rate (playOffset played xs.length + xs.length)
  adpcmCoeffs := []
  memory := fun _ => some (pcmData (playOffset played xs.length) xs)

/-- The frame of a source whose buffer is used up. -/
theorem generateFrame_of_used (memory : Memory) {fuel : Nat} (hfuel : 2 ≤ fuel) {s : SourceState F}
    (hbuffer : s.currentBuffer ≠ []) (hqueue : s.inputQueue = []) (hmode : s.interpolationMode = .none)
    {state' : InterpState} (output : List Sample) (hroom : output.length < 160)
    (hstep : stepOverSamples interpNone s.interpState s.currentBuffer (ops.stepSize s.rateMultiplier) [] =
      (state', [], output)) :
    generateFrame ops memory fuel s =
      some (finishFrame ops { s with interpState := state', currentBuffer := [] } output) := by
  obtain ⟨fuel, rfl⟩ := Nat.exists_eq_add_of_le' hfuel
  have hempty : s.currentBuffer.isEmpty = false := List.isEmpty_eq_false_iff.2 hbuffer
  have hone : interpolate ops s [] = ({ s with interpState := state', currentBuffer := [] }, output) := by
    simp only [interpolate, hmode, interpolation, hstep]
  have htwo : dequeueBuffer memory { s with interpState := state', currentBuffer := [] } =
      some ({ s with interpState := state', currentBuffer := [] }, false) := by
    simp only [dequeueBuffer, hqueue, List.head?_nil]
  simp only [generateFrame, hempty, Bool.false_eq_true, if_false, frameLoop, List.length_nil, samplesPerFrame,
    if_true, hone, hroom, List.isEmpty_nil, htwo]
  rfl

/-- A tick of a source that is switched on. -/
theorem tick_of_enabled {fuel : Nat} {input : TickInput F} {s s' : Source F}
    (hconfig : parseConfig ops input.memory input.config input.adpcmCoeffs s = s')
    (henabled : s'.state.enabled = true) {r : SourceState F × List Sample}
    (hframe : generateFrame ops input.memory fuel s'.state = some r) :
    tick ops fuel input s = some (⟨(getCurrentStatus r.1).1, r.2⟩, (getCurrentStatus r.1).2) := by
  subst hconfig
  simp only [tick, henabled, if_true, hframe, Option.map_some]

/-- A test: the frame is what the resampler puts out, filtered, and the position shows how much that is. -/
theorem tick_test {fuel : Nat} (hfuel : 2 ≤ fuel) (test : FilterTest) (hbits : test.bits ∈ playBits) {rate : F}
    (hrate : ops.notPositive rate = false) (xs : List Int16) (hpos : 0 < xs.length)
    (hsmall : xs.length < 160) (s : Source F) {state' : InterpState} {output : List Sample}
    (hroom : output.length < 160)
    (hstep : stepOverSamples interpNone s.state.interpState (xs.map Sample.fill) (ops.stepSize rate) [] =
      (state', [], output)) :
    ∃ s' status, tick ops fuel (test.input ops rate s.state.currentSampleNumber.toNat xs) s =
        some (s', status) ∧ s'.state.enabled = true ∧ (s'.state.gain 0 = fun _ => ops.one) ∧
      s'.currentFrame = ((configureFilters (test.config ops rate 0) s.state.filters).processFrame
        (output ++ silence.drop output.length)).2 ∧
      status.bufferPosition =
        UInt32.ofNat (playOffset s.state.currentSampleNumber.toNat xs.length) + ops.advance output.length rate := by
  have hbit : test.bits ≠ 0 ∧ test.bits.toNat.testBit 29 = false := by
    simp only [playBits, List.mem_cons, List.not_mem_nil, or_false] at hbits
    rcases hbits with h | h | h | h <;> rw [h] <;> decide
  have hconfig : parseConfig ops (test.input ops rate s.state.currentSampleNumber.toNat xs).memory
      (test.input ops rate s.state.currentSampleNumber.toNat xs).config [] s =
      ⟨playState (test.input ops rate s.state.currentSampleNumber.toNat xs).config xs s.state,
        s.currentFrame⟩ := by
    rw [parseConfig_eq ops _ _ _ rfl hbit]
    congr 1
    exact applyConfig_play ops hbits rfl rfl hrate rfl rfl rfl hpos hsmall s.state rfl
  have hbuffer : xs.map Sample.fill ≠ [] := by
    intro hnil
    rw [List.map_eq_nil_iff] at hnil
    simp [hnil] at hpos
  have hframe := generateFrame_of_used ops (test.input ops rate s.state.currentSampleNumber.toNat xs).memory hfuel
    (s := playState (test.input ops rate s.state.currentSampleNumber.toNat xs).config xs s.state) hbuffer rfl rfl
    output hroom hstep
  exact ⟨_, _, tick_of_enabled ops hconfig rfl hframe, rfl, rfl, rfl, rfl⟩

/-! ## The resampler -/

theorem stepLoop_end (a b x : Sample) {p : Nat} (hp : scaleFactor ≤ p) (stepSize room inputi : Nat)
    (output : List Sample) :
    stepLoop interpNone [a, b, x] stepSize (room + 1) inputi p output = (1, p, output) := by
  have hdiv : 1 ≤ p / scaleFactor := (Nat.one_le_div_iff (by decide)).2 hp
  have hend : p / scaleFactor + 2 ≥ [a, b, x].length := by
    simp only [List.length_cons, List.length_nil]
    omega
  rw [stepLoop, if_pos hend]
  rfl

theorem stepLoop_next (a b x : Sample) {p : Nat} (hp : p < scaleFactor) (room inputi : Nat)
    (output : List Sample) :
    stepLoop interpNone [a, b, x] (2 ^ 24 - 1) (room + 1) inputi p output =
      stepLoop interpNone [a, b, x] (2 ^ 24 - 1) room 0 (p + (2 ^ 24 - 1)) (output ++ [a]) := by
  have hdiv : p / scaleFactor = 0 := Nat.div_eq_of_lt hp
  have hscale : scaleFactor = 2 ^ 24 := rfl
  have hwrap : (p + (2 ^ 24 - 1)) % 2 ^ 64 = p + (2 ^ 24 - 1) := Nat.mod_eq_of_lt (by omega)
  have hmore : ¬0 + 2 ≥ [a, b, x].length := by
    simp only [List.length_cons, List.length_nil]
    omega
  rw [stepLoop, hdiv, if_neg hmore, hwrap]
  rfl

/-- A buffer of one sample gives two samples at a rate just below one, but only from the start. -/
theorem stepLoop_below_one (a b x : Sample) (p : Nat) :
    ∃ q output, stepLoop interpNone [a, b, x] (2 ^ 24 - 1) 160 0 p [] = (1, q, output) ∧
      output.length ≤ 2 ∧ (output.length = 2 ↔ p = 0) := by
  have hscale : scaleFactor = 2 ^ 24 := rfl
  by_cases hlate : scaleFactor ≤ p
  · refine ⟨p, [], stepLoop_end a b x hlate _ 159 0 [], by decide, ?_⟩
    simp only [List.length_nil]
    omega
  rw [stepLoop_next a b x (by omega) 159]
  by_cases hzero : p = 0
  · subst hzero
    rw [stepLoop_next a b x (by decide) 158, stepLoop_end a b x (by decide) _ 157]
    exact ⟨_, _, rfl, by simp, by simp⟩
  · rw [stepLoop_end a b x (by omega) _ 158]
    refine ⟨_, _, rfl, by simp, ?_⟩
    simp only [List.nil_append, List.length_cons, List.length_nil]
    omega

theorem stepOverSamples_below_one (state : InterpState) (x : Sample) :
    ∃ state' output, stepOverSamples interpNone state [x] (2 ^ 24 - 1) [] = (state', [], output) ∧
      output.length ≤ 2 ∧ (output.length = 2 ↔ state.fposition = 0) := by
  obtain ⟨q, output, hloop, hlength, hiff⟩ := stepLoop_below_one state.xn2 state.xn1 x state.fposition
  simp only [stepOverSamples, List.isEmpty_cons, Bool.false_eq_true, if_false, samplesPerFrame,
    List.length_nil, Nat.sub_zero, hloop]
  exact ⟨_, output, rfl, hlength, hiff⟩

/-- The position of the resampler shows in the position a source reports. -/
theorem fposition_eq_zero (hops : ops.Faithful) {fuel : Nat} (hfuel : 2 ≤ fuel) {s t : Source F}
    (h : SameOutputs ops fuel s t)
    (hplayed : t.state.currentSampleNumber = s.state.currentSampleNumber)
    (hinterp : t.state.interpState = {}) : s.state.interpState.fposition = 0 := by
  obtain ⟨r, hrate, hstep, hzero, hone, htwo⟩ := hops.below_one
  have hlimit : ∀ n, n ≤ 2 → n < 160 := by omega
  obtain ⟨_, output, hs, hlength, hiff⟩ := stepOverSamples_below_one s.state.interpState (Sample.fill 0)
  obtain ⟨_, output', ht, hlength', hiff'⟩ := stepOverSamples_below_one t.state.interpState (Sample.fill 0)
  rw [← hstep] at hs ht
  obtain ⟨s', status, hs', -, -, -, hpos⟩ := tick_test ops hfuel { bits := 0x0247001b } (by decide) hrate [0]
    (by decide) (by decide) s (hlimit _ hlength) hs
  obtain ⟨t', status', ht', -, -, -, hpos'⟩ := tick_test ops hfuel { bits := 0x0247001b } (by decide) hrate [0]
    (by decide) (by decide) t (hlimit _ hlength') ht
  rw [hplayed] at ht' hpos'
  obtain ⟨hstatus, -, -⟩ := h.tick ops hs' ht'
  rw [← hstatus, hpos, hiff'.2 (by rw [hinterp]), htwo] at hpos'
  have hadvance : ops.advance output.length r = 1 := (UInt32.add_right_inj _).1 hpos'
  apply hiff.1
  by_contra hshort
  have hcases : output.length = 0 ∨ output.length = 1 := by omega
  rcases hcases with hn | hn
  · rw [hn, hzero] at hadvance
    exact absurd hadvance (by decide)
  · rw [hn, hone] at hadvance
    exact absurd hadvance (by decide)

/-- Two sources that can not be told apart and have played as much of their buffers give the same frame in
every test at the rate one: the samples the resampler keeps and then those of the test. -/
theorem frame_eq_of_test (hops : ops.Faithful) {fuel : Nat} (hfuel : 2 ≤ fuel) {s t : Source F}
    (h : SameOutputs ops fuel s t)
    (hplayed : t.state.currentSampleNumber = s.state.currentSampleNumber)
    (hs : s.state.interpState.fposition = 0) (ht : t.state.interpState.fposition = 0)
    (test : FilterTest) (hbits : test.bits ∈ playBits) (us : List Int16) (hsmall : us.length < 100) :
    ∃ rest, ((configureFilters (test.config ops ops.one 0) s.state.filters).processFrame
        (s.state.interpState.xn2 :: s.state.interpState.xn1 :: (us.map Sample.fill ++ rest))).2 =
      ((configureFilters (test.config ops ops.one 0) t.state.filters).processFrame
        (t.state.interpState.xn2 :: t.state.interpState.xn1 :: (us.map Sample.fill ++ rest))).2 := by
  have hxs : (us ++ [0, 0]).length = us.length + 2 := by simp
  have hmap : ((us ++ [0, 0]).map Sample.fill).length = us.length + 2 := by simp
  have htake : ∀ a b : Sample, (a :: b :: (us ++ [0, 0]).map Sample.fill).take (us.length + 2) =
      a :: b :: us.map Sample.fill := by
    intro a b
    rw [List.map_append, List.take_succ_cons, List.take_succ_cons,
      List.take_left' (by rw [List.length_map])]
  have hplay : ∀ u : Source F, u.state.interpState.fposition = 0 →
      ∃ u' status, tick ops fuel (test.input ops ops.one u.state.currentSampleNumber.toNat (us ++ [0, 0])) u =
          some (u', status) ∧ u'.state.enabled = true ∧ (u'.state.gain 0 = fun _ => ops.one) ∧
        u'.currentFrame = ((configureFilters (test.config ops ops.one 0) u.state.filters).processFrame
          (u.state.interpState.xn2 :: u.state.interpState.xn1 :: (us.map Sample.fill ++
            silence.drop (us.length + 2)))).2 := by
    intro u hu
    obtain ⟨state', hstep⟩ := stepOverSamples_rate_one hu ((us ++ [0, 0]).map Sample.fill) (by omega)
      (by omega)
    rw [← hops.stepSize_one, hmap, htake] at hstep
    obtain ⟨u', status, htick, hon, hgain, hframe, -⟩ := tick_test ops hfuel test hbits hops.one_positive
      (us ++ [0, 0]) (by omega) (by omega) u (by simp; omega) hstep
    simp only [List.length_cons, List.length_map, List.cons_append] at hframe
    exact ⟨u', status, htick, hon, hgain, hframe⟩
  obtain ⟨s', _, hs', hson, hsgain, hsframe⟩ := hplay s hs
  obtain ⟨t', _, ht', hton, htgain, htframe⟩ := hplay t ht
  rw [hplayed] at ht'
  obtain ⟨-, hmix, -⟩ := h.tick ops hs' ht'
  refine ⟨silence.drop (us.length + 2), ?_⟩
  rw [← hsframe, ← htframe]
  exact frame_eq_of_mix ops hops hmix hson hton hsgain htgain

/-- Without filters the first two samples of a frame are those the resampler keeps. -/
theorem interpState_eq (hops : ops.Faithful) {fuel : Nat} (hfuel : 2 ≤ fuel) {s t : Source F}
    (h : SameOutputs ops fuel s t)
    (hplayed : t.state.currentSampleNumber = s.state.currentSampleNumber)
    (hinterp : t.state.interpState = {}) : s.state.interpState = {} := by
  have hs := fposition_eq_zero ops hops hfuel h hplayed hinterp
  obtain ⟨rest, hframe⟩ := frame_eq_of_test ops hops hfuel h hplayed hs (by rw [hinterp]) { bits := 0x0247001b }
    (by decide) [] (by decide)
  simp (disch := decide) only [configureFilters, Configuration.dirty, FilterTest.config, testConfig, whenDirty_pos,
    whenDirty_neg, SourceFilters.enable, SourceFilters.processFrame, Bool.false_eq_true, if_false, hinterp,
    List.map_nil, List.nil_append, List.cons.injEq] at hframe
  obtain ⟨hxn2, hxn1, -⟩ := hframe
  cases hstate : s.state.interpState with
  | mk xn1 xn2 fposition =>
    rw [hstate] at hs hxn1 hxn2
    simp only at hs hxn1 hxn2
    rw [hs, hxn1, hxn2]

/-! ## The filters -/

theorem toInt_eq_of_clampS16 {v : Int} {x : Int16} (h : clampS16 v = x) : clamp v = x.toInt := by
  have hlo : -32768 ≤ clamp v := by
    unfold clamp
    omega
  have hhi : clamp v ≤ 32767 := by
    unfold clamp
    omega
  rw [← h, clampS16, Int16.toInt_ofInt_of_le hlo (by omega)]

/-- The sources that are compared in a test of the filters: one of them has filters as they are constructed. -/
structure FilterTests (fuel : Nat) (s t : Source F) : Prop where
  same : SameOutputs ops fuel s t
  played : t.state.currentSampleNumber = s.state.currentSampleNumber
  interp : s.state.interpState = {}
  interp' : t.state.interpState = {}
  filters : t.state.filters = {}

/-- A test of the filters: two samples of silence, and then those of the test. -/
theorem FilterTests.frame_eq (hops : ops.Faithful) {fuel : Nat} (hfuel : 2 ≤ fuel) {s t : Source F}
    (h : FilterTests ops fuel s t) (test : FilterTest) (hbits : test.bits ∈ playBits) (us : List Int16)
    (hsmall : us.length < 100) :
    ∃ rest, ((configureFilters (test.config ops ops.one 0) s.state.filters).processFrame
        (⟨0, 0⟩ :: ⟨0, 0⟩ :: (us.map Sample.fill ++ rest))).2 =
      ((configureFilters (test.config ops ops.one 0) {}).processFrame
        (⟨0, 0⟩ :: ⟨0, 0⟩ :: (us.map Sample.fill ++ rest))).2 := by
  have hframe := frame_eq_of_test ops hops hfuel h.same h.played (by rw [h.interp]) (by rw [h.interp']) test hbits us
    hsmall
  rw [h.interp, h.interp', h.filters] at hframe
  exact hframe

/-- A filter that gives silence whatever it is given. -/
theorem filterFrame_silent {φ : Type} {processSample : φ → Sample → φ × Sample} {p : φ → Prop}
    (hp : ∀ f x0, p f → (processSample f x0).2 = ⟨0, 0⟩ ∧ p (processSample f x0).1) {f : φ} (hf : p f)
    (frame : List Sample) : (filterFrame processSample f frame).2 = frame.map fun _ => ⟨0, 0⟩ := by
  induction frame generalizing f with
  | nil => rfl
  | cons x0 frame ih =>
    obtain ⟨hsample, hnext⟩ := hp f x0 hf
    rw [filterFrame, List.map_cons, hsample, ih hnext]

theorem simple_silent {f : SimpleFilter} (hf : f.b0 = 0 ∧ f.a1 = 0) (frame : List Sample) :
    (filterFrame SimpleFilter.processSample f frame).2 = frame.map fun _ => ⟨0, 0⟩ := by
  refine filterFrame_silent (p := fun f => f.b0 = 0 ∧ f.a1 = 0) ?_ hf frame
  rintro f x0 ⟨hb0, ha1⟩
  refine ⟨?_, hb0, ha1⟩
  simp only [SimpleFilter.processSample, hb0, ha1, Int.zero_mul, Int.add_zero]
  rfl

/-- A biquad filter with these coefficients. -/
structure BiquadFilter.HasCoeffs (f : BiquadFilter) (a2 a1 b2 b1 b0 : Int) : Prop where
  a2_eq : f.a2 = a2
  a1_eq : f.a1 = a1
  b2_eq : f.b2 = b2
  b1_eq : f.b1 = b1
  b0_eq : f.b0 = b0

theorem biquad_silent {f : BiquadFilter} (hf : f.HasCoeffs 0 0 0 0 0) (frame : List Sample) :
    (filterFrame BiquadFilter.processSample f frame).2 = frame.map fun _ => ⟨0, 0⟩ := by
  refine filterFrame_silent (p := fun f => f.HasCoeffs 0 0 0 0 0) ?_ hf frame
  rintro f x0 ⟨ha2, ha1, hb2, hb1, hb0⟩
  refine ⟨?_, ha2, ha1, hb2, hb1, hb0⟩
  simp only [BiquadFilter.processSample, ha2, ha1, hb2, hb1, hb0, Int.zero_mul, Int.add_zero]
  rfl

theorem processFrame_of_disabled {f : SourceFilters} (hsimple : f.simpleFilterEnabled = false)
    (hbiquad : f.biquadFilterEnabled = false) (frame : List Sample) : (f.processFrame frame).2 = frame := by
  simp only [SourceFilters.processFrame, hsimple, hbiquad, Bool.false_eq_true, if_false]

/-- Filters of which one at least is switched on give silence. -/
theorem processFrame_silent {f : SourceFilters} (hsimple : f.simpleFilter.b0 = 0 ∧ f.simpleFilter.a1 = 0)
    (hbiquad : f.biquadFilter.HasCoeffs 0 0 0 0 0)
    (hon : ¬(f.simpleFilterEnabled = false ∧ f.biquadFilterEnabled = false)) (frame : List Sample) :
    (f.processFrame frame).2 = frame.map fun _ => ⟨0, 0⟩ := by
  cases hs : f.simpleFilterEnabled <;> cases hb : f.biquadFilterEnabled
  · exact absurd ⟨hs, hb⟩ hon
  · simp only [SourceFilters.processFrame, hs, hb, Bool.false_eq_true, if_false, if_true, biquad_silent hbiquad]
  · simp only [SourceFilters.processFrame, hs, hb, Bool.false_eq_true, if_false, if_true, simple_silent hsimple]
  · simp only [SourceFilters.processFrame, hs, hb, if_true, simple_silent hsimple, biquad_silent hbiquad,
      List.map_map]
    rfl

/-- Filters that give silence show whether they are switched on. -/
theorem FilterTests.disabled (hops : ops.Faithful) {fuel : Nat} (hfuel : 2 ≤ fuel) {s t : Source F}
    (h : FilterTests ops fuel s t) :
    s.state.filters.simpleFilterEnabled = false ∧ s.state.filters.biquadFilterEnabled = false := by
  obtain ⟨rest, hframe⟩ := h.frame_eq ops hops hfuel { bits := 0x0387001b } (by decide) [1] (by decide)
  have hconfigure : ∀ f : SourceFilters, configureFilters (FilterTest.config ops { bits := 0x0387001b } ops.one 0)
      f = (f.configureSimple (0, 0)).configureBiquad (0, 0, 0, 0, 0) := by
    intro f
    simp (disch := decide) only [configureFilters, Configuration.dirty, FilterTest.config, testConfig,
      whenDirty_pos, whenDirty_neg]
  rw [hconfigure, hconfigure] at hframe
  by_contra hon
  have hzero : (0 : Int16).toInt = 0 := Int16.toInt_zero
  have hsilent := processFrame_silent (f := (s.state.filters.configureSimple (0, 0)).configureBiquad (0, 0, 0, 0, 0))
    ⟨hzero, hzero⟩ ⟨hzero, hzero, hzero, hzero, hzero⟩ hon
  rw [hsilent, processFrame_of_disabled rfl rfl] at hframe
  simp only [List.map_cons, List.cons_append, List.cons.injEq, Sample.fill, Sample.mk.injEq] at hframe
  exact absurd hframe.2.2.1.1 (by decide)

theorem clampS16_neg_eq_zero {x : Int16} (h : clampS16 (-x.toInt) = 0) : x = 0 := by
  have hclamp := toInt_eq_of_clampS16 h
  have hlo := x.le_toInt
  have hhi := x.toInt_lt
  rw [Int16.toInt_zero] at hclamp
  apply Int16.toInt_inj.1
  rw [Int16.toInt_zero]
  unfold clamp at hclamp
  omega

/-- A sample of which the negation is heard. -/
def Sample.negated (x : Sample) : Sample := ⟨clampS16 (-x.left.toInt), clampS16 (-x.right.toInt)⟩

theorem sample_eq_zero {x : Sample} (h : x.negated = Sample.negated ⟨0, 0⟩) : x = ⟨0, 0⟩ := by
  simp only [Sample.negated, Int16.toInt_zero, Sample.mk.injEq] at h
  have hleft := clampS16_neg_eq_zero h.1
  have hright := clampS16_neg_eq_zero h.2
  cases x with
  | mk left right =>
    simp only at hleft hright
    rw [hleft, hright]

/-! ### The simple filter -/

/-- The simple filter alone is switched on, with the samples of the test. -/
theorem FilterTests.simple_eq (hops : ops.Faithful) {fuel : Nat} (hfuel : 2 ≤ fuel) {s t : Source F}
    (h : FilterTests ops fuel s t) (us : List Int16) (hsmall : us.length < 100) :
    ∃ rest, (filterFrame SimpleFilter.processSample s.state.filters.simpleFilter
        (⟨0, 0⟩ :: ⟨0, 0⟩ :: (us.map Sample.fill ++ rest))).2 =
      (filterFrame SimpleFilter.processSample {} (⟨0, 0⟩ :: ⟨0, 0⟩ :: (us.map Sample.fill ++ rest))).2 := by
  obtain ⟨rest, hframe⟩ := h.frame_eq ops hops hfuel { bits := 0x0247001b, simpleEnabled := true } (by decide) us
    hsmall
  have hconfigure : ∀ f : SourceFilters, configureFilters
      (FilterTest.config ops { bits := 0x0247001b, simpleEnabled := true } ops.one 0) f = f.enable true false := by
    intro f
    simp (disch := decide) only [configureFilters, Configuration.dirty, FilterTest.config, testConfig,
      whenDirty_pos, whenDirty_neg]
  rw [hconfigure, hconfigure] at hframe
  exact ⟨rest, hframe⟩

/-- With other coefficients the simple filter shows its history. -/
theorem FilterTests.simpleHistory (hops : ops.Faithful) {fuel : Nat} (hfuel : 2 ≤ fuel) {s t : Source F}
    (h : FilterTests ops fuel s t) : s.state.filters.simpleFilter.y1 = ⟨0, 0⟩ := by
  obtain ⟨rest, hframe⟩ := h.frame_eq ops hops hfuel
    { bits := 0x02c7001b, simpleEnabled := true, simple := (0, -32768) } (by decide) [] (by decide)
  have hconfigure : ∀ f : SourceFilters, configureFilters (FilterTest.config ops
      { bits := 0x02c7001b, simpleEnabled := true, simple := (0, -32768) } ops.one 0) f =
      (f.enable true false).configureSimple (0, -32768) := by
    intro f
    simp (disch := decide) only [configureFilters, Configuration.dirty, FilterTest.config, testConfig,
      whenDirty_pos, whenDirty_neg]
  rw [hconfigure, hconfigure] at hframe
  have hfirst : ∀ (f : SourceFilters) (frame : List Sample),
      (((f.enable true false).configureSimple (0, -32768)).processFrame (⟨0, 0⟩ :: frame)).2.head? =
        some f.simpleFilter.y1.negated := by
    intro f frame
    have hcoeff : ((-32768 : Int16)).toInt = -32768 := by decide
    have hneg : ∀ x : Int, (0 * 0 + -32768 * x) / 2 ^ 15 = -x := by
      intro x
      omega
    simp only [SourceFilters.processFrame, SourceFilters.enable, SourceFilters.configureSimple, if_true,
      Bool.false_eq_true, if_false, filterFrame, SimpleFilter.processSample, List.head?_cons, hcoeff,
      Int16.toInt_zero, hneg, Sample.negated]
  have hhead := congrArg List.head? hframe
  rw [hfirst, hfirst, Option.some.injEq] at hhead
  exact sample_eq_zero hhead

theorem clampS16_zero : clampS16 0 = 0 := by decide

/-- The response of the simple filter without a history to a pulse and a sample of silence. -/
theorem simple_pulse {f : SimpleFilter} (hf : f.y1 = ⟨0, 0⟩) (u : Int16) (frame : List Sample) :
    ∃ rest, (filterFrame SimpleFilter.processSample f (⟨0, 0⟩ :: ⟨0, 0⟩ :: Sample.fill u :: ⟨0, 0⟩ :: frame)).2 =
      ⟨0, 0⟩ :: ⟨0, 0⟩ :: Sample.fill (clampS16 (f.b0 * u.toInt / 2 ^ 15)) ::
        Sample.fill (clampS16 (f.a1 * (clampS16 (f.b0 * u.toInt / 2 ^ 15)).toInt / 2 ^ 15)) :: rest := by
  simp only [filterFrame, SimpleFilter.processSample, hf, Sample.fill, Int16.toInt_zero, Int.mul_zero, Int.add_zero,
    Int.zero_ediv, Int.zero_add, clampS16_zero]
  exact ⟨_, rfl⟩

/-- The response to a pulse shows the coefficients. -/
theorem FilterTests.simpleCoeffs (hops : ops.Faithful) {fuel : Nat} (hfuel : 2 ≤ fuel) {s t : Source F}
    (h : FilterTests ops fuel s t) : s.state.filters.simpleFilter = {} := by
  have hhistory := h.simpleHistory ops hops hfuel
  have hpulse : ∀ u : Int16, clampS16 (s.state.filters.simpleFilter.b0 * u.toInt / 2 ^ 15) =
        clampS16 (2 ^ 15 * u.toInt / 2 ^ 15) ∧
      clampS16 (s.state.filters.simpleFilter.a1 *
        (clampS16 (s.state.filters.simpleFilter.b0 * u.toInt / 2 ^ 15)).toInt / 2 ^ 15) = 0 := by
    intro u
    obtain ⟨rest, hframe⟩ := h.simple_eq ops hops hfuel [u, 0] (by simp)
    obtain ⟨_, hs⟩ := simple_pulse hhistory u rest
    obtain ⟨_, ht⟩ := simple_pulse (f := {}) rfl u rest
    simp only [List.map_cons, List.map_nil, List.cons_append, List.nil_append] at hframe
    rw [show Sample.fill 0 = ⟨0, 0⟩ from rfl, hs, ht] at hframe
    simp only [List.cons.injEq, Sample.fill, Sample.mk.injEq, Int.zero_mul, Int.zero_ediv, clampS16_zero] at hframe
    exact ⟨hframe.2.2.1.1, hframe.2.2.2.1.1⟩
  generalize s.state.filters.simpleFilter = f at hhistory hpulse ⊢
  have hup := toInt_eq_of_clampS16 (hpulse 16384).1
  have hdown := toInt_eq_of_clampS16 (hpulse (-16384)).1
  rw [show (16384 : Int16).toInt = 16384 by decide,
    show (clampS16 (2 ^ 15 * 16384 / 2 ^ 15)).toInt = 16384 by decide, clamp] at hup
  rw [show (-16384 : Int16).toInt = -16384 by decide,
    show (clampS16 (2 ^ 15 * -16384 / 2 ^ 15)).toInt = -16384 by decide, clamp] at hdown
  have hb0 : f.b0 = 2 ^ 15 := by omega
  have hecho := toInt_eq_of_clampS16 (hpulse (-32768)).2
  rw [hb0, show (-32768 : Int16).toInt = -32768 by decide,
    show (clampS16 (2 ^ 15 * -32768 / 2 ^ 15)).toInt = -32768 by decide, Int16.toInt_zero, clamp] at hecho
  have ha1 : f.a1 = 0 := by omega
  cases f with
  | mk a1 b0 y1 =>
    simp only at hhistory hb0 ha1
    rw [hhistory, hb0, ha1]

/-! ### The biquad filter -/

/-- The biquad filter alone is switched on, with the samples of the test. -/
theorem FilterTests.biquad_eq (hops : ops.Faithful) {fuel : Nat} (hfuel : 2 ≤ fuel) {s t : Source F}
    (h : FilterTests ops fuel s t) (us : List Int16) (hsmall : us.length < 100) :
    ∃ rest, (filterFrame BiquadFilter.processSample s.state.filters.biquadFilter
        (⟨0, 0⟩ :: ⟨0, 0⟩ :: (us.map Sample.fill ++ rest))).2 =
      (filterFrame BiquadFilter.processSample {} (⟨0, 0⟩ :: ⟨0, 0⟩ :: (us.map Sample.fill ++ rest))).2 := by
  obtain ⟨rest, hframe⟩ := h.frame_eq ops hops hfuel { bits := 0x0247001b, biquadEnabled := true } (by decide) us
    hsmall
  have hconfigure : ∀ f : SourceFilters, configureFilters
      (FilterTest.config ops { bits := 0x0247001b, biquadEnabled := true } ops.one 0) f = f.enable false true := by
    intro f
    simp (disch := decide) only [configureFilters, Configuration.dirty, FilterTest.config, testConfig,
      whenDirty_pos, whenDirty_neg]
  rw [hconfigure, hconfigure] at hframe
  exact ⟨rest, hframe⟩

/-- The first sample a biquad filter gives with other coefficients, from one channel of its history. -/
def historyTerm (coeffs : Int16 × Int16 × Int16 × Int16 × Int16) (x1 x2 y1 y2 : Int16) : Int16 :=
  clampS16 ((coeffs.2.2.2.2.toInt * 0 + coeffs.2.2.2.1.toInt * x1.toInt + coeffs.2.2.1.toInt * x2.toInt +
    coeffs.2.1.toInt * y1.toInt + coeffs.1.toInt * y2.toInt) / 2 ^ 14)

/-- With other coefficients the biquad filter shows its history. -/
theorem FilterTests.history_eq (hops : ops.Faithful) {fuel : Nat} (hfuel : 2 ≤ fuel) {s t : Source F}
    (h : FilterTests ops fuel s t) (coeffs : Int16 × Int16 × Int16 × Int16 × Int16) {f : BiquadFilter}
    (hf : s.state.filters.biquadFilter = f) :
    (⟨historyTerm coeffs f.x1.left f.x2.left f.y1.left f.y2.left,
        historyTerm coeffs f.x1.right f.x2.right f.y1.right f.y2.right⟩ : Sample) =
      ⟨historyTerm coeffs 0 0 0 0, historyTerm coeffs 0 0 0 0⟩ := by
  have hbits : (0x0347001b : UInt32) ∈ playBits := by decide
  obtain ⟨rest, hframe⟩ := h.frame_eq ops hops hfuel
    { bits := 0x0347001b, biquadEnabled := true, biquad := coeffs } hbits [] (by decide)
  have hconfigure : ∀ f : SourceFilters, configureFilters (FilterTest.config ops
      { bits := 0x0347001b, biquadEnabled := true, biquad := coeffs } ops.one 0) f =
      (f.enable false true).configureBiquad coeffs := by
    intro f
    simp (disch := decide) only [configureFilters, Configuration.dirty, FilterTest.config, testConfig,
      whenDirty_pos, whenDirty_neg]
  rw [hconfigure, hconfigure] at hframe
  have hfirst : ∀ (f : SourceFilters) (frame : List Sample),
      (((f.enable false true).configureBiquad coeffs).processFrame (⟨0, 0⟩ :: frame)).2.head? =
        some ⟨historyTerm coeffs f.biquadFilter.x1.left f.biquadFilter.x2.left f.biquadFilter.y1.left
            f.biquadFilter.y2.left,
          historyTerm coeffs f.biquadFilter.x1.right f.biquadFilter.x2.right f.biquadFilter.y1.right
            f.biquadFilter.y2.right⟩ := by
    intro f frame
    simp only [SourceFilters.processFrame, SourceFilters.enable, SourceFilters.configureBiquad, if_true,
      Bool.false_eq_true, if_false, filterFrame, BiquadFilter.processSample, List.head?_cons, historyTerm,
      Int16.toInt_zero]
  have hhead := congrArg List.head? hframe
  rw [hfirst, hfirst, Option.some.injEq, hf] at hhead
  exact hhead

/-- The history of the biquad filter is silence. -/
theorem FilterTests.biquadHistory (hops : ops.Faithful) {fuel : Nat} (hfuel : 2 ≤ fuel) {s t : Source F}
    (h : FilterTests ops fuel s t) {f : BiquadFilter} (hf : s.state.filters.biquadFilter = f) :
    f.x1 = ⟨0, 0⟩ ∧ f.x2 = ⟨0, 0⟩ ∧ f.y1 = ⟨0, 0⟩ ∧ f.y2 = ⟨0, 0⟩ := by
  have hcoeff : (-16384 : Int16).toInt = -16384 := by decide
  have hneg : ∀ x : Int, -16384 * x / 2 ^ 14 = -x := by
    intro x
    omega
  refine ⟨?_, ?_, ?_, ?_⟩ <;> apply sample_eq_zero
  · have hx1 := h.history_eq ops hops hfuel (0, 0, 0, -16384, 0) hf
    simp only [historyTerm, hcoeff, Int16.toInt_zero, Int.zero_mul, Int.zero_add, Int.add_zero, hneg] at hx1
    exact hx1
  · have hx2 := h.history_eq ops hops hfuel (0, 0, -16384, 0, 0) hf
    simp only [historyTerm, hcoeff, Int16.toInt_zero, Int.zero_mul, Int.zero_add, Int.add_zero, hneg] at hx2
    exact hx2
  · have hy1 := h.history_eq ops hops hfuel (0, -16384, 0, 0, 0) hf
    simp only [historyTerm, hcoeff, Int16.toInt_zero, Int.zero_mul, Int.zero_add, Int.add_zero, hneg] at hy1
    exact hy1
  · have hy2 := h.history_eq ops hops hfuel (-16384, 0, 0, 0, 0) hf
    simp only [historyTerm, hcoeff, Int16.toInt_zero, Int.zero_mul, Int.zero_add, Int.add_zero, hneg] at hy2
    exact hy2

/-- The response of the biquad filter without a history to a pulse and two samples of silence. -/
theorem biquad_pulse {f : BiquadFilter}
    (hf : f.x1 = ⟨0, 0⟩ ∧ f.x2 = ⟨0, 0⟩ ∧ f.y1 = ⟨0, 0⟩ ∧ f.y2 = ⟨0, 0⟩) (u : Int16) (frame : List Sample) :
    ∃ y rest, (filterFrame BiquadFilter.processSample f
        (⟨0, 0⟩ :: ⟨0, 0⟩ :: Sample.fill u :: ⟨0, 0⟩ :: ⟨0, 0⟩ :: frame)).2 =
      ⟨0, 0⟩ :: ⟨0, 0⟩ :: Sample.fill (clampS16 (f.b0 * u.toInt / 2 ^ 14)) :: Sample.fill y ::
        Sample.fill (clampS16 ((f.b2 * u.toInt + f.a1 * y.toInt +
          f.a2 * (clampS16 (f.b0 * u.toInt / 2 ^ 14)).toInt) / 2 ^ 14)) :: rest ∧
      y = clampS16 ((f.b1 * u.toInt + f.a1 * (clampS16 (f.b0 * u.toInt / 2 ^ 14)).toInt) / 2 ^ 14) := by
  obtain ⟨hx1, hx2, hy1, hy2⟩ := hf
  simp only [filterFrame, BiquadFilter.processSample, hx1, hx2, hy1, hy2, Sample.fill, Int16.toInt_zero,
    Int.mul_zero, Int.add_zero, Int.zero_ediv, Int.zero_add, clampS16_zero]
  exact ⟨_, _, rfl, rfl⟩

/-- The response to a pulse shows that the zeros of the biquad filter cancel its poles. -/
theorem FilterTests.biquadTransparent (hops : ops.Faithful) {fuel : Nat} (hfuel : 2 ≤ fuel) {s t : Source F}
    (h : FilterTests ops fuel s t) : s.state.filters.biquadFilter.Transparent := by
  have hhistory := h.biquadHistory ops hops hfuel rfl
  have hpulse : ∀ u : Int16, ∃ rest,
      (filterFrame BiquadFilter.processSample s.state.filters.biquadFilter
        (⟨0, 0⟩ :: ⟨0, 0⟩ :: Sample.fill u :: ⟨0, 0⟩ :: ⟨0, 0⟩ :: rest)).2 =
      (filterFrame BiquadFilter.processSample {}
        (⟨0, 0⟩ :: ⟨0, 0⟩ :: Sample.fill u :: ⟨0, 0⟩ :: ⟨0, 0⟩ :: rest)).2 := by
    intro u
    exact h.biquad_eq ops hops hfuel [u, 0, 0] (by simp)
  generalize s.state.filters.biquadFilter = f at hhistory hpulse ⊢
  have hresponse : ∀ u : Int16, ∃ y,
      clampS16 (f.b0 * u.toInt / 2 ^ 14) = clampS16 (2 ^ 14 * u.toInt / 2 ^ 14) ∧ y = (0 : Int16) ∧
      clampS16 ((f.b2 * u.toInt + f.a1 * y.toInt + f.a2 * (clampS16 (f.b0 * u.toInt / 2 ^ 14)).toInt) / 2 ^ 14) =
        0 ∧ y = clampS16 ((f.b1 * u.toInt + f.a1 * (clampS16 (f.b0 * u.toInt / 2 ^ 14)).toInt) / 2 ^ 14) := by
    intro u
    obtain ⟨rest, hframe⟩ := hpulse u
    obtain ⟨y, _, hs, hy⟩ := biquad_pulse hhistory u rest
    obtain ⟨y', _, ht, hy'⟩ := biquad_pulse (f := {}) ⟨rfl, rfl, rfl, rfl⟩ u rest
    simp only [Int.zero_mul, Int.add_zero, Int.zero_ediv, clampS16_zero] at hy' ht
    rw [hs, ht] at hframe
    simp only [List.cons.injEq, Sample.fill, Sample.mk.injEq] at hframe
    exact ⟨y, hframe.2.2.1.1, hframe.2.2.2.1.1.trans hy', hframe.2.2.2.2.1.1, hy⟩
  obtain ⟨_, hup, -⟩ := hresponse 8192
  obtain ⟨_, hdown, -⟩ := hresponse (-8192)
  obtain ⟨y, -, hy, htwo, hone⟩ := hresponse (-16384)
  replace hup := toInt_eq_of_clampS16 hup
  replace hdown := toInt_eq_of_clampS16 hdown
  rw [show (8192 : Int16).toInt = 8192 by decide,
    show (clampS16 (2 ^ 14 * 8192 / 2 ^ 14)).toInt = 8192 by decide, clamp] at hup
  rw [show (-8192 : Int16).toInt = -8192 by decide,
    show (clampS16 (2 ^ 14 * -8192 / 2 ^ 14)).toInt = -8192 by decide, clamp] at hdown
  have hb0 : f.b0 = 2 ^ 14 := by omega
  have hpeak : (clampS16 (2 ^ 14 * -16384 / 2 ^ 14)).toInt = -16384 := by decide
  subst hy
  rw [hb0, show (-16384 : Int16).toInt = -16384 by decide, hpeak] at hone htwo
  have hb1 := toInt_eq_of_clampS16 hone.symm
  have hb2 := toInt_eq_of_clampS16 htwo
  rw [Int16.toInt_zero, clamp] at hb1 hb2
  obtain ⟨hx1, hx2, hy1, hy2⟩ := hhistory
  refine ⟨hb0, ?_, ?_, hy1.trans hx1.symm, hy2.trans hx2.symm⟩
  · omega
  · omega

/-! ## The decoder -/

/-- The source is switched off and its buffer emptied. -/
def emptyInput (played : UInt32) : TickInput F where
  config := { testConfig ops 0x0247001b with enable := 0, length := played }
  adpcmCoeffs := []
  memory := fun _ => some fun _ => 0

/-- A buffer of four samples of ADPCM is queued. -/
def adpcmInput (coeffs : Int16 × Int16) : TickInput F where
  config := { testConfig ops 0x40010004 with format := .adpcm, length := 4 }
  adpcmCoeffs := [coeffs.1, coeffs.2]
  memory := fun _ => some fun _ => 0

/-- The source that is switched off. -/
def emptied (s : SourceState F) : SourceState F :=
  { s with
    inputQueue := []
    enabled := false
    rateMultiplier := ops.one
    gain := Function.update s.gain 0 fun _ => ops.one
    filters := s.filters.enable false false
    interpolationMode := .none
    format := .pcm16
    monoOrStereo := .mono
    currentBuffer := []
    bufferUpdate := false }

theorem tick_emptyInput (hops : ops.Faithful) (fuel : Nat) (s : Source F) :
    ∃ status, tick ops fuel (emptyInput ops s.state.currentSampleNumber) s =
      some (⟨emptied ops s.state, s.currentFrame⟩, status) := by
  have happly : (getCurrentStatus (applyConfig ops (fun _ => some fun _ => 0)
      { testConfig ops 0x0247001b with enable := 0, length := s.state.currentSampleNumber } [] s.state)).1 =
      emptied ops s.state := by
    have hlength : ∀ n, (decodePCM16 1 (fun _ => 0) n).length = n := by
      intro n
      simp [decodePCM16]
    simp (disch := decide) only [applyConfig, configureFilters, Configuration.dirty, testConfig, whenDirty_pos,
      whenDirty_neg, partialUpdate, numChannels, hops.one_positive, reduceCtorEq, if_false, hlength, lt_irrefl,
      Bool.false_eq_true]
    rw [List.drop_of_length_le (by rw [hlength])]
    rfl
  have hoff : (applyConfig ops (fun _ => some fun _ => 0)
      { testConfig ops 0x0247001b with enable := 0, length := s.state.currentSampleNumber } [] s.state).enabled =
      false := congrArg SourceState.enabled happly
  have hconfig := parseConfig_eq ops (fun _ => some fun _ => 0)
    { testConfig ops 0x0247001b with enable := 0, length := s.state.currentSampleNumber } []
    (d := 0x0247001b) rfl (by decide) s
  simp only [tick, emptyInput, hconfig, hoff, Bool.false_eq_true, if_false]
  rw [happly]
  exact ⟨_, rfl⟩

/-- What four samples of silence are decoded to. -/
theorem decodeADPCM_silence (c1 c2 : Int16) (state : ADPCMState) :
    ∃ state' a b c, decodeADPCM (fun _ => 0) 4 [c1, c2] state =
      (state', [Sample.fill (decodeSample 1 c1.toInt c2.toInt state 0).yn1, a, b, c]) :=
  ⟨_, _, _, _, rfl⟩

/-- The buffer of four samples of ADPCM. -/
def adpcmBuffer : Buffer :=
  { physicalAddress := 0, length := 4, adpcmPs := 0, adpcmYn := (0, 0), adpcmDirty := false, isLooping := false
    bufferId := 0, monoOrStereo := .mono, format := .adpcm, fromQueue := false, playPosition := 0
    hasPlayed := false }

/-- The source with the buffer in its queue. -/
def adpcmQueued (coeffs : List Int16) (s : SourceState F) : SourceState F :=
  { s with
    enabled := true
    adpcmCoeffs := coeffs
    format := .adpcm
    monoOrStereo := .mono
    inputQueue := [adpcmBuffer] }

theorem parseConfig_adpcmInput (c1 c2 : Int16) (s : Source F) (hqueue : s.state.inputQueue = []) :
    parseConfig ops (adpcmInput ops (c1, c2)).memory (adpcmInput ops (c1, c2)).config
      (adpcmInput ops (c1, c2)).adpcmCoeffs s = ⟨adpcmQueued [c1, c2] s.state, s.currentFrame⟩ := by
  have hplay : (if (adpcmInput ops (c1, c2)).config.dirty 21 then (adpcmInput ops (c1, c2)).config.playPosition
      else 0) = 0 := ite_self 0
  rw [parseConfig_eq ops _ _ _ (d := 0x40010004) rfl (by decide)]
  congr 1
  simp only [applyConfig, hplay]
  simp (disch := decide) only [adpcmInput, configureFilters, Configuration.dirty, testConfig,
    whenDirty_pos, whenDirty_neg, queueEmbedded, hqueue, if_neg, adpcmQueued]
  congr 1

/-- A buffer of ADPCM becomes the current one. -/
theorem tick_adpcmInput (fuel : Nat) (c1 c2 : Int16) (s : Source F) (hempty : s.state.currentBuffer = [])
    (hqueue : s.state.inputQueue = []) :
    ∃ s' status a b c, tick ops fuel (adpcmInput ops (c1, c2)) s = some (s', status) ∧
      s'.state.currentBuffer =
        [Sample.fill (decodeSample 1 c1.toInt c2.toInt s.state.adpcmState 0).yn1, a, b, c] ∧
      s'.state.enabled = true ∧ s'.state.inputQueue = [] ∧
      s'.state.interpolationMode = s.state.interpolationMode ∧
      s'.state.rateMultiplier = s.state.rateMultiplier ∧ s'.state.interpState = s.state.interpState ∧
      s'.state.filters = s.state.filters ∧ s'.state.gain = s.state.gain := by
  have hpop : popBuffer [adpcmBuffer] = [] := by decide +kernel
  obtain ⟨state', a, b, c, hdecoded⟩ := decodeADPCM_silence c1 c2 s.state.adpcmState
  have hframe : ∃ r, generateFrame ops (adpcmInput ops (c1, c2)).memory fuel (adpcmQueued [c1, c2] s.state) =
        some (r, silence) ∧
      r.currentBuffer = [Sample.fill (decodeSample 1 c1.toInt c2.toInt s.state.adpcmState 0).yn1, a, b, c] ∧
      r.enabled = true ∧ r.inputQueue = [] ∧ r.interpolationMode = s.state.interpolationMode ∧
      r.rateMultiplier = s.state.rateMultiplier ∧ r.interpState = s.state.interpState ∧
      r.filters = s.state.filters ∧ r.gain = s.state.gain := by
    simp only [generateFrame, adpcmQueued, adpcmInput, hempty, List.isEmpty_nil, if_true, dequeueBuffer,
      List.head?_cons, hpop]
    simp only [takeHistory, adpcmBuffer, Bool.false_eq_true, if_false, decodeBuffer]
    rw [show (4 : UInt32).toNat = 4 from rfl, hdecoded]
    exact ⟨_, rfl, rfl, rfl, rfl, rfl, rfl, rfl, rfl, rfl⟩
  obtain ⟨r, hr, hsamples, henabled, hrest⟩ := hframe
  have htick := tick_of_enabled ops (parseConfig_adpcmInput ops c1 c2 s hqueue) rfl hr
  exact ⟨_, _, a, b, c, htick, hsamples, henabled, hrest⟩

/-- Four samples are played after two samples of silence. -/
theorem tick_clean (hops : ops.Faithful) {fuel : Nat} (hfuel : 2 ≤ fuel) (s : Source F) {y a b c : Sample}
    (hbuffer : s.state.currentBuffer = [y, a, b, c]) (henabled : s.state.enabled = true)
    (hqueue : s.state.inputQueue = []) (hmode : s.state.interpolationMode = .none)
    (hrate : s.state.rateMultiplier = ops.one) (hinterp : s.state.interpState = {})
    (hsimple : s.state.filters.simpleFilterEnabled = false)
    (hbiquad : s.state.filters.biquadFilterEnabled = false) :
    ∃ s' status rest, tick ops fuel ⟨testConfig ops 0, [], fun _ => none⟩ s = some (s', status) ∧
      s'.state.enabled = true ∧ s'.state.gain = s.state.gain ∧
      s'.currentFrame = ⟨0, 0⟩ :: ⟨0, 0⟩ :: y :: rest := by
  have hconfig : parseConfig ops (fun _ => none) (testConfig ops 0) [] s = s := if_pos rfl
  obtain ⟨state', hstep⟩ := stepOverSamples_rate_one (show ({} : InterpState).fposition = 0 from rfl) [y, a, b, c] (by simp) (by simp)
  have hframe := generateFrame_of_used ops (fun _ => none) hfuel (s := s.state) (by simp [hbuffer]) hqueue hmode
    [⟨0, 0⟩, ⟨0, 0⟩, y, a] (by simp) (by rw [hbuffer, hrate, hops.stepSize_one, hinterp]; exact hstep)
  exact ⟨_, _, a :: silence.drop 4, tick_of_enabled ops hconfig henabled hframe, henabled, rfl,
    processFrame_of_disabled hsimple hbiquad _⟩

/-- The first sample of a buffer of ADPCM shows the history of the decoder. -/
theorem decodeSample_eq (hops : ops.Faithful) {fuel : Nat} (hfuel : 2 ≤ fuel) {s t : Source F}
    (h : FilterTests ops fuel s t) (c1 c2 : Int16) :
    (decodeSample 1 c1.toInt c2.toInt s.state.adpcmState 0).yn1 =
      (decodeSample 1 c1.toInt c2.toInt t.state.adpcmState 0).yn1 := by
  have hgain : ∀ u : SourceState F, (emptied ops u).gain 0 = fun _ => ops.one := by
    intro u
    rfl
  obtain ⟨_, hs₁⟩ := tick_emptyInput ops hops fuel s
  obtain ⟨_, ht₁⟩ := tick_emptyInput ops hops fuel t
  rw [h.played] at ht₁
  obtain ⟨-, -, h₁⟩ := h.same.tick ops hs₁ ht₁
  obtain ⟨s₂, _, a, b, c, hs₂, hsbuffer, hson, hsqueue, hsmode, hsrate, hsinterp, hsfilters, hsgain⟩ :=
    tick_adpcmInput ops fuel c1 c2 ⟨emptied ops s.state, s.currentFrame⟩ rfl rfl
  obtain ⟨t₂, _, a', b', c', ht₂, htbuffer, hton, htqueue, htmode, htrate, htinterp, htfilters, htgain⟩ :=
    tick_adpcmInput ops fuel c1 c2 ⟨emptied ops t.state, t.currentFrame⟩ rfl rfl
  obtain ⟨-, -, h₂⟩ := h₁.tick ops hs₂ ht₂
  obtain ⟨s₃, _, srest, hs₃, hson', hsgain', hsframe⟩ := tick_clean ops hops hfuel s₂ hsbuffer hson hsqueue hsmode hsrate
    (hsinterp.trans h.interp) (by rw [hsfilters]; rfl) (by rw [hsfilters]; rfl)
  obtain ⟨t₃, _, trest, ht₃, hton', htgain', htframe⟩ := tick_clean ops hops hfuel t₂ htbuffer hton htqueue htmode htrate
    (htinterp.trans h.interp') (by rw [htfilters]; rfl) (by rw [htfilters]; rfl)
  obtain ⟨-, hmix, -⟩ := h₂.tick ops hs₃ ht₃
  have hframe := frame_eq_of_mix ops hops hmix hson' hton' (by rw [hsgain', hsgain]; exact hgain _)
    (by rw [htgain', htgain]; exact hgain _)
  rw [hsframe, htframe] at hframe
  simp only [List.cons.injEq, Sample.fill, Sample.mk.injEq] at hframe
  exact hframe.2.2.1.1

/-- The history of the decoder is silence. -/
theorem adpcmState_eq (hops : ops.Faithful) {fuel : Nat} (hfuel : 2 ≤ fuel) {s t : Source F}
    (h : FilterTests ops fuel s t) (hadpcm : t.state.adpcmState = ⟨0, 0⟩) : s.state.adpcmState = ⟨0, 0⟩ := by
  have hyn1 := decodeSample_eq ops hops hfuel h 2048 0
  have hyn2 := decodeSample_eq ops hops hfuel h 0 2048
  have hcoeff : (2048 : Int16).toInt = 2048 := by decide
  have hround : ∀ x : Int, (1024 + 2048 * x) / 2048 = x := by
    intro x
    omega
  simp only [decodeSample, hadpcm, hcoeff, Int16.toInt_zero, Int.zero_mul, Int.zero_add, Int.add_zero, hround,
    clampS16_toInt] at hyn1 hyn2
  cases hstate : s.state.adpcmState with
  | mk yn1 yn2 =>
    rw [hstate] at hyn1 hyn2
    simp only [clampS16_zero] at hyn1 hyn2
    rw [hyn1, hyn2]

/-! ## The sound after a savestate -/

/-- A savestate keeps the sound of a source exactly when nothing of what it leaves out can be heard. -/
theorem soundKept_iff_inaudible (hops : ops.Faithful) (s : Source F) :
    SoundKept ops s ↔ Inaudible s.state := by
  constructor
  · intro h
    have hsame : SameOutputs ops 2 s (reload ops s) := fun inputs => (h 2 inputs).symm
    have hinterp := interpState_eq ops hops le_rfl hsame rfl rfl
    have htests : FilterTests ops 2 s (reload ops s) := ⟨hsame, rfl, hinterp, rfl, rfl⟩
    obtain ⟨hsimple, hbiquad⟩ := htests.disabled ops hops le_rfl
    obtain ⟨hx1, hx2, -, -⟩ := htests.biquadHistory ops hops le_rfl rfl
    exact ⟨lastBufferId_eq_of_sameOutputs ops hsame, adpcmState_eq ops hops le_rfl htests rfl, hinterp, hsimple,
      hbiquad, htests.simpleCoeffs ops hops le_rfl, htests.biquadTransparent ops hops le_rfl, hx1, hx2⟩
  · intro h fuel inputs
    exact (outputs_eq_of_alike ops fuel inputs (alike_reload ops h)).symm

/-! ## A source whose sound is not kept -/

/-- The operations of `float` in exact arithmetic. -/
def exactOps : FloatOps Rat where
  zero := 0
  one := 1
  notPositive := fun x => x ≤ 0
  stepSize := fun x => (x * 2 ^ 24).floor.toNat
  advance := fun n x => UInt32.ofNat (n * x).floor.toNat
  amplify := fun x y => if 0 ≤ x * y.toInt then (x * y.toInt).floor else (x * y.toInt).ceil

theorem exactOps_faithful : exactOps.Faithful := by
  refine ⟨by decide +kernel, by decide +kernel, ?_, 1 - 1 / 2 ^ 24, by decide +kernel, by decide +kernel,
    by decide +kernel, by decide +kernel, by decide +kernel⟩
  intro x
  simp [exactOps]

/-- The source is switched on with a buffer of four samples. -/
def soundInput : TickInput Rat where
  config := { testConfig exactOps 0x40010000 with length := 4 }
  adpcmCoeffs := []
  memory := fun _ => some fun _ => 1

/-- A source that has its samples and has not played them yet. -/
theorem soundKept_samples : exactOps.Faithful ∧ ∃ s outputs,
    runTicks exactOps 1 [soundInput] (reset exactOps) = some (s, outputs) ∧
      s.state.enabled = true ∧ s.state.currentBuffer.length = 4 ∧ SoundKept exactOps s := by
  refine ⟨exactOps_faithful, _, _, rfl, rfl, rfl, ?_⟩
  exact (soundKept_iff_inaudible exactOps exactOps_faithful _).2
    ⟨rfl, rfl, rfl, rfl, rfl, rfl, ⟨rfl, rfl, rfl, rfl, rfl⟩, rfl, rfl⟩

/-- The source is switched on with a buffer without samples and the id 5. -/
def lastBufferInput : TickInput Rat where
  config := { testConfig exactOps 0x40010000 with bufferId := 5 }
  adpcmCoeffs := []
  memory := fun _ => some fun _ => 0

/-- The source after its only buffer has ended. -/
def endedSource : Option (Source Rat × List TickOutput) :=
  runTicks exactOps 1 [lastBufferInput, ⟨testConfig exactOps 0, [], fun _ => none⟩] (reset exactOps)

theorem lastBufferId_endedSource : (endedSource.map fun r => r.1.state.lastBufferId) = some 5 := by
  decide +kernel

/-- A source that has played its buffers to the end reports the id of the last one; the one loaded from its
archive does not. -/
theorem not_soundKept : ∃ s outputs, runTicks exactOps 1
    [lastBufferInput, ⟨testConfig exactOps 0, [], fun _ => none⟩] (reset exactOps) = some (s, outputs) ∧
      ¬SoundKept exactOps s := by
  have hlast := lastBufferId_endedSource
  cases hrun : endedSource with
  | none =>
      rw [hrun] at hlast
      cases hlast
  | some r =>
      rw [hrun, Option.map_some, Option.some.injEq] at hlast
      refine ⟨r.1, r.2, hrun, ?_⟩
      intro h
      have hsame : SameOutputs exactOps 1 r.1 (reload exactOps r.1) := fun inputs => (h 1 inputs).symm
      have hzero : r.1.state.lastBufferId = 0 := lastBufferId_eq_of_sameOutputs exactOps hsame
      rw [hlast] at hzero
      exact absurd hzero (by decide)

end AzaharPlus.Audio
