import Mathlib.Tactic.Ring
import AzaharPlus.Audio.Source

/-!
# Sound after a savestate

The archive of a source leaves four of its fields out: the id of the last buffer, the history of the
ADPCM decoder, the state of the resampler and the filters.  A source that is loaded from it sounds as
the one that was saved as long as none of them can be heard: a biquad filter whose zeros cancel its
poles passes every sample on, whatever its coefficients are.

* `Alike`: two sources that can not be told apart;
* `alike_tick`: a tick keeps them alike and gives the same output;
* `outputs_eq_of_alike`: so does every sequence of ticks.
-/

namespace AzaharPlus.Audio

/-! ## Filters that pass everything on -/

theorem clamp_toInt (x : Int16) : clamp x.toInt = x.toInt := by
  have hlo := x.le_toInt
  have hhi := x.toInt_lt
  unfold clamp
  omega

theorem clampS16_toInt (x : Int16) : clampS16 x.toInt = x := by
  rw [clampS16, clamp_toInt, Int16.ofInt_toInt]

/-- The zeros of the filter cancel its poles, and its history is one it passed on. -/
def BiquadFilter.Transparent (f : BiquadFilter) : Prop :=
  f.b0 = 2 ^ 14 ∧ f.b1 = -f.a1 ∧ f.b2 = -f.a2 ∧ f.y1 = f.x1 ∧ f.y2 = f.x2

theorem transparent_channel {a1 a2 : Int} (x0 x1 x2 : Int16) :
    clampS16 ((2 ^ 14 * x0.toInt + -a1 * x1.toInt + -a2 * x2.toInt + a1 * x1.toInt + a2 * x2.toInt) /
      2 ^ 14) = x0 := by
  rw [show 2 ^ 14 * x0.toInt + -a1 * x1.toInt + -a2 * x2.toInt + a1 * x1.toInt + a2 * x2.toInt =
    2 ^ 14 * x0.toInt by ring, Int.mul_ediv_cancel_left _ (by decide), clampS16_toInt]

theorem processSample_of_transparent {f : BiquadFilter} (h : f.Transparent) (x0 : Sample) :
    f.processSample x0 = ({ f with x2 := f.x1, x1 := x0, y2 := f.y1, y1 := x0 }, x0) := by
  obtain ⟨h0, h1, h2, hy1, hy2⟩ := h
  simp only [BiquadFilter.processSample, h0, h1, h2, hy1, hy2, transparent_channel]

/-- The filters give the same samples from now on: they are the same, or both pass everything on. -/
def BiquadAlike (f g : BiquadFilter) : Prop :=
  f = g ∨ (f.Transparent ∧ g.Transparent ∧ f.x1 = g.x1 ∧ f.x2 = g.x2)

theorem alike_processSample {f g : BiquadFilter} (h : BiquadAlike f g) (x0 : Sample) :
    (f.processSample x0).2 = (g.processSample x0).2 ∧
      BiquadAlike (f.processSample x0).1 (g.processSample x0).1 := by
  rcases h with rfl | ⟨hf, hg, h1, h2⟩
  · exact ⟨rfl, Or.inl rfl⟩
  · rw [processSample_of_transparent hf, processSample_of_transparent hg]
    obtain ⟨hf0, hf1, hf2, hfy1, hfy2⟩ := hf
    obtain ⟨hg0, hg1, hg2, hgy1, hgy2⟩ := hg
    exact ⟨rfl, Or.inr ⟨⟨hf0, hf1, hf2, rfl, hfy1⟩, ⟨hg0, hg1, hg2, rfl, hgy1⟩, rfl, h1⟩⟩

/-- A frame through two filters that are alike. -/
theorem alike_filterFrame {f g : BiquadFilter} (h : BiquadAlike f g) (frame : List Sample) :
    (filterFrame BiquadFilter.processSample f frame).2 = (filterFrame BiquadFilter.processSample g frame).2 ∧
      BiquadAlike (filterFrame BiquadFilter.processSample f frame).1
        (filterFrame BiquadFilter.processSample g frame).1 := by
  induction frame generalizing f g with
  | nil => exact ⟨rfl, h⟩
  | cons x0 frame ih =>
    obtain ⟨hsample, hnext⟩ := alike_processSample h x0
    obtain ⟨hrest, hlast⟩ := ih hnext
    simp only [filterFrame, hsample, hrest]
    exact ⟨trivial, hlast⟩

/-- Two pairs of filters that can not be told apart. -/
structure FiltersAlike (f g : SourceFilters) : Prop where
  simpleEnabled : f.simpleFilterEnabled = g.simpleFilterEnabled
  biquadEnabled : f.biquadFilterEnabled = g.biquadFilterEnabled
  simple : f.simpleFilter = g.simpleFilter
  biquad : BiquadAlike f.biquadFilter g.biquadFilter

theorem alike_processFrame {f g : SourceFilters} (h : FiltersAlike f g) (frame : List Sample) :
    (f.processFrame frame).2 = (g.processFrame frame).2 ∧
      FiltersAlike (f.processFrame frame).1 (g.processFrame frame).1 := by
  obtain ⟨fs, fb, fsimple, fbiquad⟩ := f
  obtain ⟨gs, gb, gsimple, gbiquad⟩ := g
  obtain ⟨hs, hb, hsimple, hbiquad⟩ := h
  simp only at hs hb hsimple hbiquad
  subst hs hb hsimple
  cases fs <;> cases fb
  · exact ⟨rfl, ⟨rfl, rfl, rfl, hbiquad⟩⟩
  · obtain ⟨hframe, hnext⟩ := alike_filterFrame hbiquad frame
    exact ⟨hframe, ⟨rfl, rfl, rfl, hnext⟩⟩
  · exact ⟨rfl, ⟨rfl, rfl, rfl, hbiquad⟩⟩
  · obtain ⟨hframe, hnext⟩ := alike_filterFrame hbiquad
      (filterFrame SimpleFilter.processSample fsimple frame).2
    exact ⟨hframe, ⟨rfl, rfl, rfl, hnext⟩⟩

theorem alike_enable {f g : SourceFilters} (h : FiltersAlike f g) (simple biquad : Bool) :
    FiltersAlike (f.enable simple biquad) (g.enable simple biquad) := by
  refine ⟨rfl, rfl, ?_, ?_⟩
  · simp only [SourceFilters.enable, h.simple]
  · cases biquad
    · exact Or.inl rfl
    · exact h.biquad

/-- Filters that are alike have the same history. -/
theorem configure_eq_of_alike {f g : BiquadFilter} (h : BiquadAlike f g) (a1 a2 b0 b1 b2 : Int) :
    ({ f with a1 := a1, a2 := a2, b0 := b0, b1 := b1, b2 := b2 } : BiquadFilter) =
      { g with a1 := a1, a2 := a2, b0 := b0, b1 := b1, b2 := b2 } := by
  rcases h with rfl | ⟨hf, hg, h1, h2⟩
  · rfl
  · obtain ⟨-, -, -, hfy1, hfy2⟩ := hf
    obtain ⟨-, -, -, hgy1, hgy2⟩ := hg
    simp only [hfy1, hfy2, hgy1, hgy2, h1, h2]

theorem alike_filterSetting {set : SourceFilters → SourceFilters} {flag : Bool} {f g : SourceFilters}
    (hset : ∀ f g, FiltersAlike f g → FiltersAlike (set f) (set g)) (h : FiltersAlike f g) :
    FiltersAlike (whenDirty flag set f) (whenDirty flag set g) := by
  cases flag
  · exact h
  · exact hset f g h

theorem alike_configureFilters {F : Type} (config : Configuration F) {f g : SourceFilters}
    (h : FiltersAlike f g) : FiltersAlike (configureFilters config f) (configureFilters config g) := by
  simp only [configureFilters]
  apply alike_filterSetting
  · intro f g hg
    exact ⟨hg.simpleEnabled, hg.biquadEnabled, hg.simple,
      Or.inl (configure_eq_of_alike hg.biquad _ _ _ _ _)⟩
  apply alike_filterSetting
  · intro f g hg
    refine ⟨hg.simpleEnabled, hg.biquadEnabled, ?_, hg.biquad⟩
    simp only [SourceFilters.configureSimple, hg.simple]
  apply alike_filterSetting
  · intro f g hg
    exact alike_enable hg _ _
  exact h

/-! ## States that differ in what can not be heard -/

section

variable {F : Type} (ops : FloatOps F)

/-- The state with other filters. -/
def SourceState.withFilters (s : SourceState F) (g : SourceFilters) : SourceState F := { s with filters := g }

/-- The states are the same but for filters that are alike. -/
def StateAlike (s t : SourceState F) : Prop := ∃ g, t = s.withFilters g ∧ FiltersAlike s.filters g

/-- A step that neither reads nor writes the filters. -/
def KeepsFilters (f : SourceState F → SourceState F) : Prop :=
  ∀ s g, f (s.withFilters g) = (f s).withFilters g ∧ (f s).filters = s.filters

/-- A setting that has nothing to do with the filters. -/
theorem alike_setting {f : SourceState F → SourceState F} (hf : KeepsFilters f) {flag : Bool}
    {s t : SourceState F} (h : StateAlike s t) : StateAlike (whenDirty flag f s) (whenDirty flag f t) := by
  obtain ⟨g, rfl, hg⟩ := h
  obtain ⟨hwith, hfilters⟩ := hf s g
  cases flag
  · exact ⟨g, rfl, hg⟩
  · refine ⟨g, hwith, ?_⟩
    rw [whenDirty, if_pos rfl, hfilters]
    exact hg

/-- The settings of the filters. -/
theorem alike_configure (config : Configuration F) {s t : SourceState F} (h : StateAlike s t) :
    StateAlike { s with filters := configureFilters config s.filters }
      { t with filters := configureFilters config t.filters } := by
  obtain ⟨g, rfl, hg⟩ := h
  exact ⟨_, rfl, alike_configureFilters config hg⟩

theorem keeps_partialUpdate (memory : Memory) (config : Configuration F) :
    KeepsFilters (partialUpdate memory config) := by
  intro s g
  cases hm : memory (maskAddress s.currentBufferPhysicalAddress) with
  | none =>
    simp only [partialUpdate, SourceState.withFilters, hm]
    exact ⟨trivial, trivial⟩
  | some data =>
    by_cases hlength : (decodePCM16 (numChannels s.monoOrStereo) data config.length.toNat).length <
        s.currentSampleNumber.toNat
    · cases hformat : s.format <;>
        simp only [partialUpdate, SourceState.withFilters, hm, hformat, hlength, if_true] <;>
        exact ⟨trivial, trivial⟩
    · cases hformat : s.format <;>
        simp only [partialUpdate, SourceState.withFilters, hm, hformat, hlength, if_false] <;>
        exact ⟨trivial, trivial⟩

theorem keeps_queueEmbedded (config : Configuration F) (playPosition : UInt32) :
    KeepsFilters (queueEmbedded config playPosition) := by
  intro s g
  simp only [queueEmbedded, SourceState.withFilters]
  split_ifs <;> exact ⟨rfl, rfl⟩

theorem keeps_queueBuffer (b : ConfigBuffer) : KeepsFilters fun s : SourceState F => queueBuffer s b := by
  intro s g
  simp only [queueBuffer, SourceState.withFilters]
  split_ifs <;> exact ⟨rfl, rfl⟩

theorem keeps_queueBuffers (config : Configuration F) : KeepsFilters (queueBuffers config) := by
  intro s g
  unfold queueBuffers
  generalize (List.range 4).filter (fun i => config.buffersDirty.toNat.testBit i) = l
  induction l generalizing s with
  | nil => exact ⟨rfl, rfl⟩
  | cons i l ih =>
    obtain ⟨hwith, hfilters⟩ := keeps_queueBuffer (config.buffers.getD i {}) s g
    obtain ⟨hrest, hkept⟩ := ih (queueBuffer s (config.buffers.getD i {}))
    simp only at hwith
    simp only [List.foldl_cons]
    rw [hwith]
    exact ⟨hrest, hkept.trans hfilters⟩

/-- The configuration keeps states alike. -/
theorem alike_applyConfig (memory : Memory) (config : Configuration F) (adpcmCoeffs : List Int16)
    {s t : SourceState F} (h : StateAlike s t) :
    StateAlike (applyConfig ops memory config adpcmCoeffs s) (applyConfig ops memory config adpcmCoeffs t) := by
  unfold applyConfig
  apply alike_setting (keeps_queueBuffers config)
  apply alike_setting (keeps_queueEmbedded config _)
  apply alike_setting (keeps_partialUpdate memory config)
  apply alike_setting (by intro s g; exact ⟨rfl, rfl⟩)
  apply alike_setting (by intro s g; exact ⟨rfl, rfl⟩)
  apply alike_setting (by intro s g; exact ⟨rfl, rfl⟩)
  -- the filters are configured
  apply alike_configure config
  apply alike_setting (by intro s g; exact ⟨rfl, rfl⟩)
  apply alike_setting (by intro s g; exact ⟨rfl, rfl⟩)
  apply alike_setting (by intro s g; exact ⟨rfl, rfl⟩)
  apply alike_setting (by intro s g; exact ⟨rfl, rfl⟩)
  apply alike_setting (by intro s g; exact ⟨rfl, rfl⟩)
  apply alike_setting (by intro s g; exact ⟨rfl, rfl⟩)
  apply alike_setting (by intro s g; exact ⟨rfl, rfl⟩)
  apply alike_setting (by intro s g; exact ⟨rfl, rfl⟩)
  exact h

/-! ## Frames -/

theorem takeHistory_withFilters (buf : Buffer) (s : SourceState F) (g : SourceFilters) :
    takeHistory buf (s.withFilters g) = (takeHistory buf s).withFilters g := by
  unfold takeHistory
  split_ifs <;> rfl

theorem decodeBuffer_withFilters (buf : Buffer) (data : Data) (s : SourceState F) (g : SourceFilters) :
    decodeBuffer buf data (s.withFilters g) = (decodeBuffer buf data s).withFilters g := by
  unfold decodeBuffer
  cases buf.format <;> rfl

/-- A buffer is dequeued without a look at the filters. -/
theorem dequeueBuffer_withFilters (memory : Memory) (s : SourceState F) (g : SourceFilters) :
    dequeueBuffer memory (s.withFilters g) =
      (dequeueBuffer memory s).map fun r => (r.1.withFilters g, r.2) := by
  have hpop : ({ s.withFilters g with inputQueue := popBuffer (s.withFilters g).inputQueue } : SourceState F) =
      SourceState.withFilters { s with inputQueue := popBuffer s.inputQueue } g := rfl
  have hstart : ∀ (buf : Buffer) (s : SourceState F),
      startBuffer buf (s.withFilters g) = (startBuffer buf s).withFilters g := fun _ _ => rfl
  unfold dequeueBuffer
  rw [show (s.withFilters g).inputQueue.head? = s.inputQueue.head? from rfl]
  cases s.inputQueue.head? with
  | none => rfl
  | some buf =>
    simp only [hpop, takeHistory_withFilters]
    cases memory (maskAddress buf.physicalAddress) with
    | none => rfl
    | some data =>
      simp only [decodeBuffer_withFilters, hstart]
      rw [Option.map_map]
      rfl

/-- A frame is resampled without a look at the filters. -/
theorem frameLoop_withFilters (memory : Memory) (fuel : Nat) (s : SourceState F) (g : SourceFilters)
    (frame : List Sample) :
    frameLoop ops memory fuel (s.withFilters g) frame =
      (frameLoop ops memory fuel s frame).map fun r => (r.1.withFilters g, r.2) := by
  have hstep : ∀ (s : SourceState F) (frame : List Sample), interpolate ops (s.withFilters g) frame =
      ((interpolate ops s frame).1.withFilters g, (interpolate ops s frame).2) := by
    intro s frame
    unfold interpolate
    rw [show (s.withFilters g).interpolationMode = s.interpolationMode from rfl]
    cases interpolation s.interpolationMode <;> rfl
  induction fuel generalizing s frame with
  | zero => rfl
  | succ fuel ih =>
    rw [frameLoop, frameLoop]
    by_cases hroom : frame.length < samplesPerFrame
    · rw [if_pos hroom, if_pos hroom]
      rw [show (s.withFilters g).currentBuffer = s.currentBuffer from rfl]
      by_cases hempty : s.currentBuffer.isEmpty
      · rw [if_pos hempty, if_pos hempty, dequeueBuffer_withFilters]
        rcases dequeueBuffer memory s with _ | ⟨s', more⟩
        · rfl
        · cases more
          · rfl
          · simp only [Option.map_some, hstep]
            exact ih _ _
      · rw [if_neg hempty, if_neg hempty, hstep]
        exact ih _ _
    · rw [if_neg hroom, if_neg hroom]
      rfl

/-- What commutes with a change of the filters keeps them. -/
theorem filters_eq_of_withFilters {s : SourceState F} {α : Type} {x : Option (SourceState F × α)}
    (h : x = x.map fun r => (r.1.withFilters s.filters, r.2)) {r : SourceState F × α} (hr : x = some r) :
    r.1.filters = s.filters := by
  rw [hr, Option.map_some, Option.some_inj] at h
  rw [h]
  rfl

/-- A frame of two states that are alike. -/
theorem alike_generateFrame (memory : Memory) (fuel : Nat) {s t : SourceState F} (h : StateAlike s t) :
    (generateFrame ops memory fuel s = none ∧ generateFrame ops memory fuel t = none) ∨
      ∃ s' t' frame, generateFrame ops memory fuel s = some (s', frame) ∧
        generateFrame ops memory fuel t = some (t', frame) ∧ StateAlike s' t' := by
  obtain ⟨g, rfl, hg⟩ := h
  unfold generateFrame
  rw [show (s.withFilters g).currentBuffer = s.currentBuffer from rfl]
  by_cases hempty : s.currentBuffer.isEmpty
  · rw [if_pos hempty, if_pos hempty, dequeueBuffer_withFilters]
    cases hx : dequeueBuffer memory s with
    | none => exact Or.inl ⟨rfl, rfl⟩
    | some r =>
      have hkept := filters_eq_of_withFilters (dequeueBuffer_withFilters memory s s.filters) hx
      rw [← hkept] at hg
      obtain ⟨s', more⟩ := r
      cases more
      · exact Or.inr ⟨_, _, _, rfl, rfl, g, rfl, hg⟩
      · exact Or.inr ⟨_, _, _, rfl, rfl, g, rfl, hg⟩
  · rw [if_neg hempty, if_neg hempty, frameLoop_withFilters]
    cases hx : frameLoop ops memory fuel s [] with
    | none => exact Or.inl ⟨rfl, rfl⟩
    | some r =>
      have hkept := filters_eq_of_withFilters (frameLoop_withFilters ops memory fuel s s.filters []) hx
      rw [← hkept] at hg
      obtain ⟨s', frame⟩ := r
      obtain ⟨hframe, hnext⟩ := alike_processFrame hg (frame ++ silence.drop frame.length)
      refine Or.inr ⟨_, _, _, rfl, ?_, (g.processFrame (frame ++ silence.drop frame.length)).1, rfl, hnext⟩
      simp only [Option.map_some, finishFrame, SourceState.withFilters]
      rw [hframe]

/-! ## Ticks -/

/-- Sources that can not be told apart: the frame is made anew before it is heard. -/
def Alike (s t : Source F) : Prop := StateAlike s.state t.state

theorem alike_parseConfig (input : TickInput F) {s t : Source F} (h : Alike s t) :
    Alike (parseConfig ops input.memory input.config input.adpcmCoeffs s)
      (parseConfig ops input.memory input.config input.adpcmCoeffs t) := by
  unfold parseConfig
  split_ifs
  · exact h
  · exact alike_applyConfig ops _ _ _ ⟨_, rfl, ⟨rfl, rfl, rfl, Or.inl rfl⟩⟩
  · exact alike_applyConfig ops _ _ _ h

/-- A tick keeps two sources alike, and they report and add to the mixes the same. -/
theorem alike_tick (fuel : Nat) (input : TickInput F) {s t : Source F} (h : Alike s t) :
    (tick ops fuel input s = none ∧ tick ops fuel input t = none) ∨
      ∃ s' t' status, tick ops fuel input s = some (s', status) ∧ tick ops fuel input t = some (t', status) ∧
        Alike s' t' ∧ mixInto ops s' = mixInto ops t' := by
  have hconfig := alike_parseConfig ops input h
  unfold tick
  generalize parseConfig ops input.memory input.config input.adpcmCoeffs s = s₁ at hconfig
  generalize parseConfig ops input.memory input.config input.adpcmCoeffs t = t₁ at hconfig
  have henabled : t₁.state.enabled = s₁.state.enabled := by
    obtain ⟨g, hg, -⟩ := hconfig
    rw [hg]
    rfl
  simp only [henabled]
  cases hon : s₁.state.enabled
  · refine Or.inr ⟨_, { t₁ with state := (getCurrentStatus t₁.state).1 }, _, rfl, ?_, ?_, ?_⟩
    · obtain ⟨g, hg, -⟩ := hconfig
      rw [hg]
      rfl
    · obtain ⟨g, hg, hfilters⟩ := hconfig
      refine ⟨g, ?_, hfilters⟩
      rw [hg]
      rfl
    · funext mixId dest
      simp only [mixInto, getCurrentStatus, henabled, hon]
      rfl
  · rcases alike_generateFrame ops input.memory fuel hconfig with ⟨hs, ht⟩ | ⟨s', t', frame, hs, ht, hnext⟩
    · rw [hs, ht]
      exact Or.inl ⟨rfl, rfl⟩
    · rw [hs, ht]
      obtain ⟨g, rfl, hg⟩ := hnext
      refine Or.inr ⟨_, _, _, rfl, rfl, ⟨g, rfl, hg⟩, ?_⟩
      funext mixId dest
      rfl

/-- Two sources that are alike give the same output for every sequence of ticks. -/
theorem outputs_eq_of_alike (fuel : Nat) (inputs : List (TickInput F)) {s t : Source F} (h : Alike s t) :
    (runTicks ops fuel inputs s).map Prod.snd = (runTicks ops fuel inputs t).map Prod.snd := by
  induction inputs generalizing s t with
  | nil => rfl
  | cons input inputs ih =>
    rw [runTicks, runTicks]
    rcases alike_tick ops fuel input h with ⟨hs, ht⟩ | ⟨s', t', status, hs, ht, hnext, hmix⟩
    · rw [hs, ht]
    · have hrest := ih hnext
      rw [hs, ht]
      simp only [Option.bind_eq_bind, Option.bind_some, hmix]
      cases hx : runTicks ops fuel inputs s' <;> cases hy : runTicks ops fuel inputs t' <;>
        rw [hx, hy] at hrest <;> simp_all

end

end AzaharPlus.Audio
