import Mathlib.Algebra.Group.Nat.Defs
import Mathlib.Algebra.Group.Int.Defs
import Mathlib.Algebra.GroupWithZero.Nat
import Mathlib.Data.List.Basic

/-!
# Samples, codecs, resampling and filters

The signal path of an audio source: `audio_core/codec.cpp`, `audio_core/interpolate.cpp` and
`audio_core/hle/filter.cpp`.  Samples have 16 bits and the arithmetic between them is that of
integers, with the casts and clamps of the source written out.  `u64` positions wrap at `2^64`.

* `decodePCM8`, `decodePCM16`, `decodeADPCM`: the codecs; ADPCM carries a history;
* `stepOverSamples`: the resampler, which carries two samples and a position;
* `SourceFilters.processFrame`: the two filters, which carry the samples before.
-/

namespace AzaharPlus.Audio

/-! ## Samples -/

/-- `std::array<s16, 2>`: the two channels of a sample. -/
structure Sample where
  left : Int16
  right : Int16
  deriving DecidableEq, Repr

/-- A cast to `s16`. -/
def toS16 (value : Int) : Int16 := Int16.ofInt value

/-- `std::clamp(value, -32768, 32767)`. -/
def clamp (value : Int) : Int := max (-32768) (min 32767 value)

/-- A value clamped and stored in an `s16`. -/
def clampS16 (value : Int) : Int16 := Int16.ofInt (clamp value)

/-- `fill`: one value in both channels. -/
def Sample.fill (value : Int16) : Sample := ⟨value, value⟩

/-- `samples_per_frame`. -/
def samplesPerFrame : Nat := 160

/-! ## Codecs -/

/-- The bytes a pointer to the guest's memory gives. -/
abbrev Data := Nat → UInt8

/-- `DecodePCM8`. -/
def decodePCM8 (numChannels : Nat) (data : Data) (sampleCount : Nat) : List Sample :=
  let decodeSample (sample : UInt8) : Int16 := toS16 (sample.toNat * 256)
  (List.range sampleCount).map fun i =>
    if numChannels = 1 then Sample.fill (decodeSample (data i))
    else ⟨decodeSample (data (i * 2)), decodeSample (data (i * 2 + 1))⟩

/-- `DecodePCM16`. -/
def decodePCM16 (numChannels : Nat) (data : Data) (sampleCount : Nat) : List Sample :=
  let sampleAt (offset : Nat) : Int16 := toS16 ((data offset).toNat + 256 * (data (offset + 1)).toNat)
  (List.range sampleCount).map fun i =>
    if numChannels = 1 then Sample.fill (sampleAt (i * 2))
    else ⟨sampleAt (i * 4), sampleAt (i * 4 + 2)⟩

/-- `ADPCMState`: two samples from the buffer before. -/
structure ADPCMState where
  yn1 : Int16
  yn2 : Int16
  deriving DecidableEq, Repr

/-- `SIGNED_NIBBLES`. -/
def signedNibble (nibble : Nat) : Int := if nibble < 8 then nibble else (nibble : Int) - 16

/-- The lambda `decode_sample` of `DecodeADPCM`. -/
def decodeSample (scale coef1 coef2 : Int) (state : ADPCMState) (nibble : Int) : ADPCMState :=
  let xn := nibble * scale
  let val := clampS16 ((xn * 2048 + 0x400 + coef1 * state.yn1.toInt + coef2 * state.yn2.toInt) / 2048)
  ⟨val, state.yn1⟩

/-- One byte of a frame: two samples.  Frames are eight bytes, a header and seven pairs. -/
def decodePair (data : Data) (adpcmCoeff : List Int16) (acc : ADPCMState × List Sample) (pair : Nat) :
    ADPCMState × List Sample :=
  let framei := pair / 7
  let frameHeader := (data (framei * 8)).toNat
  let scale : Int := 2 ^ (frameHeader % 16)
  let idx := frameHeader / 16 % 8
  let coef1 := (adpcmCoeff.getD (idx * 2) 0).toInt
  let coef2 := (adpcmCoeff.getD (idx * 2 + 1) 0).toInt
  let byte := (data (framei * 8 + 1 + pair % 7)).toNat
  let state1 := decodeSample scale coef1 coef2 acc.1 (signedNibble (byte / 16))
  let state2 := decodeSample scale coef1 coef2 state1 (signedNibble (byte % 16))
  (state2, acc.2 ++ [Sample.fill state1.yn1, Sample.fill state2.yn1])

/-- `DecodeADPCM`; the number of samples is rounded up to a whole byte. -/
def decodeADPCM (data : Data) (sampleCount : Nat) (adpcmCoeff : List Int16) (state : ADPCMState) :
    ADPCMState × List Sample :=
  (List.range ((sampleCount + 1) / 2)).foldl (decodePair data adpcmCoeff) (state, [])

/-! ## Resampling -/

/-- `AudioInterp::State`. -/
structure InterpState where
  xn1 : Sample := ⟨0, 0⟩
  xn2 : Sample := ⟨0, 0⟩
  fposition : Nat := 0
  deriving DecidableEq, Repr

/-- `scale_factor`. -/
def scaleFactor : Nat := 2 ^ 24

/-- What the resampler puts out between two samples. -/
abbrev Interpolation := Nat → Sample → Sample → Sample → Sample

/-- The loop of `StepOverSamples`: `room` samples of the output are left to be written.  The result is
the index of the input that was reached, the position and the output. -/
def stepLoop (fn : Interpolation) (input : List Sample) (stepSize : Nat) :
    Nat → Nat → Nat → List Sample → Nat × Nat × List Sample
  | 0, inputi, fposition, output => (inputi, fposition, output)
  | room + 1, _, fposition, output =>
    let inputi := fposition / scaleFactor
    if inputi + 2 ≥ input.length then (input.length - 2, fposition, output)
    else
      let sample (i : Nat) : Sample := input.getD i ⟨0, 0⟩
      stepLoop fn input stepSize room inputi ((fposition + stepSize) % 2 ^ 64)
        (output ++ [fn (fposition % scaleFactor) (sample inputi) (sample (inputi + 1)) (sample (inputi + 2))])

/-- `StepOverSamples`.  `output` holds the samples of the frame written so far. -/
def stepOverSamples (fn : Interpolation) (state : InterpState) (input : List Sample) (stepSize : Nat)
    (output : List Sample) : InterpState × List Sample × List Sample :=
  if input.isEmpty then (state, input, output)
  else
    let input := state.xn2 :: state.xn1 :: input
    let (inputi, fposition, output) :=
      stepLoop fn input stepSize (samplesPerFrame - output.length) 0 state.fposition output
    let sample (i : Nat) : Sample := input.getD i ⟨0, 0⟩
    (⟨sample (inputi + 1), sample inputi, (fposition + 2 ^ 64 - inputi * scaleFactor) % 2 ^ 64⟩,
      input.drop (inputi + 2), output)

/-- `AudioInterp::None`. -/
def interpNone : Interpolation := fun _ x0 _ _ => x0

/-- A channel of `AudioInterp::Linear`; the product and the quotient are those of `u64`. -/
def linearChannel (fraction : Nat) (x0 x1 : Int16) : Int16 :=
  let delta := clamp (x1.toInt - x0.toInt)
  toS16 (x0.toInt + fraction * delta % 2 ^ 64 / scaleFactor)

/-- `AudioInterp::Linear`. -/
def interpLinear : Interpolation := fun fraction x0 x1 _ =>
  ⟨linearChannel fraction x0.left x1.left, linearChannel fraction x0.right x1.right⟩

/-! ## Filters -/

/-- `SourceFilters::SimpleFilter`, as `Reset` leaves it. -/
structure SimpleFilter where
  a1 : Int := 0
  b0 : Int := 2 ^ 15
  y1 : Sample := ⟨0, 0⟩
  deriving DecidableEq, Repr

/-- `SimpleFilter::ProcessSample`. -/
def SimpleFilter.processSample (f : SimpleFilter) (x0 : Sample) : SimpleFilter × Sample :=
  let channel (x0 y1 : Int16) : Int16 := clampS16 ((f.b0 * x0.toInt + f.a1 * y1.toInt) / 2 ^ 15)
  let y0 : Sample := ⟨channel x0.left f.y1.left, channel x0.right f.y1.right⟩
  ({ f with y1 := y0 }, y0)

/-- `SourceFilters::BiquadFilter`, as `Reset` leaves it. -/
structure BiquadFilter where
  a1 : Int := 0
  a2 : Int := 0
  b0 : Int := 2 ^ 14
  b1 : Int := 0
  b2 : Int := 0
  x1 : Sample := ⟨0, 0⟩
  x2 : Sample := ⟨0, 0⟩
  y1 : Sample := ⟨0, 0⟩
  y2 : Sample := ⟨0, 0⟩
  deriving DecidableEq, Repr

/-- `BiquadFilter::ProcessSample`. -/
def BiquadFilter.processSample (f : BiquadFilter) (x0 : Sample) : BiquadFilter × Sample :=
  let channel (x0 x1 x2 y1 y2 : Int16) : Int16 :=
    clampS16 ((f.b0 * x0.toInt + f.b1 * x1.toInt + f.b2 * x2.toInt + f.a1 * y1.toInt +
      f.a2 * y2.toInt) / 2 ^ 14)
  let y0 : Sample := ⟨channel x0.left f.x1.left f.x2.left f.y1.left f.y2.left,
    channel x0.right f.x1.right f.x2.right f.y1.right f.y2.right⟩
  ({ f with x2 := f.x1, x1 := x0, y2 := f.y1, y1 := y0 }, y0)

/-- `SourceFilters`, as its constructor leaves it. -/
structure SourceFilters where
  simpleFilterEnabled : Bool := false
  biquadFilterEnabled : Bool := false
  simpleFilter : SimpleFilter := {}
  biquadFilter : BiquadFilter := {}
  deriving DecidableEq, Repr

/-- `SourceFilters::Enable`. -/
def SourceFilters.enable (f : SourceFilters) (simple biquad : Bool) : SourceFilters :=
  { simpleFilterEnabled := simple, biquadFilterEnabled := biquad
    simpleFilter := if simple then f.simpleFilter else {}
    biquadFilter := if biquad then f.biquadFilter else {} }

/-- `SourceFilters::Configure` for the simple filter, with `b0` and `a1`. -/
def SourceFilters.configureSimple (f : SourceFilters) (config : Int16 × Int16) : SourceFilters :=
  { f with simpleFilter := { f.simpleFilter with b0 := config.1.toInt, a1 := config.2.toInt } }

/-- `SourceFilters::Configure` for the biquad filter, with `a2`, `a1`, `b2`, `b1` and `b0`. -/
def SourceFilters.configureBiquad (f : SourceFilters) (config : Int16 × Int16 × Int16 × Int16 × Int16) :
    SourceFilters :=
  { f with
    biquadFilter := { f.biquadFilter with
      a2 := config.1.toInt
      a1 := config.2.1.toInt
      b2 := config.2.2.1.toInt
      b1 := config.2.2.2.1.toInt
      b0 := config.2.2.2.2.toInt } }

/-- `FilterFrame`: a filter applied to the samples of a frame one after the other. -/
def filterFrame {φ : Type} (processSample : φ → Sample → φ × Sample) (filter : φ) :
    List Sample → φ × List Sample
  | [] => (filter, [])
  | x0 :: frame =>
    let next := processSample filter x0
    let rest := filterFrame processSample next.1 frame
    (rest.1, next.2 :: rest.2)

/-- `SourceFilters::ProcessFrame`. -/
def SourceFilters.processFrame (f : SourceFilters) (frame : List Sample) : SourceFilters × List Sample :=
  let (f, frame) :=
    if f.simpleFilterEnabled then
      let (simple, frame) := filterFrame SimpleFilter.processSample f.simpleFilter frame
      ({ f with simpleFilter := simple }, frame)
    else (f, frame)
  if f.biquadFilterEnabled then
    let (biquad, frame) := filterFrame BiquadFilter.processSample f.biquadFilter frame
    ({ f with biquadFilter := biquad }, frame)
  else (f, frame)

end AzaharPlus.Audio
