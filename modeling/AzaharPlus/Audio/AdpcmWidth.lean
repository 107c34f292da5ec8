import AzaharPlus.Audio.Signal
import Mathlib.Tactic.Linarith

/-!
# The width of ADPCM arithmetic

`DecodeADPCM` of `audio_core/codec.cpp` once more, with its loops over frames and pairs of nibbles as
the source has them and its arithmetic in 32 bits: an operation that does not fit has no result.  It is
compared with the filter over the integers.

* `decodeADPCM32_eq` — the code gives the samples of the filter as long as the filter's sums fit.
* `decodeADPCM32_split` — whole frames can be decoded on their own, the history handed on.
* `exact_iff_sums`, `exact_iff_coefficients` — for one stream, and for all streams of a table of
  coefficients, when nothing overflows.
-/

namespace AzaharPlus.Audio

/-! ## The code -/

/-- An `int`: a value outside of its 32 bits is no result. -/
def s32 (value : Int) : Option Int := if -2 ^ 31 ≤ value ∧ value < 2 ^ 31 then some value else none

/-- The lambda `decode_sample`, operation by operation. -/
def decodeSample32 (scale coef1 coef2 : Int) (state : ADPCMState) (nibble : Int) :
    Option ADPCMState := do
  let xn ← s32 (nibble * scale)
  let shifted ← s32 (xn * 2048)
  let rounded ← s32 (shifted + 0x400)
  let product1 ← s32 (coef1 * state.yn1.toInt)
  let sum1 ← s32 (rounded + product1)
  let product2 ← s32 (coef2 * state.yn2.toInt)
  let sum2 ← s32 (sum1 + product2)
  some ⟨clampS16 (sum2 / 2048), state.yn1⟩

/-- A turn of the inner loop: the two nibbles of a byte of a frame. -/
def decodePair32 (data : Data) (adpcmCoeff : List Int16) (framei turn : Nat)
    (acc : ADPCMState × List Sample) : Option (ADPCMState × List Sample) := do
  let frameHeader := (data (framei * 8)).toNat
  let scale : Int := 2 ^ (frameHeader % 16)
  let idx := frameHeader / 16 % 8
  let coef1 := (adpcmCoeff.getD (idx * 2) 0).toInt
  let coef2 := (adpcmCoeff.getD (idx * 2 + 1) 0).toInt
  let byte := (data (framei * 8 + 1 + turn)).toNat
  let state1 ← decodeSample32 scale coef1 coef2 acc.1 (signedNibble (byte / 16))
  let state2 ← decodeSample32 scale coef1 coef2 state1 (signedNibble (byte % 16))
  some (state2, acc.2 ++ [Sample.fill state1.yn1, Sample.fill state2.yn1])

/-- The inner loop, from a turn on: up to seven pairs, as long as samples are left. -/
def decodeFrame32 (data : Data) (adpcmCoeff : List Int16) (sampleCount framei : Nat) :
    Nat → Nat → ADPCMState × List Sample → Option (ADPCMState × List Sample)
  | 0, _, acc => some acc
  | turns + 1, turn, acc =>
      if framei * 14 + turn * 2 < sampleCount then
        (decodePair32 data adpcmCoeff framei turn acc).bind
          (decodeFrame32 data adpcmCoeff sampleCount framei turns (turn + 1))
      else some acc

/-- The outer loop, from a frame on. -/
def decodeFrames32 (data : Data) (adpcmCoeff : List Int16) (sampleCount : Nat) :
    Nat → Nat → ADPCMState × List Sample → Option (ADPCMState × List Sample)
  | 0, _, acc => some acc
  | frames + 1, framei, acc =>
      (decodeFrame32 data adpcmCoeff sampleCount framei 7 0 acc).bind
        (decodeFrames32 data adpcmCoeff sampleCount frames (framei + 1))

/-- `DecodeADPCM` -/
def decodeADPCM32 (data : Data) (sampleCount : Nat) (adpcmCoeff : List Int16) (state : ADPCMState) :
    Option (ADPCMState × List Sample) :=
  decodeFrames32 data adpcmCoeff sampleCount ((sampleCount + 13) / 14) 0 (state, [])

/-! ## The filter -/

/-- The header of the frame a sample is in. -/
def headerAt (data : Data) (k : Nat) : Nat := (data (k / 14 * 8)).toNat

/-- The input of the filter: a signed nibble, the high one of its byte first. -/
def nibbleAt (data : Data) (k : Nat) : Int :=
  let byte := (data (k / 14 * 8 + 1 + k % 14 / 2)).toNat
  signedNibble (if k % 2 = 0 then byte / 16 else byte % 16)

def scaleAt (data : Data) (k : Nat) : Int := 2 ^ (headerAt data k % 16)

def coef1At (data : Data) (adpcmCoeff : List Int16) (k : Nat) : Int :=
  (adpcmCoeff.getD (headerAt data k / 16 % 8 * 2) 0).toInt

def coef2At (data : Data) (adpcmCoeff : List Int16) (k : Nat) : Int :=
  (adpcmCoeff.getD (headerAt data k / 16 % 8 * 2 + 1) 0).toInt

/-- `x[n] + 0.5 + c1 * y[n-1] + c2 * y[n-2]` in 11 bit fixed point. -/
def filterSum (data : Data) (adpcmCoeff : List Int16) (y : Int × Int) (k : Nat) : Int :=
  nibbleAt data k * scaleAt data k * 2 ^ 11 + 2 ^ 10 + coef1At data adpcmCoeff k * y.1 +
    coef2At data adpcmCoeff k * y.2

/-- The two outputs of the filter before a sample, the last one first. -/
def filterHistory (data : Data) (adpcmCoeff : List Int16) (state : ADPCMState) : Nat → Int × Int
  | 0 => (state.yn1.toInt, state.yn2.toInt)
  | k + 1 =>
      let y := filterHistory data adpcmCoeff state k
      (clamp (filterSum data adpcmCoeff y k / 2 ^ 11), y.1)

/-- The sum of a sample of the filter fits 32 bits. -/
def SumFits (data : Data) (adpcmCoeff : List Int16) (state : ADPCMState) (k : Nat) : Prop :=
  -2 ^ 31 ≤ filterSum data adpcmCoeff (filterHistory data adpcmCoeff state k) k ∧
    filterSum data adpcmCoeff (filterHistory data adpcmCoeff state k) k < 2 ^ 31

instance (data : Data) (adpcmCoeff : List Int16) (state : ADPCMState) (k : Nat) :
    Decidable (SumFits data adpcmCoeff state k) := inferInstanceAs (Decidable (_ ∧ _))

/-- `ret_size`: the number of samples, rounded up to whole pairs. -/
def retSize (sampleCount : Nat) : Nat := (sampleCount + 1) / 2 * 2

/-! ## One sample -/

theorem clamp_bounds (value : Int) : -32768 ≤ clamp value ∧ clamp value ≤ 32767 := by
  unfold clamp
  omega

theorem toInt_toS16 {value : Int} (hlo : -32768 ≤ value) (hhi : value ≤ 32767) :
    (toS16 value).toInt = value := by
  rw [toS16]
  exact Int16.toInt_ofInt_of_le (by simpa using hlo) (by omega)

theorem int16_bounds (value : Int16) : -32768 ≤ value.toInt ∧ value.toInt ≤ 32767 := by
  have hlo : -2 ^ 15 ≤ value.toInt := value.le_toInt
  have hhi : value.toInt < 2 ^ 15 := value.toInt_lt
  omega

/-- A product of a coefficient and an output. -/
theorem product_bounds (coef y : Int16) :
    -2 ^ 30 ≤ coef.toInt * y.toInt ∧ coef.toInt * y.toInt ≤ 2 ^ 30 := by
  obtain ⟨hclo, hchi⟩ := int16_bounds coef
  obtain ⟨hylo, hyhi⟩ := int16_bounds y
  constructor <;> nlinarith

theorem input_bounds {nibble scale : Int} (hnibble : -8 ≤ nibble ∧ nibble ≤ 7)
    (hscale : 1 ≤ scale ∧ scale ≤ 2 ^ 15) :
    -2 ^ 18 ≤ nibble * scale ∧ nibble * scale ≤ 7 * 2 ^ 15 := by
  obtain ⟨hnlo, hnhi⟩ := hnibble
  obtain ⟨hslo, hshi⟩ := hscale
  constructor <;> nlinarith

theorem s32_of_fits {value : Int} (hlo : -2 ^ 31 ≤ value) (hhi : value < 2 ^ 31) :
    s32 value = some value := if_pos ⟨hlo, hhi⟩

/-- Only the whole sum of a sample can overflow. -/
theorem decodeSample32_eq {nibble scale : Int} (hnibble : -8 ≤ nibble ∧ nibble ≤ 7)
    (hscale : 1 ≤ scale ∧ scale ≤ 2 ^ 15) (coef1 coef2 : Int16) (state : ADPCMState) {sum : Int}
    (hsum : sum = nibble * scale * 2 ^ 11 + 2 ^ 10 + coef1.toInt * state.yn1.toInt +
      coef2.toInt * state.yn2.toInt) :
    decodeSample32 scale coef1.toInt coef2.toInt state nibble =
      if -2 ^ 31 ≤ sum ∧ sum < 2 ^ 31 then some ⟨toS16 (clamp (sum / 2 ^ 11)), state.yn1⟩
      else none := by
  obtain ⟨hxlo, hxhi⟩ := input_bounds hnibble hscale
  obtain ⟨h1lo, h1hi⟩ := product_bounds coef1 state.yn1
  obtain ⟨h2lo, h2hi⟩ := product_bounds coef2 state.yn2
  subst hsum
  generalize hx : nibble * scale = x at hxlo hxhi ⊢
  generalize hp1 : coef1.toInt * state.yn1.toInt = p1 at h1lo h1hi ⊢
  generalize hp2 : coef2.toInt * state.yn2.toInt = p2 at h2lo h2hi ⊢
  have hlast : s32 (x * 2048 + 0x400 + p1 + p2) =
      if -2 ^ 31 ≤ x * 2 ^ 11 + 2 ^ 10 + p1 + p2 ∧ x * 2 ^ 11 + 2 ^ 10 + p1 + p2 < 2 ^ 31 then
        some (x * 2 ^ 11 + 2 ^ 10 + p1 + p2) else none := rfl
  -- the product, the shift and the sums but the last one fit
  simp only [decodeSample32, hx, hp1, hp2, Option.bind_eq_bind]
  rw [s32_of_fits (by omega) (by omega), Option.bind_some, s32_of_fits (by omega) (by omega),
    Option.bind_some, s32_of_fits (by omega) (by omega), Option.bind_some,
    s32_of_fits (by omega) (by omega), Option.bind_some, s32_of_fits (by omega) (by omega),
    Option.bind_some, s32_of_fits (by omega) (by omega), Option.bind_some, hlast]
  split
  · rfl
  · rfl

theorem signedNibble_bounds {nibble : Nat} (h : nibble < 16) :
    -8 ≤ signedNibble nibble ∧ signedNibble nibble ≤ 7 := by
  unfold signedNibble
  split <;> omega

theorem scale_bounds (frameHeader : Nat) :
    (1 : Int) ≤ 2 ^ (frameHeader % 16) ∧ (2 : Int) ^ (frameHeader % 16) ≤ 2 ^ 15 := by
  have hexp : frameHeader % 16 ≤ 15 := by omega
  exact ⟨one_le_pow₀ (by norm_num), pow_le_pow_right₀ (by norm_num) hexp⟩

/-! ## The run of the decoder -/

section Run

variable (data : Data) (adpcmCoeff : List Int16) (state : ADPCMState)

theorem filterHistory_bounds (k : Nat) :
    (-32768 ≤ (filterHistory data adpcmCoeff state k).1 ∧
        (filterHistory data adpcmCoeff state k).1 ≤ 32767) ∧
      -32768 ≤ (filterHistory data adpcmCoeff state k).2 ∧
        (filterHistory data adpcmCoeff state k).2 ≤ 32767 := by
  induction k with
  | zero => exact ⟨int16_bounds state.yn1, int16_bounds state.yn2⟩
  | succ k ih => exact ⟨clamp_bounds _, ih.1⟩

/-- The history of the filter as the decoder keeps it. -/
def stateAt (k : Nat) : ADPCMState :=
  ⟨toS16 (filterHistory data adpcmCoeff state k).1, toS16 (filterHistory data adpcmCoeff state k).2⟩

theorem stateAt_yn1 (k : Nat) :
    (stateAt data adpcmCoeff state k).yn1.toInt = (filterHistory data adpcmCoeff state k).1 := by
  have h := (filterHistory_bounds data adpcmCoeff state k).1
  exact toInt_toS16 h.1 h.2

theorem stateAt_yn2 (k : Nat) :
    (stateAt data adpcmCoeff state k).yn2.toInt = (filterHistory data adpcmCoeff state k).2 := by
  have h := (filterHistory_bounds data adpcmCoeff state k).2
  exact toInt_toS16 h.1 h.2

/-- The samples of the filter. -/
def samplesTo (k : Nat) : List Sample :=
  (List.range k).map fun j => Sample.fill (stateAt data adpcmCoeff state (j + 1)).yn1

/-- What the decoder has after some samples: nothing once a sum of the filter does not fit. -/
def reached (k : Nat) : Option (ADPCMState × List Sample) :=
  if ∀ j < k, SumFits data adpcmCoeff state j then
    some (stateAt data adpcmCoeff state k, samplesTo data adpcmCoeff state k)
  else none

theorem reached_zero : reached data adpcmCoeff state 0 = some (state, []) := by
  have hstate : stateAt data adpcmCoeff state 0 = state := by
    simp [stateAt, filterHistory, toS16]
  rw [reached, if_pos fun j hj => absurd hj (Nat.not_lt_zero j), hstate]
  rfl

/-- The decoder makes a step of the filter. -/
theorem decodeSample32_stateAt (k : Nat) :
    decodeSample32 (scaleAt data k) (coef1At data adpcmCoeff k) (coef2At data adpcmCoeff k)
        (stateAt data adpcmCoeff state k) (nibbleAt data k) =
      if SumFits data adpcmCoeff state k then some (stateAt data adpcmCoeff state (k + 1))
      else none := by
  have hnibble : -8 ≤ nibbleAt data k ∧ nibbleAt data k ≤ 7 := by
    have hbyte := (data (k / 14 * 8 + 1 + k % 14 / 2)).toNat_lt
    refine signedNibble_bounds ?_
    split <;> omega
  refine decodeSample32_eq hnibble (scale_bounds _) _ _ _ ?_
  rw [stateAt_yn1, stateAt_yn2]
  rfl

/-- One sample more. -/
theorem reached_succ (k : Nat) :
    reached data adpcmCoeff state (k + 1) = (reached data adpcmCoeff state k).bind fun acc =>
      if SumFits data adpcmCoeff state k then
        some (stateAt data adpcmCoeff state (k + 1),
          acc.2 ++ [Sample.fill (stateAt data adpcmCoeff state (k + 1)).yn1])
      else none := by
  have hsamples : samplesTo data adpcmCoeff state (k + 1) = samplesTo data adpcmCoeff state k ++
      [Sample.fill (stateAt data adpcmCoeff state (k + 1)).yn1] := by
    simp [samplesTo, List.range_succ]
  by_cases hbefore : ∀ j < k, SumFits data adpcmCoeff state j
  · rw [reached, reached, if_pos hbefore, Option.bind_some, hsamples]
    by_cases hk : SumFits data adpcmCoeff state k
    · rw [if_pos hk, if_pos fun j hj => (Nat.lt_succ_iff_lt_or_eq.1 hj).elim (hbefore j) (· ▸ hk)]
    · rw [if_neg hk, if_neg fun h => hk (h k k.lt_succ_self)]
  · rw [reached, reached, if_neg hbefore, if_neg fun h => hbefore fun j hj => h j (by omega)]
    rfl

/-- A turn of the inner loop decodes two samples. -/
theorem reached_bind_decodePair32 {framei turn : Nat} (hturn : turn < 7) :
    (reached data adpcmCoeff state ((framei * 7 + turn) * 2)).bind
        (decodePair32 data adpcmCoeff framei turn) =
      reached data adpcmCoeff state ((framei * 7 + turn + 1) * 2) := by
  obtain ⟨k, hk⟩ : ∃ k, k = (framei * 7 + turn) * 2 := ⟨_, rfl⟩
  have hnext : (framei * 7 + turn + 1) * 2 = k + 1 + 1 := by omega
  have hframe₀ : k / 14 = framei := by omega
  have hframe₁ : (k + 1) / 14 = framei := by omega
  have hbyte₀ : k % 14 / 2 = turn := by omega
  have hbyte₁ : (k + 1) % 14 / 2 = turn := by omega
  have hstep₀ := decodeSample32_stateAt data adpcmCoeff state k
  have hstep₁ := decodeSample32_stateAt data adpcmCoeff state (k + 1)
  simp only [scaleAt, coef1At, coef2At, nibbleAt, headerAt, hframe₀, hbyte₀,
    if_pos (show k % 2 = 0 by omega)] at hstep₀
  simp only [scaleAt, coef1At, coef2At, nibbleAt, headerAt, hframe₁, hbyte₁,
    if_neg (show ¬(k + 1) % 2 = 0 by omega)] at hstep₁
  rw [hnext, ← hk, reached_succ, reached_succ]
  by_cases hbefore : ∀ j < k, SumFits data adpcmCoeff state j
  · rw [reached, if_pos hbefore]
    simp only [Option.bind_some, decodePair32, Option.bind_eq_bind]
    rw [hstep₀]
    by_cases h₀ : SumFits data adpcmCoeff state k
    · rw [if_pos h₀, if_pos h₀, Option.bind_some, hstep₁]
      by_cases h₁ : SumFits data adpcmCoeff state (k + 1)
      · rw [if_pos h₁, Option.bind_some, Option.bind_some, if_pos h₁, List.append_assoc]
        rfl
      · rw [if_neg h₁, Option.bind_some, if_neg h₁]
        rfl
    · rw [if_neg h₀, if_neg h₀]
      rfl
  · rw [reached, if_neg hbefore]
    rfl

/-- The inner loop decodes up to the end of its frame or of the samples. -/
theorem reached_bind_decodeFrame32 (sampleCount framei turns : Nat) {turn : Nat}
    (hturn : turn + turns = 7) (hle : framei * 7 + turn ≤ (sampleCount + 1) / 2) :
    (reached data adpcmCoeff state ((framei * 7 + turn) * 2)).bind
        (decodeFrame32 data adpcmCoeff sampleCount framei turns turn) =
      reached data adpcmCoeff state (min (framei * 7 + 7) ((sampleCount + 1) / 2) * 2) := by
  induction turns generalizing turn with
  | zero =>
    have hend : min (framei * 7 + 7) ((sampleCount + 1) / 2) = framei * 7 + turn := by omega
    rw [hend]
    exact Option.bind_fun_some _
  | succ turns ih =>
    by_cases hmore : framei * 14 + turn * 2 < sampleCount
    · have hloop : decodeFrame32 data adpcmCoeff sampleCount framei (turns + 1) turn =
          fun acc => (decodePair32 data adpcmCoeff framei turn acc).bind
            (decodeFrame32 data adpcmCoeff sampleCount framei turns (turn + 1)) := by
        funext acc
        rw [decodeFrame32, if_pos hmore]
      have hrest := @ih (turn + 1) (by omega) (by omega)
      rw [hloop, ← Option.bind_assoc, reached_bind_decodePair32 _ _ _ (by omega)]
      exact hrest
    · have hloop : decodeFrame32 data adpcmCoeff sampleCount framei (turns + 1) turn = some := by
        funext acc
        rw [decodeFrame32, if_neg hmore]
      have hend : min (framei * 7 + 7) ((sampleCount + 1) / 2) = framei * 7 + turn := by omega
      rw [hloop, hend]
      exact Option.bind_fun_some _

/-- The outer loop decodes up to the end of the samples. -/
theorem reached_bind_decodeFrames32 (sampleCount frames : Nat) {framei : Nat}
    (hframes : framei + frames = (sampleCount + 13) / 14) :
    (reached data adpcmCoeff state (min (framei * 7) ((sampleCount + 1) / 2) * 2)).bind
        (decodeFrames32 data adpcmCoeff sampleCount frames framei) =
      reached data adpcmCoeff state (retSize sampleCount) := by
  induction frames generalizing framei with
  | zero =>
    have hend : min (framei * 7) ((sampleCount + 1) / 2) * 2 = retSize sampleCount := by
      unfold retSize
      omega
    rw [hend]
    exact Option.bind_fun_some _
  | succ frames ih =>
    have hstart : min (framei * 7) ((sampleCount + 1) / 2) = framei * 7 + 0 := by omega
    have hloop : decodeFrames32 data adpcmCoeff sampleCount (frames + 1) framei =
        fun acc => (decodeFrame32 data adpcmCoeff sampleCount framei 7 0 acc).bind
          (decodeFrames32 data adpcmCoeff sampleCount frames (framei + 1)) := rfl
    rw [hloop, hstart, ← Option.bind_assoc,
      reached_bind_decodeFrame32 _ _ _ _ _ _ (by omega) (by omega)]
    have hnext : framei * 7 + 7 = (framei + 1) * 7 := by omega
    rw [hnext]
    exact ih (by omega)

/-- The decoder gives the samples of the filter as long as the filter's sums fit. -/
theorem decodeADPCM32_eq (sampleCount : Nat) :
    decodeADPCM32 data sampleCount adpcmCoeff state =
      reached data adpcmCoeff state (retSize sampleCount) := by
  have hrun := reached_bind_decodeFrames32 data adpcmCoeff state sampleCount
    ((sampleCount + 13) / 14) (Nat.zero_add _)
  rwa [Nat.zero_mul, Nat.zero_min, Nat.zero_mul, reached_zero, Option.bind_some] at hrun

/-! ## Frames on their own -/

/-- The stream from a frame on. -/
def fromFrame (framei : Nat) : Data := fun i => data (framei * 8 + i)

/-- The filter of the rest of a stream goes on where that of the first frames stops. -/
theorem filterHistory_fromFrame (framei k : Nat) :
    filterHistory (fromFrame data framei) adpcmCoeff (stateAt data adpcmCoeff state (framei * 14)) k =
        filterHistory data adpcmCoeff state (framei * 14 + k) ∧
      filterSum (fromFrame data framei) adpcmCoeff
          (filterHistory data adpcmCoeff state (framei * 14 + k)) k =
        filterSum data adpcmCoeff (filterHistory data adpcmCoeff state (framei * 14 + k))
          (framei * 14 + k) := by
  have hheader : ∀ k, headerAt (fromFrame data framei) k = headerAt data (framei * 14 + k) := by
    intro k
    have hindex : framei * 8 + k / 14 * 8 = (framei * 14 + k) / 14 * 8 := by omega
    rw [headerAt, fromFrame, hindex]
    rfl
  have hnibble : ∀ k, nibbleAt (fromFrame data framei) k = nibbleAt data (framei * 14 + k) := by
    intro k
    have hindex : framei * 8 + (k / 14 * 8 + 1 + k % 14 / 2) =
        (framei * 14 + k) / 14 * 8 + 1 + (framei * 14 + k) % 14 / 2 := by omega
    have hparity : (framei * 14 + k) % 2 = k % 2 := by omega
    simp only [nibbleAt, fromFrame, hindex, hparity]
  have hsum : ∀ (y : Int × Int) (k : Nat), filterSum (fromFrame data framei) adpcmCoeff y k =
      filterSum data adpcmCoeff y (framei * 14 + k) := by
    intro y k
    simp only [filterSum, scaleAt, coef1At, coef2At, hheader, hnibble]
  refine ⟨?_, hsum _ k⟩
  induction k with
  | zero =>
    rw [filterHistory, stateAt_yn1, stateAt_yn2]
    rfl
  | succ k ih =>
    rw [filterHistory, ih, hsum]
    rfl

theorem sumFits_fromFrame (framei k : Nat) :
    SumFits (fromFrame data framei) adpcmCoeff (stateAt data adpcmCoeff state (framei * 14)) k ↔
      SumFits data adpcmCoeff state (framei * 14 + k) := by
  obtain ⟨hhistory, hsum⟩ := filterHistory_fromFrame data adpcmCoeff state framei k
  rw [SumFits, SumFits, hhistory, hsum]

theorem stateAt_fromFrame (framei k : Nat) :
    stateAt (fromFrame data framei) adpcmCoeff (stateAt data adpcmCoeff state (framei * 14)) k =
      stateAt data adpcmCoeff state (framei * 14 + k) :=
  congrArg (fun y : Int × Int => ADPCMState.mk (toS16 y.1) (toS16 y.2))
    (filterHistory_fromFrame data adpcmCoeff state framei k).1

theorem samplesTo_fromFrame (framei k : Nat) :
    samplesTo data adpcmCoeff state (framei * 14 + k) =
      samplesTo data adpcmCoeff state (framei * 14) ++ samplesTo (fromFrame data framei) adpcmCoeff
        (stateAt data adpcmCoeff state (framei * 14)) k := by
  simp only [samplesTo, List.range_add, List.map_append, List.map_map, stateAt_fromFrame]
  rfl

/-- Whole frames can be decoded first and the rest of the samples from the next frame on, with the
history the frames leave. -/
theorem decodeADPCM32_split {m sampleCount : Nat} (hm : m ≤ sampleCount) (hframes : 14 ∣ m) :
    decodeADPCM32 data sampleCount adpcmCoeff state =
      (decodeADPCM32 data m adpcmCoeff state).bind fun first =>
        (decodeADPCM32 (fromFrame data (m / 14)) (sampleCount - m) adpcmCoeff first.1).map
          fun rest => (rest.1, first.2 ++ rest.2) := by
  obtain ⟨framei, rfl⟩ := hframes
  have hdiv : 14 * framei / 14 = framei := by omega
  have hfirst : retSize (14 * framei) = framei * 14 := by
    unfold retSize
    omega
  obtain ⟨k, hk⟩ : ∃ k, k = retSize (sampleCount - 14 * framei) := ⟨_, rfl⟩
  have hall : retSize sampleCount = framei * 14 + k := by
    unfold retSize at hk ⊢
    omega
  rw [decodeADPCM32_eq, decodeADPCM32_eq, hfirst, hall, hdiv]
  by_cases hbefore : ∀ j < framei * 14, SumFits data adpcmCoeff state j
  · have hiff : (∀ j < framei * 14 + k, SumFits data adpcmCoeff state j) ↔
        ∀ j < k, SumFits (fromFrame data framei) adpcmCoeff
          (stateAt data adpcmCoeff state (framei * 14)) j := by
      refine ⟨fun h j hj => (sumFits_fromFrame _ _ _ _ _).2 (h _ (by omega)), fun h j hj => ?_⟩
      by_cases hlt : j < framei * 14
      · exact hbefore j hlt
      · have hrest := (sumFits_fromFrame _ _ _ _ _).1 (h (j - framei * 14) (by omega))
        rwa [Nat.add_sub_of_le (Nat.le_of_not_lt hlt)] at hrest
    have hfirstRun : reached data adpcmCoeff state (framei * 14) =
        some (stateAt data adpcmCoeff state (framei * 14),
          samplesTo data adpcmCoeff state (framei * 14)) := if_pos hbefore
    rw [hfirstRun, Option.bind_some, decodeADPCM32_eq, ← hk, reached, reached,
      ← stateAt_fromFrame, samplesTo_fromFrame]
    by_cases hrest : ∀ j < framei * 14 + k, SumFits data adpcmCoeff state j
    · rw [if_pos hrest, if_pos (hiff.1 hrest)]
      rfl
    · rw [if_neg hrest, if_neg fun h => hrest (hiff.2 h)]
      rfl
  · have hafter : ¬∀ j < framei * 14 + k, SumFits data adpcmCoeff state j :=
      fun h => hbefore fun j hj => h j (by omega)
    rw [reached, reached, if_neg hbefore, if_neg hafter]
    rfl

end Run

/-! ## When nothing overflows -/

/-- Decoding has a result, which has the samples and the history of the filter, and whole frames can
be decoded on their own. -/
def Exact (data : Data) (sampleCount : Nat) (adpcmCoeff : List Int16) (state : ADPCMState) : Prop :=
  (∃ newState ret, decodeADPCM32 data sampleCount adpcmCoeff state = some (newState, ret) ∧
    (newState.yn1.toInt, newState.yn2.toInt) =
      filterHistory data adpcmCoeff state (retSize sampleCount) ∧
    ret.map (fun s => (s.left.toInt, s.right.toInt)) = (List.range (retSize sampleCount)).map fun k =>
      ((filterHistory data adpcmCoeff state (k + 1)).1,
        (filterHistory data adpcmCoeff state (k + 1)).1)) ∧
  ∀ m ≤ sampleCount, 14 ∣ m →
    decodeADPCM32 data sampleCount adpcmCoeff state =
      (decodeADPCM32 data m adpcmCoeff state).bind fun first =>
        (decodeADPCM32 (fromFrame data (m / 14)) (sampleCount - m) adpcmCoeff first.1).map
          fun rest => (rest.1, first.2 ++ rest.2)

/-- For one stream: the sums of the filter all fit. -/
theorem exact_iff_sums (data : Data) (sampleCount : Nat) (adpcmCoeff : List Int16)
    (state : ADPCMState) :
    Exact data sampleCount adpcmCoeff state ↔
      ∀ k < retSize sampleCount, SumFits data adpcmCoeff state k := by
  have hrun := decodeADPCM32_eq data adpcmCoeff state sampleCount
  constructor
  · rintro ⟨⟨newState, ret, hresult, -⟩, -⟩
    rw [hrun, reached] at hresult
    by_contra hfits
    rw [if_neg hfits] at hresult
    cases hresult
  · intro hfits
    rw [reached, if_pos hfits] at hrun
    refine ⟨⟨_, _, hrun, ?_, ?_⟩, fun m hm hframes => decodeADPCM32_split _ _ _ hm hframes⟩
    · exact Prod.ext (stateAt_yn1 _ _ _ _) (stateAt_yn2 _ _ _ _)
    · simp only [samplesTo, List.map_map]
      refine List.map_congr_left fun k _ => ?_
      simp only [Function.comp_apply, Sample.fill, stateAt_yn1]

/-- Two coefficients with which no sum can overflow: neither at the greatest nor at the least input
and outputs. -/
def PairFits (coef1 coef2 : Int) : Prop :=
  7 * 2 ^ 26 + 2 ^ 10 + max (coef1 * 32767) (coef1 * -32768) +
      max (coef2 * 32767) (coef2 * -32768) < 2 ^ 31 ∧
    -2 ^ 31 ≤ -8 * 2 ^ 26 + 2 ^ 10 + min (coef1 * 32767) (coef1 * -32768) +
      min (coef2 * 32767) (coef2 * -32768)

instance (coef1 coef2 : Int) : Decidable (PairFits coef1 coef2) := inferInstanceAs (Decidable (_ ∧ _))

/-- A product lies between those with the extreme outputs. -/
theorem product_between {y : Int} (hy : -32768 ≤ y ∧ y ≤ 32767) (coef : Int) :
    min (coef * 32767) (coef * -32768) ≤ coef * y ∧
      coef * y ≤ max (coef * 32767) (coef * -32768) := by
  obtain ⟨hlo, hhi⟩ := hy
  rcases le_total 0 coef with hsign | hsign
  · have hupper : coef * y ≤ coef * 32767 := by nlinarith
    have hlower : coef * -32768 ≤ coef * y := by nlinarith
    exact ⟨min_le_of_right_le hlower, le_max_of_le_left hupper⟩
  · have hupper : coef * y ≤ coef * -32768 := by nlinarith
    have hlower : coef * 32767 ≤ coef * y := by nlinarith
    exact ⟨min_le_of_left_le hlower, le_max_of_le_right hupper⟩

/-- Coefficients that fit make every sum fit. -/
theorem sumFits_of_pairFits {data : Data} {adpcmCoeff : List Int16} {state : ADPCMState} {k : Nat}
    (h : PairFits (coef1At data adpcmCoeff k) (coef2At data adpcmCoeff k)) :
    SumFits data adpcmCoeff state k := by
  have hnibble : -8 ≤ nibbleAt data k ∧ nibbleAt data k ≤ 7 := by
    have hbyte := (data (k / 14 * 8 + 1 + k % 14 / 2)).toNat_lt
    refine signedNibble_bounds ?_
    split <;> omega
  obtain ⟨hxlo, hxhi⟩ := input_bounds hnibble (scale_bounds (headerAt data k))
  obtain ⟨hy1, hy2⟩ := filterHistory_bounds data adpcmCoeff state k
  obtain ⟨hlo1, hhi1⟩ := product_between hy1 (coef1At data adpcmCoeff k)
  obtain ⟨hlo2, hhi2⟩ := product_between hy2 (coef2At data adpcmCoeff k)
  obtain ⟨hupper, hlower⟩ := h
  rw [SumFits, filterSum, scaleAt]
  constructor <;> linarith

/-- A stream of one frame with the greatest scale and one input. -/
def probe (idx : Nat) (byte : UInt8) : Data :=
  fun i => if i = 0 then UInt8.ofNat (idx * 16 + 15) else byte

/-- The first sum of the stream. -/
theorem filterSum_probe {idx : Nat} (hidx : idx < 8) (byte : UInt8) (adpcmCoeff : List Int16)
    (y : Int × Int) :
    filterSum (probe idx byte) adpcmCoeff y 0 =
      signedNibble (byte.toNat / 16) * 2 ^ 26 + 2 ^ 10 +
        (adpcmCoeff.getD (idx * 2) 0).toInt * y.1 +
        (adpcmCoeff.getD (idx * 2 + 1) 0).toInt * y.2 := by
  have hheader : headerAt (probe idx byte) 0 = idx * 16 + 15 := by
    have hfit : idx * 16 + 15 < 256 := by omega
    simp only [headerAt, probe]
    exact (UInt8.toNat_ofNat' ..).trans (Nat.mod_eq_of_lt hfit)
  have hscale : (idx * 16 + 15) % 16 = 15 := by omega
  have hindex : (idx * 16 + 15) / 16 % 8 = idx := by omega
  have hnibble : nibbleAt (probe idx byte) 0 = signedNibble (byte.toNat / 16) := rfl
  rw [filterSum, scaleAt, coef1At, coef2At, hheader, hscale, hindex, hnibble, mul_assoc (signedNibble _),
    ← pow_add]

/-- An output that makes a product greatest, and one that makes it least. -/
theorem exists_extreme (coef : Int) :
    (∃ y : Int16, coef * y.toInt = max (coef * 32767) (coef * -32768)) ∧
      ∃ y : Int16, coef * y.toInt = min (coef * 32767) (coef * -32768) := by
  have hgreatest : (32767 : Int16).toInt = 32767 := rfl
  have hleast : (-32768 : Int16).toInt = -32768 := rfl
  constructor
  · rcases max_choice (coef * 32767) (coef * -32768) with hmax | hmax
    · exact ⟨32767, by rw [hmax, hgreatest]⟩
    · exact ⟨-32768, by rw [hmax, hleast]⟩
  · rcases min_choice (coef * 32767) (coef * -32768) with hmin | hmin
    · exact ⟨32767, by rw [hmin, hgreatest]⟩
    · exact ⟨-32768, by rw [hmin, hleast]⟩

/-- For a table of coefficients: all its pairs fit. -/
theorem exact_iff_coefficients (adpcmCoeff : List Int16) :
    (∀ data sampleCount state, Exact data sampleCount adpcmCoeff state) ↔
      ∀ idx < 8, PairFits (adpcmCoeff.getD (idx * 2) 0).toInt
        (adpcmCoeff.getD (idx * 2 + 1) 0).toInt := by
  constructor
  · intro h idx hidx
    obtain ⟨⟨y1, hy1⟩, z1, hz1⟩ := exists_extreme (adpcmCoeff.getD (idx * 2) 0).toInt
    obtain ⟨⟨y2, hy2⟩, z2, hz2⟩ := exists_extreme (adpcmCoeff.getD (idx * 2 + 1) 0).toInt
    have hupper := ((exact_iff_sums _ _ _ _).1 (h (probe idx 0x70) 1 ⟨y1, y2⟩) 0 (by decide)).2
    have hlower := ((exact_iff_sums _ _ _ _).1 (h (probe idx 0x80) 1 ⟨z1, z2⟩) 0 (by decide)).1
    have hseven : signedNibble ((0x70 : UInt8).toNat / 16) = 7 := rfl
    have height : signedNibble ((0x80 : UInt8).toNat / 16) = -8 := rfl
    rw [filterHistory, filterSum_probe hidx, hseven, hy1, hy2] at hupper
    rw [filterHistory, filterSum_probe hidx, height, hz1, hz2] at hlower
    exact ⟨hupper, hlower⟩
  · intro h data sampleCount state
    refine (exact_iff_sums _ _ _ _).2 fun k _ => sumFits_of_pairFits (h _ ?_)
    exact Nat.mod_lt _ (by decide)

/-- **The arithmetic of a table of coefficients never overflows exactly when the extreme sums of each
of its eight pairs fit; the arithmetic of one stream does not exactly when its own sums do.** -/
theorem exact_iff (adpcmCoeff : List Int16) :
    ((∀ data sampleCount state, Exact data sampleCount adpcmCoeff state) ↔
        ∀ idx < 8, PairFits (adpcmCoeff.getD (idx * 2) 0).toInt
          (adpcmCoeff.getD (idx * 2 + 1) 0).toInt) ∧
      ∀ data sampleCount state, Exact data sampleCount adpcmCoeff state ↔
        ∀ k < retSize sampleCount, SumFits data adpcmCoeff state k :=
  ⟨exact_iff_coefficients adpcmCoeff,
    fun data sampleCount state => exact_iff_sums data sampleCount adpcmCoeff state⟩

/-- The first sum of a stream of zeros is `2 ^ 31 + 2 ^ 10` when coefficients and history are least:
there is no result, while the filter's output is the greatest sample. -/
theorem decodeADPCM32_overflow :
    decodeADPCM32 (fun _ => 0) 1 [-32768, -32768] ⟨-32768, -32768⟩ = none ∧
      (filterHistory (fun _ => 0) [-32768, -32768] ⟨-32768, -32768⟩ 1).1 = 32767 := by
  decide +kernel

end AzaharPlus.Audio
