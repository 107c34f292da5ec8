import AzaharPlus.Core.Timing

/-!
# Durations and cycles

The converters of `core/core_timing.h` between durations and cycles of the ARM11, and
`Timing::GetGlobalTimeUs`.  They mix signed and unsigned 64-bit numbers: a product with the clock rate is
unsigned, whatever its other factor was, and becomes signed again when it is returned.

A duration is converted exactly while its product with the clock rate fits, is rounded down to whole seconds
above that, and gives the largest number where even that would not fit.

Main results:

* `cycles_bounds_and_order`: the result is never above the exact one, and durations on one side of the
  rounding, or in different seconds, keep their order;
* `cyclesToDuration_exact_iff`: cycles are converted to durations without an overflow exactly up to a bound.
-/

namespace AzaharPlus.Core

/-! ## The converters -/

/-- `BASE_CLOCK_RATE_ARM11`, which is a `u64`. -/
def clockRate : UInt64 := 268111856

/-- `MAX_VALUE_TO_MULTIPLY`. -/
def maxValueToMultiply : UInt64 := 9223372036854775807 / clockRate

/-- The converters from an `s64`: `scale` is what a second has. -/
def signedToCycles (scale : Int64) (duration : Int64) : Int64 :=
  if duration / scale > maxValueToMultiply.toInt64 then Int64.maxValue
  else if duration > maxValueToMultiply.toInt64 then (clockRate * (duration / scale).toUInt64).toInt64
  else (clockRate * duration.toUInt64 / scale.toUInt64).toInt64

/-- `usToCycles(s64)`. -/
def usToCyclesS64 (us : Int64) : Int64 := signedToCycles 1000000 us

/-- `nsToCycles(s64)`. -/
def nsToCyclesS64 (ns : Int64) : Int64 := signedToCycles 1000000000 ns

/-- `usToCycles(u64)`. -/
def usToCyclesU64 (us : UInt64) : Int64 :=
  if us / 1000000 > maxValueToMultiply then Int64.maxValue
  else if us > maxValueToMultiply then (clockRate * (us / 1000000).toInt64.toUInt64).toInt64
  else (clockRate * us.toInt64.toUInt64 / 1000000).toInt64

/-- `nsToCycles(u64)`, which divides after the conversion to `s64`. -/
def nsToCyclesU64 (ns : UInt64) : Int64 :=
  if ns / 1000000000 > maxValueToMultiply then Int64.maxValue
  else if ns > maxValueToMultiply then (clockRate * (ns.toInt64 / 1000000000).toUInt64).toInt64
  else (clockRate * ns.toInt64.toUInt64 / 1000000000).toInt64

/-- The converters to a duration: the product is signed, the quotient unsigned. -/
def cyclesToDuration (scale : Int64) (cycles : Int64) : UInt64 := (cycles * scale).toUInt64 / clockRate

/-- `cyclesToNs`. -/
def cyclesToNs (cycles : Int64) : UInt64 := cyclesToDuration 1000000000 cycles

/-- `cyclesToUs`. -/
def cyclesToUs (cycles : Int64) : Int64 := (cyclesToDuration 1000000 cycles).toInt64

/-- `cyclesToMs`. -/
def cyclesToMs (cycles : Int64) : UInt64 := cyclesToDuration 1000 cycles

/-- `Timing::GetGlobalTimeUs`. -/
def Timing.getGlobalTimeUs {n : Nat} [NeZero n] (s : Timing n) : Int64 :=
  (cyclesToDuration 1000000 (Int64.ofInt s.getGlobalTicks)).toInt64

/-! ## Signed and unsigned numbers -/

theorem toNat_toUInt64 {x : Int64} (h : 0 ≤ x.toInt) : (x.toUInt64.toNat : Int) = x.toInt := by
  rw [Int64.toNat_toUInt64_of_le (Int64.le_iff_toInt_le.2 h), Int64.toNatClampNeg, Int.toNat_of_nonneg h]

theorem toInt_toInt64 {x : UInt64} (h : x.toNat < 2 ^ 63) : x.toInt64.toInt = x.toNat := by
  have hbits : x.toInt64.toInt = x.toBitVec.toInt := rfl
  rw [hbits, BitVec.toInt_eq_toNat_of_lt]
  · rfl
  · have htoNat : x.toBitVec.toNat = x.toNat := rfl
    omega

theorem toNat_clockRate : clockRate.toNat = 268111856 := rfl

theorem toNat_maxValueToMultiply : maxValueToMultiply.toNat = 34401209161 := by decide

theorem toInt_maxValueToMultiply : maxValueToMultiply.toInt64.toInt = 34401209161 := by decide

/-! ## The result of a converter -/

/-- What the converters give for a duration, in exact arithmetic. -/
def cyclesOf (scale duration : Nat) : Nat :=
  if duration / scale > 34401209161 then 2 ^ 63 - 1
  else if duration > 34401209161 then 268111856 * (duration / scale)
  else 268111856 * duration / scale

/-- A product with the clock rate that fits. -/
theorem toInt_clockRate_mul {x : UInt64} (h : x.toNat ≤ 34401209161) :
    (clockRate * x).toInt64.toInt = 268111856 * x.toNat := by
  have hproduct : (clockRate * x).toNat = 268111856 * x.toNat := by
    rw [UInt64.toNat_mul, toNat_clockRate, Nat.mod_eq_of_lt (by omega)]
  rw [toInt_toInt64 (by omega), hproduct]
  omega

theorem toInt_clockRate_mul_div {x scale : UInt64} (h : x.toNat ≤ 34401209161) :
    (clockRate * x / scale).toInt64.toInt = (268111856 * x.toNat / scale.toNat : Nat) := by
  have hproduct : (clockRate * x).toNat = 268111856 * x.toNat := by
    rw [UInt64.toNat_mul, toNat_clockRate, Nat.mod_eq_of_lt (by omega)]
  have hdiv : (clockRate * x / scale).toNat = 268111856 * x.toNat / scale.toNat := by
    rw [UInt64.toNat_div, hproduct]
  have hle : 268111856 * x.toNat / scale.toNat ≤ 268111856 * x.toNat := Nat.div_le_self _ _
  rw [toInt_toInt64 (by omega), hdiv]

theorem toInt_div_of_pos {a b : Int64} (hb : 0 < b.toInt) (ha : 0 ≤ a.toInt) :
    (a / b).toInt = (a.toInt.toNat / b.toInt.toNat : Nat) := by
  have hne : b ≠ -1 := by
    rintro rfl
    exact absurd hb (by decide)
  rw [Int64.toInt_div_of_ne_right a b hne, Int.natCast_ediv, Int.toNat_of_nonneg ha,
    Int.toNat_of_nonneg hb.le, Int.tdiv_eq_ediv_of_nonneg ha]

/-- The converters from an `s64`. -/
theorem toInt_signedToCycles {scale duration : Int64} (hscale : 0 < scale.toInt) (h : 0 ≤ duration.toInt) :
    (signedToCycles scale duration).toInt = cyclesOf scale.toInt.toNat duration.toInt.toNat := by
  have hdiv := toInt_div_of_pos hscale h
  have hquotient : ((duration / scale).toUInt64.toNat : Int) = (duration / scale).toInt :=
    toNat_toUInt64 (by rw [hdiv]; exact Int.natCast_nonneg _)
  have hduration := toNat_toUInt64 h
  have hscale' := toNat_toUInt64 hscale.le
  rw [signedToCycles, cyclesOf]
  simp only [gt_iff_lt, Int64.lt_iff_toInt_lt, toInt_maxValueToMultiply, hdiv]
  by_cases hbig : 34401209161 < duration.toInt.toNat / scale.toInt.toNat
  · rw [if_pos (by omega), if_pos hbig]
    rfl
  rw [if_neg (by omega), if_neg hbig]
  by_cases hround : 34401209161 < duration.toInt.toNat
  · rw [if_pos (by omega), if_pos hround, toInt_clockRate_mul (by omega)]
    omega
  · rw [if_neg (by omega), if_neg hround, toInt_clockRate_mul_div (by omega)]
    congr 2
    · omega
    · omega

/-- `usToCycles(u64)`: a quotient by a million fits an `s64`. -/
theorem toInt_usToCyclesU64 (us : UInt64) : (usToCyclesU64 us).toInt = cyclesOf 1000000 us.toNat := by
  have hlt := us.toNat_lt
  have hdiv : (us / 1000000).toNat = us.toNat / 1000000 := UInt64.toNat_div _ _
  rw [usToCyclesU64, cyclesOf]
  simp only [gt_iff_lt, UInt64.lt_iff_toNat_lt, toNat_maxValueToMultiply, hdiv, UInt64.toUInt64_toInt64]
  by_cases hbig : 34401209161 < us.toNat / 1000000
  · rw [if_pos hbig, if_pos hbig]
    rfl
  rw [if_neg hbig, if_neg hbig]
  by_cases hround : 34401209161 < us.toNat
  · rw [if_pos hround, if_pos hround, toInt_clockRate_mul (by omega), hdiv]
    omega
  · rw [if_neg hround, if_neg hround, toInt_clockRate_mul_div (by omega)]
    rfl

/-- `nsToCycles(u64)`, for a duration that fits an `s64`. -/
theorem toInt_nsToCyclesU64 {ns : UInt64} (h : ns.toNat < 2 ^ 63) :
    (nsToCyclesU64 ns).toInt = cyclesOf 1000000000 ns.toNat := by
  have hdiv : (ns / 1000000000).toNat = ns.toNat / 1000000000 := UInt64.toNat_div _ _
  have hsigned := toInt_toInt64 h
  have hquotient : (ns.toInt64 / 1000000000).toInt = (ns.toNat / 1000000000 : Nat) := by
    rw [toInt_div_of_pos (by decide) (by omega), hsigned]
    rfl
  have hunsigned : ((ns.toInt64 / 1000000000).toUInt64.toNat : Int) = (ns.toInt64 / 1000000000).toInt :=
    toNat_toUInt64 (by omega)
  rw [nsToCyclesU64, cyclesOf]
  simp only [gt_iff_lt, UInt64.lt_iff_toNat_lt, toNat_maxValueToMultiply, hdiv, UInt64.toUInt64_toInt64]
  by_cases hbig : 34401209161 < ns.toNat / 1000000000
  · rw [if_pos hbig, if_pos hbig]
    rfl
  rw [if_neg hbig, if_neg hbig]
  by_cases hround : 34401209161 < ns.toNat
  · rw [if_pos hround, if_pos hround, toInt_clockRate_mul (by omega)]
    omega
  · rw [if_neg hround, if_neg hround, toInt_clockRate_mul_div (by omega)]
    rfl

/-! ## Bounds and order -/

/-- Rounding to whole seconds, or giving the largest number, does not exceed the exact result. -/
theorem cyclesOf_le (scale duration : Nat) : cyclesOf scale duration ≤ 268111856 * duration / scale := by
  have hseconds : 268111856 * (duration / scale) ≤ 268111856 * duration / scale :=
    Nat.mul_div_le_mul_div_assoc _ _ _
  rw [cyclesOf]
  split_ifs <;> omega

theorem cyclesOf_lt (scale duration : Nat) : cyclesOf scale duration < 2 ^ 63 := by
  have hle : 268111856 * duration / scale ≤ 268111856 * duration := Nat.div_le_self _ _
  rw [cyclesOf]
  split_ifs <;> omega

/-- An exact result is below the next whole second. -/
theorem exact_lt_seconds {scale : Nat} (hscale : 0 < scale) (a : Nat) :
    268111856 * a / scale < 268111856 * (a / scale + 1) := by
  rw [Nat.div_lt_iff_lt_mul hscale, Nat.mul_assoc]
  apply Nat.mul_lt_mul_of_pos_left _ (by decide)
  rw [Nat.add_mul, Nat.one_mul, Nat.mul_comm]
  exact Nat.lt_mul_div_succ a hscale

/-- Durations that are both rounded or both not rounded, or are in different seconds, keep their order. -/
theorem cyclesOf_mono {scale a b : Nat} (hscale : 0 < scale) (hab : a ≤ b)
    (hside : b ≤ 34401209161 ∨ 34401209161 < a ∨ a / scale < b / scale) :
    cyclesOf scale a ≤ cyclesOf scale b := by
  have hseconds : a / scale ≤ b / scale := Nat.div_le_div_right hab
  have hlt := cyclesOf_lt scale a
  by_cases hbig : 34401209161 < b / scale
  · rw [cyclesOf.eq_1 scale b, if_pos hbig]
    omega
  rw [cyclesOf, cyclesOf, if_neg (by omega), if_neg hbig]
  by_cases hb : 34401209161 < b
  · rw [if_pos hb]
    by_cases ha : 34401209161 < a
    · rw [if_pos ha]
      exact Nat.mul_le_mul_left _ hseconds
    · have hnext : a / scale + 1 ≤ b / scale := by omega
      have hexact := exact_lt_seconds hscale a
      have hstep := Nat.mul_le_mul_left 268111856 hnext
      rw [if_neg ha]
      omega
  · rw [if_neg hb, if_neg (by omega)]
    exact Nat.div_le_div_right (Nat.mul_le_mul_left _ hab)

/-- The results of a converter for two durations: neither is below zero or above the exact number of cycles or
the largest `s64`, and they are in order if the durations are on the same side of the rounding or in different
seconds. -/
structure KeepsOrder (scale a b : Nat) (cyclesA cyclesB : Int) : Prop where
  nonneg : 0 ≤ cyclesA ∧ 0 ≤ cyclesB
  le_exact : cyclesA ≤ (268111856 * a / scale : Nat) ∧ cyclesB ≤ (268111856 * b / scale : Nat)
  le_max : cyclesA ≤ 2 ^ 63 - 1 ∧ cyclesB ≤ 2 ^ 63 - 1
  ordered : b ≤ maxValueToMultiply.toNat ∨ maxValueToMultiply.toNat < a ∨ a / scale < b / scale → cyclesA ≤ cyclesB

theorem keepsOrder_cyclesOf {scale a b : Nat} (hscale : 0 < scale) (hab : a ≤ b) :
    KeepsOrder scale a b (cyclesOf scale a) (cyclesOf scale b) := by
  have ha := cyclesOf_lt scale a
  have hb := cyclesOf_lt scale b
  refine ⟨by omega, ⟨Int.ofNat_le.2 (cyclesOf_le scale a), Int.ofNat_le.2 (cyclesOf_le scale b)⟩, by omega, ?_⟩
  intro hside
  rw [toNat_maxValueToMultiply] at hside
  exact Int.ofNat_le.2 (cyclesOf_mono hscale hab hside)

/-- The four converters of 64-bit durations. -/
theorem cycles_bounds_and_order :
    (∀ a b : Int64, 0 ≤ a → a ≤ b → KeepsOrder 1000000 a.toInt.toNat b.toInt.toNat (usToCyclesS64 a).toInt
      (usToCyclesS64 b).toInt) ∧
    (∀ a b : UInt64, a ≤ b → KeepsOrder 1000000 a.toNat b.toNat (usToCyclesU64 a).toInt
      (usToCyclesU64 b).toInt) ∧
    (∀ a b : Int64, 0 ≤ a → a ≤ b → KeepsOrder 1000000000 a.toInt.toNat b.toInt.toNat (nsToCyclesS64 a).toInt
      (nsToCyclesS64 b).toInt) ∧
    (∀ a b : UInt64, a ≤ b → b.toNat < 2 ^ 63 → KeepsOrder 1000000000 a.toNat b.toNat (nsToCyclesU64 a).toInt
      (nsToCyclesU64 b).toInt) := by
  have hsigned : ∀ scale a b : Int64, 0 < scale.toInt → 0 ≤ a → a ≤ b → KeepsOrder scale.toInt.toNat a.toInt.toNat
      b.toInt.toNat (signedToCycles scale a).toInt (signedToCycles scale b).toInt := by
    intro scale a b hscale ha hab
    have ha' : 0 ≤ a.toInt := Int64.le_iff_toInt_le.1 ha
    have hab' : a.toInt ≤ b.toInt := Int64.le_iff_toInt_le.1 hab
    rw [toInt_signedToCycles hscale ha', toInt_signedToCycles hscale (ha'.trans hab')]
    exact keepsOrder_cyclesOf (by omega) (by omega)
  refine ⟨fun a b => hsigned 1000000 a b (by decide), ?_, fun a b => hsigned 1000000000 a b (by decide), ?_⟩
  · intro a b hab
    rw [toInt_usToCyclesU64, toInt_usToCyclesU64]
    exact keepsOrder_cyclesOf (by decide) (UInt64.le_iff_toNat_le.1 hab)
  · intro a b hab hb
    have hab' := UInt64.le_iff_toNat_le.1 hab
    rw [toInt_nsToCyclesU64 (by omega), toInt_nsToCyclesU64 hb]
    exact keepsOrder_cyclesOf (by decide) hab'

/-- A sleep of one and of two seconds. -/
theorem cycles_bounds_and_order_second :
    (0 : Int64) ≤ 1000000000 ∧ (1000000000 : Int64) ≤ 2000000000 ∧
      KeepsOrder 1000000000 1000000000 2000000000 (nsToCyclesS64 1000000000).toInt
        (nsToCyclesS64 2000000000).toInt :=
  ⟨by decide, by decide, cycles_bounds_and_order.2.2.1 1000000000 2000000000 (by decide) (by decide)⟩

/-- One microsecond more than the largest duration that is converted exactly gives fewer cycles, and a number of
nanoseconds that does not fit an `s64` gives a negative one. -/
theorem not_monotone_at_rounding :
    ¬(usToCyclesS64 34401209161 ≤ usToCyclesS64 34401209162) ∧ ¬(0 ≤ nsToCyclesU64 9223372036854775808) := by
  decide +kernel

/-! ## Cycles to durations -/

/-- Cycles are converted exactly: the product fits an `s64`, and the result is the quotient rounded down. -/
def ConvertsExactly (scale : Int) (cycles : Int) (result : Int) : Prop :=
  cycles * scale < 2 ^ 63 ∧ result = cycles * scale / 268111856

theorem convertsExactly_iff {scale bound cycles result : Int} (hbound : cycles * scale < 2 ^ 63 ↔ cycles ≤ bound)
    (hresult : cycles * scale < 2 ^ 63 → result = cycles * scale / 268111856) :
    ConvertsExactly scale cycles result ↔ cycles ≤ bound := by
  rw [ConvertsExactly, hbound]
  exact ⟨fun h => h.1, fun h => ⟨h, hresult (hbound.2 h)⟩⟩

section

variable {scale : Int64} {k : Int} (hscale : scale.toInt = k) (hpos : 0 < k)

include hscale hpos

/-- A product that fits is divided exactly. -/
theorem toNat_cyclesToDuration {cycles : Int64} (h : 0 ≤ cycles.toInt) (hfits : cycles.toInt * k < 2 ^ 63) :
    ((cyclesToDuration scale cycles).toNat : Int) = cycles.toInt * k / 268111856 := by
  have hnonneg : 0 ≤ cycles.toInt * k := Int.mul_nonneg h hpos.le
  have hproduct : (cycles * scale).toInt = cycles.toInt * k := by
    rw [Int64.toInt_mul, hscale]
    exact Int.bmod_eq_of_le (by omega) (by omega)
  have hunsigned : (((cycles * scale).toUInt64.toNat : Nat) : Int) = cycles.toInt * k := by
    rw [toNat_toUInt64 (by omega), hproduct]
  rw [cyclesToDuration, UInt64.toNat_div, toNat_clockRate, Int.natCast_ediv, hunsigned]
  rfl

theorem toInt_cyclesToDuration {cycles : Int64} (h : 0 ≤ cycles.toInt) (hfits : cycles.toInt * k < 2 ^ 63) :
    (cyclesToDuration scale cycles).toInt64.toInt = cycles.toInt * k / 268111856 := by
  have htoNat := toNat_cyclesToDuration hscale hpos h hfits
  have hle : cycles.toInt * k / 268111856 ≤ cycles.toInt * k :=
    Int.ediv_le_self _ (Int.mul_nonneg h hpos.le)
  rw [toInt_toInt64 (by omega), htoNat]

/-- As long as the products fit, more cycles are not a shorter duration. -/
theorem cyclesToDuration_mono {a b : Int64} (ha : 0 ≤ a.toInt) (hab : a.toInt ≤ b.toInt)
    (hfits : b.toInt * k < 2 ^ 63) :
    cyclesToDuration scale a ≤ cyclesToDuration scale b ∧
      (cyclesToDuration scale a).toInt64 ≤ (cyclesToDuration scale b).toInt64 := by
  have hle : a.toInt * k ≤ b.toInt * k := Int.mul_le_mul_of_nonneg_right hab hpos.le
  have hdiv : a.toInt * k / 268111856 ≤ b.toInt * k / 268111856 := Int.ediv_le_ediv (by decide) hle
  constructor
  · have hna := toNat_cyclesToDuration hscale hpos ha (by omega)
    have hnb := toNat_cyclesToDuration hscale hpos (ha.trans hab) hfits
    rw [UInt64.le_iff_toNat_le]
    omega
  · rw [Int64.le_iff_toInt_le, toInt_cyclesToDuration hscale hpos ha (by omega),
      toInt_cyclesToDuration hscale hpos (ha.trans hab) hfits]
    exact hdiv

end

/-- The converters, and the time of a timing, are exact exactly up to a number of cycles; up to there they keep
the order. -/
theorem cyclesToDuration_exact_iff (cycles : Int64) (hcycles : 0 ≤ cycles) :
    ((ConvertsExactly 1000000000 cycles.toInt (cyclesToNs cycles).toNat ↔ cycles.toInt ≤ 9223372036) ∧
      (ConvertsExactly 1000000 cycles.toInt (cyclesToUs cycles).toInt ↔ cycles.toInt ≤ 9223372036854) ∧
      (ConvertsExactly 1000 cycles.toInt (cyclesToMs cycles).toNat ↔ cycles.toInt ≤ 9223372036854775)) ∧
    (∀ b : Int64, cycles ≤ b →
      (b.toInt ≤ 9223372036 → cyclesToNs cycles ≤ cyclesToNs b) ∧
      (b.toInt ≤ 9223372036854 → cyclesToUs cycles ≤ cyclesToUs b) ∧
      (b.toInt ≤ 9223372036854775 → cyclesToMs cycles ≤ cyclesToMs b)) ∧
    ∀ (n : Nat) [NeZero n] (s t : Timing n), 0 ≤ s.getGlobalTicks → s.getGlobalTicks < 2 ^ 63 →
      (ConvertsExactly 1000000 s.getGlobalTicks s.getGlobalTimeUs.toInt ↔ s.getGlobalTicks ≤ 9223372036854) ∧
      (s.getGlobalTicks ≤ t.getGlobalTicks → t.getGlobalTicks ≤ 9223372036854 →
        s.getGlobalTimeUs ≤ t.getGlobalTimeUs) := by
  have hns : (1000000000 : Int64).toInt = 1000000000 := by decide
  have hus : (1000000 : Int64).toInt = 1000000 := by decide
  have hms : (1000 : Int64).toInt = 1000 := by decide
  refine ⟨?_, ?_, ?_⟩
  · have h : 0 ≤ cycles.toInt := Int64.le_iff_toInt_le.1 hcycles
    refine ⟨convertsExactly_iff (by omega) ?_, convertsExactly_iff (by omega) ?_,
      convertsExactly_iff (by omega) ?_⟩
    · exact toNat_cyclesToDuration hns (by decide) h
    · exact toInt_cyclesToDuration hus (by decide) h
    · exact toNat_cyclesToDuration hms (by decide) h
  · intro b hab
    have ha' : 0 ≤ cycles.toInt := Int64.le_iff_toInt_le.1 hcycles
    have hab' : cycles.toInt ≤ b.toInt := Int64.le_iff_toInt_le.1 hab
    refine ⟨fun hbound => ?_, fun hbound => ?_, fun hbound => ?_⟩
    · exact (cyclesToDuration_mono hns (by decide) ha' hab' (by omega)).1
    · exact (cyclesToDuration_mono hus (by decide) ha' hab' (by omega)).2
    · exact (cyclesToDuration_mono hms (by decide) ha' hab' (by omega)).1
  · intro n _ s t h₀ h₁
    have hticks : ∀ ticks : Int, 0 ≤ ticks → ticks < 2 ^ 63 → (Int64.ofInt ticks).toInt = ticks := by
      intro ticks hlo hhi
      exact Int64.toInt_ofInt_of_le (by omega) hhi
    have hs := hticks s.getGlobalTicks h₀ h₁
    constructor
    · refine convertsExactly_iff (by omega) ?_
      intro hfits
      rw [Timing.getGlobalTimeUs, toInt_cyclesToDuration hus (by decide) (by omega) (by omega), hs]
    · intro hle hbound
      have ht := hticks t.getGlobalTicks (by omega) (by omega)
      exact (cyclesToDuration_mono hus (by decide) (by omega) (by omega) (by omega)).2

/-- A second of cycles is a second. -/
theorem cyclesToDuration_exact_iff_second :
    (0 : Int64) ≤ 268111856 ∧ ConvertsExactly 1000000000 268111856 (cyclesToNs 268111856).toNat :=
  ⟨by decide, (cyclesToDuration_exact_iff 268111856 (by decide)).1.1.2 (by decide)⟩

/-- After 69 seconds the product has wrapped around, and the time starts again from nothing. -/
theorem cyclesToNs_wraps : ¬ConvertsExactly 1000000000 18446744074 (cyclesToNs 18446744074).toNat ∧
    cyclesToNs 18446744073 = 68802418319 ∧ cyclesToNs 18446744074 = 1 := by
  refine ⟨?_, by decide +kernel, by decide +kernel⟩
  rintro ⟨hfits, -⟩
  exact absurd hfits (by decide)

end AzaharPlus.Core
