import Mathlib.Tactic.Ring
import Mathlib.Tactic.Positivity

/-!
# Numbers by their bytes

A number is given by its bytes, the least significant one first.

* `value_inj`, `testBit_value` — the bytes and the bits of a number.
* `value_add` — addition byte by byte, with a carry.
-/

namespace ByteDigits

/-- The number of the first bytes. -/
def value (d : Nat → UInt8) : Nat → Nat
  | 0 => 0
  | k + 1 => value d k + (d k).toNat * 256 ^ k

theorem value_lt (d : Nat → UInt8) (k : Nat) : value d k < 256 ^ k := by
  induction k with
  | zero => exact Nat.one_pos
  | succ k ih =>
    have hbyte : (d k).toNat + 1 ≤ 256 := (d k).toNat_lt
    calc value d k + (d k).toNat * 256 ^ k < 256 ^ k + (d k).toNat * 256 ^ k :=
          Nat.add_lt_add_right ih _
      _ = ((d k).toNat + 1) * 256 ^ k := by ring
      _ ≤ 256 * 256 ^ k := Nat.mul_le_mul_right _ hbyte
      _ = 256 ^ (k + 1) := by ring

theorem value_congr {d e : Nat → UInt8} {k : Nat} (h : ∀ j < k, d j = e j) :
    value d k = value e k := by
  induction k with
  | zero => rfl
  | succ k ih => rw [value, value, ih fun j hj => h j (Nat.lt_succ_of_lt hj), h k k.lt_succ_self]

/-- The bytes behind the first ones. -/
theorem value_split (d : Nat → UInt8) (k m : Nat) :
    value d (k + m) = value d k + 256 ^ k * value (fun j => d (k + j)) m := by
  induction m with
  | zero => simp [value]
  | succ m ih =>
    rw [← Nat.add_assoc, value, ih, value, Nat.pow_add]
    ring

/-- The bits of a number are those of its bytes. -/
theorem testBit_value (d : Nat → UInt8) (k n : Nat) :
    (value d k).testBit n = (decide (n < 8 * k) && (d (n / 8)).toNat.testBit (n % 8)) := by
  induction k with
  | zero => simp [value]
  | succ k ih =>
    have hlt : value d k < 2 ^ (8 * k) := by
      rw [Nat.pow_mul]
      exact value_lt d k
    have hsplit : value d (k + 1) = 2 ^ (8 * k) * (d k).toNat + value d k := by
      rw [value, Nat.pow_mul]
      ring
    rw [hsplit, Nat.testBit_two_pow_mul_add _ hlt, ih]
    by_cases hlow : n < 8 * k
    · rw [if_pos hlow, decide_eq_true hlow, decide_eq_true (by omega)]
    · rw [if_neg hlow]
      by_cases hhigh : n < 8 * (k + 1)
      · have hdiv : n / 8 = k := by omega
        have hmod : n - 8 * k = n % 8 := by omega
        rw [decide_eq_true hhigh, hdiv, hmod, Bool.true_and]
      · have hbig : (d k).toNat < 2 ^ (n - 8 * k) :=
          Nat.lt_of_lt_of_le (d k).toNat_lt (Nat.pow_le_pow_right (by decide) (by omega))
        rw [decide_eq_false hhigh, Nat.testBit_lt_two_pow hbig, Bool.false_and]

/-- Numbers are equal when their bytes are. -/
theorem value_inj {d e : Nat → UInt8} {k : Nat} (h : value d k = value e k) :
    ∀ j < k, d j = e j := by
  induction k with
  | zero => exact fun j hj => absurd hj (Nat.not_lt_zero j)
  | succ k ih =>
    have hd := value_lt d k
    have he := value_lt e k
    have htop : (d k).toNat = (e k).toNat := by
      have hdiv := congrArg (· / 256 ^ k) h
      simp only [value] at hdiv
      rwa [Nat.add_mul_div_right _ _ (by positivity), Nat.add_mul_div_right _ _ (by positivity),
        Nat.div_eq_of_lt hd, Nat.div_eq_of_lt he, Nat.zero_add, Nat.zero_add] at hdiv
    have hrest : value d k = value e k := by
      simp only [value] at h
      rw [htop] at h
      exact Nat.add_right_cancel h
    intro j hj
    rcases Nat.lt_or_eq_of_le (Nat.le_of_lt_succ hj) with hlt | rfl
    · exact ih hrest j hlt
    · exact UInt8.toNat_inj.1 htop

/-- The carry behind the first bytes of a sum. -/
def carry (d e : Nat → UInt8) : Nat → Nat
  | 0 => 0
  | k + 1 => ((d k).toNat + (e k).toNat + carry d e k) / 256

/-- A byte of a sum. -/
def sumByte (d e : Nat → UInt8) (k : Nat) : UInt8 :=
  UInt8.ofNat (((d k).toNat + (e k).toNat + carry d e k) % 256)

/-- Addition byte by byte. -/
theorem value_add (d e : Nat → UInt8) (k : Nat) :
    value (sumByte d e) k + carry d e k * 256 ^ k = value d k + value e k := by
  induction k with
  | zero => rfl
  | succ k ih =>
    have hbyte : (sumByte d e k).toNat =
        ((d k).toNat + (e k).toNat + carry d e k) % 256 := by
      rw [sumByte, UInt8.toNat_ofNat']
      exact Nat.mod_mod _ _
    have hdivMod := Nat.mod_add_div ((d k).toNat + (e k).toNat + carry d e k) 256
    calc value (sumByte d e) (k + 1) + carry d e (k + 1) * 256 ^ (k + 1)
        = value (sumByte d e) k +
            (((d k).toNat + (e k).toNat + carry d e k) % 256 +
              256 * (((d k).toNat + (e k).toNat + carry d e k) / 256)) * 256 ^ k := by
          rw [value, hbyte, carry]
          ring
      _ = value (sumByte d e) k + carry d e k * 256 ^ k +
            ((d k).toNat + (e k).toNat) * 256 ^ k := by
          rw [hdivMod]
          ring
      _ = value d (k + 1) + value e (k + 1) := by
          rw [ih, value, value]
          ring

/-- The carry is a bit. -/
theorem carry_le_one (d e : Nat → UInt8) (k : Nat) : carry d e k ≤ 1 := by
  induction k with
  | zero => exact Nat.zero_le 1
  | succ k ih =>
    have hd := (d k).toNat_lt
    have he := (e k).toNat_lt
    rw [carry]
    omega

end ByteDigits
