import AzaharPlus.Lib.ByteDigits
import Mathlib.Logic.Function.Basic
import Mathlib.Tactic.IntervalCases

/-!
# Arithmetic on AES keys

The additions and the rotation of 16-byte keys the key scrambler uses, byte by byte as the code has
them, against 128-bit words.

* `toBitVec_add128` — the sum of two keys is the sum modulo `2 ^ 128`.
* `toBitVec_add128Word` — adding a 64-bit word drops the carry out of the low half of the key.
* `toBitVec_lrot128`, `lrot128_lrot128` — the rotation.
* `keyArithmetic_iff` — all of it is arithmetic modulo `2 ^ 128` exactly when the low half and the
  word do not carry.
-/

namespace AzaharPlus.Hw.Arithmetic128

open ByteDigits

/-- A key, the most significant byte first. -/
abbrev AESKey := Fin 16 → UInt8

/-! ## The code -/

/-- The turns of the loops of the additions, from the last byte towards the first: the key written
so far and the carry. -/
def addBytes (a : AESKey) (operand : Fin 16 → Nat) (out : AESKey) : Nat → AESKey × Nat
  | 0 => (out, 0)
  | turn + 1 =>
      let (out, carry) := addBytes a operand out turn
      let i := Fin.ofNat 16 (15 - turn)
      let sum := (a i).toNat + operand i + carry
      (Function.update out i (UInt8.ofNat (sum % 256)), sum / 256)

/-- `Add128` of two keys; every byte of the result is written. -/
def add128 (a b : AESKey) : AESKey :=
  (addBytes a (fun i => (b i).toNat) (fun _ => 0) 16).1

/-- `Add128` of a key and a 64-bit word. -/
def add128Word (a : AESKey) (b : UInt64) : AESKey :=
  (addBytes a (fun i => b.toNat / 2 ^ ((15 - i.val) * 8) % 256) a 8).1

/-- `Lrot128`: rotation to the left. -/
def lrot128 (key : AESKey) (rot : UInt32) : AESKey := fun i =>
  let rot := rot.toNat % 128
  let byteShift := rot / 8
  let bitShift := rot % 8
  let wrapIndexA := Fin.ofNat 16 (i.val + byteShift)
  let wrapIndexB := Fin.ofNat 16 (i.val + byteShift + 1)
  UInt8.ofNat
    (((key wrapIndexA).toNat <<< bitShift ||| (key wrapIndexB).toNat >>> (8 - bitShift)) % 256)

/-! ## Keys as words -/

/-- The bytes of a key, the least significant one first. -/
def digits (key : AESKey) (j : Nat) : UInt8 := key (Fin.ofNat 16 (15 - j))

/-- The 128-bit word of a key. -/
def toBitVec (key : AESKey) : BitVec 128 := BitVec.ofNat 128 (value (digits key) 16)

theorem toNat_toBitVec (key : AESKey) : (toBitVec key).toNat = value (digits key) 16 := by
  rw [toBitVec, BitVec.toNat_ofNat]
  exact Nat.mod_eq_of_lt (value_lt (digits key) 16)

theorem getLsbD_toBitVec (key : AESKey) (n : Nat) :
    (toBitVec key).getLsbD n =
      (decide (n < 128) && (digits key (n / 8)).toNat.testBit (n % 8)) := by
  rw [BitVec.getLsbD, toNat_toBitVec, testBit_value]

/-- A byte of a key is a digit. -/
theorem digits_eq (key : AESKey) (i : Fin 16) : digits key (15 - i.val) = key i := by
  have hi : Fin.ofNat 16 (15 - (15 - i.val)) = i := by
    apply Fin.ext
    simp only [Fin.val_ofNat]
    omega
  rw [digits, hi]

/-- Keys are equal when their words are. -/
theorem toBitVec_inj {a b : AESKey} (h : toBitVec a = toBitVec b) : a = b := by
  have hvalue : value (digits a) 16 = value (digits b) 16 := by
    rw [← toNat_toBitVec, ← toNat_toBitVec, h]
  funext i
  rw [← digits_eq a i, ← digits_eq b i]
  exact value_inj hvalue _ (by omega)

/-! ## Addition -/

/-- What the turns of the loop have written: the last bytes are those of the sum, the others are
untouched. -/
theorem addBytes_eq (a out : AESKey) (operand : Fin 16 → Nat) (e : Nat → UInt8)
    (turns : Nat) (hturns : turns ≤ 16)
    (he : ∀ j < turns, operand (Fin.ofNat 16 (15 - j)) = (e j).toNat) :
    addBytes a operand out turns =
      (fun i => if 15 - i.val < turns then sumByte (digits a) e (15 - i.val) else out i,
        carry (digits a) e turns) := by
  induction turns with
  | zero => simp [addBytes, carry]
  | succ turn ih =>
    have hind := ih (by omega) fun j hj => he j (by omega)
    have hoperand := he turn (by omega)
    have hindex : (Fin.ofNat 16 (15 - turn)).val = 15 - turn := by
      rw [Fin.val_ofNat]
      omega
    rw [addBytes, hind]
    simp only [hoperand]
    refine Prod.ext (funext fun i => ?_) rfl
    by_cases hi : i = Fin.ofNat 16 (15 - turn)
    · have hlast : 15 - (Fin.ofNat 16 (15 - turn)).val = turn := by omega
      subst hi
      simp only [Function.update_self, hlast, Nat.lt_succ_self, if_true]
      rfl
    · have hval : 15 - i.val ≠ turn := fun heq => hi (Fin.ext (by omega))
      simp only [Function.update_of_ne hi]
      by_cases hlt : 15 - i.val < turn
      · rw [if_pos hlt, if_pos (Nat.lt_succ_of_lt hlt)]
      · rw [if_neg hlt, if_neg (by omega)]

/-- The digits of the key the loop leaves. -/
theorem digits_addBytes (a out : AESKey) (operand : Fin 16 → Nat) (e : Nat → UInt8)
    (turns : Nat) (hturns : turns ≤ 16)
    (he : ∀ j < turns, operand (Fin.ofNat 16 (15 - j)) = (e j).toNat) (j : Nat) (hj : j < 16) :
    digits (addBytes a operand out turns).1 j =
      if j < turns then sumByte (digits a) e j else digits out j := by
  have hindex : 15 - (Fin.ofNat 16 (15 - j)).val = j := by
    rw [Fin.val_ofNat]
    omega
  rw [addBytes_eq a out operand e turns hturns he]
  simp only [digits, hindex]

/-- `Add128` of two keys is the sum modulo `2 ^ 128`. -/
theorem toBitVec_add128 (a b : AESKey) : toBitVec (add128 a b) = toBitVec a + toBitVec b := by
  have hdigits : ∀ j < 16, digits (add128 a b) j = sumByte (digits a) (digits b) j := by
    intro j hj
    rw [add128, digits_addBytes a _ _ (digits b) 16 le_rfl (fun _ _ => rfl) j hj, if_pos hj]
  have hsum := value_add (digits a) (digits b) 16
  apply BitVec.eq_of_toNat_eq
  rw [BitVec.toNat_add, toNat_toBitVec, toNat_toBitVec, toNat_toBitVec, value_congr hdigits, ← hsum]
  have hlt := value_lt (sumByte (digits a) (digits b)) 16
  omega

/-! ### A word added to the low half -/

/-- The bytes of a 64-bit word, the least significant one first. -/
def wordDigits (n : UInt64) (j : Nat) : UInt8 := UInt8.ofNat (n.toNat / 256 ^ j % 256)

theorem value_wordDigits (n : UInt64) (k : Nat) :
    value (wordDigits n) k = n.toNat % 256 ^ k := by
  induction k with
  | zero => simp [value, Nat.mod_one]
  | succ k ih =>
    have hbyte : (wordDigits n k).toNat = n.toNat / 256 ^ k % 256 := by
      rw [wordDigits, UInt8.toNat_ofNat']
      exact Nat.mod_mod _ _
    rw [value, ih, hbyte, Nat.pow_succ, Nat.mod_mul]
    ring

/-- The low half of a key. -/
def lowHalf (key : AESKey) : Nat := (toBitVec key).toNat % 2 ^ 64

theorem lowHalf_eq (key : AESKey) : lowHalf key = value (digits key) 8 := by
  have hlt := value_lt (digits key) 8
  rw [lowHalf, toNat_toBitVec, value_split (digits key) 8 8]
  omega

/-- The carry out of the low half stays behind. -/
theorem toNat_add128Word (a : AESKey) (n : UInt64) :
    (toBitVec (add128Word a n)).toNat + carry (digits a) (wordDigits n) 8 * 2 ^ 64 =
      (toBitVec a).toNat + n.toNat := by
  have hoperand : ∀ j < 8,
      n.toNat / 2 ^ ((15 - (Fin.ofNat 16 (15 - j)).val) * 8) % 256 = (wordDigits n j).toNat := by
    intro j hj
    have hindex : (15 - (Fin.ofNat 16 (15 - j)).val) * 8 = 8 * j := by
      rw [Fin.val_ofNat]
      omega
    rw [hindex, Nat.pow_mul, wordDigits, UInt8.toNat_ofNat']
    exact (Nat.mod_mod _ _).symm
  have hdigits := digits_addBytes a a (fun i => n.toNat / 2 ^ ((15 - i.val) * 8) % 256)
    (wordDigits n) 8 (by omega) hoperand
  have hlow : ∀ j < 8, digits (add128Word a n) j = sumByte (digits a) (wordDigits n) j := by
    intro j hj
    rw [add128Word, hdigits j (by omega), if_pos hj]
  have hhigh : ∀ j < 8, digits (add128Word a n) (8 + j) = digits a (8 + j) := by
    intro j hj
    rw [add128Word, hdigits (8 + j) (by omega), if_neg (by omega)]
  have hsum := value_add (digits a) (wordDigits n) 8
  have hword : value (wordDigits n) 8 = n.toNat := by
    rw [value_wordDigits]
    exact Nat.mod_eq_of_lt n.toNat_lt
  rw [toNat_toBitVec, toNat_toBitVec, value_split _ 8 8, value_split (digits a) 8 8,
    value_congr hlow, value_congr hhigh]
  omega

/-- `Add128` of a key and a word is the sum modulo `2 ^ 128` when the low half does not carry, and
only then. -/
theorem toBitVec_add128Word (a : AESKey) (n : UInt64) :
    toBitVec (add128Word a n) = toBitVec a + BitVec.ofNat 128 n.toNat ↔
      lowHalf a + n.toNat < 2 ^ 64 := by
  have hsum := value_add (digits a) (wordDigits n) 8
  have hword : value (wordDigits n) 8 = n.toNat := by
    rw [value_wordDigits]
    exact Nat.mod_eq_of_lt n.toNat_lt
  have hlow := value_lt (sumByte (digits a) (wordDigits n)) 8
  have hcarry := carry_le_one (digits a) (wordDigits n) 8
  have htotal := toNat_add128Word a n
  have hout := (toBitVec (add128Word a n)).isLt
  have hn := n.toNat_lt
  rw [← BitVec.toNat_inj, BitVec.toNat_add, BitVec.toNat_ofNat, lowHalf_eq]
  omega

/-! ## Rotation -/

/-- A bit of the byte the rotation puts together of two. -/
theorem testBit_rotated (high low : UInt8) {shift t : Nat} (ht : t < 8) (hshift : shift < 8) :
    (UInt8.ofNat ((high.toNat <<< shift ||| low.toNat >>> (8 - shift)) % 256)).toNat.testBit t =
      if shift ≤ t then high.toNat.testBit (t - shift) else low.toNat.testBit (t + 8 - shift) := by
  have hmod : ∀ x : Nat, (x % 256 % 2 ^ 8).testBit t = x.testBit t := by
    intro x
    rw [show 256 = 2 ^ 8 from rfl, Nat.mod_mod, Nat.testBit_mod_two_pow, decide_eq_true ht,
      Bool.true_and]
  rw [UInt8.toNat_ofNat', hmod, Nat.testBit_or, Nat.testBit_shiftLeft, Nat.testBit_shiftRight]
  by_cases hle : shift ≤ t
  · -- the low byte's bits are shifted out
    have hout : low.toNat < 2 ^ (8 - shift + t) :=
      Nat.lt_of_lt_of_le low.toNat_lt (Nat.pow_le_pow_right (by decide) (by omega))
    rw [if_pos hle, decide_eq_true hle, Nat.testBit_lt_two_pow hout, Bool.true_and, Bool.or_false]
  · have hindex : 8 - shift + t = t + 8 - shift := by omega
    rw [if_neg hle, decide_eq_false hle, Bool.false_and, Bool.false_or, hindex]

/-- The bits of a rotated key. -/
theorem getLsbD_lrot128 (key : AESKey) (rot : UInt32) {n : Nat} (hn : n < 128) :
    (toBitVec (lrot128 key rot)).getLsbD n =
      (toBitVec key).getLsbD ((n + (128 - rot.toNat % 128)) % 128) := by
  have hindex : (Fin.ofNat 16 (15 - n / 8)).val = 15 - n / 8 := by
    rw [Fin.val_ofNat]
    omega
  rw [getLsbD_toBitVec, getLsbD_toBitVec, decide_eq_true hn,
    decide_eq_true (Nat.mod_lt _ (by omega)), Bool.true_and, Bool.true_and]
  simp only [digits, lrot128, hindex]
  rw [testBit_rotated _ _ (Nat.mod_lt _ (by omega)) (Nat.mod_lt _ (by omega))]
  have hrot := Nat.mod_lt rot.toNat (by omega : 0 < 128)
  generalize rot.toNat % 128 = r at hrot ⊢
  by_cases hle : r % 8 ≤ n % 8
  · have hbyte : Fin.ofNat 16 (15 - n / 8 + r / 8) =
        Fin.ofNat 16 (15 - (n + (128 - r)) % 128 / 8) := by
      apply Fin.ext
      simp only [Fin.val_ofNat]
      omega
    have hbit : n % 8 - r % 8 = (n + (128 - r)) % 128 % 8 := by omega
    rw [if_pos hle, hbit, hbyte]
  · have hbyte : Fin.ofNat 16 (15 - n / 8 + r / 8 + 1) =
        Fin.ofNat 16 (15 - (n + (128 - r)) % 128 / 8) := by
      apply Fin.ext
      simp only [Fin.val_ofNat]
      omega
    have hbit : n % 8 + 8 - r % 8 = (n + (128 - r)) % 128 % 8 := by omega
    rw [if_neg hle, hbit, hbyte]

/-- `Lrot128` is the rotation of the word. -/
theorem toBitVec_lrot128 (key : AESKey) (rot : UInt32) :
    toBitVec (lrot128 key rot) = (toBitVec key).rotateLeft rot.toNat := by
  apply BitVec.eq_of_getLsbD_eq
  intro n hn
  rw [getLsbD_lrot128 key rot hn, BitVec.getLsbD_rotateLeft]
  have hrot := Nat.mod_lt rot.toNat (by omega : 0 < 128)
  by_cases hlt : n < rot.toNat % 128
  · have hindex : (n + (128 - rot.toNat % 128)) % 128 = 128 - rot.toNat % 128 + n := by omega
    rw [decide_eq_true hlt, cond_true, hindex]
  · have hindex : (n + (128 - rot.toNat % 128)) % 128 = n - rot.toNat % 128 := by omega
    rw [decide_eq_false hlt, cond_false, decide_eq_true hn, Bool.true_and, hindex]

/-- Two rotations are the rotation by the sum. -/
theorem lrot128_lrot128 (key : AESKey) (r s : UInt32) :
    lrot128 (lrot128 key r) s = lrot128 key ((r + s) % 128) := by
  have hsum : ((r + s) % 128).toNat % 128 = (r.toNat + s.toNat) % 128 := by
    rw [UInt32.toNat_mod, UInt32.toNat_add, show (128 : UInt32).toNat = 128 from rfl]
    omega
  apply toBitVec_inj
  apply BitVec.eq_of_getLsbD_eq
  intro n hn
  rw [getLsbD_lrot128 _ _ hn, getLsbD_lrot128 _ _ (Nat.mod_lt _ (by omega)),
    getLsbD_lrot128 _ _ hn, hsum]
  congr 1
  omega

/-! ## The key arithmetic -/

/-- The additions and the rotation are arithmetic modulo `2 ^ 128`, rotations adding up, exactly
when the word does not carry out of the low half of the key: `Add128` of a word drops that carry,
where `Add128` of a key carries on. -/
theorem keyArithmetic_iff (a b : AESKey) (n : UInt64) (r s : UInt32) :
    (toBitVec (add128 a b) = toBitVec a + toBitVec b ∧
        toBitVec (add128Word a n) = toBitVec a + BitVec.ofNat 128 n.toNat ∧
        toBitVec (lrot128 a r) = (toBitVec a).rotateLeft r.toNat ∧
        lrot128 (lrot128 a r) s = lrot128 a ((r + s) % 128)) ↔
      lowHalf a + n.toNat < 2 ^ 64 := by
  refine ⟨fun h => (toBitVec_add128Word a n).1 h.2.1, fun h => ?_⟩
  exact ⟨toBitVec_add128 a b, (toBitVec_add128Word a n).2 h, toBitVec_lrot128 a r,
    lrot128_lrot128 a r s⟩

/-- A key whose low half is all ones. -/
def fullLowHalf : AESKey := fun i => if i.val < 8 then 0 else 0xFF

/-- Adding one to it gives zero instead of `2 ^ 64`, which adding the key of that word gives. -/
theorem add128Word_drops_carry :
    toBitVec (add128Word fullLowHalf 1) = 0 ∧
      toBitVec fullLowHalf + BitVec.ofNat 128 (1 : UInt64).toNat = BitVec.ofNat 128 (2 ^ 64) := by
  decide +kernel

end AzaharPlus.Hw.Arithmetic128
