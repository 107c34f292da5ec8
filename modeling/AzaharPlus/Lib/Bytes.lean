import Mathlib

/-!
# Byte buffers: little-endian words and block copies

A buffer is a list of bytes.  This file fixes how a program reads and writes
16- and 32-bit little-endian words in it and how it copies blocks, and proves
the one kind of fact every later argument needs: what byte `i` of the result
is (`byteAt_set`, `byteAt_writeLE16`, `byteAt_memcpy`, `byteAt_slice`).  Two buffers of the
same length with the same bytes are equal (`ext_byteAt`), so equations between
whole buffers are proved byte by byte.
-/

namespace Bytes

/-- Byte `i` of a buffer; reads past the end give `0`. -/
def byteAt (b : List UInt8) (i : Nat) : UInt8 := b.getD i 0

/-- The low byte of a word. -/
def loByte (v : UInt16) : UInt8 := (v &&& 0xFF).toUInt8

/-- The high byte of a word. -/
def hiByte (v : UInt16) : UInt8 := ((v >>> 8) &&& 0xFF).toUInt8

/-- The word with the given low and high bytes. -/
def word (lo hi : UInt8) : UInt16 := lo.toUInt16 ||| (hi.toUInt16 <<< 8)

/-- The 16-bit little-endian word at `off`. -/
def readLE16 (b : List UInt8) (off : Nat) : UInt16 := word (byteAt b off) (byteAt b (off + 1))

/-- Store a 16-bit word little-endian at `off`. -/
def writeLE16 (b : List UInt8) (off : Nat) (v : UInt16) : List UInt8 :=
  (b.set off (loByte v)).set (off + 1) (hiByte v)

/-- The 32-bit little-endian word at `off`. -/
def readLE32 (b : List UInt8) (off : Nat) : UInt32 :=
  (byteAt b off).toUInt32 ||| ((byteAt b (off + 1)).toUInt32 <<< 8) |||
    ((byteAt b (off + 2)).toUInt32 <<< 16) ||| ((byteAt b (off + 3)).toUInt32 <<< 24)

/-- Store a 32-bit word little-endian at `off`. -/
def writeLE32 (b : List UInt8) (off : Nat) (v : UInt32) : List UInt8 :=
  (((b.set off (v &&& 0xFF).toUInt8).set (off + 1) ((v >>> 8) &&& 0xFF).toUInt8).set (off + 2)
    ((v >>> 16) &&& 0xFF).toUInt8).set (off + 3) ((v >>> 24) &&& 0xFF).toUInt8

/-- The number whose little-endian bytes are given. -/
def leValue : List UInt8 → Nat
  | [] => 0
  | b :: bs => b.toNat + 256 * leValue bs

/-- The `k` low bytes of a number, little-endian. -/
def leBytes : Nat → Nat → List UInt8
  | 0, _ => []
  | k + 1, n => UInt8.ofNat n :: leBytes k (n / 256)

/-- The `n` bytes starting at `off`. -/
def slice (b : List UInt8) (off n : Nat) : List UInt8 := (b.drop off).take n

/-- Copy the block `src` over the bytes of `dst` starting at `off`. -/
def memcpy (dst : List UInt8) (off : Nat) (src : List UInt8) : List UInt8 :=
  dst.take off ++ src ++ dst.drop (off + src.length)

/-! ## Bytes of words -/

theorem toUInt8_and_mask (v : UInt16) : (v &&& 0xFF).toUInt8 = v.toUInt8 := by
  apply UInt8.toBitVec_inj.1
  ext i hi
  simp only [UInt16.toBitVec_toUInt8, UInt16.toBitVec_and, BitVec.getElem_setWidth,
    BitVec.getLsbD_and]
  interval_cases i <;> simp

@[simp] theorem loByte_word (lo hi : UInt8) : loByte (word lo hi) = lo := by
  apply UInt8.toBitVec_inj.1
  ext i hi'
  simp only [loByte, word, toUInt8_and_mask]
  simp

@[simp] theorem hiByte_word (lo hi : UInt8) : hiByte (word lo hi) = hi := by
  apply UInt8.toBitVec_inj.1
  ext i hi'
  simp only [hiByte, word, toUInt8_and_mask]
  simp
  interval_cases i <;> simp

@[simp] theorem word_loByte_hiByte (v : UInt16) : word (loByte v) (hiByte v) = v := by
  apply UInt16.toBitVec_inj.1
  ext i hi'
  simp only [loByte, hiByte, word, toUInt8_and_mask, UInt16.toBitVec_or,
    UInt16.toBitVec_shiftLeft, UInt8.toBitVec_toUInt16, UInt16.toBitVec_toUInt8,
    UInt16.toBitVec_shiftRight, BitVec.getElem_or, BitVec.getElem_setWidth]
  interval_cases i <;> simp

/-- A word is determined by its two bytes. -/
theorem eq_iff_bytes {v w : UInt16} : v = w ↔ loByte v = loByte w ∧ hiByte v = hiByte w := by
  constructor
  · rintro rfl
    exact ⟨rfl, rfl⟩
  · rintro ⟨h₀, h₁⟩
    rw [← word_loByte_hiByte v, h₀, h₁, word_loByte_hiByte]

theorem loByte_xor (v w : UInt16) : loByte (v ^^^ w) = loByte v ^^^ loByte w := by
  simp only [loByte, toUInt8_and_mask, UInt16.toUInt8_xor]

theorem hiByte_xor (v w : UInt16) : hiByte (v ^^^ w) = hiByte v ^^^ hiByte w := by
  apply UInt8.toBitVec_inj.1
  ext i hi'
  simp only [hiByte, toUInt8_and_mask]
  simp

/-- XOR-ing a byte twice with the same mask gives it back. -/
theorem xor_xor_cancel (a b : UInt8) : (a ^^^ b) ^^^ b = a := by
  rw [UInt8.xor_assoc, UInt8.xor_self, UInt8.xor_zero]

/-! ## Pointwise descriptions -/

theorem byteAt_eq_getElem {b : List UInt8} {i : Nat} (h : i < b.length) : byteAt b i = b[i] := by
  rw [byteAt, List.getD_eq_getElem _ _ h]

/-- Buffers are determined by their length and their bytes. -/
theorem ext_byteAt {a b : List UInt8} (hl : a.length = b.length)
    (h : ∀ i < a.length, byteAt a i = byteAt b i) : a = b := by
  refine List.ext_getElem hl fun i h₁ h₂ => ?_
  rw [← byteAt_eq_getElem h₁, ← byteAt_eq_getElem h₂]
  exact h i h₁

theorem byteAt_set {b : List UInt8} {i : Nat} {v : UInt8} (hi : i < b.length) (j : Nat) :
    byteAt (b.set i v) j = if j = i then v else byteAt b j := by
  by_cases hj : j = i
  · subst hj
    rw [if_pos rfl, byteAt_eq_getElem (by simpa using hi)]
    simp
  · rw [if_neg hj]
    simp only [byteAt, List.getD_eq_getElem?_getD]
    rw [List.getElem?_set_ne (fun h => hj h.symm)]

@[simp] theorem length_writeLE16 (b : List UInt8) (off : Nat) (v : UInt16) :
    (writeLE16 b off v).length = b.length := by
  simp [writeLE16]

theorem byteAt_writeLE16 {b : List UInt8} {off : Nat} (v : UInt16) (h : off + 1 < b.length)
    (i : Nat) : byteAt (writeLE16 b off v) i =
      if i = off then loByte v else if i = off + 1 then hiByte v else byteAt b i := by
  rw [writeLE16, byteAt_set (by simpa using h), byteAt_set (by omega)]
  by_cases h₁ : i = off
  · subst h₁
    simp
  · simp [h₁]

/-- A word that is written is read back. -/
theorem readLE16_writeLE16 {b : List UInt8} {off : Nat} (v : UInt16) (h : off + 1 < b.length) :
    readLE16 (writeLE16 b off v) off = v := by
  rw [readLE16, byteAt_writeLE16 v h, byteAt_writeLE16 v h]
  simp

/-- Writing back the word that is already there changes nothing. -/
theorem writeLE16_readLE16 {b : List UInt8} {off : Nat} (h : off + 1 < b.length) :
    writeLE16 b off (readLE16 b off) = b := by
  refine ext_byteAt (by simp) fun i _ => ?_
  rw [byteAt_writeLE16 _ h, readLE16, loByte_word, hiByte_word]
  by_cases h₁ : i = off
  · simp [h₁]
  · by_cases h₂ : i = off + 1 <;> simp [h₂, h₁]

theorem readLE16_eq_iff {b : List UInt8} {off : Nat} {v : UInt16} :
    readLE16 b off = v ↔ byteAt b off = loByte v ∧ byteAt b (off + 1) = hiByte v := by
  rw [readLE16, eq_iff_bytes, loByte_word, hiByte_word]

theorem readLE16_congr {a b : List UInt8} {off : Nat} (h₀ : byteAt a off = byteAt b off)
    (h₁ : byteAt a (off + 1) = byteAt b (off + 1)) : readLE16 a off = readLE16 b off := by
  rw [readLE16, readLE16, h₀, h₁]

theorem toUInt8_and_mask32 (v : UInt32) : (v &&& 0xFF).toUInt8 = v.toUInt8 := by
  apply UInt8.toBitVec_inj.1
  ext i hi
  simp only [UInt32.toBitVec_toUInt8, UInt32.toBitVec_and, BitVec.getElem_setWidth,
    BitVec.getLsbD_and]
  interval_cases i <;> simp

@[simp] theorem length_writeLE32 (b : List UInt8) (off : Nat) (v : UInt32) :
    (writeLE32 b off v).length = b.length := by
  simp [writeLE32]

theorem byteAt_writeLE32 {b : List UInt8} {off : Nat} (v : UInt32) (h : off + 3 < b.length)
    (i : Nat) :
    byteAt (writeLE32 b off v) i =
      if i = off then (v &&& 0xFF).toUInt8
      else if i = off + 1 then ((v >>> 8) &&& 0xFF).toUInt8
      else if i = off + 2 then ((v >>> 16) &&& 0xFF).toUInt8
      else if i = off + 3 then ((v >>> 24) &&& 0xFF).toUInt8
      else byteAt b i := by
  rw [writeLE32, byteAt_set (by simp only [List.length_set]; omega),
    byteAt_set (by simp only [List.length_set]; omega),
    byteAt_set (by simp only [List.length_set]; omega), byteAt_set (by omega)]
  -- the four offsets differ, so the order of the tests is free
  split_ifs <;> first | rfl | omega

/-- The four bytes of a word make up the word. -/
theorem le32_bytes (v : UInt32) :
    v.toUInt8.toUInt32 ||| (v >>> 8).toUInt8.toUInt32 <<< 8 |||
      (v >>> 16).toUInt8.toUInt32 <<< 16 ||| (v >>> 24).toUInt8.toUInt32 <<< 24 = v := by
  apply UInt32.toBitVec_inj.1
  ext i hi
  simp only [UInt32.toBitVec_or, UInt32.toBitVec_shiftLeft, UInt8.toBitVec_toUInt32,
    UInt32.toBitVec_toUInt8, UInt32.toBitVec_shiftRight, BitVec.getElem_or, BitVec.getElem_setWidth]
  simp only [BitVec.shiftLeft_eq', BitVec.ushiftRight_eq', BitVec.getElem_shiftLeft,
    BitVec.getLsbD_setWidth, BitVec.getElem_setWidth, BitVec.getLsbD_ushiftRight]
  rw [show (UInt32.toBitVec 8 % 32).toNat = 8 by decide,
    show (UInt32.toBitVec 16 % 32).toNat = 16 by decide,
    show (UInt32.toBitVec 24 % 32).toNat = 24 by decide]
  have hbit : v.toBitVec.getLsbD i = v.toBitVec[i] := BitVec.getLsbD_eq_getElem hi
  -- bit `i` comes from byte `i / 8`
  rcases (by omega : i < 8 ∨ (8 ≤ i ∧ i < 16) ∨ (16 ≤ i ∧ i < 24) ∨ (24 ≤ i ∧ i < 32)) with
    h | h | h | h
  · simp [hbit, show i < 8 by omega, show i < 16 by omega, show i < 24 by omega]
  · simp [hbit, show ¬ i < 8 by omega, show i - 8 < 8 by omega, show i < 16 by omega,
      show i < 24 by omega, show 8 + (i - 8) = i by omega]
  · simp [hbit, show ¬ i < 8 by omega, show ¬ i - 8 < 8 by omega, show ¬ i < 16 by omega,
      show i - 16 < 8 by omega, show i < 24 by omega, show 16 + (i - 16) = i by omega]
  · simp [hbit, show ¬ i < 8 by omega, show ¬ i - 8 < 8 by omega, show ¬ i < 16 by omega,
      show ¬ i - 16 < 8 by omega, show ¬ i < 24 by omega, show i - 24 < 8 by omega,
      show 24 + (i - 24) = i by omega]

/-- A 32-bit word that is stored is read back. -/
theorem readLE32_writeLE32 {b : List UInt8} {off : Nat} (v : UInt32) (h : off + 3 < b.length) :
    readLE32 (writeLE32 b off v) off = v := by
  rw [readLE32, byteAt_writeLE32 v h, byteAt_writeLE32 v h, byteAt_writeLE32 v h,
    byteAt_writeLE32 v h, if_pos rfl, if_neg (by omega), if_pos rfl, if_neg (by omega),
    if_neg (by omega), if_pos rfl, if_neg (by omega), if_neg (by omega), if_neg (by omega),
    if_pos rfl]
  simp only [toUInt8_and_mask32]
  exact le32_bytes v

theorem readLE32_congr {a b : List UInt8} {off : Nat}
    (h : ∀ i, off ≤ i → i < off + 4 → byteAt a i = byteAt b i) :
    readLE32 a off = readLE32 b off := by
  simp only [readLE32]
  rw [h off (by omega) (by omega), h (off + 1) (by omega) (by omega),
    h (off + 2) (by omega) (by omega), h (off + 3) (by omega) (by omega)]

@[simp] theorem length_slice {b : List UInt8} {off n : Nat} (h : off + n ≤ b.length) :
    (slice b off n).length = n := by
  simp only [slice, List.length_take, List.length_drop]
  omega

theorem byteAt_slice (b : List UInt8) (off : Nat) {n i : Nat} (hi : i < n) :
    byteAt (slice b off n) i = byteAt b (off + i) := by
  simp only [byteAt, slice, List.getD_eq_getElem?_getD]
  rw [List.getElem?_take_of_lt hi, List.getElem?_drop]

theorem length_memcpy {dst src : List UInt8} {off : Nat} (h : off + src.length ≤ dst.length) :
    (memcpy dst off src).length = dst.length := by
  simp only [memcpy, List.length_append, List.length_take, List.length_drop]
  omega

theorem byteAt_memcpy {dst src : List UInt8} {off : Nat} (h : off + src.length ≤ dst.length)
    (i : Nat) : byteAt (memcpy dst off src) i =
      if off ≤ i ∧ i < off + src.length then byteAt src (i - off) else byteAt dst i := by
  simp only [byteAt, memcpy, List.getD_eq_getElem?_getD, List.append_assoc]
  have hto : (dst.take off).length = off := by simp; omega
  by_cases h₁ : i < off
  · rw [List.getElem?_append_left (by omega), List.getElem?_take_of_lt h₁, if_neg (by omega)]
  · rw [List.getElem?_append_right (by omega), hto]
    by_cases h₂ : i < off + src.length
    · rw [List.getElem?_append_left (by omega), if_pos (by omega)]
    · rw [List.getElem?_append_right (by omega), List.getElem?_drop, if_neg (by omega)]
      congr 2
      omega

/-! ## Numbers and records in a buffer -/

@[simp] theorem length_leBytes (k n : Nat) : (leBytes k n).length = k := by
  induction k generalizing n with
  | zero => rfl
  | succ k ih =>
    rw [leBytes, List.length_cons, ih]

/-- A number that fits into `k` bytes is read back from them. -/
theorem leValue_leBytes {k n : Nat} (h : n < 256 ^ k) : leValue (leBytes k n) = n := by
  induction k generalizing n with
  | zero =>
    have h₀ : n = 0 := by simpa using h
    rw [h₀]
    rfl
  | succ k ih =>
    have hq : n / 256 < 256 ^ k := Nat.div_lt_of_lt_mul (by rw [← pow_succ']; exact h)
    rw [leBytes, leValue, ih hq, UInt8.toNat_ofNat']
    exact Nat.mod_add_div n 256

theorem leValue_replicate_zero (k : Nat) : leValue (List.replicate k 0) = 0 := by
  induction k with
  | zero => rfl
  | succ k ih => rw [List.replicate_succ, leValue, ih]; rfl

/-- The bytes of a number are determined by it. -/
theorem leValue_inj {a b : List UInt8} (hl : a.length = b.length) (h : leValue a = leValue b) :
    a = b := by
  induction a generalizing b with
  | nil => exact (List.length_eq_zero_iff.1 hl.symm).symm
  | cons x a ih =>
    cases b with
    | nil => cases hl
    | cons y b =>
      have hx := x.toNat_lt
      have hy := y.toNat_lt
      simp only [leValue] at h
      have hhead : x = y := UInt8.toNat_inj.1 (by omega)
      have htail : leValue a = leValue b := by omega
      rw [hhead, ih (Nat.succ.inj hl) htail]

/-- Byte `j` of record `i` in a sequence of records of `k` bytes each. -/
theorem byteAt_flatMap {α : Type} {f : α → List UInt8} {k : Nat} (hf : ∀ a, (f a).length = k)
    (l : List α) {i j : Nat} (hi : i < l.length) (hj : j < k) :
    byteAt (l.flatMap f) (i * k + j) = byteAt (f l[i]) j := by
  induction l generalizing i with
  | nil => exact absurd hi (by simp)
  | cons a l ih =>
    cases i with
    | zero =>
      simp only [byteAt, List.flatMap_cons, List.getD_eq_getElem?_getD, List.getElem_cons_zero]
      rw [List.getElem?_append_left (by rw [hf]; omega), Nat.zero_mul, Nat.zero_add]
    | succ i =>
      have hlt : i < l.length := by simpa using hi
      rw [List.getElem_cons_succ, ← ih hlt]
      simp only [byteAt, List.flatMap_cons, List.getD_eq_getElem?_getD]
      rw [List.getElem?_append_right (by rw [hf, Nat.succ_mul]; omega), hf, Nat.succ_mul]
      congr 2
      omega

theorem length_flatMap_const {α : Type} {f : α → List UInt8} {k : Nat}
    (hf : ∀ a, (f a).length = k) (l : List α) : (l.flatMap f).length = l.length * k := by
  induction l with
  | nil => simp
  | cons a l ih =>
    rw [List.flatMap_cons, List.length_append, hf, ih, List.length_cons, Nat.succ_mul]
    omega

end Bytes
