import AzaharPlus.Lib.Bytes

/-!
# XOR-ing a buffer with a stream of words

A generator is a function `next` from a state to the next state and one 16-bit
word.  `xorWords` runs it along a buffer, two bytes at a time.  The generator
is a parameter and its state an arbitrary type, so the facts here hold for every
stream cipher of this shape: `byteAt_xorWords` describes each byte of the result
and `xorWords_xorWords` says that running the stream twice undoes it.
-/

namespace Bytes

variable {σ : Type} (next : σ → σ × UInt16)

/-- The generator advanced by `n` words whose values are thrown away. -/
def skipWords : Nat → σ → σ
  | 0, state => state
  | n + 1, state => skipWords n (next state).1

/-- XOR at most `n` words from `off` on, stopping early where a word would not
fit in `size` bytes. -/
def xorWords (size : Nat) : Nat → Nat → σ → List UInt8 → List UInt8
  | 0, _, _, buf => buf
  | n + 1, off, state, buf =>
      if off + 1 ≥ size then buf
      else
        xorWords size n (off + 2) (next state).1
          (writeLE16 buf off (readLE16 buf off ^^^ (next state).2))

/-- Byte `j` of the word stream started at `state`. -/
def keyByte (state : σ) (j : Nat) : UInt8 :=
  if j % 2 = 0 then loByte (next (skipWords next (j / 2) state)).2
  else hiByte (next (skipWords next (j / 2) state)).2

theorem keyByte_zero (state : σ) : keyByte next state 0 = loByte (next state).2 := by
  simp [keyByte, skipWords]

theorem keyByte_one (state : σ) : keyByte next state 1 = hiByte (next state).2 := by
  simp [keyByte, skipWords]

theorem keyByte_add_two (state : σ) (j : Nat) :
    keyByte next state (j + 2) = keyByte next (next state).1 j := by
  simp only [keyByte, show (j + 2) / 2 = j / 2 + 1 by omega, skipWords, Nat.add_mod_right]

@[simp] theorem length_xorWords (size n off : Nat) (state : σ) (buf : List UInt8) :
    (xorWords next size n off state buf).length = buf.length := by
  induction n generalizing off state buf with
  | zero => rfl
  | succ n ih =>
    rw [xorWords]
    split
    · rfl
    · rw [ih, length_writeLE16]

/-- The loop is a stream cipher: it XORs byte `off + j` with byte `j` of the
key stream and leaves every other byte alone. -/
theorem byteAt_xorWords {size n off : Nat} {state : σ} {buf : List UInt8}
    (hs : off + 2 * n ≤ size) (hb : size ≤ buf.length) (i : Nat) :
    byteAt (xorWords next size n off state buf) i =
      if off ≤ i ∧ i < off + 2 * n then byteAt buf i ^^^ keyByte next state (i - off)
      else byteAt buf i := by
  induction n generalizing off state buf with
  | zero => rw [if_neg (by omega)]; rfl
  | succ n ih =>
    rw [xorWords, if_neg (by omega), ih (by omega) (by simpa using hb),
      byteAt_writeLE16 _ (by omega), loByte_xor, hiByte_xor, readLE16, loByte_word, hiByte_word]
    rcases Nat.lt_trichotomy i off with h | h | h
    · rw [if_neg (by omega), if_neg (by omega), if_neg (by omega), if_neg (by omega)]
    · rw [if_neg (by omega), if_pos h, if_pos (by omega), h, Nat.sub_self, keyByte_zero]
    · by_cases h1 : i = off + 1
      · rw [if_neg (by omega), if_neg (by omega), if_pos h1, if_pos (by omega), h1,
          show off + 1 - off = 1 by omega, keyByte_one]
      · -- past the first word the rest of the stream is that of the next state
        rw [if_neg (by omega : ¬ i = off), if_neg h1,
          show i - off = (i - (off + 2)) + 2 by omega, keyByte_add_two]
        by_cases hd : i < off + 2 * (n + 1)
        · rw [if_pos (by omega), if_pos (by omega)]
        · rw [if_neg (by omega), if_neg (by omega)]

/-- Bytes outside the words of the loop are untouched. -/
theorem byteAt_xorWords_outside {size n off : Nat} {state : σ} {buf : List UInt8}
    (hs : off + 2 * n ≤ size) (hb : size ≤ buf.length) {i : Nat}
    (hi : i < off ∨ off + 2 * n ≤ i) :
    byteAt (xorWords next size n off state buf) i = byteAt buf i := by
  rw [byteAt_xorWords next hs hb, if_neg (by omega)]

/-- Running the stream twice gives the buffer back. -/
theorem xorWords_xorWords {size n off : Nat} {state : σ} {buf : List UInt8}
    (hs : off + 2 * n ≤ size) (hb : size ≤ buf.length) :
    xorWords next size n off state (xorWords next size n off state buf) = buf := by
  refine ext_byteAt (by simp) fun i _ => ?_
  rw [byteAt_xorWords next hs (by simpa using hb), byteAt_xorWords next hs hb]
  by_cases h : off ≤ i ∧ i < off + 2 * n
  · rw [if_pos h, if_pos h, xor_xor_cancel]
  · rw [if_neg h, if_neg h]

end Bytes
