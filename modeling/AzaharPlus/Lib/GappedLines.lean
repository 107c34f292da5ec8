import Mathlib.Order.Monotone.Basic
import Mathlib.Tactic.Ring
import AzaharPlus.Lib.BlockMemory

/-!
# Lines with gaps

A stream of bytes that is laid out in lines of `width` bytes, each followed by `gap` bytes that do
not belong to it.

* `place_add`, `place_next` — the place advances by bytes in a line, and over the gap behind it.
* `place_strictMono` — different bytes have different places.
* `places_below_iff` — the whole lines of a stream contain it when there is nothing behind them.
* `CopiedUpTo.advance` — copying a block of both streams.
-/

namespace GappedLines

/-- Where a byte of the stream lies. -/
def place (width gap k : Nat) : Nat := k / width * (width + gap) + k % width

section Place

variable {width : Nat} (gap : Nat)

theorem place_of_lt {k : Nat} (h : k < width) : place width gap k = k := by
  rw [place, Nat.div_eq_of_lt h, Nat.mod_eq_of_lt h, Nat.zero_mul, Nat.zero_add]

/-- The quotient and the remainder in the same line. -/
theorem div_mod_add {k i : Nat} (h : k % width + i < width) :
    (k + i) / width = k / width ∧ (k + i) % width = k % width + i := by
  have hsplit : k + i = width * (k / width) + (k % width + i) := by
    rw [← Nat.add_assoc, Nat.div_add_mod]
  have hpos : 0 < width := Nat.lt_of_le_of_lt (Nat.zero_le _) h
  constructor
  · rw [hsplit, Nat.mul_add_div hpos, Nat.div_eq_of_lt h, Nat.add_zero]
  · rw [hsplit, Nat.mul_add_mod, Nat.mod_eq_of_lt h]

/-- In a line the bytes lie side by side. -/
theorem place_add {k i : Nat} (h : k % width + i < width) :
    place width gap (k + i) = place width gap k + i := by
  obtain ⟨hdiv, hmod⟩ := div_mod_add h
  rw [place, place, hdiv, hmod, Nat.add_assoc]

/-- Behind the last byte of a line comes the gap. -/
theorem place_next (hpos : 0 < width) {k c : Nat} (h : k % width + c = width) :
    place width gap (k + c) = place width gap k + c + gap ∧ (k + c) % width = 0 := by
  have hsplit : k + c = width * (k / width + 1) := by
    rw [Nat.mul_succ, ← h, ← Nat.add_assoc, h, Nat.div_add_mod]
  have hdiv : (k + c) / width = k / width + 1 := by
    rw [hsplit, Nat.mul_div_cancel_left _ hpos]
  have hmod : (k + c) % width = 0 := by
    rw [hsplit, Nat.mul_mod_right]
  refine ⟨?_, hmod⟩
  rw [place, place, hdiv, hmod, Nat.succ_mul]
  omega

/-- The bytes of a line. -/
theorem place_line (q : Nat) {i : Nat} (h : i < width) :
    place width gap (width * q + i) = q * (width + gap) + i := by
  have hpos : 0 < width := Nat.lt_of_le_of_lt (Nat.zero_le _) h
  rw [place, Nat.mul_add_div hpos, Nat.div_eq_of_lt h, Nat.add_zero, Nat.mul_add_mod,
    Nat.mod_eq_of_lt h]

/-- Different bytes have different places, in their order. -/
theorem place_strictMono (hpos : 0 < width) : StrictMono (place width gap) := by
  refine strictMono_nat_of_lt_succ fun k => ?_
  have hmod := Nat.mod_lt k hpos
  by_cases hlast : k % width + 1 = width
  · rw [(place_next gap hpos hlast).1]
    omega
  · rw [place_add gap (by omega)]
    exact Nat.lt_succ_self _

/-- The whole lines of a stream of `n` bytes contain all its bytes exactly when it has no bytes
behind them. -/
theorem places_below_iff (hpos : 0 < width) {n : Nat} :
    (∀ k < n, place width gap k < n / width * (width + gap)) ↔ width ∣ n := by
  constructor
  · intro hall
    by_contra hnot
    have hmod : 0 < n % width := Nat.pos_of_ne_zero fun hzero => hnot (Nat.dvd_of_mod_eq_zero hzero)
    have hle := Nat.mod_le n width
    have hline : (n - n % width) / width = n / width := by
      rw [Nat.div_eq_sub_mod_div (m := n)]
    have hbehind := hall (n - n % width) (by omega)
    rw [place, hline] at hbehind
    omega
  · rintro ⟨q, rfl⟩ k hk
    have hline : k / width + 1 ≤ q := Nat.div_lt_of_lt_mul hk
    have hmod := Nat.mod_lt k hpos
    rw [Nat.mul_div_cancel_left _ hpos, place]
    calc k / width * (width + gap) + k % width
        < k / width * (width + gap) + (width + gap) := by omega
      _ = (k / width + 1) * (width + gap) := by ring
      _ ≤ q * (width + gap) := Nat.mul_le_mul_right _ hline

end Place

/-! ## Copying between two layouts -/

open Bytes BlockMemory

/-- The first bytes of a stream have been copied from their places in the one layout to those in the
other, and nothing else has changed. -/
structure CopiedUpTo (m m' : Memory) (src dst : Nat) (inPlace outPlace : Nat → Nat) (done : Nat) :
    Prop where
  copied : ∀ k < done, m' (dst + outPlace k) = m (src + inPlace k)
  kept : ∀ a, (∀ k < done, a ≠ dst + outPlace k) → m' a = m a

theorem copiedUpTo_zero (m : Memory) (src dst : Nat) (inPlace outPlace : Nat → Nat) :
    CopiedUpTo m m src dst inPlace outPlace 0 :=
  ⟨fun k hk => absurd hk (Nat.not_lt_zero k), fun _ _ => rfl⟩

/-- The next bytes are copied in one block, when they lie side by side in both layouts and have not
been written over. -/
theorem CopiedUpTo.advance {m m' : Memory} {src dst : Nat} {inPlace outPlace : Nat → Nat}
    {done : Nat} (h : CopiedUpTo m m' src dst inPlace outPlace done) (hmono : StrictMono outPlace)
    {c : Nat} (hin : ∀ i < c, inPlace (done + i) = inPlace done + i)
    (hout : ∀ i < c, outPlace (done + i) = outPlace done + i)
    (hapart : ∀ i < c, ∀ k < done, src + inPlace (done + i) ≠ dst + outPlace k) :
    CopiedUpTo m (writeBlock m' (dst + outPlace done) (readBlock m' (src + inPlace done) c) c)
      src dst inPlace outPlace (done + c) := by
  constructor
  · intro k hk
    by_cases hold : k < done
    · have hbelow := hmono hold
      rw [writeBlock, if_neg (by omega)]
      exact h.copied k hold
    · obtain ⟨i, rfl⟩ := Nat.exists_eq_add_of_le (Nat.le_of_not_lt hold)
      have hi : i < c := by omega
      have hindex : dst + outPlace (done + i) - (dst + outPlace done) = i := by
        rw [hout i hi]
        omega
      rw [writeBlock, if_pos (by rw [hout i hi]; omega), hindex, byteAt_readBlock _ _ hi,
        Nat.add_assoc, ← hin i hi]
      exact h.kept _ fun k hk => hapart i hi k hk
  · intro a ha
    have houtside : ¬ (dst + outPlace done ≤ a ∧ a < dst + outPlace done + c) := by
      rintro ⟨hlower, hupper⟩
      have hi : a - (dst + outPlace done) < c := by omega
      refine ha (done + (a - (dst + outPlace done))) (by omega) ?_
      rw [hout _ hi]
      omega
    rw [writeBlock, if_neg houtside]
    exact h.kept a fun k hk => ha k (by omega)

end GappedLines
