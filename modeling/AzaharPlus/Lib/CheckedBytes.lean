import AzaharPlus.Lib.Bytes

/-!
# Byte buffers with bounds

The accesses of `Bytes` as a program makes them that has no bounds checks: they are defined inside
the buffer only, and `none` stands for one that leaves it.

* `checkedSlice`, `checkedCopy`, `checkedSet` — reading a block, writing one, writing a byte.
* `checkedSlice_eq`, … — inside they are the accesses of `Bytes`.
-/

namespace Bytes

/-- The `n` bytes at `off`, if all are inside. -/
def checkedSlice (b : List UInt8) (off n : Nat) : Option (List UInt8) :=
  if off + n ≤ b.length then some (slice b off n) else none

/-- The block `src` is copied to `off`, if all of it is inside. -/
def checkedCopy (dst : List UInt8) (off : Nat) (src : List UInt8) : Option (List UInt8) :=
  if off + src.length ≤ dst.length then some (memcpy dst off src) else none

/-- One byte is written, if it is inside. -/
def checkedSet (b : List UInt8) (i : Nat) (v : UInt8) : Option (List UInt8) :=
  if i < b.length then some (b.set i v) else none

theorem checkedSlice_eq {b : List UInt8} {off n : Nat} (h : off + n ≤ b.length) :
    checkedSlice b off n = some (slice b off n) := if_pos h

theorem checkedCopy_eq {dst src : List UInt8} {off : Nat} (h : off + src.length ≤ dst.length) :
    checkedCopy dst off src = some (memcpy dst off src) := if_pos h

theorem checkedSet_eq {b : List UInt8} {i : Nat} (v : UInt8) (h : i < b.length) :
    checkedSet b i v = some (b.set i v) := if_pos h

/-- A block copied behind a byte that was written is copied together with it. -/
theorem memcpy_set {dst src : List UInt8} {off : Nat} (v : UInt8) (h : off < dst.length) :
    memcpy (dst.set off v) (off + 1) src = memcpy dst off (v :: src) := by
  have htake : (dst.set off v).take (off + 1) = dst.take off ++ [v] := by
    rw [List.take_add_one, List.take_set_of_le (Nat.le_refl _), List.getElem?_set_self h]
    rfl
  have hdrop : (dst.set off v).drop (off + 1 + src.length) =
      dst.drop (off + (v :: src).length) := by
    rw [List.drop_set_of_lt (by omega), List.length_cons, Nat.add_assoc, Nat.add_comm 1]
  rw [memcpy, memcpy, htake, hdrop, List.append_assoc _ [v], List.singleton_append]

theorem leValue_lt (b : List UInt8) : leValue b < 256 ^ b.length := by
  induction b with
  | nil => exact Nat.one_pos
  | cons x rest ih =>
    have hx := x.toNat_lt
    rw [leValue, List.length_cons, Nat.pow_succ]
    omega

/-- A block in the middle of a buffer that is written as an append. -/
theorem slice_append_middle (a b c : List UInt8) :
    slice (a ++ b ++ c) a.length b.length = b := by
  unfold slice
  rw [List.append_assoc, List.drop_left, List.take_left]

/-- A block that is all in the first part. -/
theorem slice_append_left {a b : List UInt8} {i n : Nat} (h : i + n ≤ a.length) :
    slice (a ++ b) i n = slice a i n := by
  rw [slice, slice, List.drop_append_of_le_length (by omega),
    List.take_append_of_le_length (by rw [List.length_drop]; omega)]

/-- A block in two parts. -/
theorem slice_add (b : List UInt8) (off m n : Nat) :
    slice b off (m + n) = slice b off m ++ slice b (off + m) n := by
  rw [slice, slice, slice, List.take_add, List.drop_drop]

/-- A block of a block. -/
theorem slice_slice {b : List UInt8} {off n i m : Nat} (h : i + m ≤ n) :
    slice (slice b off n) i m = slice b (off + i) m := by
  rw [slice, slice, slice, List.drop_take, List.take_take, List.drop_drop,
    Nat.min_eq_left (by omega)]

/-- A block that begins in the first part. -/
theorem slice_append {a b : List UInt8} {off m n : Nat} (h : off + m = a.length) :
    slice (a ++ b) off (m + n) = slice a off m ++ slice b 0 n := by
  rw [slice_add, slice_append_left (Nat.le_of_eq h), h]
  unfold slice
  rw [List.drop_left, List.drop_zero]

/-- A block from the start of the second part on. -/
theorem slice_append_right {a b : List UInt8} {off i n : Nat} (h : off = a.length + i) :
    slice (a ++ b) off n = slice b i n := by
  rw [slice, slice, h, List.drop_length_add_append]

/-- Two blocks copied one behind the other. -/
theorem memcpy_memcpy {dst x y : List UInt8} {off : Nat} (h : off ≤ dst.length) :
    memcpy (memcpy dst off x) (off + x.length) y = memcpy dst off (x ++ y) := by
  have hlength : (dst.take off ++ x).length = off + x.length := by
    rw [List.length_append, List.length_take, Nat.min_eq_left h]
  rw [memcpy, memcpy, memcpy, ← hlength, List.take_left, List.drop_length_add_append,
    List.drop_drop, hlength, List.length_append, List.append_assoc, Nat.add_assoc]
  simp

end Bytes
