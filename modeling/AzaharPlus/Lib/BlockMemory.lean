import Mathlib.Data.Set.Function
import AzaharPlus.Lib.Bytes

/-!
# Byte-addressed memory

A memory gives every address a byte.  Programs read and write it in blocks; what a write
leaves alone is said with `Set.EqOn` over the addresses outside its block
(`eqOn_writeBlock`), and a read only depends on its own addresses (`readBlock_congr`).
-/

namespace BlockMemory

open Bytes

/-- A byte for every address. -/
abbrev Memory := Nat → UInt8

/-- The `n` bytes from `addr` on. -/
def readBlock (m : Memory) (addr n : Nat) : List UInt8 := (List.range n).map fun i => m (addr + i)

/-- The memory with the first `n` bytes of `data` from `addr` on. -/
def writeBlock (m : Memory) (addr : Nat) (data : List UInt8) (n : Nat) : Memory := fun a =>
  if addr ≤ a ∧ a < addr + n then byteAt data (a - addr) else m a

@[simp] theorem length_readBlock (m : Memory) (addr n : Nat) : (readBlock m addr n).length = n := by
  simp [readBlock]

theorem byteAt_readBlock (m : Memory) (addr : Nat) {n i : Nat} (hi : i < n) :
    byteAt (readBlock m addr n) i = m (addr + i) := by
  rw [byteAt_eq_getElem (by simpa using hi)]
  simp [readBlock]

/-- A read depends on the addresses of its block only. -/
theorem readBlock_congr {m m' : Memory} {addr n : Nat}
    (h : Set.EqOn m' m (Set.Ico addr (addr + n))) : readBlock m' addr n = readBlock m addr n := by
  refine List.map_congr_left fun i hi => h ⟨by omega, ?_⟩
  have := List.mem_range.1 hi
  omega

/-- A block that is written is read back. -/
theorem readBlock_writeBlock (m : Memory) (addr : Nat) {data : List UInt8} {n : Nat}
    (h : data.length = n) : readBlock (writeBlock m addr data n) addr n = data := by
  subst h
  refine ext_byteAt (by simp) fun i hi => ?_
  rw [length_readBlock] at hi
  rw [byteAt_readBlock _ _ hi, writeBlock, if_pos (by omega), Nat.add_sub_cancel_left]

/-- A part of a block that is written is read back. -/
theorem readBlock_writeBlock_part (m : Memory) (addr : Nat) {data : List UInt8} {n k l : Nat}
    (h : data.length = n) (hkl : k + l ≤ n) :
    readBlock (writeBlock m addr data n) (addr + k) l = (data.drop k).take l := by
  have hlen : ((data.drop k).take l).length = l := by simp; omega
  refine ext_byteAt (by rw [length_readBlock, hlen]) fun i hi => ?_
  rw [length_readBlock] at hi
  rw [byteAt_readBlock _ _ hi, writeBlock, if_pos (by omega), byteAt_eq_getElem (by omega),
    byteAt_eq_getElem (by omega), List.getElem_take, List.getElem_drop]
  congr 1
  omega

/-- A write changes its block only. -/
theorem eqOn_writeBlock {m : Memory} {addr n : Nat} {data : List UInt8} {A : Set Nat}
    (h : ∀ a ∈ A, a < addr ∨ addr + n ≤ a) : Set.EqOn (writeBlock m addr data n) m A := by
  intro a ha
  have := h a ha
  rw [writeBlock, if_neg (by omega)]

end BlockMemory
