import Mathlib.Data.List.Range
import Mathlib.Logic.Function.Basic

/-!
# Memory behind a translation of addresses

Addresses lead to places or nowhere, several addresses possibly to one place.  Reading where nothing
is gives a default, writing there is lost.

* `putBytes_append`, `seeBytes_add` — accesses that follow each other are one;
* `putBytes_of_ne`, `putBytes_of_last` — what a write leaves at a place;
* `seeBytes_putBytes` — a write elsewhere does not show.
-/

namespace AzaharPlus.Lib.MappedMemory

variable {P β : Type}

/-! ## Reading -/

/-- The byte seen at an address. -/
def see (z : β) (t : Nat → Option P) (view : P → β) (a : Nat) : β := (t a).elim z view

/-- The `n` bytes seen from an address on. -/
def seeBytes (z : β) (t : Nat → Option P) (view : P → β) (a n : Nat) : List β :=
  (List.range n).map fun i => see z t view (a + i)

@[simp] theorem length_seeBytes (z : β) (t : Nat → Option P) (view : P → β) (a n : Nat) :
    (seeBytes z t view a n).length = n := by
  simp [seeBytes]

theorem seeBytes_add (z : β) (t : Nat → Option P) (view : P → β) (a k l : Nat) :
    seeBytes z t view a (k + l) = seeBytes z t view a k ++ seeBytes z t view (a + k) l := by
  simp only [seeBytes, List.range_add, List.map_append, List.map_map]
  congr 1
  refine List.map_congr_left fun i _ => ?_
  rw [Function.comp_apply, Nat.add_assoc]

/-- A read depends on the places of its addresses only. -/
theorem seeBytes_congr {z : β} {t : Nat → Option P} {view view' : P → β} {a n : Nat}
    (h : ∀ i < n, ∀ p, t (a + i) = some p → view' p = view p) :
    seeBytes z t view' a n = seeBytes z t view a n := by
  refine List.map_congr_left fun i hi => ?_
  unfold see
  cases hp : t (a + i) with
  | none => rfl
  | some p => exact h i (List.mem_range.1 hi) p hp

/-! ## Writing -/

variable [DecidableEq P]

/-- One byte is written. -/
def put (t : Nat → Option P) (view : P → β) (a : Nat) (b : β) : P → β :=
  (t a).elim view fun p => Function.update view p b

/-- Bytes are written from an address on, the first one first. -/
def putBytes (t : Nat → Option P) : (P → β) → Nat → List β → P → β
  | view, _, [] => view
  | view, a, b :: bs => putBytes t (put t view a b) (a + 1) bs

theorem putBytes_append (t : Nat → Option P) (view : P → β) (a : Nat) (d₁ d₂ : List β) :
    putBytes t view a (d₁ ++ d₂) = putBytes t (putBytes t view a d₁) (a + d₁.length) d₂ := by
  induction d₁ generalizing view a with
  | nil => rfl
  | cons b bs ih =>
    rw [List.cons_append, putBytes, ih, putBytes, List.length_cons, Nat.add_assoc,
      Nat.add_comm 1]

theorem put_of_ne {t : Nat → Option P} {a : Nat} {p : P} (h : t a ≠ some p) (view : P → β) (b : β) :
    put t view a b p = view p := by
  unfold put
  cases hq : t a with
  | none => rfl
  | some q =>
    have hne : p ≠ q := fun heq => h (by rw [hq, heq])
    exact Function.update_of_ne hne b view

/-- A place that no address of the write leads to keeps its byte. -/
theorem putBytes_of_ne {t : Nat → Option P} {a : Nat} {data : List β} {p : P}
    (h : ∀ i < data.length, t (a + i) ≠ some p) (view : P → β) :
    putBytes t view a data p = view p := by
  induction data generalizing view a with
  | nil => rfl
  | cons b bs ih =>
    have hrest : ∀ i < bs.length, t (a + 1 + i) ≠ some p := by
      intro i hi
      have := h (i + 1) (Nat.succ_lt_succ hi)
      rwa [Nat.add_comm i 1, ← Nat.add_assoc] at this
    rw [putBytes, ih hrest]
    exact put_of_ne (h 0 (Nat.succ_pos _)) view b

/-- A place has the byte of the last address that leads to it. -/
theorem putBytes_of_last {t : Nat → Option P} {a i : Nat} {data : List β} {p : P} {b : β}
    (hb : data[i]? = some b) (hp : t (a + i) = some p)
    (h : ∀ j < data.length, i < j → t (a + j) ≠ some p) (view : P → β) :
    putBytes t view a data p = b := by
  obtain ⟨hi, hget⟩ := List.getElem?_eq_some_iff.1 hb
  have hsplit : data = data.take i ++ b :: data.drop (i + 1) := by
    conv_lhs => rw [← List.take_append_drop i data, List.drop_eq_getElem_cons hi, hget]
  have hlen : (data.take i).length = i := List.length_take_of_le hi.le
  rw [hsplit, putBytes_append, hlen, putBytes, putBytes_of_ne, put, hp]
  · exact Function.update_self _ _ _
  · intro j hj
    rw [List.length_drop] at hj
    have := h (i + 1 + j) (by omega) (by omega)
    rwa [Nat.add_assoc a i 1, Nat.add_assoc a (i + 1) j]

/-- A read does not see a write to other places. -/
theorem seeBytes_putBytes {z : β} {t t' : Nat → Option P} {a a' n : Nat} {data : List β}
    (h : ∀ i < n, ∀ j < data.length, ∀ p, t (a + i) = some p → t' (a' + j) ≠ some p)
    (view : P → β) :
    seeBytes z t (putBytes t' view a' data) a n = seeBytes z t view a n :=
  seeBytes_congr fun i hi p hp => putBytes_of_ne (fun j hj => h i hi j hj p hp) view

end AzaharPlus.Lib.MappedMemory
