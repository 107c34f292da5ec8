import Mathlib.Data.List.Pairwise
import Mathlib.Data.List.TakeDrop

/-!
# Streams that arrive in pieces

A machine that is fed a sequence piece by piece ends in a state that depends on the sequence only,
once each piece takes it from the state after a prefix to the state after the longer prefix.  What it
puts out is often a function of each entry and its position, by the region the position is in.

* `foldl_pieces` — the state after all pieces;
* `take_add_mapIdx` — a positionwise output, one stretch further;
* `Apart.at_eq_some` — a position of one of several disjoint regions is in no other.
-/

namespace AzaharPlus.Lib.Streams

variable {σ α β ρ : Type}

/-! ## Pieces -/

/-- `piece` is what follows the first `n` entries of `s`. -/
def PieceAt (s : List α) (n : Nat) (piece : List α) : Prop := piece <+: s.drop n

theorem PieceAt.length_le {s piece : List α} {n : Nat} (h : PieceAt s n piece) :
    piece.length ≤ s.length - n := by
  have hle := List.IsPrefix.length_le h
  rwa [List.length_drop] at hle

theorem PieceAt.take_eq {s piece : List α} {n : Nat} (h : PieceAt s n piece) {t : Nat}
    (ht : t ≤ piece.length) : piece.take t = (s.drop n).take t := by
  obtain ⟨rest, hrest⟩ := h
  rw [← hrest, List.take_append_of_le_length ht]

theorem PieceAt.drop {s piece : List α} {n : Nat} (h : PieceAt s n piece) (t : Nat)
    (ht : t ≤ piece.length) : PieceAt s (n + t) (piece.drop t) := by
  obtain ⟨rest, hrest⟩ := h
  refine ⟨rest, ?_⟩
  rw [← List.drop_drop, ← hrest, List.drop_append_of_le_length ht]

theorem PieceAt.take_append {s piece : List α} {n : Nat} (h : PieceAt s n piece) {t : Nat}
    (ht : t ≤ piece.length) : s.take n ++ piece.take t = s.take (n + t) := by
  rw [h.take_eq ht, List.take_add]

theorem foldl_pieces_from {step : σ → List α → σ} {at_ : Nat → σ} {s : List α}
    (hstep : ∀ n piece, PieceAt s n piece → step (at_ n) piece = at_ (n + piece.length)) :
    ∀ (pieces : List (List α)) (n : Nat), PieceAt s n pieces.flatten →
      pieces.foldl step (at_ n) = at_ (n + pieces.flatten.length) := by
  intro pieces
  induction pieces with
  | nil => intro n _; rfl
  | cons piece pieces ih =>
    intro n h
    rw [List.flatten_cons] at h
    have hpiece : PieceAt s n piece := (List.prefix_append _ _).trans h
    have hrest : PieceAt s (n + piece.length) pieces.flatten := by
      have hdrop := h.drop piece.length (by simp)
      rwa [List.drop_left] at hdrop
    rw [List.foldl_cons, hstep n piece hpiece, ih _ hrest, List.flatten_cons, List.length_append,
      Nat.add_assoc]

/-- The pieces of a sequence take the machine from the state at its start to the state at its end. -/
theorem foldl_pieces {step : σ → List α → σ} {at_ : Nat → σ} {s : List α}
    (hstep : ∀ n piece, PieceAt s n piece → step (at_ n) piece = at_ (n + piece.length))
    {pieces : List (List α)} (h : pieces.flatten = s) : pieces.foldl step (at_ 0) = at_ s.length := by
  have hrun := foldl_pieces_from hstep pieces 0 (by rw [h, PieceAt]; exact List.prefix_rfl)
  rwa [h, Nat.zero_add] at hrun

/-! ## Positionwise outputs -/

/-- The output is what was put out, and the entries of the next stretch under their positions. -/
theorem take_add_mapIdx (f : Nat → α → β) (s : List α) (n t : Nat) :
    (s.mapIdx f).take (n + t) =
      (s.mapIdx f).take n ++ ((s.drop n).take t).mapIdx fun i a => f (n + i) a := by
  rw [List.take_add]
  congr 1
  apply List.ext_getElem?
  intro i
  by_cases hi : i < t
  · simp [List.getElem?_take_of_lt hi]
  · simp [List.getElem?_take_eq_none (Nat.le_of_not_lt hi)]

/-- Entries that the output repeats. -/
theorem mapIdx_eq_self {f : Nat → α → α} {l : List α} (h : ∀ i < l.length, ∀ a, f i a = a) :
    l.mapIdx f = l := by
  apply List.ext_getElem (by simp)
  intro i _ hi
  rw [List.getElem_mapIdx, h i hi]

theorem mapIdx_congr {f g : Nat → α → β} {l : List α} (h : ∀ i < l.length, ∀ a, f i a = g i a) :
    l.mapIdx f = l.mapIdx g := by
  apply List.ext_getElem (by simp)
  intro i hi _
  rw [List.length_mapIdx] at hi
  rw [List.getElem_mapIdx, List.getElem_mapIdx, h i hi]

/-! ## Regions -/

section Regions

variable (start stop : ρ → Nat)

/-- The position is in the region. -/
def Covers (r : ρ) (p : Nat) : Prop := start r ≤ p ∧ p < stop r

instance (r : ρ) (p : Nat) : Decidable (Covers start stop r p) :=
  inferInstanceAs (Decidable (_ ∧ _))

/-- No two of the regions share a position. -/
def Apart (l : List ρ) : Prop := l.Pairwise fun r r' => stop r ≤ start r' ∨ stop r' ≤ start r

instance (l : List ρ) : Decidable (Apart start stop l) :=
  inferInstanceAs (Decidable (l.Pairwise _))

/-- The region that a position is in. -/
def regionAt (l : List ρ) (p : Nat) : Option ρ := l.find? fun r => decide (Covers start stop r p)

variable {start stop}

theorem Apart.stop_le {l : List ρ} (h : Apart start stop l) {r r' : ρ} (hr : r ∈ l) (hr' : r' ∈ l)
    (hne : r ≠ r') : stop r ≤ start r' ∨ stop r' ≤ start r := by
  have : Std.Symm fun a b => stop a ≤ start b ∨ stop b ≤ start a := ⟨fun _ _ => Or.symm⟩
  exact List.Pairwise.forall h hr hr' hne

theorem Apart.eq_of_covers {l : List ρ} (h : Apart start stop l) {r r' : ρ} {p : Nat} (hr : r ∈ l)
    (hr' : r' ∈ l) (hp : Covers start stop r p) (hp' : Covers start stop r' p) : r = r' := by
  by_contra hne
  obtain ⟨h₁, h₂⟩ := hp
  obtain ⟨h₃, h₄⟩ := hp'
  rcases h.stop_le hr hr' hne with hle | hle <;> omega

/-- A position of one of the regions is in no other. -/
theorem Apart.at_eq_some {l : List ρ} (h : Apart start stop l) {r : ρ} {p : Nat} (hr : r ∈ l)
    (hp : Covers start stop r p) : regionAt start stop l p = some r := by
  obtain ⟨r', hr'⟩ : ∃ r', regionAt start stop l p = some r' :=
    Option.isSome_iff_exists.mp (List.find?_isSome.mpr ⟨r, hr, decide_eq_true hp⟩)
  have hcovers : Covers start stop r' p := of_decide_eq_true (List.find?_some hr' : _)
  rw [hr', h.eq_of_covers (List.mem_of_find?_eq_some hr') hr hcovers hp]

theorem regionAt_eq_none {l : List ρ} {p : Nat} (h : ∀ r ∈ l, ¬ Covers start stop r p) :
    regionAt start stop l p = none :=
  List.find?_eq_none.mpr fun r hr => by simpa using h r hr

end Regions

end AzaharPlus.Lib.Streams
