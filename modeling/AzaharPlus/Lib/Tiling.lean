import Mathlib

/-!
# Tilings of an address range

An address space is often kept as a list of areas, each with the attributes that
all of it shares.  Here such a list is a list of `Tile`s: `Tiles lo hi l` says
that `l` covers `[lo, hi)` by consecutive non-empty tiles, and `valueAt l a` is
what the list says about the address `a`.  The attributes of a tile may move with
the address (a pointer into some buffer does), so they are acted on by `ℕ`.

* Cutting a tile in two and joining two tiles that continue each other change no
  value (`valueAt_cut`, `valueAt_join`).
* `Coalesced l` says that no two neighbours of `l` continue each other.
* `changeRange` walks over the tiles of a range, changes each of them and joins it
  with its neighbours on the spot.  `changeRange_spec` says that it changes the
  values of the range and nothing else, and `coalesced_changeRange` when the
  result is coalesced again.
-/

namespace Tiling

/-- A tile: the addresses from `base` on for `size`, and the value at `base`. -/
structure Tile (α : Type*) where
  base : Nat
  size : Nat
  val : α
  deriving DecidableEq, Repr

variable {α : Type*}

/-- The first address behind a tile. -/
def Tile.stop (t : Tile α) : Nat := t.base + t.size

/-- One tile in place of two. -/
def Tile.join (t u : Tile α) : Tile α := { t with size := t.size + u.size }

/-- A tile with its value changed. -/
def Tile.map (f : α → α) (t : Tile α) : Tile α := { t with val := f t.val }

/-- The list covers `[lo, hi)` by consecutive non-empty tiles. -/
def Tiles : Nat → Nat → List (Tile α) → Prop
  | lo, hi, [] => lo = hi
  | lo, hi, t :: l => t.base = lo ∧ 0 < t.size ∧ Tiles (lo + t.size) hi l

@[simp] theorem tiles_nil {lo hi : Nat} : Tiles lo hi ([] : List (Tile α)) ↔ lo = hi := Iff.rfl

@[simp] theorem tiles_cons {lo hi : Nat} {t : Tile α} {l : List (Tile α)} :
    Tiles lo hi (t :: l) ↔ t.base = lo ∧ 0 < t.size ∧ Tiles (lo + t.size) hi l := Iff.rfl

theorem Tiles.le {l : List (Tile α)} : ∀ {lo hi : Nat}, Tiles lo hi l → lo ≤ hi := by
  induction l with
  | nil => intro lo hi h; exact Nat.le_of_eq h
  | cons t l ih =>
    intro lo hi h
    have := ih h.2.2
    omega

@[simp] theorem tiles_append {l₁ l₂ : List (Tile α)} : ∀ {lo hi : Nat},
    Tiles lo hi (l₁ ++ l₂) ↔ ∃ mid, Tiles lo mid l₁ ∧ Tiles mid hi l₂ := by
  induction l₁ with
  | nil => intro lo hi; simp
  | cons t l ih => intro lo hi; simp [ih, and_assoc]

/-- A list of tiles that ends at `hi` determines where it starts. -/
theorem Tiles.start_unique {l : List (Tile α)} {lo lo' hi : Nat} (h : Tiles lo hi l)
    (h' : Tiles lo' hi l) : lo = lo' := by
  cases l with
  | nil => exact h.trans h'.symm
  | cons t l => exact h.1.symm.trans h'.1

/-- Every tile lies inside the range. -/
theorem Tiles.bounds {l : List (Tile α)} {t : Tile α} : ∀ {lo hi : Nat},
    Tiles lo hi l → t ∈ l → lo ≤ t.base ∧ t.stop ≤ hi ∧ 0 < t.size := by
  induction l with
  | nil => intro lo hi _ ht; simp at ht
  | cons u l ih =>
    intro lo hi h ht
    rcases List.mem_cons.1 ht with rfl | ht
    · have hle := h.2.2.le
      rw [Tile.stop, h.1]
      exact ⟨le_rfl, hle, h.2.1⟩
    · obtain ⟨h₁, h₂⟩ := ih h.2.2 ht
      exact ⟨by omega, h₂⟩

/-- Two tiles with a common address are the same. -/
theorem Tiles.eq_of_mem {l : List (Tile α)} {t u : Tile α} {a : Nat} : ∀ {lo hi : Nat},
    Tiles lo hi l → t ∈ l → u ∈ l → t.base ≤ a → a < t.stop → u.base ≤ a → a < u.stop → t = u := by
  induction l with
  | nil => intro lo hi _ ht; simp at ht
  | cons v l ih =>
    intro lo hi h ht hu h₁ h₂ h₃ h₄
    have hbehind : ∀ w ∈ l, v.stop ≤ w.base := by
      intro w hw
      rw [Tile.stop, h.1]
      exact (h.2.2.bounds hw).1
    rcases List.mem_cons.1 ht with rfl | htl <;> rcases List.mem_cons.1 hu with rfl | hul
    · rfl
    · have hlo := hbehind u hul
      omega
    · have hlo := hbehind t htl
      omega
    · exact ih h.2.2 htl hul h₁ h₂ h₃ h₄

/-! ## Values -/

/-- The values of a list in which those of the addresses from `lo` to `stop` are changed. -/
def changedOn (f : α → α) (lo stop : Nat) (value : Nat → Option α) (a : Nat) : Option α :=
  if lo ≤ a ∧ a < stop then (value a).map f else value a

theorem changedOn_trans {f : α → α} {lo mid stop : Nat} (h₁ : lo ≤ mid) (h₂ : mid ≤ stop)
    (value : Nat → Option α) :
    changedOn f mid stop (changedOn f lo mid value) = changedOn f lo stop value := by
  funext a
  unfold changedOn
  split_ifs <;> first | rfl | omega

/-- Where the values are fixed already nothing changes. -/
theorem changedOn_of_fixed {f : α → α} {lo mid stop : Nat} (hm : mid ≤ stop)
    {value : Nat → Option α} (h : ∀ a, mid ≤ a → a < stop → (value a).map f = value a) :
    changedOn f lo stop value = changedOn f lo mid value := by
  funext a
  unfold changedOn
  split_ifs
  · rfl
  · exact h a (by omega) (by omega)
  · omega
  · rfl

section Values

variable [AddAction ℕ α]

/-- What a list of tiles says about an address. -/
def valueAt : List (Tile α) → Nat → Option α
  | [], _ => none
  | t :: l, a =>
      if t.base ≤ a ∧ a < t.stop then some ((a - t.base) +ᵥ t.val) else valueAt l a

/-- The second tile carries on where the first one ends. -/
def Joins (t u : Tile α) : Prop := t.size +ᵥ t.val = u.val

instance [DecidableEq α] (t u : Tile α) : Decidable (Joins t u) :=
  inferInstanceAs (Decidable (_ = _))

/-- No two neighbours carry on from each other. -/
def Coalesced (l : List (Tile α)) : Prop := l.IsChain fun t u => ¬ Joins t u

/-- No two neighbours of a kind carry on from each other. -/
def CoalescedOn (p : α → Prop) (l : List (Tile α)) : Prop :=
  l.IsChain fun t u => p t.val → ¬ Joins t u

theorem coalescedOn_true {l : List (Tile α)} : CoalescedOn (fun _ => True) l ↔ Coalesced l := by
  unfold CoalescedOn Coalesced
  simp only [forall_const]

theorem Coalesced.on {l : List (Tile α)} (h : Coalesced l) (p : α → Prop) : CoalescedOn p l :=
  List.IsChain.imp (fun _ _ hjoins _ => hjoins) h

theorem valueAt_cons_pos {t : Tile α} {a : Nat} (h₁ : t.base ≤ a) (h₂ : a < t.base + t.size)
    (l : List (Tile α)) : valueAt (t :: l) a = some ((a - t.base) +ᵥ t.val) := if_pos ⟨h₁, h₂⟩

theorem valueAt_cons_neg {t : Tile α} {a : Nat} (h : ¬(t.base ≤ a ∧ a < t.base + t.size))
    (l : List (Tile α)) : valueAt (t :: l) a = valueAt l a := if_neg h

theorem valueAt_append (l₁ l₂ : List (Tile α)) (a : Nat) :
    valueAt (l₁ ++ l₂) a = (valueAt l₁ a).or (valueAt l₂ a) := by
  induction l₁ with
  | nil => simp [valueAt]
  | cons t l ih =>
    simp only [List.cons_append, valueAt]
    split
    · simp
    · exact ih

/-- Outside its range a list of tiles says nothing. -/
theorem Tiles.valueAt_eq_none {l : List (Tile α)} {a : Nat} : ∀ {lo hi : Nat},
    Tiles lo hi l → a < lo ∨ hi ≤ a → valueAt l a = none := by
  induction l with
  | nil => intros; rfl
  | cons t l ih =>
    intro lo hi h ha
    have hle := h.2.2.le
    have hb := h.1
    rw [valueAt_cons_neg (by omega)]
    exact ih h.2.2 (by omega)

/-- An address of the range lies in exactly one tile, which gives its value. -/
theorem Tiles.exists_mem {l : List (Tile α)} {a : Nat} : ∀ {lo hi : Nat},
    Tiles lo hi l → lo ≤ a → a < hi →
    ∃ t ∈ l, t.base ≤ a ∧ a < t.stop ∧ valueAt l a = some ((a - t.base) +ᵥ t.val) := by
  induction l with
  | nil => intro lo hi h h₁ h₂; rw [tiles_nil] at h; omega
  | cons t l ih =>
    intro lo hi h h₁ h₂
    by_cases ha : t.base ≤ a ∧ a < t.base + t.size
    · exact ⟨t, List.mem_cons_self, ha.1, ha.2, valueAt_cons_pos ha.1 ha.2 l⟩
    · have hb := h.1
      obtain ⟨u, hu, hlo, hhi, hv⟩ := ih h.2.2 (by omega) h₂
      exact ⟨u, List.mem_cons_of_mem t hu, hlo, hhi, by rw [valueAt_cons_neg ha, hv]⟩

/-- The value at an address of a given tile. -/
theorem Tiles.valueAt_of_mem {l : List (Tile α)} {t : Tile α} {a : Nat} : ∀ {lo hi : Nat},
    Tiles lo hi l → t ∈ l → t.base ≤ a → a < t.stop →
    valueAt l a = some ((a - t.base) +ᵥ t.val) := by
  induction l with
  | nil => intro lo hi _ ht; simp at ht
  | cons u l ih =>
    intro lo hi h ht h₁ h₂
    rcases List.mem_cons.1 ht with rfl | ht
    · exact valueAt_cons_pos h₁ h₂ l
    · have hb := (h.2.2.bounds ht).1
      have hu := h.1
      rw [valueAt_cons_neg (by omega)]
      exact ih h.2.2 ht h₁ h₂

/-! ## Cutting, joining and changing tiles -/

/-- The part of a tile below the offset `n`. -/
def Tile.left (t : Tile α) (n : Nat) : Tile α := { t with size := n }

/-- The part of a tile from the offset `n` on. -/
def Tile.right (t : Tile α) (n : Nat) : Tile α := ⟨t.base + n, t.size - n, n +ᵥ t.val⟩

theorem joins_left_right (t : Tile α) (n : Nat) : Joins (t.left n) (t.right n) := rfl

theorem joins_right_iff {t : Tile α} {n : Nat} (h : n ≤ t.size) (u : Tile α) :
    Joins (t.right n) u ↔ Joins t u := by
  unfold Joins
  rw [Tile.right, ← add_vadd, Nat.sub_add_cancel h]

theorem valueAt_join {t u : Tile α} (hu : u.base = t.stop) (h : Joins t u)
    (l : List (Tile α)) : valueAt (t.join u :: l) = valueAt (t :: u :: l) := by
  funext a
  have hv : u.base ≤ a → (a - t.base) +ᵥ t.val = (a - u.base) +ᵥ u.val := by
    intro ha
    rw [← h, ← add_vadd]
    congr 1
    rw [Tile.stop] at hu
    omega
  have hs : (t.join u).size = t.size + u.size := rfl
  have hb : (t.join u).base = t.base := rfl
  rw [Tile.stop] at hu
  by_cases h₁ : t.base ≤ a ∧ a < t.base + t.size
  · rw [valueAt_cons_pos (by omega) (by omega), valueAt_cons_pos h₁.1 h₁.2]
    rfl
  · rw [valueAt_cons_neg h₁]
    by_cases h₂ : u.base ≤ a ∧ a < u.base + u.size
    · rw [valueAt_cons_pos (by omega) (by omega), valueAt_cons_pos h₂.1 h₂.2, ← hv h₂.1]
      rfl
    · rw [valueAt_cons_neg (by omega), valueAt_cons_neg h₂]

theorem valueAt_cut {t : Tile α} {n : Nat} (hn : n ≤ t.size) (l : List (Tile α)) :
    valueAt (t.left n :: t.right n :: l) = valueAt (t :: l) := by
  rw [← valueAt_join (t := t.left n) (u := t.right n) rfl (joins_left_right t n)]
  congr 2
  simp only [Tile.join, Tile.left, Tile.right]
  rw [Nat.add_sub_cancel' hn]

/-- Two lists that agree on their tails agree behind any front. -/
theorem valueAt_append_congr {l₁ l₂ : List (Tile α)} (h : valueAt l₁ = valueAt l₂)
    (front : List (Tile α)) : valueAt (front ++ l₁) = valueAt (front ++ l₂) := by
  funext a
  rw [valueAt_append, valueAt_append, h]

/-- Changing one tile changes the values of its addresses only. -/
theorem valueAt_set {pre post : List (Tile α)} {c : Tile α} {lo : Nat}
    (h : Tiles lo c.base pre) (v : α) (a : Nat) :
    valueAt (pre ++ { c with val := v } :: post) a =
      if c.base ≤ a ∧ a < c.stop then some ((a - c.base) +ᵥ v)
      else valueAt (pre ++ c :: post) a := by
  by_cases ha : c.base ≤ a ∧ a < c.stop
  · rw [if_pos ha, valueAt_append, h.valueAt_eq_none (Or.inr ha.1), Option.none_or]
    exact valueAt_cons_pos (t := { c with val := v }) ha.1 ha.2 post
  · rw [if_neg ha, valueAt_append, valueAt_append, valueAt_cons_neg (t := c) ha]
    congr 1
    exact valueAt_cons_neg (t := { c with val := v }) ha post

theorem Joins.join_left {t u v : Tile α} (h : Joins t u) : Joins (t.join u) v ↔ Joins u v := by
  unfold Joins at h ⊢
  rw [← h, ← add_vadd, Tile.join, Nat.add_comm]

/-- A change of values that does the same at every address, and that doing twice
is the same as doing once. -/
structure IsUpdate (f : α → α) : Prop where
  vadd : ∀ (n : ℕ) v, f (n +ᵥ v) = n +ᵥ f v
  idem : ∀ v, f (f v) = f v

/-- A tile that carries on from a changed one has the changed value already. -/
theorem IsUpdate.fixed_of_joins {f : α → α} (hf : IsUpdate f) {c n : Tile α}
    (h : Joins (c.map f) n) : f n.val = n.val := by
  have h' : c.size +ᵥ f c.val = n.val := h
  rw [← h', hf.vadd, hf.idem]

/-- Changing one tile is a change on its addresses. -/
theorem valueAt_map {f : α → α} (hf : IsUpdate f) {pre post : List (Tile α)} {c : Tile α}
    {lo : Nat} (h : Tiles lo c.base pre) :
    valueAt (pre ++ c.map f :: post) = changedOn f c.base c.stop (valueAt (pre ++ c :: post)) := by
  funext a
  rw [Tile.map, valueAt_set h, changedOn]
  split
  · next ha =>
      rw [valueAt_append, h.valueAt_eq_none (Or.inr ha.1), Option.none_or,
        valueAt_cons_pos ha.1 ha.2, Option.map_some, hf.vadd]
  · rfl

/-! ## Cutting a list at an address -/

/-- The tiles below an address and those from it on; a tile that has it inside is cut. -/
def cutAt (a : Nat) : List (Tile α) → List (Tile α) × List (Tile α)
  | [] => ([], [])
  | t :: l =>
      if t.stop ≤ a then (t :: (cutAt a l).1, (cutAt a l).2)
      else if t.base < a then ([t.left (a - t.base)], t.right (a - t.base) :: l)
      else ([], t :: l)

theorem cutAt_cons_cases (a : Nat) (t : Tile α) (l : List (Tile α)) :
    (t.stop ≤ a ∧ cutAt a (t :: l) = (t :: (cutAt a l).1, (cutAt a l).2)) ∨
    (t.base < a ∧ a < t.stop ∧
      cutAt a (t :: l) = ([t.left (a - t.base)], t.right (a - t.base) :: l)) ∨
    (a ≤ t.base ∧ a < t.stop ∧ cutAt a (t :: l) = ([], t :: l)) := by
  rw [cutAt]
  by_cases h₁ : t.stop ≤ a
  · exact Or.inl ⟨h₁, if_pos h₁⟩
  · rw [if_neg h₁]
    by_cases h₂ : t.base < a
    · exact Or.inr (Or.inl ⟨h₂, by omega, if_pos h₂⟩)
    · exact Or.inr (Or.inr ⟨by omega, by omega, if_neg h₂⟩)

theorem cutAt_of_le {a lo hi : Nat} {l : List (Tile α)} (h : Tiles lo hi l) (ha : a ≤ lo) :
    cutAt a l = ([], l) := by
  cases l with
  | nil => rfl
  | cons t l =>
    obtain ⟨rfl, hpos, -⟩ := h
    rw [cutAt, if_neg (by rw [Tile.stop]; omega), if_neg (by omega)]

theorem cutAt_append {a lo mid : Nat} {pre : List (Tile α)} (h : Tiles lo mid pre) (ha : mid ≤ a)
    (l : List (Tile α)) : cutAt a (pre ++ l) = (pre ++ (cutAt a l).1, (cutAt a l).2) := by
  induction pre generalizing lo with
  | nil => rfl
  | cons t pre ih =>
    have hs : t.stop ≤ a := by
      have := h.2.2.le
      rw [Tile.stop, h.1]
      omega
    rw [List.cons_append, cutAt, if_pos hs, ih h.2.2]
    rfl

theorem Tiles.cutAt {l : List (Tile α)} {a lo hi : Nat} (h : Tiles lo hi l) (h₁ : lo ≤ a)
    (h₂ : a ≤ hi) : Tiles lo a (Tiling.cutAt a l).1 ∧ Tiles a hi (Tiling.cutAt a l).2 := by
  induction l generalizing lo with
  | nil =>
    obtain rfl : lo = hi := h
    exact ⟨by simp [Tiling.cutAt]; omega, by simp [Tiling.cutAt]; omega⟩
  | cons t l ih =>
    obtain ⟨rfl, hpos, hl⟩ := h
    rcases cutAt_cons_cases a t l with ⟨hs, e⟩ | ⟨hs, hs', e⟩ | ⟨hs, -, e⟩ <;> rw [e]
    · rw [Tile.stop] at hs
      obtain ⟨i₁, i₂⟩ := ih hl hs
      exact ⟨⟨rfl, hpos, i₁⟩, i₂⟩
    · rw [Tile.stop] at hs'
      refine ⟨⟨rfl, by simp [Tile.left]; omega, by simp [Tile.left]; omega⟩,
        ⟨by simp [Tile.right]; omega, by simp [Tile.right]; omega, ?_⟩⟩
      rwa [show a + (t.right (a - t.base)).size = t.base + t.size by
        simp [Tile.right]; omega]
    · obtain rfl : a = t.base := by omega
      exact ⟨rfl, rfl, hpos, hl⟩

theorem valueAt_cutAt (a : Nat) (l : List (Tile α)) :
    valueAt ((cutAt a l).1 ++ (cutAt a l).2) = valueAt l := by
  induction l with
  | nil => rfl
  | cons t l ih =>
    rcases cutAt_cons_cases a t l with ⟨-, e⟩ | ⟨hs, hs', e⟩ | ⟨-, -, e⟩ <;> rw [e]
    · exact valueAt_append_congr ih [t]
    · rw [Tile.stop] at hs'
      exact valueAt_cut (by omega) l
    · rfl

theorem cutAt_snd_of_fst_nil {a : Nat} {l : List (Tile α)} (h : (cutAt a l).1 = []) :
    (cutAt a l).2 = l := by
  cases l with
  | nil => rfl
  | cons t l =>
    rcases cutAt_cons_cases a t l with ⟨-, e⟩ | ⟨-, -, e⟩ | ⟨-, -, e⟩ <;> rw [e] at h ⊢
    · simp at h
    · simp at h

theorem head?_cutAt {a : Nat} {l : List (Tile α)} {y : Tile α} (hy : y ∈ (cutAt a l).1.head?) :
    ∃ u ∈ l.head?, u.val = y.val := by
  cases l with
  | nil => simp [cutAt] at hy
  | cons t l =>
    refine ⟨t, rfl, ?_⟩
    rcases cutAt_cons_cases a t l with ⟨-, e⟩ | ⟨-, -, e⟩ | ⟨-, -, e⟩ <;> rw [e] at hy
    · obtain rfl := Option.some.inj hy
      rfl
    · obtain rfl := Option.some.inj hy
      rfl
    · simp at hy

theorem coalescedOn_cutAt {p : α → Prop} (hp : ∀ (n : ℕ) v, p (n +ᵥ v) ↔ p v) {l : List (Tile α)}
    (a : Nat) (h : CoalescedOn p l) : CoalescedOn p (cutAt a l).1 ∧ CoalescedOn p (cutAt a l).2 := by
  induction l with
  | nil => exact ⟨h, h⟩
  | cons t l ih =>
    obtain ⟨hh, ht⟩ := List.isChain_cons.1 h
    rcases cutAt_cons_cases a t l with ⟨-, e⟩ | ⟨hs, hs', e⟩ | ⟨-, -, e⟩ <;> rw [e]
    · refine ⟨List.isChain_cons.2 ⟨?_, (ih ht).1⟩, (ih ht).2⟩
      intro y hy
      obtain ⟨u, hu, hv⟩ := head?_cutAt hy
      unfold Joins
      rw [← hv]
      exact hh u hu
    · refine ⟨List.isChain_singleton _, List.isChain_cons.2 ⟨?_, ht⟩⟩
      intro y hy hpt
      rw [Tile.stop] at hs'
      rw [joins_right_iff (by omega)]
      exact hh y hy ((hp _ _).1 hpt)
    · exact ⟨List.isChain_nil, h⟩

theorem coalesced_cutAt {l : List (Tile α)} (a : Nat) (h : Coalesced l) :
    Coalesced (cutAt a l).1 ∧ Coalesced (cutAt a l).2 := by
  obtain ⟨h₁, h₂⟩ := coalescedOn_cutAt (fun _ _ => Iff.rfl) a (coalescedOn_true.2 h)
  exact ⟨coalescedOn_true.1 h₁, coalescedOn_true.1 h₂⟩

/-- A cut keeps the value of the first tile. -/
theorem head?_append_cutAt {a : Nat} {l : List (Tile α)} {y : Tile α}
    (hy : y ∈ ((cutAt a l).1 ++ (cutAt a l).2).head?) : ∃ u ∈ l.head?, u.val = y.val := by
  rw [List.head?_append] at hy
  cases hfst : (cutAt a l).1.head? with
  | some z =>
    rw [hfst, Option.some_or] at hy
    obtain rfl := Option.some.inj hy
    exact head?_cutAt hfst
  | none =>
    rw [hfst, Option.none_or, cutAt_snd_of_fst_nil (List.head?_eq_none_iff.1 hfst)] at hy
    exact ⟨y, hy, rfl⟩

/-- A cut through no tile of a kind leaves those of the kind coalesced. -/
theorem coalescedOn_append_cutAt {p : α → Prop} (hp : ∀ (n : ℕ) v, p (n +ᵥ v) ↔ p v)
    {l : List (Tile α)} {a : Nat} (hcut : ∀ t ∈ l, t.base < a → a < t.stop → ¬ p t.val)
    (h : CoalescedOn p l) : CoalescedOn p ((cutAt a l).1 ++ (cutAt a l).2) := by
  induction l with
  | nil => exact h
  | cons t l ih =>
    rw [List.forall_mem_cons] at hcut
    obtain ⟨hh, ht⟩ := List.isChain_cons.1 h
    rcases cutAt_cons_cases a t l with ⟨-, e⟩ | ⟨hs, hs', e⟩ | ⟨-, -, e⟩ <;> rw [e]
    · refine List.isChain_cons.2 ⟨?_, ih hcut.2 ht⟩
      intro y hy
      obtain ⟨u, hu, hv⟩ := head?_append_cutAt hy
      unfold Joins
      rw [← hv]
      exact hh u hu
    · have hnot := hcut.1 hs hs'
      refine List.isChain_cons_cons.2 ⟨fun hpt => absurd hpt hnot, List.isChain_cons.2 ⟨?_, ht⟩⟩
      intro y _ hpt
      exact absurd ((hp _ _).1 hpt) hnot
    · exact h

/-- The list with one tile in place of all of a range. -/
def replaceRange (lo stop : Nat) (v : α) (l : List (Tile α)) : List (Tile α) :=
  (cutAt lo l).1 ++ ⟨lo, stop - lo, v⟩ :: (cutAt stop l).2

theorem tiles_replaceRange {lo stop lo' hi : Nat} {l : List (Tile α)} (h : Tiles lo' hi l)
    (hlo : lo' ≤ lo) (hs : lo < stop) (hhi : stop ≤ hi) (v : α) :
    Tiles lo' hi (replaceRange lo stop v l) := by
  refine tiles_append.2 ⟨lo, (h.cutAt hlo (by omega)).1, rfl, Nat.sub_pos_of_lt hs, ?_⟩
  rw [Nat.add_sub_cancel' hs.le]
  exact (h.cutAt (by omega) hhi).2

theorem valueAt_replaceRange {lo stop lo' hi : Nat} {l : List (Tile α)} (h : Tiles lo' hi l)
    (hlo : lo' ≤ lo) (hs : lo < stop) (hhi : stop ≤ hi) (v : α) (a : Nat) :
    valueAt (replaceRange lo stop v l) a =
      if lo ≤ a ∧ a < stop then some ((a - lo) +ᵥ v) else valueAt l a := by
  obtain ⟨h₁, h₁'⟩ := h.cutAt hlo (by omega)
  obtain ⟨h₂, h₂'⟩ := h.cutAt (a := stop) (by omega) hhi
  have hsize : lo + (stop - lo) = stop := Nat.add_sub_cancel' hs.le
  rw [replaceRange, valueAt_append]
  by_cases ha : a < lo
  · rw [if_neg (by omega), valueAt_cons_neg (by simp only; omega), h₂'.valueAt_eq_none (by omega),
      ← valueAt_cutAt lo l, valueAt_append, h₁'.valueAt_eq_none (Or.inl ha)]
  · rw [h₁.valueAt_eq_none (by omega), Option.none_or]
    by_cases ha' : a < stop
    · rw [if_pos (by omega), valueAt_cons_pos (by simp only; omega) (by simp only; omega)]
    · rw [if_neg (by omega), valueAt_cons_neg (by simp only; omega), ← valueAt_cutAt stop l,
        valueAt_append, h₂.valueAt_eq_none (by omega), Option.none_or]

/-- The last two tiles of a range `l` are joined by the change although the second
one carries on behind the range, in the tiles `next`. -/
def SwallowsEnd (f : α → α) (next : List (Tile α)) : List (Tile α) → Prop
  | y :: x :: l =>
      (l = [] ∧ Joins (y.map f) x ∧ ∃ d ∈ next.head?, Joins x d) ∨ SwallowsEnd f next (x :: l)
  | _ => False

/-- Some tile `x` of a list starts inside a range, goes on behind it, and the tile
before it will be joined with it when the range is changed. -/
def EndSwallowed (f : α → α) (lo stop : Nat) : List (Tile α) → Prop
  | y :: x :: l =>
      (lo < x.base ∧ x.base < stop ∧ stop < x.stop ∧ Joins (y.map f) x) ∨
        EndSwallowed f lo stop (x :: l)
  | _ => False

theorem not_endSwallowed_of_le {f : α → α} {lo stop lo' hi : Nat} {t : Tile α}
    {l : List (Tile α)} (h : Tiles lo' hi (t :: l)) (hs : stop ≤ t.stop) :
    ¬ EndSwallowed f lo stop (t :: l) := by
  induction l generalizing t lo' with
  | nil => exact id
  | cons x l ih =>
    obtain ⟨rfl, -, hx⟩ := h
    have hb : x.base = t.stop := hx.1
    have hpos := hx.2.1
    rintro (⟨-, h', -⟩ | h')
    · omega
    · exact ih hx (by rw [Tile.stop]; omega) h'

theorem EndSwallowed.exists_mem {f : α → α} {lo stop : Nat} {l : List (Tile α)}
    (h : EndSwallowed f lo stop l) :
    ∃ x ∈ l, lo < x.base ∧ x.base < stop ∧ stop < x.stop ∧ ∃ y : Tile α, Joins (y.map f) x := by
  induction l with
  | nil => exact absurd h id
  | cons y l ih =>
    cases l with
    | nil => exact absurd h id
    | cons x l =>
      rcases h with ⟨h₁, h₂, h₃, hj⟩ | h
      · exact ⟨x, by simp, h₁, h₂, h₃, y, hj⟩
      · obtain ⟨x', hx, h'⟩ := ih h
        exact ⟨x', List.mem_cons_of_mem y hx, h'⟩

/-- On a list cut at the end of the range, both ways to say it are the same. -/
theorem swallowsEnd_cutAt {f : α → α} {lo lo' stop hi : Nat} {l : List (Tile α)}
    (h : Tiles lo' hi l) (hlo : lo ≤ lo') (hc : Coalesced l) :
    SwallowsEnd f (cutAt stop l).2 (cutAt stop l).1 ↔ EndSwallowed f lo stop l := by
  induction l generalizing lo' with
  | nil => exact Iff.rfl
  | cons t l ih =>
    have hswallow : stop ≤ t.stop → ¬ EndSwallowed f lo stop (t :: l) :=
      not_endSwallowed_of_le h
    rcases cutAt_cons_cases stop t l with ⟨hs, e⟩ | ⟨-, hs, e⟩ | ⟨-, hs, e⟩ <;> rw [e]
    · cases l with
      | nil => exact Iff.rfl
      | cons u l =>
        obtain ⟨rfl, hpos, hu⟩ := h
        obtain ⟨htu, hcu⟩ := List.isChain_cons_cons.1 hc
        have hub : u.base = t.base + t.size := hu.1
        have ih' := ih hu (by omega) hcu
        have hswallow' : stop ≤ u.stop → ¬ EndSwallowed f lo stop (u :: l) :=
          not_endSwallowed_of_le hu
        rcases cutAt_cons_cases stop u l with ⟨hs', e'⟩ | ⟨hb', hs', e'⟩ | ⟨hb', hs', e'⟩ <;>
          rw [e'] at ih' ⊢
        · -- `u` ends inside the range: what is behind does not carry on from it
          have hnil : (cutAt stop l).1 = [] → ∀ d ∈ (cutAt stop l).2.head?, ¬ Joins u d := by
            intro hnil d hd
            rw [cutAt_snd_of_fst_nil hnil] at hd
            exact (List.isChain_cons.1 hcu).1 d hd
          simp only [SwallowsEnd, EndSwallowed, ih']
          constructor
          · rintro (⟨h₁, -, d, hd, hj⟩ | h')
            · exact absurd hj (hnil h₁ d hd)
            · exact Or.inr h'
          · rintro (⟨-, -, h', -⟩ | h')
            · omega
            · exact Or.inr h'
        · have hj : Joins (t.map f) (u.left (stop - u.base)) ↔ Joins (t.map f) u := Iff.rfl
          simp only [SwallowsEnd, EndSwallowed, hswallow' hs'.le, or_false, true_and, hj]
          have hlr := joins_left_right u (stop - u.base)
          have hlt : lo < u.base := by omega
          simp [hlr, hlt, hb', hs']
        · simp only [SwallowsEnd, EndSwallowed, hswallow' hs'.le, or_false, false_iff]
          omega
    · exact iff_of_false id (hswallow hs.le)
    · exact iff_of_false id (hswallow hs.le)

/-- Cutting a list at the start of the range makes no difference. -/
theorem endSwallowed_cutAt {f : α → α} (hf : IsUpdate f) {lo stop lo' hi : Nat}
    {l : List (Tile α)} (h : Tiles lo' hi l) :
    EndSwallowed f lo stop (cutAt lo l).2 ↔ EndSwallowed f lo stop l := by
  induction l generalizing lo' with
  | nil => exact Iff.rfl
  | cons t l ih =>
    obtain ⟨rfl, hpos, hl⟩ := h
    rcases cutAt_cons_cases lo t l with ⟨hs, e⟩ | ⟨hs', hs, e⟩ | ⟨-, hs, e⟩ <;> rw [e]
    · rw [ih hl]
      cases l with
      | nil => exact Iff.rfl
      | cons u l =>
        have hub : u.base = t.stop := hl.1
        simp only [EndSwallowed]
        constructor
        · exact Or.inr
        · rintro (⟨h', -⟩ | h')
          · omega
          · exact h'
    · cases l with
      | nil => exact Iff.rfl
      | cons u l =>
        have hj : Joins ((t.right (lo - t.base)).map f) u ↔ Joins (t.map f) u := by
          rw [← joins_right_iff (t := t.map f) (n := lo - t.base)
            (by rw [Tile.stop] at hs; simp only [Tile.map]; omega)]
          simp only [Joins, Tile.map, Tile.right, hf.vadd]
        simp only [EndSwallowed, hj]

/-- Whether a tile carries on from the one before it can be told from the value one below its base. -/
theorem joins_iff_below {p c : Tile α} {before : List (Tile α)} {lo : Nat}
    (h : Tiles lo c.base (p :: before).reverse) :
    Joins p c ↔ ∃ x, valueAt (p :: before).reverse (c.base - 1) = some x ∧ (1 : ℕ) +ᵥ x = c.val := by
  rw [List.reverse_cons] at h ⊢
  obtain ⟨mid, hb, hbase, hpos, hstop⟩ := tiles_append.1 h
  have hstop' : mid + p.size = c.base := hstop
  have hvalue : valueAt (before.reverse ++ [p]) (c.base - 1) = some ((p.size - 1) +ᵥ p.val) := by
    rw [h.valueAt_of_mem (t := p) (by simp) (by omega) (by rw [Tile.stop]; omega)]
    congr 2
    omega
  have hstep : (1 : ℕ) +ᵥ ((p.size - 1) +ᵥ p.val) = p.size +ᵥ p.val := by
    rw [← add_vadd, Nat.add_sub_cancel' hpos]
  rw [hvalue, Joins, ← hstep]
  constructor
  · exact fun hj => ⟨_, rfl, hj⟩
  · rintro ⟨x, hx, hj⟩
    obtain rfl := Option.some.inj hx
    exact hj

/-- Whether a tile is carried on by the one behind it can be told from the value at its end. -/
theorem joins_iff_behind {c n : Tile α} {rest : List (Tile α)} {hi : Nat} (h : Tiles c.stop hi (n :: rest)) :
    Joins c n ↔ valueAt (n :: rest) c.stop = some (c.size +ᵥ c.val) := by
  obtain ⟨hbase, hpos, -⟩ := h
  rw [valueAt_cons_pos (by omega) (by omega), hbase, Nat.sub_self, zero_vadd, Joins, Option.some.injEq]
  exact eq_comm

/-! ## Joining a tile with its neighbours

A position inside a list is given by the tiles before it, nearest first, and the
tiles from it on. -/

section Zipper

variable [DecidableEq α]

/-- Takes the next tile into `c` if it carries on from it. -/
def joinNext (c : Tile α) : List (Tile α) → Tile α × List (Tile α)
  | [] => (c, [])
  | n :: rest => if Joins c n then (c.join n, rest) else (c, n :: rest)

/-- Puts `c` behind the tiles before it, into the nearest one if it carries on from it. -/
def joinPrev (c : Tile α) : List (Tile α) → List (Tile α)
  | [] => [c]
  | p :: before => if Joins p c then p.join c :: before else c :: p :: before

theorem joinNext_cases (c : Tile α) (rest : List (Tile α)) :
    (∃ n rest', rest = n :: rest' ∧ Joins c n ∧ joinNext c rest = (c.join n, rest')) ∨
    (joinNext c rest = (c, rest) ∧ ∀ n ∈ rest.head?, ¬ Joins c n) := by
  cases rest with
  | nil => exact Or.inr ⟨rfl, by simp⟩
  | cons n rest =>
    by_cases h : Joins c n
    · exact Or.inl ⟨n, rest, rfl, h, if_pos h⟩
    · exact Or.inr ⟨if_neg h, by simpa using h⟩

theorem joinPrev_cases (c : Tile α) (before : List (Tile α)) :
    (∃ p before', before = p :: before' ∧ Joins p c ∧ joinPrev c before = p.join c :: before') ∨
    (joinPrev c before = c :: before ∧ ∀ p ∈ before.head?, ¬ Joins p c) := by
  cases before with
  | nil => exact Or.inr ⟨rfl, by simp⟩
  | cons p before =>
    by_cases h : Joins p c
    · exact Or.inl ⟨p, before, rfl, h, if_pos h⟩
    · exact Or.inr ⟨if_neg h, by simpa using h⟩

theorem length_joinNext_le (c : Tile α) (rest : List (Tile α)) :
    (joinNext c rest).2.length ≤ rest.length := by
  rcases joinNext_cases c rest with ⟨n, rest', rfl, -, h⟩ | ⟨h, -⟩ <;> rw [h]
  exact Nat.le_succ _

theorem Tiles.joinNext {c : Tile α} {rest : List (Tile α)} {lo hi : Nat}
    (h : Tiles lo hi (c :: rest)) :
    Tiles lo hi ((Tiling.joinNext c rest).1 :: (Tiling.joinNext c rest).2) ∧
      valueAt ((Tiling.joinNext c rest).1 :: (Tiling.joinNext c rest).2) = valueAt (c :: rest) := by
  rcases joinNext_cases c rest with ⟨n, rest', rfl, hj, e⟩ | ⟨e, -⟩ <;> rw [e]
  · obtain ⟨rfl, hc, hn, hn', ht⟩ := h
    refine ⟨⟨rfl, Nat.add_pos_left hc _, ?_⟩, valueAt_join hn hj rest'⟩
    rw [Tile.join, ← Nat.add_assoc]
    exact ht
  · exact ⟨h, rfl⟩

theorem Tiles.joinPrev {c : Tile α} {before : List (Tile α)} {lo hi : Nat}
    (h : Tiles lo hi (before.reverse ++ [c])) :
    Tiles lo hi (Tiling.joinPrev c before).reverse ∧
      valueAt (Tiling.joinPrev c before).reverse = valueAt (before.reverse ++ [c]) := by
  rcases joinPrev_cases c before with ⟨p, before', rfl, hj, e⟩ | ⟨e, -⟩ <;> rw [e]
  · simp only [List.reverse_cons, List.append_assoc, List.cons_append, List.nil_append] at h ⊢
    obtain ⟨mid, hb, rfl, hp, hc, hc', ht⟩ := tiles_append.1 h
    refine ⟨tiles_append.2 ⟨_, hb, rfl, Nat.add_pos_left hp _, ?_⟩,
      valueAt_append_congr (valueAt_join hc hj []) _⟩
    rw [Tile.join, ← Nat.add_assoc]
    exact ht
  · exact ⟨by simpa using h, by simp⟩

/-- Joining a tile with both neighbours keeps the tiling and its values. -/
theorem Tiles.settle {c : Tile α} {before rest : List (Tile α)} {lo hi : Nat}
    (h : Tiles lo hi (before.reverse ++ c :: rest)) :
    let j := Tiling.joinNext c rest
    Tiles lo hi ((Tiling.joinPrev j.1 before).reverse ++ j.2) ∧
      valueAt ((Tiling.joinPrev j.1 before).reverse ++ j.2) =
        valueAt (before.reverse ++ c :: rest) := by
  intro j
  obtain ⟨mid, hb, hc⟩ := tiles_append.1 h
  obtain ⟨hj, hv⟩ := hc.joinNext
  have hbj : Tiles lo (mid + j.1.size) (before.reverse ++ [j.1]) :=
    tiles_append.2 ⟨mid, hb, hj.1, hj.2.1, rfl⟩
  obtain ⟨hp, hv'⟩ := hbj.joinPrev
  refine ⟨tiles_append.2 ⟨_, hp, hj.2.2⟩, ?_⟩
  funext a
  rw [valueAt_append, hv', ← valueAt_append, List.append_assoc]
  exact congrFun (valueAt_append_congr hv _) a

/-- The tile that another one has become part of once it is joined with its neighbours. -/
theorem Tiles.settle_tile {c : Tile α} {before rest : List (Tile α)} {lo hi : Nat}
    (h : Tiles lo hi (before.reverse ++ c :: rest)) :
    ∃ v ∈ (Tiling.joinPrev (Tiling.joinNext c rest).1 before).reverse ++ (Tiling.joinNext c rest).2,
      v.base ≤ c.base ∧ c.stop ≤ v.stop ∧
      (v.base < c.base ↔
        ∃ x, valueAt before.reverse (c.base - 1) = some x ∧ (1 : ℕ) +ᵥ x = c.val) ∧
      (c.stop < v.stop ↔ valueAt rest c.stop = some (c.size +ᵥ c.val)) := by
  obtain ⟨mid, hb, hc, hpos, hrest⟩ := tiles_append.1 h
  have hcb : c.base = mid := hc
  have hcs : mid + c.size = c.stop := by rw [Tile.stop, hcb]
  rw [hcs] at hrest
  -- the tile behind
  obtain ⟨d, hd, hbase, hval, hstop, hbehind⟩ : ∃ d, (Tiling.joinNext c rest).1 = d ∧ d.base = c.base ∧
      d.val = c.val ∧ c.stop ≤ d.stop ∧
      (c.stop < d.stop ↔ valueAt rest c.stop = some (c.size +ᵥ c.val)) := by
    rcases joinNext_cases c rest with ⟨n, rest', rfl, hj, e⟩ | ⟨e, hn⟩ <;> rw [e]
    · have hnpos := hrest.2.1
      have hlt : c.stop < (c.join n).stop := by
        simp only [Tile.stop, Tile.join]
        omega
      exact ⟨_, rfl, rfl, rfl, hlt.le, iff_of_true hlt ((joins_iff_behind hrest).1 hj)⟩
    · refine ⟨_, rfl, rfl, rfl, le_rfl, iff_of_false (lt_irrefl _) ?_⟩
      cases rest with
      | nil => simp [valueAt]
      | cons n rest' => exact fun hv => hn n rfl ((joins_iff_behind hrest).2 hv)
  -- the tile before
  rw [hd]
  rw [← hcb] at hb
  rcases joinPrev_cases d before with ⟨p, before', rfl, hj, e⟩ | ⟨e, hn⟩ <;> rw [e]
  · have hb' := hb
    rw [List.reverse_cons] at hb'
    obtain ⟨mid', -, hpb, hppos, hpstop⟩ := tiles_append.1 hb'
    have hpstop' : mid' + p.size = c.base := hpstop
    have hj' : Joins p c := by
      rw [Joins, ← hval]
      exact hj
    refine ⟨p.join d, by simp, ?_, ?_, iff_of_true ?_ ((joins_iff_below hb).1 hj'), ?_⟩
    · simp only [Tile.join]
      omega
    · simp only [Tile.join, Tile.stop] at hstop ⊢
      omega
    · simp only [Tile.join]
      omega
    · rw [← hbehind]
      simp only [Tile.join, Tile.stop] at hstop ⊢
      omega
  · refine ⟨d, by simp, hbase.le, hstop, iff_of_false (by omega) ?_, hbehind⟩
    cases before with
    | nil => simp [valueAt]
    | cons p before' =>
      intro hv
      refine hn p rfl ?_
      rw [Joins, hval]
      exact (joins_iff_below hb).2 hv

/-! ## Changing all tiles of a range -/

/-- Changes the tiles from a position up to the address `stop`, joining each with
its neighbours before going on behind it. -/
def changeRange (f : α → α) (stop : Nat) (before after : List (Tile α)) : List (Tile α) :=
  match after with
  | [] => before.reverse
  | c :: rest =>
      if c.base < stop then
        changeRange f stop (joinPrev (joinNext (c.map f) rest).1 before)
          (joinNext (c.map f) rest).2
      else before.reverse ++ c :: rest
termination_by after.length
decreasing_by exact Nat.lt_succ_of_le (length_joinNext_le _ _)

theorem changeRange_cons_of_lt {f : α → α} {stop : Nat} {c : Tile α} (h : c.base < stop)
    (before rest : List (Tile α)) :
    changeRange f stop before (c :: rest) =
      changeRange f stop (joinPrev (joinNext (c.map f) rest).1 before)
        (joinNext (c.map f) rest).2 := by
  rw [changeRange, if_pos h]

/-- Behind the range nothing is done. -/
theorem changeRange_of_le {f : α → α} {stop lo hi : Nat} {after : List (Tile α)}
    (h : Tiles lo hi after) (hlo : stop ≤ lo) (before : List (Tile α)) :
    changeRange f stop before after = before.reverse ++ after := by
  cases after with
  | nil => simp [changeRange]
  | cons c rest =>
    have hc := h.1
    rw [changeRange, if_neg (by omega)]

/-- The walk over a range keeps the tiling, and changes the values of the range
and no others. -/
theorem changeRange_spec {f : α → α} (hf : IsUpdate f) {stop lo hi : Nat} {l₂ : List (Tile α)}
    (h₂ : Tiles stop hi l₂) : ∀ (k : Nat) {l₁ before : List (Tile α)} {mid : Nat},
    l₁.length ≤ k → Tiles lo mid before.reverse → Tiles mid stop l₁ →
    Tiles lo hi (changeRange f stop before (l₁ ++ l₂)) ∧
      valueAt (changeRange f stop before (l₁ ++ l₂)) =
        changedOn f mid stop (valueAt (before.reverse ++ (l₁ ++ l₂))) := by
  intro k
  induction k with
  | zero =>
    intro l₁ before mid hk hb h₁
    obtain rfl := List.eq_nil_of_length_eq_zero (Nat.le_zero.1 hk)
    obtain rfl : mid = stop := h₁
    rw [List.nil_append, changeRange_of_le h₂ le_rfl]
    refine ⟨tiles_append.2 ⟨_, hb, h₂⟩, ?_⟩
    funext a
    rw [changedOn, if_neg (by omega)]
  | succ k ih =>
    intro l₁ before mid hk hb h₁
    cases l₁ with
    | nil => exact ih (Nat.zero_le k) hb h₁
    | cons c l =>
      obtain ⟨rfl, hpos, hl⟩ := h₁
      have hle := hl.le
      have hrest : Tiles (c.base + c.size) hi (l ++ l₂) := tiles_append.2 ⟨stop, hl, h₂⟩
      have hset := Tiles.settle (c := c.map f) (tiles_append.2 ⟨c.base, hb, rfl, hpos, hrest⟩)
      rw [List.cons_append, changeRange_cons_of_lt (by omega)]
      simp only [valueAt_map hf hb] at hset
      obtain ⟨ht, hv⟩ := hset
      obtain ⟨mid, hb', hj⟩ := tiles_append.1 ht
      rcases joinNext_cases (c.map f) (l ++ l₂) with ⟨n, rest, hn, hjoin, e⟩ | ⟨e, -⟩
      · cases l with
        | nil =>
          obtain rfl : c.base + c.size = stop := hl
          rw [List.nil_append] at hn ⊢
          subst hn
          -- the tile taken in lies behind the range: the walk ends
          rw [List.nil_append] at e hv ht hj
          rw [e] at hv ht hj ⊢
          have hmid := hj.start_unique h₂.2.2
          rw [changeRange_of_le hj (by omega)]
          exact ⟨ht, hv⟩
        | cons n' l' =>
          rw [List.cons_append] at hn
          obtain ⟨rfl, rfl⟩ := List.cons.inj hn
          simp only [e] at hv hj hb' ⊢
          obtain ⟨hnb, hnpos, hl'⟩ := hl
          obtain rfl := hj.start_unique (tiles_append.2 ⟨stop, hl', h₂⟩)
          have hle' := hl'.le
          have hk' : l'.length ≤ k := by
            simp only [List.length_cons] at hk
            omega
          obtain ⟨ht', hv'⟩ := ih hk' hb' hl'
          -- the tile taken in has the changed value already
          have hfix : ∀ a, c.base + c.size ≤ a → a < c.base + c.size + n'.size →
              (valueAt (before.reverse ++ c :: (n' :: l' ++ l₂)) a).map f =
                valueAt (before.reverse ++ c :: (n' :: l' ++ l₂)) a := by
            intro a ha₁ ha₂
            have hall : Tiles lo hi (before.reverse ++ c :: (n' :: l' ++ l₂)) :=
              tiles_append.2 ⟨c.base, hb, rfl, hpos, hrest⟩
            rw [hall.valueAt_of_mem (t := n') (by simp) (by omega) (by rw [Tile.stop]; omega),
              Option.map_some, hf.vadd, hf.fixed_of_joins hjoin]
          refine ⟨ht', ?_⟩
          rw [hv', hv, ← changedOn_trans (by omega : c.base ≤ c.base + c.size + n'.size) hle',
            changedOn_of_fixed (Nat.le_add_right _ _) hfix]
          rfl
      · rw [e] at hv hj hb' ⊢
        obtain rfl := hj.start_unique hrest
        have hk' : l.length ≤ k := by simpa using hk
        obtain ⟨ht', hv'⟩ := ih hk' hb' hl
        refine ⟨ht', ?_⟩
        rw [hv', hv]
        exact changedOn_trans (by omega) hle _

/-! ## Coalescing -/

theorem coalescedOn_joinPrev {p : α → Prop} {c : Tile α} {before : List (Tile α)}
    (h : CoalescedOn p before.reverse) : CoalescedOn p (joinPrev c before).reverse := by
  rcases joinPrev_cases c before with ⟨q, before', rfl, hj, e⟩ | ⟨e, hn⟩ <;> rw [e]
  · rw [List.reverse_cons] at h ⊢
    obtain ⟨h₁, -, h₂⟩ := List.isChain_append.1 h
    exact List.isChain_append.2 ⟨h₁, List.isChain_singleton _, by simpa [Joins, Tile.join] using h₂⟩
  · rw [List.reverse_cons]
    refine List.isChain_append.2 ⟨h, List.isChain_singleton _, ?_⟩
    intro q hq d hd _
    obtain rfl := Option.some.inj hd
    rw [List.getLast?_reverse] at hq
    exact hn q hq

theorem coalesced_joinPrev {c : Tile α} {before : List (Tile α)} (h : Coalesced before.reverse) :
    Coalesced (joinPrev c before).reverse :=
  coalescedOn_true.1 (coalescedOn_joinPrev (coalescedOn_true.2 h))

/-- The right edge is that of the tile put in. -/
theorem getLast?_joinPrev (c : Tile α) (before : List (Tile α)) :
    ∃ p, (joinPrev c before).reverse.getLast? = some p ∧ ∀ d, Joins p d ↔ Joins c d := by
  rw [List.getLast?_reverse]
  rcases joinPrev_cases c before with ⟨p, before', rfl, hj, e⟩ | ⟨e, -⟩ <;> rw [e]
  · exact ⟨_, rfl, fun d => hj.join_left⟩
  · exact ⟨_, rfl, fun d => Iff.rfl⟩

/-- Behind a tile that was put in, a coalesced list goes on coalesced exactly if it
does not carry on from the tile. -/
theorem coalesced_joinPrev_append {c : Tile α} {before rest : List (Tile α)}
    (hb : Coalesced before.reverse) (hr : Coalesced rest) :
    Coalesced ((joinPrev c before).reverse ++ rest) ↔ ∀ d ∈ rest.head?, ¬ Joins c d := by
  obtain ⟨p, hp, hedge⟩ := getLast?_joinPrev c before
  constructor
  · intro h d hd
    rw [← hedge d]
    exact (List.isChain_append.1 h).2.2 p hp d hd
  · intro h
    refine List.isChain_append.2 ⟨coalesced_joinPrev hb, hr, ?_⟩
    intro q hq d hd
    obtain rfl := Option.some.inj (hp.symm.trans hq)
    rw [hedge d]
    exact h d hd

/-- The right edge of the list with a tile put in, for tiles of a kind. -/
theorem getLast?_joinPrev_kind {p : α → Prop} (hp : ∀ (n : ℕ) v, p (n +ᵥ v) ↔ p v) (c : Tile α)
    (before : List (Tile α)) :
    ∃ q, (joinPrev c before).reverse.getLast? = some q ∧ (p q.val ↔ p c.val) := by
  rw [List.getLast?_reverse]
  rcases joinPrev_cases c before with ⟨q, before', rfl, hj, e⟩ | ⟨e, -⟩ <;> rw [e]
  · refine ⟨_, rfl, ?_⟩
    show p q.val ↔ _
    rw [← hj, hp]
  · exact ⟨_, rfl, Iff.rfl⟩

/-- A tile put between two lists and joined with its neighbours leaves the tiles of a kind
coalesced. -/
theorem coalescedOn_settle {p : α → Prop} (hp : ∀ (n : ℕ) v, p (n +ᵥ v) ↔ p v) {c : Tile α}
    {before rest : List (Tile α)} (hb : CoalescedOn p before.reverse) (hr : CoalescedOn p rest) :
    CoalescedOn p ((joinPrev (joinNext c rest).1 before).reverse ++ (joinNext c rest).2) := by
  have hedge : ∀ (c : Tile α) (rest : List (Tile α)), CoalescedOn p rest →
      (∀ d ∈ rest.head?, p c.val → ¬ Joins c d) →
      CoalescedOn p ((joinPrev c before).reverse ++ rest) := by
    intro c rest hr hc
    obtain ⟨q, hq, hkind⟩ := getLast?_joinPrev_kind hp c before
    obtain ⟨q', hq', hjoins⟩ := getLast?_joinPrev c before
    obtain rfl := Option.some.inj (hq.symm.trans hq')
    refine List.isChain_append.2 ⟨coalescedOn_joinPrev hb, hr, ?_⟩
    intro q'' hq'' d hd hpq
    obtain rfl := Option.some.inj (hq.symm.trans hq'')
    rw [hjoins d]
    exact hc d hd (hkind.1 hpq)
  rcases joinNext_cases c rest with ⟨n, rest', rfl, hj, e⟩ | ⟨e, hn⟩ <;> rw [e]
  · obtain ⟨hhead, htail⟩ := List.isChain_cons.1 hr
    refine hedge _ _ htail fun d hd hpc => ?_
    rw [hj.join_left]
    refine hhead d hd ?_
    rw [← hj, hp]
    exact hpc
  · exact hedge _ _ hr fun d hd _ => hn d hd

/-- A tile put between two coalesced lists and joined with its neighbours gives a
coalesced list. -/
theorem coalesced_settle {c : Tile α} {before rest : List (Tile α)} (hb : Coalesced before.reverse)
    (hr : Coalesced rest) :
    Coalesced ((joinPrev (joinNext c rest).1 before).reverse ++ (joinNext c rest).2) :=
  coalescedOn_true.1 (coalescedOn_settle (fun _ _ => Iff.rfl) (coalescedOn_true.2 hb)
    (coalescedOn_true.2 hr))

/-- The walk over a range leaves the tiles of a kind coalesced. -/
theorem coalescedOn_changeRange {p : α → Prop} (hp : ∀ (n : ℕ) v, p (n +ᵥ v) ↔ p v) {f : α → α}
    {stop : Nat} : ∀ (k : Nat) {before after : List (Tile α)}, after.length ≤ k →
    CoalescedOn p (before.reverse ++ after) → CoalescedOn p (changeRange f stop before after) := by
  intro k
  induction k with
  | zero =>
    intro before after hk h
    obtain rfl := List.eq_nil_of_length_eq_zero (Nat.le_zero.1 hk)
    rw [changeRange]
    rwa [List.append_nil] at h
  | succ k ih =>
    intro before after hk h
    cases after with
    | nil =>
      rw [changeRange]
      rwa [List.append_nil] at h
    | cons c rest =>
      by_cases hc : c.base < stop
      · rw [changeRange_cons_of_lt hc]
        obtain ⟨hb, hr, -⟩ := List.isChain_append.1 h
        have hle := length_joinNext_le (c.map f) rest
        rw [List.length_cons] at hk
        exact ih (by omega) (coalescedOn_settle hp hb hr.tail)
      · rw [changeRange, if_neg hc]
        exact h

/-- The walk over a range leaves a coalesced list, unless it takes in the last tile
of the range without looking behind it. -/
theorem coalesced_changeRange {f : α → α} (hf : IsUpdate f) {stop hi : Nat} {l₂ : List (Tile α)}
    (h₂ : Tiles stop hi l₂) (hc₂ : Coalesced l₂) :
    ∀ (k : Nat) {l₁ before : List (Tile α)} {mid : Nat},
    l₁.length ≤ k → l₁ ≠ [] → Tiles mid stop l₁ → Coalesced before.reverse → Coalesced l₁ →
    (Coalesced (changeRange f stop before (l₁ ++ l₂)) ↔ ¬ SwallowsEnd f l₂ l₁) := by
  intro k
  induction k with
  | zero => intro l₁ before mid hk hne; simp at hk; contradiction
  | succ k ih =>
    intro l₁ before mid hk hne h₁ hb hc₁
    obtain ⟨c, l, rfl⟩ := List.exists_cons_of_ne_nil hne
    obtain ⟨rfl, hpos, hl⟩ := h₁
    have hle := hl.le
    rw [List.cons_append, changeRange_cons_of_lt (by omega)]
    cases l with
    | nil =>
      -- the last tile of the range is changed itself and so looks behind the range
      obtain rfl : c.base + c.size = stop := hl
      refine iff_of_true ?_ id
      have hset := coalesced_settle (c := c.map f) hb hc₂
      rw [List.nil_append]
      rcases joinNext_cases (c.map f) l₂ with ⟨n, rest, rfl, -, e⟩ | ⟨e, -⟩ <;>
        rw [e] at hset ⊢
      · rwa [changeRange_of_le h₂.2.2 (Nat.le_add_right _ _)]
      · rwa [changeRange_of_le h₂ le_rfl]
    | cons n l =>
      obtain ⟨hn, hc⟩ := List.isChain_cons_cons.1 hc₁
      have hjn : (n :: l) ++ l₂ = n :: (l ++ l₂) := rfl
      by_cases hj : Joins (c.map f) n
      · have e : joinNext (c.map f) (n :: (l ++ l₂)) = ((c.map f).join n, l ++ l₂) := if_pos hj
        rw [hjn, e]
        cases l with
        | nil =>
          obtain rfl : c.base + c.size + n.size = stop := hl.2.2
          rw [List.nil_append, changeRange_of_le h₂ le_rfl, coalesced_joinPrev_append hb hc₂]
          simp [SwallowsEnd, hj, hj.join_left]
        | cons m l =>
          -- `n` has the changed value already, so `m` does not carry on from it
          have hfix : n.map f = n := by rw [Tile.map, hf.fixed_of_joins hj]
          have hm : ¬ Joins n m := (List.isChain_cons_cons.1 hc).1
          rw [ih (by simp at hk ⊢; omega) (by simp) hl.2.2 (coalesced_joinPrev hb) hc.tail]
          simp [SwallowsEnd, hfix, hm]
      · have e : joinNext (c.map f) (n :: (l ++ l₂)) = (c.map f, n :: (l ++ l₂)) := if_neg hj
        rw [hjn, e, ← hjn, ih (by simp at hk ⊢; omega) (by simp) hl (coalesced_joinPrev hb) hc]
        simp [SwallowsEnd, hj]

/-- The tiles of a list from the address `lo` to `stop` are changed, after cutting the
list at both ends. -/
def changeBetween (f : α → α) (lo stop : Nat) (l : List (Tile α)) : List (Tile α) :=
  let range := cutAt stop (cutAt lo l).2
  changeRange f stop (cutAt lo l).1.reverse (range.1 ++ range.2)

/-- The change of a range whose ends are inside no tile of a kind leaves those of the kind
coalesced. -/
theorem coalescedOn_changeBetween {p : α → Prop} (hp : ∀ (n : ℕ) v, p (n +ᵥ v) ↔ p v) {f : α → α}
    {lo stop : Nat} {l : List (Tile α)} (hlo : ∀ t ∈ l, t.base < lo → lo < t.stop → ¬ p t.val)
    (hstop : ∀ t ∈ (cutAt lo l).2, t.base < stop → stop < t.stop → ¬ p t.val)
    (h : CoalescedOn p l) : CoalescedOn p (changeBetween f lo stop l) := by
  refine coalescedOn_changeRange hp _ le_rfl ?_
  rw [List.reverse_reverse]
  have h₁ := coalescedOn_append_cutAt hp hlo h
  obtain ⟨hfst, hsnd, hedge⟩ := List.isChain_append.1 h₁
  refine List.isChain_append.2 ⟨hfst, coalescedOn_append_cutAt hp hstop hsnd, ?_⟩
  intro q hq d hd
  obtain ⟨u, hu, hv⟩ : ∃ u ∈ (cutAt lo l).2.head?, u.val = d.val := head?_append_cutAt hd
  unfold Joins
  rw [← hv]
  exact hedge q hq u hu

/-- The change of a range of a list: it keeps the tiling, changes exactly the values of
the range, and keeps the list coalesced unless it swallows the end of the range. -/
theorem changeBetween_spec {f : α → α} (hf : IsUpdate f) {lo stop lo' hi : Nat}
    {l : List (Tile α)} (h : Tiles lo' hi l) (hlo : lo' ≤ lo) (hs : lo < stop) (hhi : stop ≤ hi) :
    Tiles lo' hi (changeBetween f lo stop l) ∧
      valueAt (changeBetween f lo stop l) = changedOn f lo stop (valueAt l) ∧
      (Coalesced l → (Coalesced (changeBetween f lo stop l) ↔ ¬ EndSwallowed f lo stop l)) := by
  obtain ⟨h₁, h₂⟩ := h.cutAt hlo (by omega)
  obtain ⟨h₃, h₄⟩ := h₂.cutAt hs.le hhi
  have hb : Tiles lo' lo (cutAt lo l).1.reverse.reverse := by rwa [List.reverse_reverse]
  obtain ⟨ht, hv⟩ := changeRange_spec hf h₄ _ le_rfl hb h₃
  refine ⟨ht, ?_, ?_⟩
  · rw [changeBetween, hv, List.reverse_reverse, valueAt_append_congr (valueAt_cutAt stop _),
      valueAt_cutAt]
  · intro hc
    obtain ⟨hc₁, hc₂⟩ := coalesced_cutAt lo hc
    obtain ⟨hc₃, hc₄⟩ := coalesced_cutAt stop hc₂
    have hne : (cutAt stop (cutAt lo l).2).1 ≠ [] := by
      intro hnil
      rw [hnil, tiles_nil] at h₃
      omega
    rw [changeBetween, coalesced_changeRange hf h₄ hc₄ _ le_rfl hne h₃
      (by rwa [List.reverse_reverse]) hc₃, swallowsEnd_cutAt h₂ le_rfl hc₂, endSwallowed_cutAt hf h]

end Zipper

end Values

end Tiling
