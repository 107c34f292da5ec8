import Mathlib.Algebra.Group.Nat.Defs
import Mathlib.Algebra.Group.Int.Defs
import Mathlib.Algebra.GroupWithZero.Nat
import Mathlib.Order.WithBot
import Mathlib.Data.List.Basic
import Mathlib.Logic.Equiv.Basic

/-!
# Binary heaps in lists

The heap algorithms of the C++ standard library on a list, ordered by a key: the element
at index `i` has its children at `2 * i + 1` and `2 * i + 2`, and no child comes before
its parent.

An index outside the list has the key `⊤`, so that neither the algorithms nor the heap
condition ask whether an index is in range.

The main results are `isHeap_pushHeap`, `popHeap_eq` and `isHeap_makeHeap`: each
operation leaves a heap of the same elements.
-/

namespace AzaharPlus.Heap

variable {α β : Type} [LinearOrder β] (key : α → β)

/-- The key at an index. -/
def keyAt (l : List α) (i : Nat) : WithTop β := (l[i]?).elim ⊤ fun a => (key a : WithTop β)

/-- Exchange two elements. -/
def swapAt (l : List α) (i j : Nat) : List α :=
  match l[i]?, l[j]? with
  | some x, some y => (l.set i y).set j x
  | _, _ => l

/-- Move the element at `i` up to where no parent comes after it. -/
def siftUp : Nat → List α → Nat → List α
  | 0, l, _ => l
  | fuel + 1, l, i =>
      if 0 < i ∧ keyAt key l i < keyAt key l ((i - 1) / 2) then
        siftUp fuel (swapAt l i ((i - 1) / 2)) ((i - 1) / 2)
      else l

/-- The child of `i` that comes first. -/
def firstChild (l : List α) (i : Nat) : Nat :=
  if keyAt key l (2 * i + 2) < keyAt key l (2 * i + 1) then 2 * i + 2 else 2 * i + 1

/-- Move the element at `i` down to where no child comes before it. -/
def siftDown : Nat → List α → Nat → List α
  | 0, l, _ => l
  | fuel + 1, l, i =>
      if keyAt key l (firstChild key l i) < keyAt key l i then
        siftDown fuel (swapAt l i (firstChild key l i)) (firstChild key l i)
      else l

/-- `std::push_heap`: the last element is put in its place. -/
def pushHeap (l : List α) : List α := siftUp key l.length l (l.length - 1)

/-- `std::pop_heap`: the first element goes to the end, and the others are a heap. -/
def popHeap : List α → List α
  | [] => []
  | x :: xs =>
      match xs.getLast? with
      | none => [x]
      | some y => siftDown key xs.length (y :: xs.dropLast) 0 ++ [x]

/-- The loop of `std::make_heap`: the elements below `k` are put in their places, the last
one first. -/
def heapifyBelow : Nat → List α → List α
  | 0, l => l
  | k + 1, l => heapifyBelow k (siftDown key l.length l k)

/-- `std::make_heap`. -/
def makeHeap (l : List α) : List α := heapifyBelow key (l.length / 2) l

/-- No child comes before its parent. -/
def IsHeap (l : List α) : Prop := ∀ i, 0 < i → keyAt key l ((i - 1) / 2) ≤ keyAt key l i

/-! ## Exchanging elements -/

theorem swapAt_of_lt (l : List α) {i j : Nat} (hi : i < l.length) (hj : j < l.length) :
    swapAt l i j = (l.set i l[j]).set j l[i] := by
  unfold swapAt
  rw [List.getElem?_eq_getElem hi, List.getElem?_eq_getElem hj]

theorem swapAt_perm (l : List α) (i j : Nat) : (swapAt l i j).Perm l := by
  by_cases hi : i < l.length
  · by_cases hj : j < l.length
    · rw [swapAt_of_lt l hi hj]
      exact List.set_set_perm hi hj
    · unfold swapAt
      rw [List.getElem?_eq_none (Nat.le_of_not_lt hj)]
      cases l[i]? <;> rfl
  · unfold swapAt
    rw [List.getElem?_eq_none (Nat.le_of_not_lt hi)]

theorem length_swapAt (l : List α) (i j : Nat) : (swapAt l i j).length = l.length :=
  (swapAt_perm l i j).length_eq

variable {key}

theorem lt_length_of_keyAt_lt {l : List α} {i : Nat} {b : WithTop β} (h : keyAt key l i < b) :
    i < l.length := by
  by_contra hi
  unfold keyAt at h
  rw [List.getElem?_eq_none (Nat.le_of_not_lt hi)] at h
  exact absurd h (not_lt_of_ge le_top)

omit [LinearOrder β] in
theorem keyAt_of_length_le {l : List α} {i : Nat} (h : l.length ≤ i) : keyAt key l i = ⊤ := by
  unfold keyAt
  rw [List.getElem?_eq_none h]
  rfl

omit [LinearOrder β] in
/-- The keys after an exchange. -/
theorem keyAt_swapAt {l : List α} {i j : Nat} (hi : i < l.length) (hj : j < l.length) (p : Nat) :
    keyAt key (swapAt l i j) p = keyAt key l (Equiv.swap i j p) := by
  rw [swapAt_of_lt l hi hj]
  unfold keyAt
  by_cases hpj : p = j
  · subst hpj
    rw [Equiv.swap_apply_right, List.getElem?_set_self (by simpa using hj),
      List.getElem?_eq_getElem hi]
  rw [List.getElem?_set_ne (Ne.symm hpj)]
  by_cases hpi : p = i
  · subst hpi
    rw [Equiv.swap_apply_left, List.getElem?_set_self hi, List.getElem?_eq_getElem hj]
  rw [List.getElem?_set_ne (Ne.symm hpi), Equiv.swap_apply_of_ne_of_ne hpi hpj]

/-! ## Moving up -/

theorem siftUp_perm (fuel : Nat) (l : List α) (i : Nat) : (siftUp key fuel l i).Perm l := by
  induction fuel generalizing l i with
  | zero => rfl
  | succ fuel ih =>
    unfold siftUp
    split
    · exact (ih _ _).trans (swapAt_perm _ _ _)
    · rfl

/-- The heap condition off the element at `i`, which may come before its parent. -/
structure UpTo (f : Nat → WithTop β) (i : Nat) : Prop where
  others : ∀ p, 0 < p → p ≠ i → f ((p - 1) / 2) ≤ f p
  children : ∀ p, 0 < p → (p - 1) / 2 = i → 0 < i → f ((i - 1) / 2) ≤ f p

/-- The exchange with the parent moves the hole of the heap condition up. -/
theorem UpTo.swap {f : Nat → WithTop β} {i : Nat} (h : UpTo f i) (hi : 0 < i)
    (hlt : f i < f ((i - 1) / 2)) :
    UpTo (fun p => f (Equiv.swap i ((i - 1) / 2) p)) ((i - 1) / 2) := by
  have hne : (i - 1) / 2 ≠ i := by omega
  have hpar : Equiv.swap i ((i - 1) / 2) ((i - 1) / 2) = i := Equiv.swap_apply_right _ _
  have hself : Equiv.swap i ((i - 1) / 2) i = (i - 1) / 2 := Equiv.swap_apply_left _ _
  have hother : ∀ p, p ≠ i → p ≠ (i - 1) / 2 → Equiv.swap i ((i - 1) / 2) p = p :=
    fun p h₁ h₂ => Equiv.swap_apply_of_ne_of_ne h₁ h₂
  constructor
  · intro p hp hpi
    by_cases hp' : p = i
    · subst hp'
      rw [hself, hpar]
      exact hlt.le
    rw [hother p hp' hpi]
    by_cases hpp : (p - 1) / 2 = i
    · rw [hpp, hself]
      exact h.children p hp hpp hi
    by_cases hpq : (p - 1) / 2 = (i - 1) / 2
    · rw [hpq, hpar]
      have := h.others p hp hp'
      rw [hpq] at this
      exact hlt.le.trans this
    · rw [hother _ hpp hpq]
      exact h.others p hp hp'
  · intro p hp hpp h0
    have hgrand := h.others ((i - 1) / 2) h0 hne
    rw [hother (((i - 1) / 2 - 1) / 2) (by omega) (by omega)]
    by_cases hp' : p = i
    · subst hp'
      rw [hself]
      exact hgrand
    · rw [hother p hp' (by omega)]
      have := h.others p hp hp'
      rw [hpp] at this
      exact hgrand.trans this

theorem siftUp_isHeap (fuel : Nat) {l : List α} {i : Nat} (hi : i ≤ fuel)
    (h : UpTo (keyAt key l) i) : IsHeap key (siftUp key fuel l i) := by
  induction fuel generalizing l i with
  | zero =>
    intro p hp
    exact h.others p hp (by omega)
  | succ fuel ih =>
    unfold siftUp
    split
    · next hc =>
        obtain ⟨h0, hlt⟩ := hc
        have hil := lt_length_of_keyAt_lt hlt
        refine ih (by omega) ?_
        have hfun : keyAt key (swapAt l i ((i - 1) / 2)) =
            fun p => keyAt key l (Equiv.swap i ((i - 1) / 2) p) :=
          funext fun p => keyAt_swapAt hil (by omega) p
        rw [hfun]
        exact h.swap h0 hlt
    · next hc =>
        intro p hp
        by_cases hpi : p = i
        · subst hpi
          exact le_of_not_gt fun hlt => hc ⟨hp, hlt⟩
        · exact h.others p hp hpi

omit [LinearOrder β] in
theorem keyAt_append_left {l₁ l₂ : List α} {i : Nat} (h : i < l₁.length) :
    keyAt key (l₁ ++ l₂) i = keyAt key l₁ i := by
  unfold keyAt
  rw [List.getElem?_append_left h]

theorem pushHeap_perm (l : List α) : (pushHeap key l).Perm l := siftUp_perm _ _ _

/-- `emplace_back` and `push_heap` on a heap give a heap. -/
theorem isHeap_pushHeap {l : List α} (h : IsHeap key l) (x : α) :
    IsHeap key (pushHeap key (l ++ [x])) := by
  unfold pushHeap
  rw [List.length_append, List.length_singleton, Nat.add_sub_cancel]
  refine siftUp_isHeap _ (Nat.le_succ _) ⟨fun p hp hpl => ?_, fun p hp hpl h0 => ?_⟩
  · by_cases hlt : p < l.length
    · rw [keyAt_append_left hlt, keyAt_append_left (by omega)]
      exact h p hp
    · rw [keyAt_of_length_le (l := l ++ [x]) (i := p) (by simp; omega)]
      exact le_top
  · rw [keyAt_of_length_le (l := l ++ [x]) (i := p) (by simp; omega)]
    exact le_top

/-! ## Moving down -/

theorem siftDown_perm (fuel : Nat) (l : List α) (i : Nat) : (siftDown key fuel l i).Perm l := by
  induction fuel generalizing l i with
  | zero => rfl
  | succ fuel ih =>
    unfold siftDown
    split
    · exact (ih _ _).trans (swapAt_perm _ _ _)
    · rfl

/-- The heap condition for the parents from `k` on. -/
def HeapFrom (k : Nat) (f : Nat → WithTop β) : Prop :=
  ∀ p, 0 < p → k ≤ (p - 1) / 2 → f ((p - 1) / 2) ≤ f p

/-- The heap condition for the parents from `k` on, off the element at `i`, which may come
after its children. -/
structure DownFrom (k : Nat) (f : Nat → WithTop β) (i : Nat) : Prop where
  others : ∀ p, 0 < p → k ≤ (p - 1) / 2 → (p - 1) / 2 ≠ i → f ((p - 1) / 2) ≤ f p
  children : ∀ p, 0 < p → (p - 1) / 2 = i → 0 < i → k ≤ (i - 1) / 2 → f ((i - 1) / 2) ≤ f p

/-- The exchange with a child `c` that comes first moves the hole of the heap condition
down. -/
theorem DownFrom.swap {k : Nat} {f : Nat → WithTop β} {i c : Nat} (h : DownFrom k f i)
    (hki : k ≤ i) (hc : 0 < c) (hci : (c - 1) / 2 = i)
    (hmin : ∀ p, 0 < p → (p - 1) / 2 = i → f c ≤ f p) (hlt : f c < f i) :
    DownFrom k (fun p => f (Equiv.swap i c p)) c := by
  have hself : Equiv.swap i c i = c := Equiv.swap_apply_left _ _
  have hchild : Equiv.swap i c c = i := Equiv.swap_apply_right _ _
  have hother : ∀ p, p ≠ i → p ≠ c → Equiv.swap i c p = p :=
    fun p h₁ h₂ => Equiv.swap_apply_of_ne_of_ne h₁ h₂
  constructor
  · intro p hp hk hpc
    by_cases hpi : (p - 1) / 2 = i
    · rw [hpi, hself]
      by_cases hp' : p = c
      · rw [hp', hchild]
        exact hlt.le
      · rw [hother p (by omega) hp']
        exact hmin p hp hpi
    rw [hother _ hpi hpc]
    by_cases hp' : p = i
    · subst hp'
      rw [hself]
      exact h.children c hc hci hp hk
    · have hp'' : p ≠ c := fun hpc' => hpi (hpc' ▸ hci)
      rw [hother p hp' hp'']
      exact h.others p hp hk hpi
  · intro p hp hpc h0 hk
    rw [hci, hself, hother p (by omega) (by omega)]
    have := h.others p hp (by omega) (by omega)
    rwa [hpc] at this

theorem firstChild_spec (key : α → β) (l : List α) (i : Nat) :
    0 < firstChild key l i ∧ (firstChild key l i - 1) / 2 = i ∧
      ∀ p, 0 < p → (p - 1) / 2 = i → keyAt key l (firstChild key l i) ≤ keyAt key l p := by
  unfold firstChild
  split
  · next hlt =>
      refine ⟨by omega, by omega, fun p hp hpi => ?_⟩
      obtain rfl | rfl : p = 2 * i + 1 ∨ p = 2 * i + 2 := by omega
      · exact hlt.le
      · exact le_rfl
  · next hlt =>
      refine ⟨by omega, by omega, fun p hp hpi => ?_⟩
      obtain rfl | rfl : p = 2 * i + 1 ∨ p = 2 * i + 2 := by omega
      · exact le_rfl
      · exact le_of_not_gt hlt

theorem siftDown_heapFrom (fuel : Nat) {k : Nat} {l : List α} {i : Nat} (hki : k ≤ i)
    (hi : l.length ≤ i + fuel) (h : DownFrom k (keyAt key l) i) :
    HeapFrom k (keyAt key (siftDown key fuel l i)) := by
  induction fuel generalizing l i with
  | zero =>
    intro p hp hk
    by_cases hpi : (p - 1) / 2 = i
    · rw [keyAt_of_length_le (i := p) (by rw [siftDown]; omega)]
      exact le_top
    · exact h.others p hp hk hpi
  | succ fuel ih =>
    obtain ⟨hc, hci, hmin⟩ := firstChild_spec key l i
    unfold siftDown
    split
    · next hlt =>
        have hcl := lt_length_of_keyAt_lt hlt
        refine ih (by omega) (by rw [length_swapAt]; omega) ?_
        have hfun : keyAt key (swapAt l i (firstChild key l i)) =
            fun p => keyAt key l (Equiv.swap i (firstChild key l i) p) :=
          funext fun p => keyAt_swapAt (by omega) hcl p
        rw [hfun]
        exact h.swap hki hc hci hmin hlt
    · next hlt =>
        intro p hp hk
        by_cases hpi : (p - 1) / 2 = i
        · rw [hpi]
          exact (le_of_not_gt hlt).trans (hmin p hp hpi)
        · exact h.others p hp hk hpi

theorem heapifyBelow_perm (k : Nat) (l : List α) : (heapifyBelow key k l).Perm l := by
  induction k generalizing l with
  | zero => rfl
  | succ k ih => exact (ih _).trans (siftDown_perm _ _ _)

theorem heapifyBelow_isHeap (k : Nat) {l : List α} (h : HeapFrom k (keyAt key l)) :
    IsHeap key (heapifyBelow key k l) := by
  induction k generalizing l with
  | zero => exact fun p hp => h p hp (Nat.zero_le _)
  | succ k ih =>
    refine ih (siftDown_heapFrom _ le_rfl (by omega) ⟨fun p hp hk hpk => ?_, ?_⟩)
    · exact h p hp (by omega)
    · intro p hp hpk h0 hk
      omega

theorem makeHeap_perm (l : List α) : (makeHeap key l).Perm l := heapifyBelow_perm _ _

theorem isHeap_makeHeap (l : List α) : IsHeap key (makeHeap key l) := by
  refine heapifyBelow_isHeap _ fun p hp hk => ?_
  rw [keyAt_of_length_le (i := p) (by omega)]
  exact le_top

/-! ## The first element -/

theorem isHeap_nil : IsHeap key ([] : List α) := by
  intro i _
  rw [keyAt_of_length_le (l := []) (i := i) (Nat.zero_le i)]
  exact le_top

theorem IsHeap.root_le {l : List α} (h : IsHeap key l) (i : Nat) : keyAt key l 0 ≤ keyAt key l i := by
  induction i using Nat.strongRecOn with
  | ind i ih =>
    by_cases hi : i = 0
    · rw [hi]
    · exact (ih ((i - 1) / 2) (by omega)).trans (h i (by omega))

/-- No element of a heap comes before the first. -/
theorem IsHeap.head_le {x : α} {xs : List α} (h : IsHeap key (x :: xs)) {y : α}
    (hy : y ∈ x :: xs) : key x ≤ key y := by
  obtain ⟨i, hi⟩ := List.mem_iff_getElem?.1 hy
  have hle := h.root_le i
  unfold keyAt at hle
  rw [hi] at hle
  exact WithTop.coe_le_coe.1 hle

/-- What `pop_heap` makes of a list: its first element is the last one, and the others
are in front of it, as a heap if there was one before. -/
theorem popHeap_eq (key : α → β) (x : α) (xs : List α) : ∃ rest, popHeap key (x :: xs) = rest ++ [x] ∧
    rest.Perm xs ∧ (IsHeap key (x :: xs) → IsHeap key rest) := by
  rcases xs.eq_nil_or_concat with rfl | ⟨ys, y, rfl⟩
  · exact ⟨[], rfl, .nil, fun _ => isHeap_nil⟩
  · refine ⟨siftDown key (ys ++ [y]).length (y :: ys) 0, ?_, ?_, fun h => ?_⟩
    · rw [List.concat_eq_append, popHeap, List.getLast?_append]
      simp
    · rw [List.concat_eq_append]
      exact (siftDown_perm _ _ _).trans (List.perm_append_singleton y ys).symm
    · have hfrom : HeapFrom 0 (keyAt key (siftDown key (ys ++ [y]).length (y :: ys) 0)) := by
        refine siftDown_heapFrom _ le_rfl (by simp) ⟨fun p hp _ hp0 => ?_, fun p hp _ h0 => ?_⟩
        · -- off the root the list is the one that was a heap
          have hsame : ∀ q, 0 < q → q < (y :: ys).length →
              keyAt key (y :: ys) q = keyAt key (x :: (ys ++ [y])) q := by
            intro q hq hlt
            obtain ⟨q, rfl⟩ := Nat.exists_eq_succ_of_ne_zero hq.ne'
            unfold keyAt
            rw [List.getElem?_cons_succ, List.getElem?_cons_succ, List.getElem?_append_left]
            simpa using hlt
          by_cases hlt : p < (y :: ys).length
          · rw [hsame p hp hlt, hsame _ (by omega) (by omega)]
            rw [List.concat_eq_append] at h
            exact h p hp
          · rw [keyAt_of_length_le (i := p) (by omega)]
            exact le_top
        · exact absurd h0 (lt_irrefl _)
      exact fun p hp => hfrom p hp (Nat.zero_le _)

end AzaharPlus.Heap
