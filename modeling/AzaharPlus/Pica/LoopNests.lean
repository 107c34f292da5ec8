import Mathlib.Data.List.Basic
import Mathlib.Tactic.Ring

/-!
# Nests of loops

Loops inside of loops, with the addresses of their instructions and the values of the loop register
aL: what they are meant to do, and what they do when an inner loop leaves its own first value in the
register and a loop that ends together with an inner one is not closed.

* `Nest.expected` — the instructions of a nest and the register during each of them.
* `Nest.count_expected` — how often the innermost body is executed in it.
* `Nest.actual` — the same for the interpreter.
* `Nest.expected_eq_actual_iff` — the nests for which they agree.
-/

namespace AzaharPlus.Pica

/-- A nest of loops: each loop goes from `y` on in steps of `z`, `x + 1` times.  The innermost body has
`n + 1` instructions; around an inner loop there are `pre` and `post` instructions. -/
inductive Nest where
  | body (x y z n : Nat)
  | loop (x y z pre : Nat) (inner : Nest) (post : Nat)
  deriving Repr

/-- Executed instructions: their addresses, and the values of aL. -/
abbrev Trace := List (Nat × Int)

/-- Instructions one after another. -/
def straight (a n : Nat) (v : Int) : Trace := (List.range n).map fun i => (a + i, v)

namespace Nest

/-! ## What a nest is meant to do -/

/-- `x`, `y` and `z` of the outermost loop. -/
def x : Nest → Nat
  | body x _ _ _ => x
  | loop x _ _ _ _ _ => x

@[inherit_doc x]
def y : Nest → Nat
  | body _ y _ _ => y
  | loop _ y _ _ _ _ => y

@[inherit_doc x]
def z : Nest → Nat
  | body _ _ z _ => z
  | loop _ _ z _ _ _ => z

/-- The instructions of a nest, with its `LOOP`. -/
def size : Nest → Nat
  | body _ _ _ n => n + 2
  | loop _ _ _ pre inner post => 1 + pre + inner.size + post

/-- The number of loops. -/
def depth : Nest → Nat
  | body _ _ _ _ => 1
  | loop _ _ _ _ inner _ => inner.depth + 1

/-- An iteration of the loop at an address: the instructions before the inner `LOOP`, this one, the
inner loop and the instructions behind it. -/
def iteration (a pre : Nat) (before : Int) (inner : Trace) (size post : Nat) (behind : Int) : Trace :=
  straight (a + 1) pre before ++ (a + 1 + pre, before) ::
    (inner ++ straight (a + 1 + pre + size) post behind)

/-- The instructions that a nest at an address is meant to execute behind its `LOOP`. -/
def expected : Nest → Nat → Trace
  | body x y z n, a =>
      (List.range (x + 1)).flatMap fun k => straight (a + 1) (n + 1) (y + k * z : Nat)
  | loop x y z pre inner post, a =>
      (List.range (x + 1)).flatMap fun k =>
        iteration a pre (y + k * z : Nat) (inner.expected (a + 1 + pre)) inner.size post
          (y + k * z : Nat)

/-- The value of aL behind a nest. -/
def finalAL (N : Nest) : Nat := N.y + (N.x + 1) * N.z

/-- The first instruction of the innermost body. -/
def bodyAddress : Nest → Nat → Nat
  | body _ _ _ _, a => a + 1
  | loop _ _ _ pre inner _, a => inner.bodyAddress (a + 1 + pre)

/-- How often the innermost body is meant to be executed. -/
def times : Nest → Nat
  | body x _ _ _ => x + 1
  | loop x _ _ _ inner _ => (x + 1) * inner.times

/-! ## What the interpreter does -/

/-- All loops of a nest are closed: none ends together with its inner loop. -/
def Closes : Nest → Prop
  | body _ _ _ _ => True
  | loop _ _ _ _ inner post => inner.Closes ∧ 0 < post

instance : (N : Nest) → Decidable N.Closes
  | body _ _ _ _ => inferInstanceAs (Decidable True)
  | loop _ _ _ _ inner post =>
      have := instDecidableCloses inner
      inferInstanceAs (Decidable (inner.Closes ∧ 0 < post))

/-- The value of aL that a nest inside of another loop leaves: its first one, or that of the outermost
loop that is closed. -/
def left : Nest → Nat
  | body _ y _ _ => y
  | loop x y z pre inner post => if (loop x y z pre inner post).Closes then y else inner.left

/-- The instructions that the interpreter executes behind the `LOOP` of a nest. -/
def actual : Nest → Nat → Trace
  | body x y z n, a =>
      (List.range (x + 1)).flatMap fun k => straight (a + 1) (n + 1) (y + k * z : Nat)
  | loop x y z pre inner post, a =>
      iteration a pre y (inner.actual (a + 1 + pre)) inner.size post inner.left ++
        if (loop x y z pre inner post).Closes then
          (List.range x).flatMap fun _ =>
            iteration a pre (inner.left + z : Nat) (inner.actual (a + 1 + pre)) inner.size post
              inner.left
        else []

/-- The value of aL behind a nest that is in no other loop. -/
def actualAL : Nest → Nat
  | body x y z _ => y + (x + 1) * z
  | loop x y z pre inner post =>
      if (loop x y z pre inner post).Closes then inner.left + z else inner.left

/-- The values of `x`, `y` and `z` with which the interpreter does what a nest is meant to do up to its
end: a loop that is closed starts from the value that the inner loop leaves and does not change it in
more than one iteration; the others have one iteration. -/
def Agrees : Nest → Prop
  | body _ _ _ _ => True
  | loop x y z pre inner post =>
      inner.Agrees ∧
        if (loop x y z pre inner post).Closes then inner.left = y ∧ (x = 0 ∨ z = 0)
        else x = 0 ∧ (0 < post → inner.left = y)

instance : (N : Nest) → Decidable N.Agrees
  | body _ _ _ _ => inferInstanceAs (Decidable True)
  | loop x y z pre inner post =>
      have := instDecidableAgrees inner
      inferInstanceAs (Decidable (inner.Agrees ∧
        if (loop x y z pre inner post).Closes then inner.left = y ∧ (x = 0 ∨ z = 0)
        else x = 0 ∧ (0 < post → inner.left = y)))

/-! ## Addresses -/

theorem two_le_size (N : Nest) : 2 ≤ N.size := by
  induction N with
  | body x y z n => exact Nat.le_add_left 2 n
  | loop x y z pre inner post ih =>
    rw [size]
    omega

/-- An address behind the `LOOP` of a nest and inside of it. -/
def Inside (N : Nest) (a : Nat) (e : Nat × Int) : Prop := a < e.1 ∧ e.1 < a + N.size

theorem mem_straight {a n : Nat} {v : Int} {e : Nat × Int} (h : e ∈ straight a n v) :
    a ≤ e.1 ∧ e.1 < a + n ∧ e.2 = v := by
  obtain ⟨i, hi, rfl⟩ := List.mem_map.1 h
  have := List.mem_range.1 hi
  exact ⟨Nat.le_add_right a i, by simp only; omega, rfl⟩

theorem length_straight (a n : Nat) (v : Int) : (straight a n v).length = n := by
  rw [straight, List.length_map, List.length_range]

/-- The addresses of an iteration. -/
theorem inside_iteration {x y z pre : Nat} {inner : Nest} {post a : Nat} {before behind : Int}
    {trace : Trace} (h : ∀ e ∈ trace, inner.Inside (a + 1 + pre) e) :
    ∀ e ∈ iteration a pre before trace inner.size post behind,
      (loop x y z pre inner post).Inside a e := by
  have hsize := inner.two_le_size
  intro e he
  unfold Inside size
  rcases List.mem_append.1 he with hpre | hrest
  · have := mem_straight hpre
    omega
  · rcases List.mem_cons.1 hrest with rfl | hrest
    · simp only
      omega
    · rcases List.mem_append.1 hrest with hinner | hpost
      · have := h e hinner
        unfold Inside at this
        omega
      · have := mem_straight hpost
        omega

theorem inside_expected (N : Nest) (a : Nat) : ∀ e ∈ N.expected a, N.Inside a e := by
  induction N generalizing a with
  | body x y z n =>
    intro e he
    obtain ⟨k, _, he⟩ := List.mem_flatMap.1 he
    have := mem_straight he
    unfold Inside size
    omega
  | loop x y z pre inner post ih =>
    intro e he
    obtain ⟨k, _, he⟩ := List.mem_flatMap.1 he
    exact inside_iteration (ih _) e he

theorem inside_actual (N : Nest) (a : Nat) : ∀ e ∈ N.actual a, N.Inside a e := by
  induction N generalizing a with
  | body x y z n => exact inside_expected (body x y z n) a
  | loop x y z pre inner post ih =>
    intro e he
    rcases List.mem_append.1 he with hfirst | hrest
    · exact inside_iteration (ih _) e hfirst
    · split at hrest
      · obtain ⟨k, _, he⟩ := List.mem_flatMap.1 hrest
        exact inside_iteration (ih _) e he
      · cases hrest

/-! ## How often the body is executed -/

theorem bodyAddress_inside (N : Nest) (a : Nat) :
    a < N.bodyAddress a ∧ N.bodyAddress a < a + N.size := by
  induction N generalizing a with
  | body x y z n =>
    unfold bodyAddress size
    omega
  | loop x y z pre inner post ih =>
    have hinner := ih (a + 1 + pre)
    unfold bodyAddress size
    omega

theorem countP_eq_zero_of {p : Nat × Int → Bool} {trace : Trace} (h : ∀ e ∈ trace, p e = false) :
    trace.countP p = 0 := by
  rw [List.countP_eq_zero]
  intro e he
  rw [h e he]
  exact Bool.false_ne_true

theorem countP_flatMap_const {p : Nat × Int → Bool} {f : Nat → Trace} {c : Nat}
    (h : ∀ k, (f k).countP p = c) (n : Nat) : ((List.range n).flatMap f).countP p = n * c := by
  induction n with
  | zero => simp
  | succ n ih =>
    rw [List.range_succ, List.flatMap_append, List.countP_append, ih, List.flatMap_singleton, h,
      Nat.succ_mul]

/-- **The innermost body is executed** as often as the loops say together. -/
theorem count_expected (N : Nest) (a : Nat) :
    (N.expected a).countP (fun e => e.1 == N.bodyAddress a) = N.times := by
  induction N generalizing a with
  | body x y z n =>
    rw [expected, countP_flatMap_const (c := 1) (fun k => ?_), Nat.mul_one, times]
    rw [straight, List.range_succ_eq_map, List.map_cons, List.countP_cons, countP_eq_zero_of]
    · simp [bodyAddress]
    · intro e he
      obtain ⟨i, hi, rfl⟩ := List.mem_map.1 he
      obtain ⟨j, _, rfl⟩ := List.mem_map.1 hi
      simp [bodyAddress]
  | loop x y z pre inner post ih =>
    have hinside := inner.bodyAddress_inside (a + 1 + pre)
    rw [expected, countP_flatMap_const (c := inner.times) (fun k => ?_), times]
    rw [iteration, List.countP_append, List.countP_cons, List.countP_append, bodyAddress, ih,
      countP_eq_zero_of, countP_eq_zero_of]
    · have hne : ¬ a + 1 + pre = inner.bodyAddress (a + 1 + pre) := by omega
      simp [hne]
    · intro e he
      have := mem_straight he
      simp only [beq_eq_false_iff_ne]
      omega
    · intro e he
      have := mem_straight he
      simp only [beq_eq_false_iff_ne]
      omega

/-! ## Where both agree -/

/-- A common beginning whose entries have a property that the next entries do not have. -/
theorem append_eq_append_of {α : Type} {p : α → Prop} {l l' r r' : List α} (hl : ∀ e ∈ l, p e)
    (hl' : ∀ e ∈ l', p e) (hr : ∀ e ∈ r.head?, ¬ p e) (hr' : ∀ e ∈ r'.head?, ¬ p e)
    (h : l ++ r = l' ++ r') : l = l' ∧ r = r' := by
  induction l generalizing l' with
  | nil =>
    cases l' with
    | nil => exact ⟨rfl, h⟩
    | cons e l' =>
      rw [List.nil_append] at h
      rw [h] at hr
      exact absurd (hl' e List.mem_cons_self) (hr e rfl)
  | cons e l ih =>
    cases l' with
    | nil =>
      rw [List.nil_append] at h
      rw [← h] at hr'
      exact absurd (hl e List.mem_cons_self) (hr' e rfl)
    | cons e' l' =>
      rw [List.cons_append, List.cons_append, List.cons.injEq] at h
      obtain ⟨hinner, hrest⟩ := ih (fun d hd => hl d (List.mem_cons_of_mem _ hd))
        (fun d hd => hl' d (List.mem_cons_of_mem _ hd)) h.2
      exact ⟨by rw [h.1, hinner], hrest⟩

/-- The values during straight instructions, when there are any. -/
theorem straight_inj {a n : Nat} {v w : Int} (hn : 0 < n) (h : straight a n v = straight a n w) :
    v = w := by
  obtain ⟨m, rfl⟩ := Nat.exists_eq_succ_of_ne_zero (Nat.ne_of_gt hn)
  rw [straight, straight, List.range_succ_eq_map, List.map_cons, List.map_cons, List.cons.injEq,
    Prod.mk.injEq] at h
  exact h.1.2

/-- What follows an inner loop is not inside of it. -/
theorem not_inside_behind {inner : Nest} {a pre post : Nat} {v : Int} {rest : Trace}
    (hrest : ∀ e ∈ rest.head?, e.1 ≤ a + 1 + pre) :
    ∀ e ∈ (straight (a + 1 + pre + inner.size) post v ++ rest).head?,
      ¬ inner.Inside (a + 1 + pre) e := by
  intro e he hinside
  unfold Inside at hinside
  cases post with
  | zero =>
    have := hrest e he
    omega
  | succ post =>
    rw [straight, List.range_succ_eq_map] at he
    cases he
    simp only at hinside
    omega

/-- The first entry of an iteration. -/
theorem head_iteration (a pre : Nat) (before : Int) (inner : Trace) (size post : Nat)
    (behind : Int) (rest : Trace) :
    ∀ e ∈ (iteration a pre before inner size post behind ++ rest).head?, e.1 ≤ a + 1 + pre := by
  intro e he
  unfold iteration at he
  cases pre with
  | zero =>
    cases he
    exact Nat.le_refl _
  | succ pre =>
    rw [straight, List.range_succ_eq_map] at he
    cases he
    simp only
    omega

/-- Two iterations with the same beginning, and what follows them. -/
theorem iteration_append_inj {inner : Nest} {a pre post : Nat} {before behind behind' : Int}
    {trace trace' rest rest' : Trace} (ht : ∀ e ∈ trace, inner.Inside (a + 1 + pre) e)
    (ht' : ∀ e ∈ trace', inner.Inside (a + 1 + pre) e)
    (hr : ∀ e ∈ rest.head?, e.1 ≤ a + 1 + pre) (hr' : ∀ e ∈ rest'.head?, e.1 ≤ a + 1 + pre)
    (h : iteration a pre before trace inner.size post behind ++ rest =
      iteration a pre before trace' inner.size post behind' ++ rest') :
    trace = trace' ∧ (0 < post → behind = behind') ∧ rest = rest' := by
  unfold iteration at h
  rw [List.append_assoc, List.append_assoc] at h
  have hcons := (List.cons.inj (List.append_cancel_left h)).2
  simp only [List.append_eq, List.append_assoc] at hcons
  obtain ⟨htrace, hbehind⟩ := append_eq_append_of ht ht' (not_inside_behind hr)
    (not_inside_behind hr') hcons
  obtain ⟨hpost, hrest⟩ := List.append_inj hbehind
    (by rw [length_straight, length_straight])
  exact ⟨htrace, fun hpos => straight_inj hpos hpost, hrest⟩

/-- The first iteration of a loop and the others. -/
theorem expected_loop (x y z pre : Nat) (inner : Nest) (post a : Nat) :
    (loop x y z pre inner post).expected a =
      iteration a pre y (inner.expected (a + 1 + pre)) inner.size post y ++
        (List.range x).flatMap fun k =>
          iteration a pre (y + (k + 1) * z : Nat) (inner.expected (a + 1 + pre)) inner.size post
            (y + (k + 1) * z : Nat) := by
  rw [expected, List.range_succ_eq_map, List.flatMap_cons, List.flatMap_map, Nat.zero_mul,
    Nat.add_zero]

/-- The first entry of several iterations. -/
theorem head_iterations {a pre size post : Nat} {before behind : Nat → Int} {inner : Trace} (n : Nat) :
    ∀ e ∈ ((List.range n).flatMap fun k =>
      iteration a pre (before k) inner size post (behind k)).head?, e.1 ≤ a + 1 + pre := by
  cases n with
  | zero =>
    intro e he
    cases he
  | succ n =>
    rw [List.range_succ_eq_map, List.flatMap_cons]
    exact head_iteration a pre _ inner size post _ _

/-- The nests of which the interpreter executes the instructions that it is meant to execute. -/
theorem expected_eq_actual_iff (N : Nest) (a : Nat) : N.expected a = N.actual a ↔ N.Agrees := by
  induction N generalizing a with
  | body x y z n => exact iff_of_true rfl trivial
  | loop x y z pre inner post ih =>
    rw [expected_loop, actual, Agrees]
    constructor
    · intro h
      by_cases hcloses : (loop x y z pre inner post).Closes
      · rw [if_pos hcloses] at h ⊢
        obtain ⟨hinner, hpost, hrest⟩ := iteration_append_inj (inside_expected inner _)
          (inside_actual inner _) (head_iterations x) (head_iterations x) h
        have hleft : inner.left = y := (Int.ofNat.inj (hpost hcloses.2)).symm
        refine ⟨(ih _).1 hinner, hleft, ?_⟩
        cases x with
        | zero => exact Or.inl rfl
        | succ x =>
          -- the register behind the inner loop in the second iteration
          rw [List.range_succ_eq_map, List.flatMap_cons, List.flatMap_cons, hleft, Nat.zero_add,
            Nat.one_mul] at hrest
          rw [List.flatMap_map, List.flatMap_map] at hrest
          obtain ⟨_, hpost, _⟩ := iteration_append_inj (inside_expected inner _)
            (inside_actual inner _) (head_iterations x) (head_iterations x) hrest
          have := Int.ofNat.inj (hpost hcloses.2)
          exact Or.inr (by omega)
      · rw [if_neg hcloses] at h ⊢
        obtain ⟨hinner, hpost, hrest⟩ := iteration_append_inj (inside_expected inner _)
          (inside_actual inner _) (head_iterations x) (fun e he => by cases he) h
        refine ⟨(ih _).1 hinner, ?_, fun hpos => (Int.ofNat.inj (hpost hpos)).symm⟩
        cases x with
        | zero => rfl
        | succ x =>
          rw [List.range_succ_eq_map, List.flatMap_cons, iteration] at hrest
          simp at hrest
    · rintro ⟨hinner, hcond⟩
      rw [(ih (a + 1 + pre)).2 hinner]
      by_cases hcloses : (loop x y z pre inner post).Closes
      · rw [if_pos hcloses] at hcond ⊢
        obtain ⟨hleft, rfl | rfl⟩ := hcond
        · rw [hleft]
          rfl
        · rw [hleft]
          simp only [Nat.mul_zero, Nat.add_zero]
      · rw [if_neg hcloses] at hcond ⊢
        obtain ⟨rfl, hpost⟩ := hcond
        rcases Nat.eq_zero_or_pos post with rfl | hpos
        · rfl
        · rw [hpost hpos]
          rfl

/-- What the interpreter leaves in aL behind a nest that agrees so far. -/
theorem actualAL_eq_finalAL_iff {N : Nest} (h : N.Agrees) :
    N.actualAL = N.finalAL ↔ (¬ N.Closes → N.left = N.y + N.z) := by
  cases N with
  | body x y z n => exact iff_of_true rfl fun hnot => absurd trivial hnot
  | loop x y z pre inner post =>
    obtain ⟨_, hcond⟩ := h
    have hleft' : (loop x y z pre inner post).left =
        if (loop x y z pre inner post).Closes then y else inner.left := rfl
    rw [actualAL, finalAL, hleft']
    by_cases hcloses : (loop x y z pre inner post).Closes
    · rw [if_pos hcloses] at hcond ⊢
      obtain ⟨hleft, rfl | rfl⟩ := hcond
      · refine iff_of_true ?_ fun hnot => absurd hcloses hnot
        rw [hleft]
        simp [Nest.x, Nest.y, Nest.z]
      · refine iff_of_true ?_ fun hnot => absurd hcloses hnot
        rw [hleft]
        simp [Nest.y, Nest.z]
    · rw [if_neg hcloses] at hcond ⊢
      obtain ⟨rfl, _⟩ := hcond
      simp [hcloses, Nest.x, Nest.y, Nest.z]

end Nest

end AzaharPlus.Pica
