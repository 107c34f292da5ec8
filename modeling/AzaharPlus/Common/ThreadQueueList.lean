import Mathlib.Algebra.Group.Nat.Defs
import Mathlib.Algebra.Group.Int.Defs
import Mathlib.Algebra.GroupWithZero.Nat
import Mathlib.Logic.Function.Basic
import Mathlib.Data.List.Count

/-!
# The queue of threads by priority level (`common/thread_queue_list.h`)

A `ThreadQueueList` has one double-ended queue for each priority level, and a list of links that
skips the levels which were never used.  A level is entered into the links by `prepare`; pushing
a thread does not do that, and the two pops walk through the links only.

The links are sound when every link leads to the next linked level (`Sound`).  All operations
keep them so, and on sound links

* `popFirst` finds the first thread of the best level that is not empty (`popFirst_popped`);
* `popFirstBetter` does so for the levels before a given one, and dereferences no bad pointer as
  long as that level is linked (`popFirstBetter_popped`).
-/

namespace AzaharPlus.Common

/-- A `Queue*` as the list stores it: the tag of a level never used, the null pointer, or the
address of a level. -/
inductive Link where
  | unlinked
  | null
  | level (index : Nat)
  deriving DecidableEq, Repr

/-- The queues of the levels `0 .. N - 1` and their links. -/
structure ThreadQueueList (α : Type) (N : Nat) where
  /-- The first queue that was ever used. -/
  first : Link
  /-- The next used level after each level. -/
  nextNonempty : Nat → Link
  /-- The threads in each level. -/
  data : Nat → List α

namespace ThreadQueueList

variable {α : Type} {N : Nat}

/-- The list after its constructor. -/
def empty : ThreadQueueList α N :=
  { first := .null, nextNonempty := fun _ => .unlinked, data := fun _ => [] }

/-! ## The operations -/

/-- The loop of both pops: the first level with a thread, as long as `go` lets the loop run on
the pointer.  The outcome is `none` if a pointer is dereferenced that leads to no level. -/
def seek (q : ThreadQueueList α N) (go : Link → Bool) : Nat → Link → Option (Option Nat)
  | 0, _ => none
  | fuel + 1, cur =>
      if go cur then
        match cur with
        | .level k =>
            if (q.data k).isEmpty then q.seek go fuel (q.nextNonempty k) else some (some k)
        | _ => none
      else some none

/-- The queue with other threads in one level. -/
def setData (q : ThreadQueueList α N) (k : Nat) (l : List α) : ThreadQueueList α N :=
  { q with data := Function.update q.data k l }

/-- Takes the front of the level that was found. -/
def popLevel (q : ThreadQueueList α N) : Option Nat → Option α × ThreadQueueList α N
  | none => (none, q)
  | some k =>
      match q.data k with
      | [] => (none, q)
      | x :: rest => (some x, q.setData k rest)

/-- `cur != nullptr` -/
def notNull : Link → Bool
  | .null => false
  | _ => true

/-- `cur < stop`, where `stop` is the address of a level: the null pointer and the tag are below
every address. -/
def before (stop : Nat) : Link → Bool
  | .level k => k < stop
  | _ => true

/-- Takes the first thread of the best level; `none` on a bad pointer. -/
def popFirst (q : ThreadQueueList α N) : Option (Option α × ThreadQueueList α N) :=
  (q.seek notNull (N + 1) q.first).map q.popLevel

/-- Takes the first thread of the best level before `priority`; `none` on a bad pointer. -/
def popFirstBetter (q : ThreadQueueList α N) (priority : Nat) :
    Option (Option α × ThreadQueueList α N) :=
  (q.seek (before priority) (N + 1) q.first).map q.popLevel

def pushFront (q : ThreadQueueList α N) (priority : Nat) (thread : α) : ThreadQueueList α N :=
  q.setData priority (thread :: q.data priority)

def pushBack (q : ThreadQueueList α N) (priority : Nat) (thread : α) : ThreadQueueList α N :=
  q.setData priority (q.data priority ++ [thread])

/-- Takes every occurrence of the thread out of one level. -/
def remove [DecidableEq α] (q : ThreadQueueList α N) (priority : Nat) (thread : α) :
    ThreadQueueList α N :=
  q.setData priority ((q.data priority).filter fun x => x ≠ thread)

/-- The loop of `link`, which looks for a used level below `i`. -/
def linkBelow (q : ThreadQueueList α N) (priority : Nat) : Nat → ThreadQueueList α N
  | 0 =>
      { q with
        nextNonempty := Function.update q.nextNonempty priority q.first
        first := .level priority }
  | i + 1 =>
      if q.nextNonempty i ≠ .unlinked then
        { q with
          nextNonempty := Function.update
            (Function.update q.nextNonempty priority (q.nextNonempty i)) i (.level priority) }
      else q.linkBelow priority i

def link (q : ThreadQueueList α N) (priority : Nat) : ThreadQueueList α N :=
  q.linkBelow priority priority

/-- Enters a level into the links. -/
def prepare (q : ThreadQueueList α N) (priority : Nat) : ThreadQueueList α N :=
  if q.nextNonempty priority = .unlinked then q.link priority else q

/-- Moves a thread from one level to the end of another. -/
def move [DecidableEq α] (q : ThreadQueueList α N) (thread : α) (oldPriority newPriority : Nat) :
    ThreadQueueList α N :=
  ((q.remove oldPriority thread).prepare newPriority).pushBack newPriority thread

/-! ## Sound links -/

/-- The level was entered into the links. -/
def Linked (q : ThreadQueueList α N) (k : Nat) : Prop := q.nextNonempty k ≠ .unlinked

/-- The pointer leads to the first linked level from `lo` on. -/
def Points (q : ThreadQueueList α N) (lo : Nat) : Link → Prop
  | .unlinked => False
  | .null => ∀ k, lo ≤ k → ¬ q.Linked k
  | .level k => lo ≤ k ∧ q.Linked k ∧ ∀ i, lo ≤ i → i < k → ¬ q.Linked i

/-- Every link leads to the next linked level, and only linked levels hold threads. -/
structure Sound (q : ThreadQueueList α N) : Prop where
  first : q.Points 0 q.first
  next : ∀ k, q.Linked k → q.Points (k + 1) (q.nextNonempty k)
  bound : ∀ k, q.Linked k → k < N
  linked_of_data : ∀ k, q.data k ≠ [] → q.Linked k

theorem sound_empty : (empty : ThreadQueueList α N).Sound :=
  ⟨fun _ _ h => h rfl, fun _ h => absurd rfl h, fun _ h => absurd rfl h, fun _ h => absurd rfl h⟩

theorem points_setData (q : ThreadQueueList α N) (k : Nat) (l : List α) (lo : Nat) (c : Link) :
    (q.setData k l).Points lo c ↔ q.Points lo c := by
  cases c <;> rfl

theorem data_setData (q : ThreadQueueList α N) (k : Nat) (l : List α) (j : Nat) :
    (q.setData k l).data j = if j = k then l else q.data j := by
  by_cases h : j = k
  · subst h
    simp [setData]
  · simp [setData, h]

/-- The threads of a linked level can be replaced by any others. -/
theorem Sound.setData {q : ThreadQueueList α N} (hq : q.Sound) {k : Nat} {l : List α}
    (h : l ≠ [] → q.Linked k) : (q.setData k l).Sound := by
  refine ⟨(points_setData q k l _ _).2 hq.first, fun j hj => (points_setData q k l _ _).2 (hq.next j hj),
    hq.bound, fun j hj => ?_⟩
  rw [data_setData] at hj
  by_cases hjk : j = k
  · rw [if_pos hjk] at hj
    rw [hjk]
    exact h hj
  · rw [if_neg hjk] at hj
    exact hq.linked_of_data j hj

/-! ## Entering a level -/

@[simp] theorem data_linkBelow (q : ThreadQueueList α N) (p i : Nat) :
    (q.linkBelow p i).data = q.data := by
  induction i with
  | zero => rfl
  | succ i ih =>
    rw [linkBelow]
    split
    · rfl
    · exact ih

@[simp] theorem data_prepare (q : ThreadQueueList α N) (p : Nat) :
    (q.prepare p).data = q.data := by
  rw [prepare]
  split
  · exact data_linkBelow q p p
  · rfl

theorem Points.ne_unlinked {q : ThreadQueueList α N} {lo : Nat} {c : Link} (h : q.Points lo c) :
    c ≠ .unlinked := by
  rintro rfl
  exact h

/-- When one level `p` was entered, a pointer from beyond it still leads to the next level, and
so does one from before it that `p` does not come in front of. -/
theorem Points.enter {q q' : ThreadQueueList α N} {p lo : Nat} {c : Link}
    (hl : ∀ k, q'.Linked k ↔ k = p ∨ q.Linked k) (h : q.Points lo c)
    (hp : p < lo ∨ ∃ j, c = .level j ∧ j < p) : q'.Points lo c := by
  cases c with
  | unlinked => exact h
  | null =>
    rcases hp with hp | ⟨j, hj, -⟩
    · intro k hk hlk
      rcases (hl k).1 hlk with rfl | hlk
      · omega
      · exact h k hk hlk
    · cases hj
  | level j =>
    obtain ⟨h₁, h₂, h₃⟩ := h
    refine ⟨h₁, (hl j).2 (Or.inr h₂), fun i hi hij hli => ?_⟩
    rcases (hl i).1 hli with rfl | hli
    · rcases hp with hp | ⟨j', hj', hjp⟩
      · omega
      · cases hj'
        omega
    · exact h₃ i hi hij hli

/-- The level that was just entered takes over a pointer of the level before it. -/
theorem Points.takeOver {q q' : ThreadQueueList α N} {p lo : Nat} {c : Link}
    (hl : ∀ k, q'.Linked k ↔ k = p ∨ q.Linked k) (h : q.Points lo c) (hlo : lo ≤ p)
    (hgap : ∀ k, lo ≤ k → k ≤ p → ¬ q.Linked k) : q'.Points (p + 1) c := by
  cases c with
  | unlinked => exact h
  | null =>
    intro k hk hlk
    rcases (hl k).1 hlk with rfl | hlk
    · omega
    · exact h k (by omega) hlk
  | level j =>
    obtain ⟨h₁, h₂, h₃⟩ := h
    have hpj : p < j := by
      by_contra hcon
      exact hgap j h₁ (by omega) h₂
    refine ⟨by omega, (hl j).2 (Or.inr h₂), fun i hi hij hli => ?_⟩
    rcases (hl i).1 hli with rfl | hli
    · omega
    · exact h₃ i (by omega) hij hli

/-- A pointer from below a linked level leads to a level up to that one. -/
theorem Points.le {q : ThreadQueueList α N} {lo p : Nat} {c : Link} (h : q.Points lo c)
    (hlo : lo ≤ p) (hp : q.Linked p) : ∃ k, c = .level k ∧ lo ≤ k ∧ k ≤ p ∧ q.Linked k := by
  cases c with
  | unlinked => exact h.elim
  | null => exact absurd hp (h p hlo)
  | level k =>
    refine ⟨k, rfl, h.1, ?_, h.2.1⟩
    by_contra hcon
    exact h.2.2 p hlo (by omega) hp

/-- The links after a level was entered in front of all others. -/
theorem sound_linkFirst {q : ThreadQueueList α N} (hq : q.Sound) {p : Nat} (hp : p < N)
    (hgap : ∀ k, k ≤ p → ¬ q.Linked k) :
    (q.linkBelow p 0).Sound ∧ ∀ k, (q.linkBelow p 0).Linked k ↔ k = p ∨ q.Linked k := by
  have hnext : ∀ k, (q.linkBelow p 0).nextNonempty k =
      if k = p then q.first else q.nextNonempty k := by
    intro k
    simp [linkBelow, Function.update_apply]
  have hl : ∀ k, (q.linkBelow p 0).Linked k ↔ k = p ∨ q.Linked k := by
    intro k
    rw [Linked, hnext]
    by_cases hk : k = p
    · simp [hk, hq.first.ne_unlinked]
    · simp [hk, Linked]
  refine ⟨⟨⟨Nat.zero_le p, (hl p).2 (Or.inl rfl), fun i _ hi hli => ?_⟩, fun k hk => ?_,
    fun k hk => ?_, fun k hk => (hl k).2 (Or.inr (hq.linked_of_data k hk))⟩, hl⟩
  · rcases (hl i).1 hli with rfl | hli
    · omega
    · exact hgap i (by omega) hli
  · rw [hnext]
    by_cases hkp : k = p
    · rw [if_pos hkp, hkp]
      exact hq.first.takeOver hl (Nat.zero_le p) fun j _ hj => hgap j hj
    · rw [if_neg hkp]
      have hk' : q.Linked k := ((hl k).1 hk).resolve_left hkp
      refine (hq.next k hk').enter hl (Or.inl ?_)
      by_contra hcon
      exact hgap k (by omega) hk'
  · rcases (hl k).1 hk with rfl | hk
    · exact hp
    · exact hq.bound k hk

/-- The links after a level was entered behind the level `i`, the last one used before it. -/
theorem sound_linkAfter {q : ThreadQueueList α N} (hq : q.Sound) {p i : Nat} (hp : p < N)
    (hip : i < p) (hi : q.Linked i) (hgap : ∀ k, i < k → k ≤ p → ¬ q.Linked k) :
    (q.linkBelow p (i + 1)).Sound ∧
      ∀ k, (q.linkBelow p (i + 1)).Linked k ↔ k = p ∨ q.Linked k := by
  have hnext : ∀ k, (q.linkBelow p (i + 1)).nextNonempty k =
      if k = i then .level p else if k = p then q.nextNonempty i else q.nextNonempty k := by
    intro k
    unfold linkBelow
    rw [if_pos (show q.nextNonempty i ≠ .unlinked from hi)]
    simp [Function.update_apply]
  have hfirst : (q.linkBelow p (i + 1)).first = q.first := by
    unfold linkBelow
    rw [if_pos (show q.nextNonempty i ≠ .unlinked from hi)]
  have hl : ∀ k, (q.linkBelow p (i + 1)).Linked k ↔ k = p ∨ q.Linked k := by
    intro k
    rw [Linked, hnext]
    by_cases hk : k = i
    · simp [hk, hi]
    · by_cases hkp : k = p
      · simp [hkp, Nat.ne_of_gt hip, (hq.next i hi).ne_unlinked]
      · simp [hk, hkp, Linked]
  refine ⟨⟨?_, fun k hk => ?_, fun k hk => ?_,
    fun k hk => (hl k).2 (Or.inr (hq.linked_of_data k (by rwa [data_linkBelow] at hk)))⟩, hl⟩
  · rw [hfirst]
    obtain ⟨j, hj, -, hji, -⟩ := hq.first.le (Nat.zero_le i) hi
    exact hq.first.enter hl (Or.inr ⟨j, hj, by omega⟩)
  · rw [hnext]
    by_cases hki : k = i
    · rw [if_pos hki, hki]
      refine ⟨hip, (hl p).2 (Or.inl rfl), fun j hij hjp hlj => ?_⟩
      rcases (hl j).1 hlj with rfl | hlj
      · omega
      · exact hgap j hij (by omega) hlj
    · rw [if_neg hki]
      by_cases hkp : k = p
      · rw [if_pos hkp, hkp]
        exact (hq.next i hi).takeOver hl hip hgap
      · rw [if_neg hkp]
        have hk' : q.Linked k := ((hl k).1 hk).resolve_left hkp
        refine (hq.next k hk').enter hl ?_
        by_cases hpk : p < k
        · exact Or.inl (by omega)
        · have hki' : k < i := by
            by_contra hcon
            exact hgap k (by omega) (by omega) hk'
          obtain ⟨j, hj, -, hji, -⟩ := (hq.next k hk').le hki' hi
          exact Or.inr ⟨j, hj, by omega⟩
  · rcases (hl k).1 hk with rfl | hk
    · exact hp
    · exact hq.bound k hk

/-- The loop of `link` finds the place of the level. -/
theorem sound_linkBelow {q : ThreadQueueList α N} (hq : q.Sound) {p : Nat} (hp : p < N) (i : Nat)
    (hip : i ≤ p) (hgap : ∀ k, i ≤ k → k ≤ p → ¬ q.Linked k) :
    (q.linkBelow p i).Sound ∧ ∀ k, (q.linkBelow p i).Linked k ↔ k = p ∨ q.Linked k := by
  induction i with
  | zero => exact sound_linkFirst hq hp fun k hk => hgap k (Nat.zero_le k) hk
  | succ i ih =>
    by_cases hi : q.Linked i
    · exact sound_linkAfter hq hp hip hi hgap
    · have hstep : q.linkBelow p (i + 1) = q.linkBelow p i := by
        rw [linkBelow, if_neg (show ¬ q.nextNonempty i ≠ .unlinked from hi)]
      rw [hstep]
      refine ih (by omega) fun k hk hkp => ?_
      rcases Nat.lt_or_ge i k with hik | hik
      · exact hgap k hik hkp
      · rwa [show k = i by omega]

/-- `prepare` enters the level it is given and keeps the others. -/
theorem linked_prepare {q : ThreadQueueList α N} (hq : q.Sound) {p : Nat} (hp : p < N) (k : Nat) :
    (q.prepare p).Linked k ↔ k = p ∨ q.Linked k := by
  rw [prepare]
  split
  · rename_i h
    refine (sound_linkBelow hq hp p (Nat.le_refl p) fun j hj hjp => ?_).2 k
    rw [Nat.le_antisymm hjp hj]
    exact fun hcon => hcon h
  · rename_i h
    constructor
    · exact Or.inr
    · rintro (rfl | hk)
      · exact h
      · exact hk

theorem Sound.prepare {q : ThreadQueueList α N} (hq : q.Sound) {p : Nat} (hp : p < N) :
    (q.prepare p).Sound := by
  rw [ThreadQueueList.prepare]
  split
  · rename_i h
    refine (sound_linkBelow hq hp p (Nat.le_refl p) fun j hj hjp => ?_).1
    rw [Nat.le_antisymm hjp hj]
    exact fun hcon => hcon h
  · exact hq

/-! ## The pops -/

/-- What a pop of the levels before `stop` has to do: take the front of the best level with a
thread, or nothing if there is none. -/
def Popped (q : ThreadQueueList α N) (stop : Nat) (r : Option α) (q' : ThreadQueueList α N) : Prop :=
  (r = none ∧ q' = q ∧ ∀ k, k < stop → q.data k = []) ∨
    ∃ k x rest, k < stop ∧ q.data k = x :: rest ∧ (∀ j, j < k → q.data j = []) ∧
      r = some x ∧ q' = q.setData k rest

/-- The best level with a thread before `stop`, or `none`. -/
def IsBest (q : ThreadQueueList α N) (stop : Nat) : Option Nat → Prop
  | none => ∀ k, k < stop → q.data k = []
  | some k => k < stop ∧ q.data k ≠ [] ∧ ∀ j, j < k → q.data j = []

theorem IsBest.popped {q : ThreadQueueList α N} {stop : Nat} {r : Option Nat}
    (h : q.IsBest stop r) : q.Popped stop (q.popLevel r).1 (q.popLevel r).2 := by
  cases r with
  | none => exact Or.inl ⟨rfl, rfl, h⟩
  | some k =>
    obtain ⟨h₁, h₂, h₃⟩ := h
    obtain ⟨x, rest, hx⟩ := List.exists_cons_of_ne_nil h₂
    refine Or.inr ⟨k, x, rest, h₁, hx, h₃, ?_, ?_⟩
    · rw [popLevel, hx]
    · rw [popLevel, hx]

/-- The levels before a pointer's level are empty, as far as those before `lo` are. -/
theorem Sound.data_before {q : ThreadQueueList α N} (hq : q.Sound) {lo k : Nat}
    (h : q.Points lo (.level k)) (hlo : ∀ j, j < lo → q.data j = []) (j : Nat) (hj : j < k) :
    q.data j = [] := by
  rcases Nat.lt_or_ge j lo with hjl | hjl
  · exact hlo j hjl
  · by_contra hcon
    exact h.2.2 j hjl hj (hq.linked_of_data j hcon)

/-- The loop of `popFirstBetter` stops at the given level, if that is linked. -/
theorem seek_before {q : ThreadQueueList α N} (hq : q.Sound) {p : Nat} (hp : q.Linked p)
    (fuel lo : Nat) (c : Link) (hc : q.Points lo c) (hlo : lo ≤ p) (hfuel : p - lo < fuel)
    (hempty : ∀ j, j < lo → q.data j = []) :
    ∃ r, q.seek (before p) fuel c = some r ∧ q.IsBest p r := by
  induction fuel generalizing lo c with
  | zero => omega
  | succ fuel ih =>
    obtain ⟨k, rfl, hlk, hkp, hk⟩ := hc.le hlo hp
    have hbefore := hq.data_before hc hempty
    rcases Nat.lt_or_ge k p with hlt | hge
    · by_cases hd : q.data k = []
      · obtain ⟨r, hr, hbest⟩ := ih (k + 1) (q.nextNonempty k) (hq.next k hk) hlt (by omega)
          fun j hj => by
            rcases Nat.lt_succ_iff_lt_or_eq.1 hj with h | rfl
            · exact hbefore j h
            · exact hd
        exact ⟨r, by simp [seek, before, hlt, hd, hr], hbest⟩
      · exact ⟨some k, by simp [seek, before, hlt, hd], hlt, hd, hbefore⟩
    · have hpk : p = k := by omega
      exact ⟨none, by simp [seek, before, hpk], fun j hj => hbefore j (by omega)⟩

/-- The loop of `popFirst` stops at the end of the links. -/
theorem seek_notNull {q : ThreadQueueList α N} (hq : q.Sound) (fuel lo : Nat) (c : Link)
    (hc : q.Points lo c) (hfuel : N - lo < fuel) (hempty : ∀ j, j < lo → q.data j = []) :
    ∃ r, q.seek notNull fuel c = some r ∧ q.IsBest N r := by
  induction fuel generalizing lo c with
  | zero => omega
  | succ fuel ih =>
    cases c with
    | unlinked => exact hc.elim
    | null =>
      refine ⟨none, by simp [seek, notNull], fun j _ => ?_⟩
      rcases Nat.lt_or_ge j lo with hjl | hjl
      · exact hempty j hjl
      · by_contra hcon
        exact hc j hjl (hq.linked_of_data j hcon)
    | level k =>
      have hbefore := hq.data_before hc hempty
      have hkN := hq.bound k hc.2.1
      by_cases hd : q.data k = []
      · have hlk := hc.1
        obtain ⟨r, hr, hbest⟩ := ih (k + 1) (q.nextNonempty k) (hq.next k hc.2.1) (by omega)
          fun j hj => by
            rcases Nat.lt_succ_iff_lt_or_eq.1 hj with h | rfl
            · exact hbefore j h
            · exact hd
        exact ⟨r, by simp [seek, notNull, hd, hr], hbest⟩
      · exact ⟨some k, by simp [seek, notNull, hd], hkN, hd, hbefore⟩

/-- `popFirst` takes the front of the best level. -/
theorem popFirst_popped {q : ThreadQueueList α N} (hq : q.Sound) :
    ∃ r q', q.popFirst = some (r, q') ∧ q.Popped N r q' := by
  obtain ⟨r, hr, hbest⟩ := seek_notNull hq (N + 1) 0 q.first hq.first (by omega) (by simp)
  exact ⟨_, _, by rw [popFirst, hr]; rfl, hbest.popped⟩

/-- `popFirstBetter` takes the front of the best level before a linked one, and meets no bad
pointer on the way. -/
theorem popFirstBetter_popped {q : ThreadQueueList α N} (hq : q.Sound) {p : Nat}
    (hp : q.Linked p) : ∃ r q', q.popFirstBetter p = some (r, q') ∧ q.Popped p r q' := by
  have hpN := hq.bound p hp
  obtain ⟨r, hr, hbest⟩ := seek_before hq hp (N + 1) 0 q.first hq.first (Nat.zero_le p) (by omega)
    (by simp)
  exact ⟨_, _, by rw [popFirstBetter, hr]; rfl, hbest.popped⟩

/-! ## Where a thread occurs -/

theorem Sound.pushBack {q : ThreadQueueList α N} (hq : q.Sound) {p : Nat} (hp : q.Linked p)
    (t : α) : (q.pushBack p t).Sound :=
  hq.setData fun _ => hp

theorem Sound.pushFront {q : ThreadQueueList α N} (hq : q.Sound) {p : Nat} (hp : q.Linked p)
    (t : α) : (q.pushFront p t).Sound :=
  hq.setData fun _ => hp

@[simp] theorem linked_pushBack (q : ThreadQueueList α N) (p : Nat) (t : α) (k : Nat) :
    (q.pushBack p t).Linked k ↔ q.Linked k := Iff.rfl

@[simp] theorem linked_pushFront (q : ThreadQueueList α N) (p : Nat) (t : α) (k : Nat) :
    (q.pushFront p t).Linked k ↔ q.Linked k := Iff.rfl

section Count

variable [DecidableEq α]

theorem count_pushBack (q : ThreadQueueList α N) (p : Nat) (t : α) (k : Nat) (u : α) :
    ((q.pushBack p t).data k).count u =
      (q.data k).count u + if k = p ∧ u = t then 1 else 0 := by
  rw [pushBack, data_setData]
  by_cases hk : k = p
  · by_cases hu : u = t
    · simp [hk, hu]
    · simp [hk, hu, Ne.symm hu]
  · simp [hk]

theorem count_pushFront (q : ThreadQueueList α N) (p : Nat) (t : α) (k : Nat) (u : α) :
    ((q.pushFront p t).data k).count u =
      (q.data k).count u + if k = p ∧ u = t then 1 else 0 := by
  rw [pushFront, data_setData]
  by_cases hk : k = p
  · by_cases hu : u = t
    · simp [hk, hu]
    · simp [hk, hu, Ne.symm hu]
  · simp [hk]

theorem count_remove (q : ThreadQueueList α N) (p : Nat) (t : α) (k : Nat) (u : α) :
    ((q.remove p t).data k).count u = if k = p ∧ u = t then 0 else (q.data k).count u := by
  rw [remove, data_setData]
  by_cases hk : k = p
  · by_cases hu : u = t
    · simp [hk, hu, List.count_eq_zero]
    · simp [hk, hu, List.count_filter]
  · simp [hk]

theorem count_move (q : ThreadQueueList α N) (t : α) (old new : Nat) (k : Nat) (u : α) :
    ((q.move t old new).data k).count u =
      (if k = old ∧ u = t then 0 else (q.data k).count u) + if k = new ∧ u = t then 1 else 0 := by
  rw [move, count_pushBack, data_prepare, count_remove]

theorem Sound.remove {q : ThreadQueueList α N} (hq : q.Sound) (p : Nat) (t : α) :
    (q.remove p t).Sound := by
  refine hq.setData fun h => hq.linked_of_data p fun hd => h ?_
  rw [hd]
  rfl

@[simp] theorem linked_remove (q : ThreadQueueList α N) (p : Nat) (t : α) (k : Nat) :
    (q.remove p t).Linked k ↔ q.Linked k := Iff.rfl

theorem linked_move {q : ThreadQueueList α N} (hq : q.Sound) (t : α) (old : Nat) {new : Nat}
    (hnew : new < N) (k : Nat) : (q.move t old new).Linked k ↔ k = new ∨ q.Linked k := by
  rw [move, linked_pushBack, linked_prepare (hq.remove old t) hnew, linked_remove]

theorem Sound.move {q : ThreadQueueList α N} (hq : q.Sound) (t : α) (old : Nat) {new : Nat}
    (hnew : new < N) : (q.move t old new).Sound := by
  refine ((hq.remove old t).prepare hnew).pushBack ?_ t
  exact (linked_prepare (hq.remove old t) hnew new).2 (Or.inl rfl)

end Count

end ThreadQueueList
end AzaharPlus.Common
