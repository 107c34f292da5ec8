import Mathlib.Data.List.Dedup
import Mathlib.Data.List.Induction

/-!
# The recency order of a sequence of keys

A key that is used moves to the front of a list of distinct keys.  After any sequence of uses the
list holds every key that was used, and a key stands behind exactly the other keys that were used
after it.

* `take_touch_of_mem`, `take_touch_of_notMem` — what a use does to the first entries;
* `mem_take_order` — a key is among the first `n` iff fewer than `n` distinct keys were used after
  its last use.
-/

namespace AzaharPlus.Lib.Recency

variable {κ : Type} [DecidableEq κ]

/-- The key moves to the front. -/
def touch (l : List κ) (key : κ) : List κ := key :: l.erase key

/-- The distinct keys of a sequence of uses, the one used last first. -/
def order (keys : List κ) : List κ := keys.foldl touch []

@[simp] theorem order_nil : order ([] : List κ) = [] := rfl

@[simp] theorem order_append_singleton (keys : List κ) (key : κ) :
    order (keys ++ [key]) = touch (order keys) key := by
  simp [order]

theorem nodup_touch {l : List κ} (h : l.Nodup) (key : κ) : (touch l key).Nodup :=
  List.nodup_cons.2 ⟨h.not_mem_erase, h.erase key⟩

theorem mem_touch {l : List κ} {key k : κ} : k ∈ touch l key ↔ k = key ∨ k ∈ l := by
  rw [touch, List.mem_cons]
  by_cases hk : k = key
  · simp [hk]
  · rw [List.mem_erase_of_ne hk]

/-! ## The first entries -/

theorem take_erase_of_mem {l : List κ} {key : κ} {n : Nat} (hmem : key ∈ l.take (n + 1)) :
    (l.erase key).take n = (l.take (n + 1)).erase key := by
  induction l generalizing n with
  | nil => simp at hmem
  | cons a l ih =>
    by_cases ha : a = key
    · subst ha
      simp
    · have hmem' : key ∈ l.take n := by
        rw [List.take_succ_cons, List.mem_cons] at hmem
        exact hmem.resolve_left (Ne.symm ha)
      cases n with
      | zero => simp at hmem'
      | succ n =>
        have hbeq : (a == key) = false := by simpa using ha
        rw [List.erase_cons, hbeq, List.take_succ_cons, List.erase_cons, hbeq]
        simp [ih hmem']

theorem take_erase_of_notMem {l : List κ} {key : κ} {n : Nat} (hmem : key ∉ l.take (n + 1)) :
    (l.erase key).take n = l.take n := by
  induction l generalizing n with
  | nil => simp
  | cons a l ih =>
    rw [List.take_succ_cons, List.mem_cons, not_or] at hmem
    cases n with
    | zero => simp
    | succ n =>
      have hbeq : (a == key) = false := by simpa using Ne.symm hmem.1
      rw [List.erase_cons, hbeq]
      simp [ih hmem.2]

/-- A key that is among the first `n` moves to the front of them. -/
theorem take_touch_of_mem {l : List κ} {key : κ} {n : Nat} (hmem : key ∈ l.take n) :
    (touch l key).take n = touch (l.take n) key := by
  cases n with
  | zero => simp at hmem
  | succ n => rw [touch, List.take_succ_cons, take_erase_of_mem hmem, touch]

/-- A key that is not among the first `n` pushes the last of them out. -/
theorem take_touch_of_notMem {l : List κ} {key : κ} {n : Nat} (hn : 0 < n)
    (hmem : key ∉ l.take n) : (touch l key).take n = key :: (l.take n).take (n - 1) := by
  obtain ⟨m, rfl⟩ := Nat.exists_eq_add_one.2 hn
  rw [touch, List.take_succ_cons, take_erase_of_notMem hmem, List.take_take, Nat.add_sub_cancel,
    Nat.min_eq_left (Nat.le_succ m)]

/-! ## The order of a sequence of uses -/

theorem nodup_order (keys : List κ) : (order keys).Nodup := by
  induction keys using List.reverseRecOn with
  | nil => exact List.nodup_nil
  | append_singleton keys key ih =>
    rw [order_append_singleton]
    exact nodup_touch ih key

theorem mem_order {keys : List κ} {k : κ} : k ∈ order keys ↔ k ∈ keys := by
  induction keys using List.reverseRecOn with
  | nil => simp
  | append_singleton keys key ih =>
    rw [order_append_singleton, mem_touch, ih, List.mem_append, List.mem_singleton, or_comm]

/-- A key stands behind exactly the keys used after its last use. -/
theorem order_split (before : List κ) {key : κ} {later : List κ} (hlater : key ∉ later) :
    ∃ newer older, order (before ++ key :: later) = newer ++ key :: older ∧
      newer.Perm later.dedup := by
  suffices h : ∃ newer older, order (before ++ key :: later) = newer ++ key :: older ∧
      ∀ k, k ∈ newer ↔ k ∈ later by
    obtain ⟨newer, older, heq, hmem⟩ := h
    have hnodup : newer.Nodup := by
      have := nodup_order (before ++ key :: later)
      rw [heq] at this
      exact this.of_append_left
    exact ⟨newer, older, heq,
      (List.perm_ext_iff_of_nodup hnodup later.nodup_dedup).2 fun k => by rw [hmem, List.mem_dedup]⟩
  induction later using List.reverseRecOn with
  | nil => exact ⟨[], (order before).erase key, by simp [touch], fun k => Iff.rfl⟩
  | append_singleton later k ih =>
    rw [List.mem_append, List.mem_singleton, not_or] at hlater
    obtain ⟨newer, older, heq, hmem⟩ := ih hlater.1
    have horder : order (before ++ key :: (later ++ [k])) =
        touch (newer ++ key :: older) k := by
      rw [← heq, ← order_append_singleton, List.append_assoc, List.cons_append]
    by_cases hk : k ∈ newer
    · refine ⟨touch newer k, older, ?_, fun j => ?_⟩
      · rw [horder, touch, List.erase_append_left _ hk, touch, List.cons_append]
      · rw [mem_touch, hmem, List.mem_append, List.mem_singleton, or_comm]
    · refine ⟨k :: newer, older.erase k, ?_, fun j => ?_⟩
      · have hbeq : (key == k) = false := by simpa using hlater.2
        rw [horder, touch, List.erase_append_right _ hk, List.erase_cons, hbeq]
        rfl
      · rw [List.mem_cons, hmem, List.mem_append, List.mem_singleton, or_comm]

/-- **A key is among the first `n` iff fewer than `n` distinct keys were used after its last
use.** -/
theorem mem_take_order {keys : List κ} {key : κ} {n : Nat} :
    key ∈ (order keys).take n ↔
      ∃ before later, keys = before ++ key :: later ∧ key ∉ later ∧ later.dedup.length < n := by
  have hbound : ∀ before later, key ∉ later →
      (key ∈ (order (before ++ key :: later)).take n ↔ later.dedup.length < n) := by
    intro before later hlater
    obtain ⟨newer, older, heq, hperm⟩ := order_split before hlater
    have hnewer : key ∉ newer := fun h => hlater (List.mem_dedup.1 (hperm.mem_iff.1 h))
    rw [heq, ← hperm.length_eq, List.take_append, List.mem_append]
    constructor
    · rintro (h | h)
      · exact absurd (List.mem_of_mem_take h) hnewer
      · by_contra hle
        rw [Nat.sub_eq_zero_of_le (Nat.not_lt.1 hle)] at h
        exact absurd h (by simp)
    · intro hlt
      obtain ⟨d, hd⟩ := Nat.exists_eq_add_one.2 (Nat.sub_pos_of_lt hlt)
      exact Or.inr (by rw [hd, List.take_succ_cons]; exact List.mem_cons_self)
  constructor
  · intro hmem
    have hkey : key ∈ keys := mem_order.1 (List.mem_of_mem_take hmem)
    obtain ⟨l, r, hsplit, hl⟩ := List.eq_append_cons_of_mem (List.mem_reverse.2 hkey)
    have hkeys : keys = r.reverse ++ key :: l.reverse := by
      rw [← List.reverse_reverse keys, hsplit]
      simp
    have hlater : key ∉ l.reverse := fun h => hl (List.mem_reverse.1 h)
    subst hkeys
    exact ⟨_, _, rfl, hlater, (hbound _ _ hlater).1 hmem⟩
  · rintro ⟨before, later, rfl, hlater, hlt⟩
    exact (hbound before later hlater).2 hlt

end AzaharPlus.Lib.Recency
