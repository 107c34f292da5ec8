import Mathlib

/-!
# Chains of indices threaded through an array

A free list is often kept inside the array it manages: entry `i` of `next`
holds the index after `i`, and an index of at least `limit` ends the list.
`Chain next limit i l` says that following the links from `i` visits exactly the
indices of `l`, in this order, and then ends; so a chain without repetition is an
acyclic list.  The lemmas are the two operations such a list has, taking off its
head (`Chain.tail`) and putting an index in front of it (`Chain.push`), and the
list of all indices (`chain_succ`).
-/

/-- Following `next` from an index visits exactly the indices of the list, all
below `limit`, and ends at the first index that is not. -/
inductive Chain (next : Nat → Nat) (limit : Nat) : Nat → List Nat → Prop
  | done {i : Nat} : limit ≤ i → Chain next limit i []
  | link {i : Nat} {l : List Nat} : i < limit → Chain next limit (next i) l →
      Chain next limit i (i :: l)

namespace Chain

variable {next : Nat → Nat} {limit : Nat}

/-- A chain from a proper index starts with it. -/
theorem tail {i : Nat} {l : List Nat} (h : Chain next limit i l) (hi : i < limit) :
    ∃ l', l = i :: l' ∧ Chain next limit (next i) l' := by
  cases h with
  | done hle => omega
  | link _ ht => exact ⟨_, rfl, ht⟩

/-- Changing the link of an index that is not on the chain leaves it alone. -/
theorem update_of_notMem {i j v : Nat} {l : List Nat} (h : Chain next limit i l) (hj : j ∉ l) :
    Chain (Function.update next j v) limit i l := by
  induction h with
  | done hle => exact .done hle
  | link hi _ ih =>
    simp only [List.mem_cons, not_or] at hj
    refine .link hi ?_
    rw [Function.update_of_ne (Ne.symm hj.1)]
    exact ih hj.2

/-- An index put in front of a chain by pointing it at the old head. -/
theorem push {i j : Nat} {l : List Nat} (h : Chain next limit i l) (hj : j < limit) (hn : j ∉ l) :
    Chain (Function.update next j i) limit j (j :: l) := by
  refine .link hj ?_
  rw [Function.update_self]
  exact h.update_of_notMem hn

/-- Linking every index to its successor chains all indices up to the limit. -/
theorem chain_succ (n : Nat) : ∀ k i, i + k = n →
    Chain (fun i => i + 1) n i (List.range' i k) := by
  intro k
  induction k with
  | zero => intro i hi; exact .done (by omega)
  | succ k ih =>
    intro i hi
    rw [List.range'_succ]
    exact .link (by omega) (ih (i + 1) (by omega))

end Chain
