import AzaharPlus.Common.StaticLRUCache
import AzaharPlus.Lib.Recency

/-!
# What the LRU cache answers over a whole run

A run is any sequence of `request` and `clear`.  The keys of the cache are the first ones of the
recency order of what was requested since the last `clear`, and a place stays with its key from
the miss that handed it out for as long as the key is listed.

* `keys_after` — the cache lists the most recently requested keys, as many as it has places;
* `handedOut_after` — every listed place was handed out by its key's last miss and to no other key
  since;
* `requests_answered` — when a request hits, and which place it then returns.

A cache without places has nothing to hand out: `evict` would read the end of an empty list.
-/

namespace AzaharPlus.Common
namespace StaticLRUCache

open Lib.Recency

variable {κ ν : Type} {N : Nat}

/-! ## Runs -/

/-- One call of the cache's interface. -/
inductive Call (κ : Type) where
  | request (key : κ)
  | clear

/-- What a request answered: whether the key was present, and the place of its item. -/
structure Answer (κ : Type) where
  key : κ
  hit : Bool
  place : Nat

/-- A cache, and the answers it has given so far. -/
structure Run (κ ν : Type) (N : Nat) where
  cache : StaticLRUCache κ ν N
  answers : List (Answer κ)

variable [DecidableEq κ]

/-- One call. -/
def Run.call (r : Run κ ν N) : Call κ → Run κ ν N
  | .request key =>
      { cache := (r.cache.request key).2.2
        answers := r.answers ++ [⟨key, (r.cache.request key).1, (r.cache.request key).2.1⟩] }
  | .clear => { r with cache := r.cache.clear }

/-- The run of a sequence of calls on a new cache. -/
def run (N : Nat) (array : Nat → ν) (calls : List (Call κ)) : Run κ ν N :=
  calls.foldl Run.call { cache := { list := [], array := array }, answers := [] }

@[simp] theorem run_append_singleton (array : Nat → ν) (calls : List (Call κ)) (c : Call κ) :
    run N array (calls ++ [c]) = (run N array calls).call c := by
  simp [run]

/-- The keys requested since the last `clear`. -/
def requestedSince (keys : List κ) : Call κ → List κ
  | .request key => keys ++ [key]
  | .clear => []

/-- The keys a sequence of calls requests after its last `clear`, in order. -/
def sinceClear (calls : List (Call κ)) : List κ := calls.foldl requestedSince []

omit [DecidableEq κ] in
@[simp] theorem sinceClear_append_singleton (calls : List (Call κ)) (c : Call κ) :
    sinceClear (calls ++ [c]) = requestedSince (sinceClear calls) c := by
  simp [sinceClear]

theorem sound_run (hN : 0 < N) (array : Nat → ν) (calls : List (Call κ)) :
    (run N array calls).cache.Sound := by
  induction calls using List.reverseRecOn with
  | nil => exact ⟨List.nodup_nil, List.Perm.refl _, Nat.zero_le N⟩
  | append_singleton calls c ih =>
    rw [run_append_singleton]
    cases c with
    | request key => exact ih.request hN key
    | clear => exact sound_clear _

/-! ## The listed keys -/

/-- The keys of the cache, the most recently used one first. -/
def keys (c : StaticLRUCache κ ν N) : List κ := c.list.map (·.1)

theorem find_isSome_iff {c : StaticLRUCache κ ν N} {key : κ} :
    (c.find key).isSome ↔ key ∈ c.keys := by
  rw [Option.isSome_iff_ne_none, Ne, find_eq_none, keys, List.mem_map]
  push Not
  exact Iff.rfl

theorem request_hit {c : StaticLRUCache κ ν N} {key : κ} :
    (c.request key).1 = true ↔ key ∈ c.keys := by
  rw [← find_isSome_iff, request]
  cases c.find key with
  | none => simp
  | some i => simp

theorem map_eraseP (l : List (κ × Nat)) (key : κ) :
    (l.eraseP (·.1 = key)).map (·.1) = (l.map (·.1)).erase key := by
  induction l with
  | nil => rfl
  | cons e l ih =>
    by_cases he : e.1 = key
    · simp [he]
    · have hbeq : (e.1 == key) = false := by simpa using he
      rw [List.eraseP_cons_of_neg (by simpa using he), List.map_cons, List.map_cons,
        List.erase_cons, hbeq, ih]
      rfl

/-- A hit moves its key to the front. -/
theorem keys_request_of_mem {c : StaticLRUCache κ ν N} {key : κ} (h : key ∈ c.keys) :
    (c.request key).2.2.keys = touch c.keys key := by
  obtain ⟨i, hi⟩ := Option.isSome_iff_exists.1 (find_isSome_iff.2 h)
  rw [request, hi, touch, keys, keys, ← map_eraseP]
  rfl

omit [DecidableEq κ] in
theorem map_makeRoom {l : List (κ × Nat)} (hsize : l.length ≤ N) :
    (makeRoom N l).2.map (·.1) = (l.map (·.1)).take (N - 1) := by
  unfold makeRoom
  by_cases hfull : N ≤ l.length
  · rw [if_pos hfull, evict, List.map_dropLast, List.dropLast_eq_take, List.length_map,
      Nat.le_antisymm hsize hfull]
  · rw [if_neg hfull, List.take_of_length_le]
    rw [List.length_map]
    exact Nat.le_sub_one_of_lt (Nat.not_le.1 hfull)

/-- A miss puts its key at the front and drops the last key of a full list. -/
theorem keys_request_of_notMem {c : StaticLRUCache κ ν N} {key : κ} (hsize : c.list.length ≤ N)
    (h : key ∉ c.keys) : (c.request key).2.2.keys = key :: c.keys.take (N - 1) := by
  have hnone : c.find key = none := by
    rw [← Option.not_isSome_iff_eq_none, find_isSome_iff]
    exact h
  rw [request, hnone, keys, keys, ← map_makeRoom hsize]
  rfl

/-- **The cache lists the keys requested last, as many as it has places.** -/
theorem keys_after (hN : 0 < N) (array : Nat → ν) (calls : List (Call κ)) :
    (run N array calls).cache.keys = (order (sinceClear calls)).take N := by
  induction calls using List.reverseRecOn with
  | nil => exact List.take_nil.symm
  | append_singleton calls c ih =>
    rw [run_append_singleton, sinceClear_append_singleton]
    cases c with
    | clear => exact List.take_nil.symm
    | request key =>
      rw [requestedSince, order_append_singleton]
      by_cases hmem : key ∈ (run N array calls).cache.keys
      · rw [Run.call, keys_request_of_mem hmem, ih, take_touch_of_mem (ih ▸ hmem)]
      · rw [Run.call, keys_request_of_notMem (sound_run hN array calls).size hmem, ih,
          take_touch_of_notMem hN (ih ▸ hmem)]

/-! ## The places handed out -/

/-- The key's last miss handed out this place, and no other key was given it since. -/
def HandedOut (answers : List (Answer κ)) (key : κ) (place : Nat) : Prop :=
  ∃ before later, answers = before ++ ⟨key, false, place⟩ :: later ∧
    ∀ a ∈ later, (a.key = key ∧ a.hit = true) ∨ (a.key ≠ key ∧ a.place ≠ place)

omit [DecidableEq κ] in
theorem HandedOut.append {answers : List (Answer κ)} {key : κ} {place : Nat}
    (h : HandedOut answers key place) {a : Answer κ}
    (ha : (a.key = key ∧ a.hit = true) ∨ (a.key ≠ key ∧ a.place ≠ place)) :
    HandedOut (answers ++ [a]) key place := by
  obtain ⟨before, later, rfl, hlater⟩ := h
  refine ⟨before, later ++ [a], by simp, fun b hb => ?_⟩
  rcases List.mem_append.1 hb with hb | hb
  · exact hlater b hb
  · rw [List.mem_singleton.1 hb]
    exact ha

/-- **Every listed place is the one its key's last miss handed out, and it went to no other key
since.** -/
theorem handedOut_after (hN : 0 < N) (array : Nat → ν) (calls : List (Call κ)) {key : κ}
    {place : Nat} (hmem : (key, place) ∈ (run N array calls).cache.list) :
    HandedOut (run N array calls).answers key place := by
  induction calls using List.reverseRecOn generalizing key place with
  | nil => exact absurd hmem List.not_mem_nil
  | append_singleton calls c ih =>
    rw [run_append_singleton] at hmem ⊢
    cases c with
    | clear => exact absurd hmem List.not_mem_nil
    | request k =>
      have hsound := sound_run hN array calls
      obtain ⟨-, hfind, hspec⟩ := request_spec hsound hN k
      rcases hspec key place hmem with ⟨rfl, rfl⟩ | ⟨hold, hne, hplace⟩
      · cases hhit : ((run N array calls).cache.request key).1 with
        | false => exact ⟨(run N array calls).answers, [], by rw [Run.call, hhit], by simp⟩
        | true =>
          rw [hhit, if_pos rfl] at hfind
          exact (ih (find_eq_some hfind)).append (Or.inl ⟨rfl, hhit⟩)
      · exact (ih hold).append (Or.inr ⟨Ne.symm hne, Ne.symm hplace⟩)

/-! ## Main result -/

/-- **After any sequence of requests and clears** no two items share a key or a place and every
place is in the array; a request hits iff its key was requested since the last `clear` with fewer
than `N` distinct other keys after it; and a hit returns the place the key's last miss handed out,
which no other key was given since. -/
theorem requests_answered (hN : 0 < N) (array : Nat → ν) (calls : List (Call κ)) :
    ((run N array calls).cache.list.map (·.1)).Nodup ∧
      ((run N array calls).cache.list.map (·.2)).Nodup ∧
      (∀ e ∈ (run N array calls).cache.list, e.2 < N) ∧
      ∀ key, (((run N array calls).cache.request key).1 = true ↔
          ∃ before later, sinceClear calls = before ++ key :: later ∧ key ∉ later ∧
            later.dedup.length < N) ∧
        (((run N array calls).cache.request key).1 = true →
          HandedOut (run N array calls).answers key
            ((run N array calls).cache.request key).2.1) := by
  have hsound := sound_run hN array calls
  refine ⟨hsound.keys, hsound.places_nodup, fun e he => ?_, fun key => ⟨?_, fun hhit => ?_⟩⟩
  · have hplace : e.2 ∈ List.range (run N array calls).cache.list.length :=
      hsound.places.subset (List.mem_map.2 ⟨e, he, rfl⟩)
    exact Nat.lt_of_lt_of_le (List.mem_range.1 hplace) hsound.size
  · rw [request_hit, keys_after hN, mem_take_order]
  · obtain ⟨-, hfind, -⟩ := request_spec hsound hN key
    rw [hhit, if_pos rfl] at hfind
    exact handedOut_after hN array calls (find_eq_some hfind)

/-- Two places: the third key takes the place of the one that was not used again. -/
theorem requests_answered_two :
    (((run 2 (fun _ => ()) [Call.request 'a', .request 'b', .request 'a', .request 'c']).cache.request
        'a').1 = true ∧
      ((run 2 (fun _ => ()) [Call.request 'a', .request 'b', .request 'a', .request 'c']).cache.request
        'b').1 = false) ∧
      HandedOut (run 2 (fun _ => ())
        [Call.request 'a', .request 'b', .request 'a', .request 'c']).answers 'a' 0 := by
  obtain ⟨-, -, -, hkeys⟩ := requests_answered (N := 2) (by decide) (fun _ => ())
    [Call.request 'a', .request 'b', .request 'a', .request 'c']
  have ha := (hkeys 'a').2 (by decide +kernel)
  exact ⟨by decide +kernel, ha⟩

end StaticLRUCache
end AzaharPlus.Common
