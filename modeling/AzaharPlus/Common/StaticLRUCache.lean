import Mathlib.Data.List.Perm.Basic
import Mathlib.Data.List.Nodup
import Mathlib.Logic.Function.Basic

/-!
# The statically allocated LRU cache

`StaticLRUCache` of `static_lru_cache.h`: a list of keys with their places in an array, the most
recently used one first.  A request for a key that is not there makes room for it at once, whatever
the caller then does with the place.

* `request_spec` — what a request answers, and that the places of all other keys stay theirs;
* `Sound.request` — the list never gives one place to two keys.
-/

namespace AzaharPlus.Common

/-- A cache with `N` places. -/
structure StaticLRUCache (κ ν : Type) (N : Nat) where
  list : List (κ × Nat)
  array : Nat → ν

namespace StaticLRUCache

variable {κ ν : Type} {N : Nat}

/-- `find` -/
def find [DecidableEq κ] (c : StaticLRUCache κ ν N) (key : κ) : Option Nat :=
  (c.list.find? (·.1 = key)).map (·.2)

/-- `evict`: the place of the item at the end, and the list without it. -/
def evict (l : List (κ × Nat)) : Nat × List (κ × Nat) :=
  ((l.getLast?.map (·.2)).getD 0, l.dropLast)

/-- The place for a new item and the list before it is inserted. -/
def makeRoom (N : Nat) (l : List (κ × Nat)) : Nat × List (κ × Nat) :=
  if N ≤ l.length then evict l else (l.length, l)

/-- `request`: whether the key was present, the place of its item, and the cache afterwards. -/
def request [DecidableEq κ] (c : StaticLRUCache κ ν N) (key : κ) :
    Bool × Nat × StaticLRUCache κ ν N :=
  match c.find key with
  | some i => (true, i, { c with list := (key, i) :: c.list.eraseP (·.1 = key) })
  | none =>
      (false, (makeRoom N c.list).1,
        { c with list := (key, (makeRoom N c.list).1) :: (makeRoom N c.list).2 })

/-- `clear` -/
def clear (c : StaticLRUCache κ ν N) : StaticLRUCache κ ν N := { c with list := [] }

/-- The caller writes to the place it got. -/
def store (c : StaticLRUCache κ ν N) (i : Nat) (v : ν) : StaticLRUCache κ ν N :=
  { c with array := Function.update c.array i v }

@[simp] theorem array_store (c : StaticLRUCache κ ν N) (i : Nat) (v : ν) :
    (c.store i v).array = Function.update c.array i v := rfl

/-! ## Invariant -/

/-- No key is listed twice, and the places in use are the first ones of the array. -/
structure Sound (c : StaticLRUCache κ ν N) : Prop where
  keys : (c.list.map (·.1)).Nodup
  places : (c.list.map (·.2)).Perm (List.range c.list.length)
  size : c.list.length ≤ N

theorem sound_clear (c : StaticLRUCache κ ν N) : c.clear.Sound :=
  ⟨List.nodup_nil, List.Perm.refl _, Nat.zero_le N⟩

theorem Sound.store {c : StaticLRUCache κ ν N} (h : c.Sound) (i : Nat) (v : ν) :
    (c.store i v).Sound :=
  ⟨h.keys, h.places, h.size⟩

theorem Sound.places_nodup {c : StaticLRUCache κ ν N} (h : c.Sound) :
    (c.list.map (·.2)).Nodup :=
  h.places.nodup_iff.2 List.nodup_range

theorem find_eq_some [DecidableEq κ] {c : StaticLRUCache κ ν N} {key : κ} {i : Nat}
    (h : c.find key = some i) : (key, i) ∈ c.list := by
  obtain ⟨e, he, rfl⟩ := Option.map_eq_some_iff.1 h
  have hkey : e.1 = key := by simpa using List.find?_some he
  subst hkey
  exact List.mem_of_find?_eq_some he

theorem find_eq_none [DecidableEq κ] {c : StaticLRUCache κ ν N} {key : κ} :
    c.find key = none ↔ ∀ e ∈ c.list, e.1 ≠ key := by
  simp [find]

/-- With no key listed twice, the list is what `find` reads. -/
theorem Sound.find_of_mem [DecidableEq κ] {c : StaticLRUCache κ ν N} (h : c.Sound) {key : κ} {i : Nat}
    (hmem : (key, i) ∈ c.list) : c.find key = some i := by
  cases hf : c.find key with
  | none => exact absurd rfl (find_eq_none.1 hf _ hmem)
  | some j =>
    have heq := List.inj_on_of_nodup_map h.keys (find_eq_some hf) hmem rfl
    cases heq
    rfl

/-- The item that was found, and the others. -/
theorem eraseP_perm [DecidableEq κ] {l : List (κ × Nat)} {key : κ} {i : Nat} (hmem : (key, i) ∈ l)
    (hkeys : (l.map (·.1)).Nodup) : l.Perm ((key, i) :: l.eraseP (·.1 = key)) := by
  induction l with
  | nil => cases hmem
  | cons e l ih =>
    rw [List.map_cons, List.nodup_cons] at hkeys
    by_cases he : e.1 = key
    · have hei : e = (key, i) := by
        rcases List.mem_cons.1 hmem with hmem | hmem
        · exact hmem.symm
        · exact absurd (List.mem_map.2 ⟨_, hmem, he.symm⟩) hkeys.1
      rw [List.eraseP_cons_of_pos (by simpa using he), hei]
    · have hmem' : (key, i) ∈ l := by
        rcases List.mem_cons.1 hmem with hmem | hmem
        · exact absurd (by rw [← hmem]) he
        · exact hmem
      rw [List.eraseP_cons_of_neg (by simpa using he)]
      exact ((ih hmem' hkeys.2).cons e).trans (List.Perm.swap _ _ _)

theorem makeRoom_spec {l : List (κ × Nat)} (hN : 0 < N) (hsize : l.length ≤ N)
    (hplaces : (l.map (·.2)).Perm (List.range l.length)) :
    (makeRoom N l).2.Sublist l ∧
      (((makeRoom N l).1 :: (makeRoom N l).2.map (·.2)).Perm
        (List.range ((makeRoom N l).2.length + 1))) ∧
      (makeRoom N l).2.length + 1 ≤ N := by
  unfold makeRoom
  split
  · rename_i hfull
    have hne : l ≠ [] := by
      rintro rfl
      rw [List.length_nil] at hfull
      exact absurd hfull (Nat.not_le.2 hN)
    have hlast : l.getLast?.map (·.2) = some (l.getLast hne).2 := by
      rw [List.getLast?_eq_some_getLast hne]
      rfl
    have hsplit : l.dropLast ++ [l.getLast hne] = l := List.dropLast_append_getLast hne
    have hlen : l.dropLast.length + 1 = l.length := by
      conv_rhs => rw [← hsplit]
      simp
    refine ⟨List.dropLast_sublist l, ?_, ?_⟩
    · rw [evict, hlast, hlen]
      refine List.Perm.trans ?_ hplaces
      conv_rhs => rw [← hsplit]
      rw [List.map_append]
      exact (List.perm_append_singleton _ _).symm
    · rw [evict, hlen]
      exact hsize
  · rename_i hroom
    refine ⟨List.Sublist.refl l, ?_, Nat.not_le.1 hroom⟩
    rw [List.range_succ]
    exact (hplaces.cons _).trans (List.perm_append_singleton _ _).symm

/-- A request keeps the invariant. -/
theorem Sound.request [DecidableEq κ] {c : StaticLRUCache κ ν N} (h : c.Sound) (hN : 0 < N) (key : κ) :
    (c.request key).2.2.Sound := by
  unfold StaticLRUCache.request
  split
  · rename_i i hi
    have hperm := eraseP_perm (find_eq_some hi) h.keys
    refine ⟨?_, ?_, ?_⟩
    · exact (hperm.map (·.1)).nodup_iff.1 h.keys
    · rw [← hperm.length_eq]
      exact (hperm.map (·.2)).symm.trans h.places
    · rw [← hperm.length_eq]
      exact h.size
  · rename_i hnone
    obtain ⟨hsub, hperm, hlen⟩ := makeRoom_spec hN h.size h.places
    refine ⟨?_, hperm, hlen⟩
    rw [List.map_cons, List.nodup_cons]
    refine ⟨fun hmem => ?_, (hsub.map _).nodup h.keys⟩
    obtain ⟨e, he, hkey⟩ := List.mem_map.1 hmem
    exact find_eq_none.1 hnone e (hsub.subset he) hkey

/-- What a request answers: the array is untouched, a hit is an item that was listed, and every
other item that stays listed keeps its place, which is not the one that was given out. -/
theorem request_spec [DecidableEq κ] {c : StaticLRUCache κ ν N} (h : c.Sound) (hN : 0 < N)
    (key : κ) :
    (c.request key).2.2.array = c.array ∧
      (c.find key = if (c.request key).1 then some (c.request key).2.1 else none) ∧
      ∀ k j, (k, j) ∈ (c.request key).2.2.list →
        (k = key ∧ j = (c.request key).2.1) ∨
          ((k, j) ∈ c.list ∧ k ≠ key ∧ j ≠ (c.request key).2.1) := by
  have hsound := h.request hN key
  have hhead : ∃ rest, (c.request key).2.2.list = (key, (c.request key).2.1) :: rest ∧
      rest ⊆ c.list := by
    unfold StaticLRUCache.request
    split
    · exact ⟨_, rfl, List.eraseP_subset⟩
    · exact ⟨_, rfl, (makeRoom_spec hN h.size h.places).1.subset⟩
  obtain ⟨rest, hlist, hrest⟩ := hhead
  refine ⟨?_, ?_, fun k j hmem => ?_⟩
  · unfold StaticLRUCache.request
    split <;> rfl
  · unfold StaticLRUCache.request
    split
    · rename_i hi
      simp [hi]
    · rename_i hnone
      simp [hnone]
  · rw [hlist] at hmem
    rcases List.mem_cons.1 hmem with heq | hold
    · exact Or.inl (Prod.ext_iff.1 heq)
    · have hkeys := hsound.keys
      have hplaces := hsound.places_nodup
      rw [hlist, List.map_cons, List.nodup_cons] at hkeys hplaces
      refine Or.inr ⟨hrest hold, ?_, ?_⟩
      · rintro rfl
        exact hkeys.1 (List.mem_map.2 ⟨_, hold, rfl⟩)
      · rintro rfl
        exact hplaces.1 (List.mem_map.2 ⟨_, hold, rfl⟩)

end StaticLRUCache
end AzaharPlus.Common
