import AzaharPlus.Poke.DeadShedinja
import AzaharPlus.Poke.Monitor

/-!
# Every death counts once

At the end of a battle `DeleteFaintedPokemon` of `core/poke_export.cpp` looks for the party
slot of every battle slot that is pending and turns it into a dead Shedinja.  Slots are told
apart by species, item, ability, moves and PP, and the party data is not read again between two
conversions.

* `deleteSlots_converted`: the party slots that are converted are the first matches of the
  pending battle slots, one after the other;
* `nodup_firstMatches_iff`: one of them is converted twice exactly when two pending battle
  slots match one party slot;
* `deaths_applied_once_iff`: when every death is applied once and paid for once.
-/

namespace AzaharPlus.Poke

open Bytes BlockMemory

local instance moveSlots : NeZero 4 := ⟨Nat.succ_ne_zero 3⟩

local instance partySlots : NeZero 6 := ⟨Nat.succ_ne_zero 5⟩

/-! ## The conversion of a slot -/

/-- What `ConvertToDeadShedinjaInPlace` makes of the bytes of a party slot, where it succeeds. -/
def deadShedinja (file : Option (List UInt8)) (pkmData : List UInt8) : Option (List UInt8) :=
  match convertToDeadShedinjaInPlace pkmData pkmData.length true file with
  | (true, out) => some out
  | (false, _) => none

/-- The monitor beside a given `shd.pk6`. -/
def Env.withFile (env : Env) (file : Option (List UInt8)) : Env :=
  { env with convertToDeadShedinja := deadShedinja file }

/-- The conversion of a party slot does not fail, whatever the file holds. -/
theorem exists_deadShedinja (file : Option (List UInt8)) {pkmData : List UInt8}
    (h : pkmData.length = pkmPartySize) : ∃ out, deadShedinja file pkmData = some out := by
  obtain ⟨out, hout⟩ := convertToDeadShedinjaInPlace_succeeds pkmData file h
  exact ⟨out, by rw [deadShedinja, hout]⟩

/-! ## Which party slots are converted -/

variable (env : Env) (file : Option (List UInt8)) (mem : Memory) (s : Monitor)

/-- The party slot a battle slot is taken for: the first one that matches. -/
def Monitor.firstMatch (battleSlot : Fin partySize) : Option (Fin partySize) :=
  (carriedSlots s.pokemonCarried).find? fun partySlot =>
    matchBattleSlotToPk6 (s.battleData battleSlot) (s.partyData partySlot)

/-- The battle slots below `pokemonCarried` whose Pokémon fainted. -/
def Monitor.pendingSlots : List (Fin partySize) :=
  (carriedSlots s.pokemonCarried).filter s.pendingDelete

/-- The party slots one call of `DeleteFaintedPokemon` converts, in order. -/
def convertedSlots : List (Fin partySize) :=
  (deleteSlots env s (carriedSlots s.pokemonCarried) mem).2

/-- The loop over the battle slots converts the first match of each pending one. -/
theorem deleteSlots_converted (slots : List (Fin partySize)) :
    (deleteSlots (env.withFile file) s slots mem).2 =
      (slots.filter s.pendingDelete).filterMap s.firstMatch := by
  induction slots generalizing mem with
  | nil => rfl
  | cons battleSlot slots ih =>
    rw [deleteSlots]
    by_cases hp : s.pendingDelete battleSlot = true
    · rw [if_pos hp, List.filter_cons_of_pos hp]
      split
      next h =>
          have hm : s.firstMatch battleSlot = none := h
          rw [ih, List.filterMap_cons_none hm]
      next partySlot h =>
          have hm : s.firstMatch battleSlot = some partySlot := h
          obtain ⟨out, hout⟩ := exists_deadShedinja file
            (length_readBlock mem (partySlotAddr partySlot) pkmPartySize)
          rw [List.filterMap_cons_some hm]
          simp only [Env.withFile, hout]
          exact congrArg (partySlot :: ·) (ih _)
    · rw [if_neg hp, List.filter_cons_of_neg hp, ih]

theorem convertedSlots_eq :
    convertedSlots (env.withFile file) mem s = s.pendingSlots.filterMap s.firstMatch :=
  deleteSlots_converted env file mem s _

/-! ## Matching -/

variable {s}

/-- The battle slot and the party slot hold the same Pokémon, as far as the code looks. -/
def Monitor.Matches (s : Monitor) (battleSlot partySlot : Fin partySize) : Prop :=
  matchBattleSlotToPk6 (s.battleData battleSlot) (s.partyData partySlot) = true

theorem matchBattleSlotToPk6_iff (b : BattleSlotData) (p : Pk6FullData) :
    matchBattleSlotToPk6 b p = true ↔ b.species = p.species ∧ b.item = p.item ∧
      b.ability = p.ability.toUInt16 ∧ ∀ i, b.moveIDs i = p.moves i ∧ b.movePP i = p.currentPP i := by
  simp only [matchBattleSlotToPk6, Bool.and_eq_true, beq_iff_eq, List.all_eq_true,
    List.mem_finRange, true_implies, and_assoc]

/-- Two battle slots that match one party slot match the same party slots. -/
theorem Monitor.Matches.transfer {b b' p q : Fin partySize} (hb : s.Matches b p)
    (hb' : s.Matches b' p) (h : s.Matches b q) : s.Matches b' q := by
  rw [Monitor.Matches, matchBattleSlotToPk6_iff] at *
  obtain ⟨h₁, h₂, h₃, h₄⟩ := hb
  obtain ⟨k₁, k₂, k₃, k₄⟩ := hb'
  obtain ⟨l₁, l₂, l₃, l₄⟩ := h
  refine ⟨by rw [k₁, ← h₁, l₁], by rw [k₂, ← h₂, l₂], by rw [k₃, ← h₃, l₃], fun i => ?_⟩
  obtain ⟨hm, hpp⟩ := h₄ i
  obtain ⟨km, kpp⟩ := k₄ i
  obtain ⟨lm, lpp⟩ := l₄ i
  exact ⟨by rw [km, ← hm, lm], by rw [kpp, ← hpp, lpp]⟩

theorem Monitor.firstMatch_eq {b b' p : Fin partySize} (hb : s.Matches b p)
    (hb' : s.Matches b' p) : s.firstMatch b = s.firstMatch b' := by
  have hpred : (fun q => matchBattleSlotToPk6 (s.battleData b) (s.partyData q)) =
      fun q => matchBattleSlotToPk6 (s.battleData b') (s.partyData q) := by
    funext q
    rw [Bool.eq_iff_iff]
    exact ⟨fun h => hb.transfer hb' h, fun h => hb'.transfer hb h⟩
  rw [Monitor.firstMatch, Monitor.firstMatch, hpred]

theorem Monitor.exists_firstMatch {b p : Fin partySize} (hp : p ∈ carriedSlots s.pokemonCarried)
    (h : s.Matches b p) : ∃ q, s.firstMatch b = some q := by
  apply Option.isSome_iff_exists.1
  rw [Monitor.firstMatch, List.find?_isSome]
  exact ⟨p, hp, h⟩

theorem Monitor.matches_of_firstMatch {b q : Fin partySize} (h : s.firstMatch b = some q) :
    q ∈ carriedSlots s.pokemonCarried ∧ s.Matches b q := by
  rw [Monitor.firstMatch] at h
  exact ⟨List.mem_of_find?_eq_some h,
    List.find?_some (p := fun q => matchBattleSlotToPk6 (s.battleData b) (s.partyData q)) h⟩

variable (s)

/-- No party slot below `pokemonCarried` matches two pending battle slots. -/
def Monitor.MatchedOnce : Prop :=
  ∀ b ∈ s.pendingSlots, ∀ b' ∈ s.pendingSlots, ∀ p ∈ carriedSlots s.pokemonCarried,
    s.Matches b p → s.Matches b' p → b = b'

theorem nodup_carriedSlots (n : Nat) : (carriedSlots n).Nodup :=
  (List.nodup_finRange partySize).filter _

/-- A party slot is converted twice exactly when two pending battle slots match it. -/
theorem nodup_firstMatches_iff :
    (s.pendingSlots.filterMap s.firstMatch).Nodup ↔ s.MatchedOnce := by
  have hnodup : s.pendingSlots.Nodup := (nodup_carriedSlots _).filter _
  rw [List.Nodup, List.pairwise_filterMap]
  constructor
  · intro h b hb b' hb' p hp hm hm'
    by_contra hne
    have : Std.Symm fun a a' => ∀ q, s.firstMatch a = some q →
        ∀ q', s.firstMatch a' = some q' → q ≠ q' :=
      ⟨fun a a' ha q hq q' hq' heq => ha q' hq' q hq heq.symm⟩
    have hall := h.forall hb hb' hne
    obtain ⟨q, hq⟩ := Monitor.exists_firstMatch hp hm
    exact hall q hq q ((Monitor.firstMatch_eq hm hm').symm.trans hq) rfl
  · intro h
    apply hnodup.pairwise_of_forall_ne
    intro b hb b' hb' hne q hq q' hq' heq
    obtain ⟨hqc, hqm⟩ := Monitor.matches_of_firstMatch hq
    obtain ⟨-, hqm'⟩ := Monitor.matches_of_firstMatch hq'
    exact hne (h b hb b' hb' q hqc hqm (heq ▸ hqm'))

/-! ## Deaths and points -/

/-- Every pending battle slot matches a party slot of its own. -/
def Monitor.PendingMatched : Prop :=
  ∃ f : Fin partySize → Fin partySize, Set.InjOn f {b | b ∈ s.pendingSlots} ∧
    ∀ b ∈ s.pendingSlots, f b ∈ carriedSlots s.pokemonCarried ∧ s.Matches b (f b)

/-- What one call of `DeleteFaintedPokemon` should do. -/
structure DeathsAppliedOnce : Prop where
  /-- No party slot is converted twice. -/
  once : (convertedSlots env mem s).Nodup
  /-- Where every pending battle slot has its party slot, that many are converted. -/
  converted : s.PendingMatched →
    (convertedSlots env mem s).toFinset.card = s.pendingSlots.length
  /-- There, each of them costs 50 points, and 100 more are lost with the whole party. -/
  puntos : s.PendingMatched →
    (deleteFaintedPokemon env mem s).1.puntos =
      s.puntos - (convertedSlots env mem s).toFinset.card * 50 -
        if 0 < s.pokemonCarried ∧ (convertedSlots env mem s).toFinset.card = s.pokemonCarried
        then 100 else 0
  /-- Nothing stays pending. -/
  pending : ∀ slot, (deleteFaintedPokemon env mem s).1.pendingDelete slot = false

theorem length_carriedSlots_le (n : Nat) : (carriedSlots n).length ≤ n := by
  have hsub : (carriedSlots n).map Fin.val ⊆ List.range n := by
    intro i hi
    obtain ⟨k, hk, rfl⟩ := List.mem_map.1 hi
    rw [carriedSlots, List.mem_filter, decide_eq_true_eq] at hk
    exact List.mem_range.2 hk.2
  have hle := (((nodup_carriedSlots n).map Fin.val_injective).subperm hsub).length_le
  rwa [List.length_map, List.length_range] at hle

/-- Where every pending slot has a match, every one of them leads to a conversion. -/
theorem length_firstMatches (h : s.PendingMatched) :
    (s.pendingSlots.filterMap s.firstMatch).length = s.pendingSlots.length := by
  obtain ⟨f, -, hf⟩ := h
  rw [List.length_filterMap_eq_countP, List.countP_eq_length]
  intro b hb
  obtain ⟨q, hq⟩ := Monitor.exists_firstMatch (hf b hb).1 (hf b hb).2
  rw [hq]
  rfl

theorem puntos_deleteFaintedPokemon :
    (deleteFaintedPokemon env mem s).1.puntos =
      s.puntos - (convertedSlots env mem s).length * 50 -
        if s.pokemonCarried ≤ (convertedSlots env mem s).length then 100 else 0 := rfl

/-- One call of `DeleteFaintedPokemon` applies every death once, and takes the points for it,
exactly when there is a party and no party slot matches two pending battle slots. -/
theorem deaths_applied_once_iff (env : Env) (file : Option (List UInt8)) (mem : Memory)
    (s : Monitor) :
    DeathsAppliedOnce (env.withFile file) mem s ↔ 0 < s.pokemonCarried ∧ s.MatchedOnce := by
  have hconv := convertedSlots_eq env file mem s
  constructor
  · intro h
    refine ⟨Nat.pos_of_ne_zero fun hn => ?_, ?_⟩
    · -- an empty party counts as a wiped out one
      have hcarried : carriedSlots s.pokemonCarried = [] := by rw [hn]; rfl
      have hpend : s.pendingSlots = [] := by rw [Monitor.pendingSlots, hcarried, List.filter_nil]
      have hpts := h.puntos ⟨id, Set.injOn_id _, fun b hb => absurd hb (by simp [hpend])⟩
      rw [puntos_deleteFaintedPokemon, hconv, hpend, hn] at hpts
      simp at hpts
    · rw [← nodup_firstMatches_iff, ← hconv]
      exact h.once
  · rintro ⟨hn, hm⟩
    have hnodup : (convertedSlots (env.withFile file) mem s).Nodup := by
      rw [hconv]
      exact (nodup_firstMatches_iff s).2 hm
    have hcard := List.toFinset_card_of_nodup hnodup
    refine ⟨hnodup, fun h => ?_, fun h => ?_, fun _ => rfl⟩
    · rw [hcard, hconv, length_firstMatches s h]
    · have hle : (convertedSlots (env.withFile file) mem s).length ≤ s.pokemonCarried := by
        rw [hconv, length_firstMatches s h]
        exact (List.length_filter_le _ _).trans (length_carriedSlots_le _)
      rw [puntos_deleteFaintedPokemon, hcard]
      have hiff : s.pokemonCarried ≤ (convertedSlots (env.withFile file) mem s).length ↔
          0 < s.pokemonCarried ∧
            (convertedSlots (env.withFile file) mem s).length = s.pokemonCarried := by
        constructor
        · intro hge
          exact ⟨hn, le_antisymm hle hge⟩
        · intro heq
          exact le_of_eq heq.2.symm
      simp only [hiff]

/-- A party of two Zigzagoon that differ in their PID only, both fainted. -/
def twoZigzagoon : Monitor where
  partyData i := { Pk6FullData.zero with
    pid := i.val.toUInt32 + 1, species := 263, ability := 53, moves := fun k => if k = 0 then 33 else 0,
    currentPP := fun k => if k = 0 then 35 else 0 }
  wildData _ := Pk6FullData.zero
  battleData _ := { BattleSlotData.zero with
    species := 263, ability := 53, moveIDs := fun k => if k = 0 then 33 else 0,
    movePP := fun k => if k = 0 then 35 else 0 }
  pokemonCarried := 2
  wasInBattle := true
  pendingDelete i := decide (i < 2)
  mainPocket := []
  removedPokeBalls _ := ItemEntry.zero
  visitedRoutes := SortedSet.empty
  caught := []
  visRou := none
  haspkb := true
  depMap := false
  puntos := 0
  muertes := 0

/-- Both deaths are applied to the first of the two. -/
theorem death_applied_twice :
    ¬ ∀ (env : Env) (file : Option (List UInt8)) (mem : Memory) (s : Monitor),
      DeathsAppliedOnce (env.withFile file) mem s := by
  intro h
  have honce := (h ⟨15, fun _ _ => 0, fun _ => none⟩ none (fun _ => 0) twoZigzagoon).once
  rw [convertedSlots_eq, nodup_firstMatches_iff] at honce
  have heq := honce 0 (by decide) 1 (by decide) 0 (by decide) (by unfold Monitor.Matches; decide)
    (by unfold Monitor.Matches; decide)
  exact absurd heq (by decide)

end AzaharPlus.Poke
