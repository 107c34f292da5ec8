import AzaharPlus.Poke.CaptureLimit

/-!
# Looking up evolution lines

`evolutionLines` has 722 entries, and `hasEvolutionLine` does not check its index.  The species it is
asked about are whatever guest memory holds: a battle is seen although the species of the wild Pokémon is
none, and the party and the PC are not checked at all.

The functions here go through the same steps as `hasEvolutionLine` and `ShouldRemove` and return the indices
they read beside their result.  The caught species are in an `unordered_set`, so that the order in which they
are looked at may be any.

* `lookupsInTable_iff`: when every index is one of the table, whatever the order.
-/

namespace AzaharPlus.Poke

open Bytes BlockMemory

/-! ## The indices that are read -/

/-- The loop of `hasEvolutionLine`, with the indices it reads. -/
def caughtReads (junk : Junk) (line : Int) : List Nat → Bool × List Nat
  | [] => (false, [])
  | c :: caught =>
      if evolutionLine junk c == line then (true, [c])
      else ((caughtReads junk line caught).1, c :: (caughtReads junk line caught).2)

/-- `hasEvolutionLine`, with the indices it reads. -/
def hasEvolutionLineReads (junk : Junk) (caught : List Nat) (species : Nat) : Bool × List Nat :=
  let rest := caughtReads junk (evolutionLine junk species) caught
  (rest.1, species :: rest.2)

/-- The loop of `ShouldRemove` over the wild Pokémon, with the indices it reads. -/
def caughtLineReads (junk : Junk) (caught : List Nat) : List UInt16 → Bool × List Nat
  | [] => (false, [])
  | species :: wilds =>
      let here := hasEvolutionLineReads junk caught species.toNat
      if here.1 && species != 0 then (true, here.2)
      else
        let rest := caughtLineReads junk caught wilds
        (rest.1, here.2 ++ rest.2)

/-- The species of the wild Pokémon. -/
def Monitor.wildSpecies (s : Monitor) : List UInt16 :=
  (List.finRange maxWilds).map fun i => (s.wildData i).species

/-- The indices `ShouldRemove` reads, with the caught species in the order in which they are looked at. -/
def shouldRemoveReads (host : Host) (mem : Memory) (s : Monitor) (caught : List Nat) : List Nat :=
  if s.depMap then []
  else if isBattleTrainer mem then []
  else if s.anyShiny then []
  else if s.anyLegendary then []
  else (caughtLineReads host.junk caught s.wildSpecies).2

theorem caughtReads_fst (junk : Junk) (line : Int) (caught : List Nat) :
    (caughtReads junk line caught).1 = caught.any fun c => evolutionLine junk c == line := by
  induction caught with
  | nil => rfl
  | cons c caught ih =>
    rw [caughtReads, List.any_cons]
    by_cases hc : (evolutionLine junk c == line) = true
    · rw [if_pos hc, hc]
      rfl
    · rw [if_neg hc, ih, Bool.eq_false_iff.2 hc]
      rfl

/-- The result is that of `hasEvolutionLine`. -/
theorem hasEvolutionLineReads_fst (junk : Junk) (caught : List Nat) (species : Nat) :
    (hasEvolutionLineReads junk caught species).1 = hasEvolutionLine junk caught species :=
  caughtReads_fst junk _ caught

/-- The result is that of the loop of `ShouldRemove`. -/
theorem caughtLineReads_fst (junk : Junk) (caught : List Nat) (wilds : List UInt16) :
    (caughtLineReads junk caught wilds).1 =
      wilds.any fun species => hasEvolutionLine junk caught species.toNat && species != 0 := by
  induction wilds with
  | nil => rfl
  | cons species wilds ih =>
    simp only [caughtLineReads, List.any_cons, hasEvolutionLineReads_fst]
    by_cases hhit : (hasEvolutionLine junk caught species.toNat && species != 0) = true
    · rw [if_pos hhit, hhit]
      rfl
    · rw [if_neg hhit, Bool.eq_false_iff.2 hhit]
      exact ih

theorem anyCaughtLine_eq (host : Host) (s : Monitor) :
    s.anyCaughtLine host = (caughtLineReads host.junk s.caught s.wildSpecies).1 := by
  rw [caughtLineReads_fst, Monitor.wildSpecies, List.any_map]
  rfl

/-! ## One lookup -/

theorem mem_of_mem_caughtReads {junk : Junk} {line : Int} {caught : List Nat} {i : Nat}
    (h : i ∈ (caughtReads junk line caught).2) : i ∈ caught := by
  induction caught with
  | nil => exact h
  | cons c caught ih =>
    rw [caughtReads] at h
    split_ifs at h with hc
    · rw [List.mem_singleton] at h
      rw [h]
      exact List.mem_cons_self
    · rcases List.mem_cons.1 h with rfl | h
      · exact List.mem_cons_self
      · exact List.mem_cons_of_mem c (ih h)

/-- The first caught species is always looked at. -/
theorem head_mem_caughtReads (junk : Junk) (line : Int) (c : Nat) (caught : List Nat) :
    c ∈ (caughtReads junk line (c :: caught)).2 := by
  rw [caughtReads]
  split_ifs
  · exact List.mem_singleton_self c
  · exact List.mem_cons_self

theorem head_mem_caughtLineReads (junk : Junk) (c : Nat) (caught : List Nat) (species : UInt16)
    (wilds : List UInt16) : c ∈ (caughtLineReads junk (c :: caught) (species :: wilds)).2 := by
  have hhere : c ∈ (hasEvolutionLineReads junk (c :: caught) species.toNat).2 :=
    List.mem_cons_of_mem _ (head_mem_caughtReads junk _ c caught)
  simp only [caughtLineReads]
  split_ifs
  · exact hhere
  · exact List.mem_append_left _ hhere

/-- Among species of the table, a line is found exactly if a species of the same line was caught. -/
theorem hasEvolutionLine_iff {junk : Junk} {caught : List Nat} (hcaught : ∀ c ∈ caught, c < 722)
    {species : Nat} (hspecies : species < 722) :
    hasEvolutionLine junk caught species = true ↔ ∃ c ∈ caught, SameLine species c := by
  constructor
  · intro h
    obtain ⟨c, hc, hline⟩ := List.any_eq_true.1 h
    have hlt := hcaught c hc
    rw [evolutionLine, evolutionLine, if_pos hlt, if_pos hspecies, beq_iff_eq] at hline
    exact ⟨c, hc, hspecies, hlt, (Int.ofNat_inj.1 hline).symm⟩
  · rintro ⟨c, hc, hline⟩
    exact hasEvolutionLine_of_sameLine junk hc hline

/-! ## All lookups -/

/-- Every wild Pokémon up to the first of a line that was caught has a species of the table. -/
def WildsKnown (caught : List Nat) (wilds : List UInt16) : Prop :=
  ∀ k < wilds.length,
    (∀ j < k, ¬∃ c ∈ caught, SameLine (wilds.getD j 0).toNat c) → (wilds.getD k 0).toNat < 722

theorem wildsKnown_cons {caught : List Nat} {species : UInt16} {wilds : List UInt16} :
    WildsKnown caught (species :: wilds) ↔
      species.toNat < 722 ∧ ((¬∃ c ∈ caught, SameLine species.toNat c) → WildsKnown caught wilds) := by
  constructor
  · intro h
    refine ⟨h 0 (by simp) (by intro j hj; omega), ?_⟩
    intro hmiss k hk hbefore
    refine h (k + 1) (by simpa using hk) ?_
    intro j hj
    cases j with
    | zero => exact hmiss
    | succ j => exact hbefore j (by omega)
  · rintro ⟨hspecies, hrest⟩ k hk hbefore
    cases k with
    | zero => exact hspecies
    | succ k =>
      refine hrest (hbefore 0 (by omega)) k (by simpa using hk) ?_
      intro j hj
      exact hbefore (j + 1) (by omega)

/-- With caught species of the table, the lookups stay in it exactly if the wild Pokémon are known. -/
theorem caughtLineReads_iff {junk : Junk} {caught : List Nat} (hcaught : ∀ c ∈ caught, c < 722 ∧ c ≠ 0)
    (wilds : List UInt16) :
    (∀ i ∈ (caughtLineReads junk caught wilds).2, i < 722) ↔ WildsKnown caught wilds := by
  have hlt : ∀ c ∈ caught, c < 722 := fun c hc => (hcaught c hc).1
  induction wilds with
  | nil =>
    constructor
    · intro _ k hk
      simp at hk
    · intro _ i hi
      simp [caughtLineReads] at hi
  | cons species wilds ih =>
    have hhere : ∀ i ∈ (hasEvolutionLineReads junk caught species.toNat).2, i = species.toNat ∨ i < 722 := by
      intro i hi
      rcases List.mem_cons.1 hi with rfl | hi
      · exact Or.inl rfl
      · exact Or.inr (hlt i (mem_of_mem_caughtReads hi))
    have hself : species.toNat ∈ (hasEvolutionLineReads junk caught species.toNat).2 := List.mem_cons_self
    rw [wildsKnown_cons]
    by_cases hspecies : species.toNat < 722
    · have hhit : ((hasEvolutionLineReads junk caught species.toNat).1 && species != 0) = true ↔
          ∃ c ∈ caught, SameLine species.toNat c := by
        rw [hasEvolutionLineReads_fst, Bool.and_eq_true, hasEvolutionLine_iff hlt hspecies]
        refine ⟨fun h => h.1, fun h => ⟨h, ?_⟩⟩
        obtain ⟨c, hc, hline⟩ := h
        rw [bne_iff_ne]
        rintro rfl
        exact ne_zero_of_sameLine hline (hcaught c hc).2 rfl
      simp only [caughtLineReads]
      by_cases hline : ∃ c ∈ caught, SameLine species.toNat c
      · rw [if_pos (hhit.2 hline)]
        refine ⟨fun _ => ⟨hspecies, fun hmiss => absurd hline hmiss⟩, fun _ i hi => ?_⟩
        rcases hhere i hi with rfl | hi
        · exact hspecies
        · exact hi
      · rw [if_neg fun h => hline (hhit.1 h)]
        constructor
        · intro h
          exact ⟨hspecies, fun _ => ih.1 fun i hi => h i (List.mem_append_right _ hi)⟩
        · rintro ⟨-, hrest⟩ i hi
          rcases List.mem_append.1 hi with hi | hi
          · rcases hhere i hi with rfl | hi
            · exact hspecies
            · exact hi
          · exact ih.2 (hrest hline) i hi
    · refine ⟨fun h => absurd (h species.toNat ?_) hspecies, fun h => absurd h.1 hspecies⟩
      simp only [caughtLineReads]
      split_ifs
      · exact hself
      · exact List.mem_append_left _ hself

/-! ## A battle that is detected -/

/-- The evolution lines are looked up: the battle is not against a trainer, and no wild Pokémon is shiny or
legendary. -/
structure LookupsReached (mem : Memory) (s : Monitor) : Prop where
  depMap : s.depMap = false
  trainer : isBattleTrainer mem = false
  shiny : NoShiny mem
  legendary : ∀ i : Fin maxWilds, (slotData mem i true).species ∉ legendarySpecies

/-- The species that are looked up are ones of the table: all that are owned, and the wild ones up to the
first of a line that is owned. -/
structure SpeciesKnown (mem : Memory) : Prop where
  owned : ∀ species, Owned mem species → species < 722
  wild : ∀ i : Fin maxWilds, (∀ j < i, ¬∃ species, Owned mem species ∧
    SameLine (slotData mem j true).species.toNat species) → (slotData mem i true).species.toNat < 722

/-- At the start of a battle every index `ShouldRemove` looks up is one of the table, in whatever order the
caught species are looked at. -/
def LookupsInTable (host : Host) (mem : Memory) (s : Monitor) : Prop :=
  ∀ caught : List Nat, caught.Nodup → (∀ c, c ∈ caught ↔ c ∈ (deciding mem s).caught) →
    ∀ i ∈ shouldRemoveReads host mem (deciding mem s) caught, i < 722

theorem mem_caught_deciding_iff {mem : Memory} {species : Nat} (s : Monitor) :
    species ∈ (deciding mem s).caught ↔ Owned mem species := by
  have hparty : (exportWild mem (s.readSlots mem)).partyData =
      fun i : Fin partySize => slotData mem i false :=
    funext fun i => readPk6Slot_snd mem i.isLt (s.partyData i) false
  rw [deciding, Monitor.prepare, hparty, loadCaughtPokemon, List.mem_filter, List.mem_append, bne_iff_ne,
    List.mem_map, List.mem_map, Owned, and_comm]
  simp only [List.mem_range, List.mem_finRange, true_and]

theorem wildSpecies_deciding (mem : Memory) (s : Monitor) :
    (deciding mem s).wildSpecies =
      (List.finRange maxWilds).map fun i : Fin maxWilds => (slotData mem i true).species := by
  rw [Monitor.wildSpecies]
  apply List.map_congr_left
  intro i _
  rw [wildData_deciding]

/-- The lookups of a battle, once it is clear that there are any. -/
theorem shouldRemoveReads_of_reached {mem : Memory} {s : Monitor} (h : LookupsReached mem s) (host : Host)
    (caught : List Nat) :
    shouldRemoveReads host mem (deciding mem s) caught =
      (caughtLineReads host.junk caught (deciding mem s).wildSpecies).2 := by
  have hdep : (deciding mem s).depMap = false := h.depMap
  have hleg : (deciding mem s).anyLegendary = false := by
    rw [Monitor.anyLegendary, List.any_eq_false]
    intro i _
    rw [wildData_deciding, List.contains_iff_mem]
    exact h.legendary i
  rw [shouldRemoveReads, hdep, h.trainer, anyShiny_deciding s h.shiny, hleg]
  rfl

theorem shouldRemoveReads_of_not_reached {mem : Memory} {s : Monitor} (h : ¬LookupsReached mem s) (host : Host)
    (caught : List Nat) : shouldRemoveReads host mem (deciding mem s) caught = [] := by
  unfold shouldRemoveReads
  split_ifs with hdep htrainer hshiny hleg
  · rfl
  · rfl
  · rfl
  · rfl
  · refine absurd ⟨Bool.eq_false_iff.2 hdep, Bool.eq_false_iff.2 htrainer, ?_, ?_⟩ h
    · intro i
      rw [Monitor.anyShiny, List.any_eq_true] at hshiny
      rw [← wildData_deciding mem s i]
      exact Bool.eq_false_iff.2 fun hi => hshiny ⟨i, List.mem_finRange i, hi⟩
    · intro i hi
      rw [Monitor.anyLegendary, List.any_eq_true] at hleg
      rw [← wildData_deciding mem s i] at hi
      exact hleg ⟨i, List.mem_finRange i, List.contains_iff_mem.2 hi⟩

/-- The wild Pokémon are known. -/
theorem wildsKnown_deciding {mem : Memory} {caught : List Nat} {s : Monitor}
    (hcaught : ∀ c, c ∈ caught ↔ c ∈ (deciding mem s).caught) :
    WildsKnown caught (deciding mem s).wildSpecies ↔ ∀ i : Fin maxWilds, (∀ j < i, ¬∃ species,
      Owned mem species ∧ SameLine (slotData mem j true).species.toNat species) →
        (slotData mem i true).species.toNat < 722 := by
  have hline : ∀ x, (∃ c ∈ caught, SameLine x c) ↔ ∃ species, Owned mem species ∧ SameLine x species := by
    intro x
    constructor
    · rintro ⟨c, hc, hx⟩
      exact ⟨c, (mem_caught_deciding_iff s).1 ((hcaught c).1 hc), hx⟩
    · rintro ⟨c, hc, hx⟩
      exact ⟨c, (hcaught c).2 ((mem_caught_deciding_iff s).2 hc), hx⟩
  have hlength : (deciding mem s).wildSpecies.length = maxWilds := by
    rw [Monitor.wildSpecies, List.length_map, List.length_finRange]
  have hget : ∀ i : Fin maxWilds, (deciding mem s).wildSpecies.getD i 0 = (slotData mem i true).species := by
    intro i
    have hi : (i : Nat) < (deciding mem s).wildSpecies.length := by
      rw [hlength]
      exact i.isLt
    rw [List.getD_eq_getElem _ _ hi]
    simp only [wildSpecies_deciding, List.getElem_map, List.getElem_finRange]
    rfl
  constructor
  · intro h i hbefore
    rw [← hget i]
    refine h i (by rw [hlength]; exact i.isLt) ?_
    intro j hj
    have hmiss := hbefore ⟨j, hj.trans i.isLt⟩ hj
    rw [← hline, ← hget] at hmiss
    exact hmiss
  · intro h k hk hbefore
    rw [hlength] at hk
    have hknown := h ⟨k, hk⟩ ?_
    · rw [← hget] at hknown
      exact hknown
    · intro j hj
      rw [← hline, ← hget]
      exact hbefore j hj

/-- Where indices are looked up and are ones of the table, the species are known. -/
theorem speciesKnown_of_lookupsInTable {host : Host} {mem : Memory} {s : Monitor}
    (h : LookupsInTable host mem s) (hreached : LookupsReached mem s) : SpeciesKnown mem := by
  have hnodup := List.nodup_dedup (deciding mem s).caught
  have howned : ∀ species, Owned mem species → species < 722 := by
    intro species hspecies
    -- the species is the first the loop looks at
    refine h (species :: (deciding mem s).caught.dedup.erase species) ?_ ?_ species ?_
    · rw [List.nodup_cons]
      exact ⟨hnodup.not_mem_erase, hnodup.erase species⟩
    · intro c
      rw [List.mem_cons, hnodup.mem_erase_iff, List.mem_dedup]
      by_cases hc : c = species
      · subst hc
        simp [mem_caught_deciding s hspecies]
      · simp [hc]
    · rw [shouldRemoveReads_of_reached hreached, wildSpecies_deciding, List.finRange_succ, List.map_cons]
      exact head_mem_caughtLineReads _ _ _ _ _
  refine ⟨howned, ?_⟩
  have hreads := h _ hnodup fun c => List.mem_dedup
  rw [shouldRemoveReads_of_reached hreached] at hreads
  refine (wildsKnown_deciding fun c => List.mem_dedup).1 ((caughtLineReads_iff ?_ _).1 hreads)
  intro c hc
  have hc' := (mem_caught_deciding_iff s).1 (List.mem_dedup.1 hc)
  exact ⟨howned c hc', hc'.1⟩

theorem lookupsInTable_of_speciesKnown (host : Host) {mem : Memory} {s : Monitor}
    (h : LookupsReached mem s → SpeciesKnown mem) : LookupsInTable host mem s := by
  intro caught _ hcaught i hi
  by_cases hreached : LookupsReached mem s
  · obtain ⟨howned, hwild⟩ := h hreached
    rw [shouldRemoveReads_of_reached hreached] at hi
    refine (caughtLineReads_iff ?_ _).2 ((wildsKnown_deciding hcaught).2 hwild) i hi
    intro c hc
    have hc' := (mem_caught_deciding_iff s).1 ((hcaught c).1 hc)
    exact ⟨howned c hc', hc'.1⟩
  · rw [shouldRemoveReads_of_not_reached hreached] at hi
    simp at hi

/-- Every index that is looked up at the start of a battle is one of the table exactly when the species that
are owned, and the wild ones up to the first of an owned line, are species of the table. -/
theorem lookupsInTable_iff (host : Host) (mem : Memory) (s : Monitor) :
    LookupsInTable host mem s ↔ (LookupsReached mem s → SpeciesKnown mem) :=
  ⟨speciesKnown_of_lookupsInTable, lookupsInTable_of_speciesKnown host⟩

/-! ## A species that is none -/

/-- The clear bytes of a Pokémon that is not shiny, of the species 730. -/
def unknownPokemon (i : Nat) : UInt8 :=
  if i = 0x08 then 218 else if i = 0x09 then 2 else if i = 0x19 then 1 else if i = 0xE3 then 1 else 0

/-- All six tests for a battle pass with a species that is none, and it is looked up. -/
theorem not_lookupsInTable_unknownPokemon :
    isBattle (guestMemory unknownPokemon []) = true ∧
      ¬LookupsInTable quietHost (guestMemory unknownPokemon []) startedMonitor := by
  have hslot : ∀ i : Fin maxWilds, (slotData (guestMemory unknownPokemon []) i true).species = 730 ∧
      (slotData (guestMemory unknownPokemon []) i true).isShiny = false :=
    fun i => species_slotData_guestMemory [] i (by decide) (by decide)
  refine ⟨by rw [isBattle_guestMemory]; decide +kernel, ?_⟩
  intro h
  have hreached : LookupsReached (guestMemory unknownPokemon []) startedMonitor := by
    refine ⟨rfl, isBattleTrainer_guestMemory unknownPokemon [], fun i => (hslot i).2, ?_⟩
    intro i hi
    rw [(hslot i).1] at hi
    exact absurd hi (by decide)
  have hwild := (speciesKnown_of_lookupsInTable h hreached).wild 0 fun j hj => absurd hj (Fin.not_lt_zero j)
  rw [(hslot 0).1] at hwild
  exact absurd hwild (by decide)

end AzaharPlus.Poke
