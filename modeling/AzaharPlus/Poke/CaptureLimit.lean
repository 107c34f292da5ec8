import AzaharPlus.Poke.Looks

/-!
# One capture per route

The rules of the game the monitor enforces, over whole runs: guest memory may be anything at
every look, and the file of visited routes may hold anything at the start.

Main results:

* `Monitor.Recorded.look`: a map id that is recorded stays recorded;
* `recorded_of_ballsLeft`: where a battle starts with balls in the bag, the map is recorded;
* `taken_of_recorded`, `taken_of_protected`: when the balls are taken away;
* `capture_limit`: what follows for every run.
-/

namespace AzaharPlus.Poke

open Bytes BlockMemory

/-! ## The record of visited routes -/

/-- A map id is recorded. -/
def Monitor.Recorded (s : Monitor) (mapID : UInt16) : Prop :=
  Poke.Recorded s.visRou s.visitedRoutes mapID

section

variable (host : Host) {s : Monitor} {mapID : UInt16}

theorem Monitor.Recorded.mem_load (h : s.Recorded mapID) :
    mapID ∈ (s.loadVisitedRoutes host).visitedRoutes :=
  mem_loadVisitedRoutes host.junk h

theorem Monitor.Recorded.load (h : s.Recorded mapID) : (s.loadVisitedRoutes host).Recorded mapID :=
  Recorded.of_mem h (h.mem_load host)

/-- Saving keeps what is recorded, as long as it is in the set. -/
theorem Monitor.Recorded.save (h : s.Recorded mapID) (hm : mapID ∈ s.visitedRoutes) :
    (s.saveVisitedRoutes host).Recorded mapID := by
  unfold Monitor.saveVisitedRoutes
  split_ifs
  · exact recorded_routesFile hm
  · exact h

theorem Monitor.Recorded.visit (h : s.Recorded mapID) (hm : mapID ∈ s.visitedRoutes)
    (newID : UInt16) : (s.visit host newID).Recorded mapID := by
  have hm' : mapID ∈ s.visitedRoutes.insert newID := SortedSet.mem_insert.2 (Or.inr hm)
  exact Monitor.Recorded.save host (Recorded.of_mem h hm') hm'

theorem visitedRoutes_saveVisitedRoutes (s : Monitor) :
    (s.saveVisitedRoutes host).visitedRoutes = s.visitedRoutes := by
  unfold Monitor.saveVisitedRoutes
  split_ifs <;> rfl

theorem mem_visit {newID : UInt16} :
    mapID ∈ (s.visit host newID).visitedRoutes ↔ mapID = newID ∨ mapID ∈ s.visitedRoutes := by
  rw [Monitor.visit, visitedRoutes_saveVisitedRoutes]
  exact SortedSet.mem_insert

/-- With a file that can be written, a visited route is recorded. -/
theorem recorded_visit (hw : host.writable = true) (newID : UInt16) :
    (s.visit host newID).Recorded newID := by
  rw [Monitor.visit, Monitor.saveVisitedRoutes, if_pos hw]
  exact recorded_routesFile (SortedSet.mem_insert.2 (Or.inl rfl))

end

/-! ## The decision -/

section

variable (host : Host) (mem : Memory) {s : Monitor} {mapID : UInt16}

theorem saveVisitedRoutes_eq (s : Monitor) :
    ∃ visRou, s.saveVisitedRoutes host = { s with visRou := visRou } := by
  unfold Monitor.saveVisitedRoutes
  split_ifs
  · exact ⟨_, rfl⟩
  · exact ⟨s.visRou, rfl⟩

theorem visit_eq (s : Monitor) (newID : UInt16) :
    ∃ routes visRou, s.visit host newID = { s with visitedRoutes := routes, visRou := visRou } := by
  obtain ⟨visRou, h⟩ :=
    saveVisitedRoutes_eq host { s with visitedRoutes := s.visitedRoutes.insert newID }
  exact ⟨_, visRou, h⟩

/-- The decision changes the visited routes and their file, and nothing else. -/
theorem shouldRemove_eq (s : Monitor) :
    ∃ routes visRou,
      (shouldRemove host mem s).2 = { s with visitedRoutes := routes, visRou := visRou } := by
  unfold shouldRemove Monitor.loadVisitedRoutes
  dsimp only
  split_ifs
  · exact ⟨_, _, rfl⟩
  · exact ⟨_, _, rfl⟩
  · exact visit_eq host _ _
  · exact ⟨_, _, rfl⟩
  · exact ⟨_, _, rfl⟩
  · exact ⟨_, _, rfl⟩
  · exact ⟨_, _, rfl⟩
  · obtain ⟨routes, visRou, h⟩ := visit_eq host
      { s with visitedRoutes := Poke.loadVisitedRoutes host.junk s.visRou s.visitedRoutes }
      (exportMapID mem)
    rw [h]
    obtain ⟨visRou', h'⟩ := saveVisitedRoutes_eq host
      { s with visitedRoutes := routes, visRou := visRou }
    exact ⟨routes, visRou', h'⟩
  · obtain ⟨visRou, h⟩ := saveVisitedRoutes_eq host
      { s with visitedRoutes := Poke.loadVisitedRoutes host.junk s.visRou s.visitedRoutes }
    exact ⟨_, visRou, h⟩

theorem Monitor.Recorded.shouldRemove (h : s.Recorded mapID) :
    (shouldRemove host mem s).2.Recorded mapID := by
  have hl := h.load host
  have hm := h.mem_load host
  unfold Poke.shouldRemove
  dsimp only
  split_ifs
  · exact h
  · exact h
  · exact hl.visit host hm _
  · exact hl
  · exact hl
  · exact hl
  · exact hl
  · exact (hl.visit host hm _).save host ((mem_visit host).2 (Or.inr hm))
  · exact hl.save host hm

/-- A battle in which the rules apply: not against a trainer, and without a shiny. -/
structure Wild (mem : Memory) (s : Monitor) : Prop where
  depMap : s.depMap = false
  trainer : isBattleTrainer mem = false
  shiny : s.anyShiny = false

/-- When the balls may stay, the map is recorded. -/
theorem recorded_of_not_shouldRemove (h : Wild mem s) (hpkb : s.haspkb = true)
    (hnow : isBattle mem = true) (hw : host.writable = true) (hstay : (shouldRemove host mem s).1 = false) :
    (shouldRemove host mem s).2.Recorded (exportMapID mem) := by
  have hdep := h.depMap
  have htrainer := h.trainer
  have hshiny : (s.loadVisitedRoutes host).anyShiny = false := h.shiny
  have hpkb' : (s.loadVisitedRoutes host).haspkb = true := hpkb
  unfold shouldRemove at *
  simp only [hdep, htrainer, hshiny, hpkb', hnow, Bool.false_eq_true, if_false, Bool.and_self,
    if_true] at *
  split_ifs at hstay ⊢
  have hrec := recorded_visit (s := s.loadVisitedRoutes host) host hw (exportMapID mem)
  exact hrec.save host ((mem_visit host).2 (Or.inl rfl))

/-- The balls are taken for a legendary, for an evolution line that was caught, and on a
route that is recorded. -/
theorem shouldRemove_of_protected (h : Wild mem s)
    (hp : s.anyLegendary = true ∨ s.anyCaughtLine host = true ∨ s.Recorded (exportMapID mem)) :
    (shouldRemove host mem s).1 = true := by
  have hdep := h.depMap
  have htrainer := h.trainer
  have hshiny : (s.loadVisitedRoutes host).anyShiny = false := h.shiny
  unfold shouldRemove
  simp only [hdep, htrainer, hshiny, Bool.false_eq_true, if_false]
  rcases hp with hp | hp | hp
  · have hp' : (s.loadVisitedRoutes host).anyLegendary = true := hp
    rw [if_pos hp']
  · have hp' : (s.loadVisitedRoutes host).anyCaughtLine host = true := hp
    rw [if_pos hp']
    split_ifs <;> rfl
  · have hp' := hp.mem_load host
    rw [if_pos hp']
    split_ifs <;> rfl

end

/-! ## What guest memory holds -/

/-- A Pokémon of the party or a wild one. -/
def slotData (mem : Memory) (slot : Nat) (isWild : Bool) : Pk6FullData :=
  (readPk6Slot mem slot Pk6FullData.zero isWild).2

/-- The slot that is read does not depend on what the global held before. -/
theorem readPk6Slot_snd (mem : Memory) {slot : Nat} (h : slot < partySize) (out : Pk6FullData)
    (isWild : Bool) : (readPk6Slot mem slot out isWild).2 = slotData mem slot isWild := by
  obtain ⟨d, hd, -⟩ := decryptPk6InPlace_spec
    (b := readBlock mem ((if isWild then wildOras else partyOras) + slot * pokemonSlotStride) pkmPartySize)
    true (show pkmBoxSize ≤ pkmPartySize by decide) (by rw [length_readBlock])
  unfold slotData readPk6Slot
  rw [if_neg (by omega)]
  simp only [hd, if_true, if_neg (show ¬ partySize ≤ slot by omega)]

/-- No wild Pokémon is shiny. -/
def NoShiny (mem : Memory) : Prop := ∀ i : Fin maxWilds, (slotData mem i true).isShiny = false

/-- A species is in the party or in the PC. -/
def Owned (mem : Memory) (species : Nat) : Prop :=
  species ≠ 0 ∧ ((∃ k < pcSize, readPk6PCSlot mem k = species) ∨
    ∃ i : Fin partySize, (slotData mem i false).species.toNat = species)

/-- Some wild Pokémon is a legendary, or of an evolution line in the party or in the PC. -/
def Protected (mem : Memory) : Prop :=
  ∃ i : Fin maxWilds, (slotData mem i true).species ∈ legendarySpecies ∨
    ∃ species, Owned mem species ∧ SameLine (slotData mem i true).species.toNat species

/-- The state in which it is decided whether the balls are taken away. -/
def deciding (mem : Memory) (s : Monitor) : Monitor :=
  (exportWild mem (s.readSlots mem)).prepare mem

theorem wildData_deciding (mem : Memory) (s : Monitor) (i : Fin maxWilds) :
    (deciding mem s).wildData i = slotData mem i true :=
  readPk6Slot_snd mem (Nat.lt_trans i.isLt (by decide)) _ true

theorem mem_caught_deciding {mem : Memory} {species : Nat} (s : Monitor) (h : Owned mem species) :
    species ∈ (deciding mem s).caught := by
  have hparty : (exportWild mem (s.readSlots mem)).partyData =
      fun i : Fin partySize => slotData mem i false :=
    funext fun i => readPk6Slot_snd mem i.isLt (s.partyData i) false
  rw [deciding, Monitor.prepare, hparty, loadCaughtPokemon, List.mem_filter, List.mem_append,
    bne_iff_ne]
  refine ⟨?_, h.1⟩
  rcases h.2 with ⟨k, hk, hs⟩ | ⟨i, hs⟩
  · exact Or.inl (List.mem_map.2 ⟨k, List.mem_range.2 hk, hs⟩)
  · exact Or.inr (List.mem_map.2 ⟨i, List.mem_finRange i, hs⟩)

theorem anyShiny_deciding {mem : Memory} (s : Monitor) (h : NoShiny mem) :
    (deciding mem s).anyShiny = false := by
  rw [Monitor.anyShiny, List.any_eq_false]
  intro i _
  rw [wildData_deciding, h i]
  exact Bool.false_ne_true

theorem protected_deciding {mem : Memory} (host : Host) (s : Monitor) (h : Protected mem) :
    (deciding mem s).anyLegendary = true ∨ (deciding mem s).anyCaughtLine host = true := by
  obtain ⟨i, hleg | ⟨species, howned, hline⟩⟩ := h
  · refine Or.inl (List.any_eq_true.2 ⟨i, List.mem_finRange i, ?_⟩)
    rw [wildData_deciding]
    exact List.contains_iff_mem.2 hleg
  · refine Or.inr (List.any_eq_true.2 ⟨i, List.mem_finRange i, ?_⟩)
    have hhas := hasEvolutionLine_of_sameLine host.junk (mem_caught_deciding s howned) hline
    have hne := ne_zero_of_sameLine hline howned.1
    rw [wildData_deciding, hhas, Bool.true_and, bne_iff_ne]
    intro h0
    exact hne (by rw [h0]; rfl)

/-! ## One look -/

/-- A look: guest memory as it is found, the host, and whether the party is exported. -/
structure Look where
  mem : Memory
  host : Host
  exportDue : Bool

/-- The state after a look. -/
def look (env : Env) (s : Monitor) (l : Look) : Monitor :=
  (maybeExportParty env l.host l.exportDue l.mem s).1

/-- Guest memory after a look. -/
def memoryAfter (env : Env) (s : Monitor) (l : Look) : Memory :=
  (maybeExportParty env l.host l.exportDue l.mem s).2

/-- A battle is seen to start that is not against a trainer and has no shiny. -/
structure StartsWild (s : Monitor) (l : Look) : Prop where
  exportDue : l.exportDue = true
  wasInBattle : s.wasInBattle = false
  isBattle : isBattle l.mem = true
  trainer : isBattleTrainer l.mem = false
  shiny : NoShiny l.mem

/-- The bag holds no Poké Ball. -/
def NoBalls (mem : Memory) : Prop := ∀ e ∈ readPocket mem, e.isBall = false

/-- The two files by which the rules are switched on. -/
structure Enforced (s : Monitor) : Prop where
  haspkb : s.haspkb = true
  depMap : s.depMap = false

theorem removePokeballs_state (host : Host) (mem : Memory) (s : Monitor) :
    ∃ main removed, (removePokeballs host mem s).2.1 =
      { (shouldRemove host mem (s.prepare mem)).2 with
        mainPocket := main, removedPokeBalls := removed } := by
  unfold removePokeballs
  dsimp only
  split_ifs
  · exact ⟨_, _, rfl⟩
  · exact ⟨_, _, rfl⟩

theorem noBalls_removePokeballs {host : Host} {mem : Memory} {s : Monitor}
    (h : (shouldRemove host mem (s.prepare mem)).1 = true) :
    NoBalls (removePokeballs host mem s).2.2 := by
  unfold removePokeballs
  simp only [h, if_true]
  exact no_ball_takeOut mem _

theorem checkDeadPokemon_eq (mem : Memory) (s : Monitor) :
    ∃ pending, checkDeadPokemon mem s = { s with pendingDelete := pending } := by
  unfold checkDeadPokemon
  split_ifs
  · exact ⟨_, rfl⟩
  · exact ⟨s.pendingDelete, rfl⟩

section

variable (env : Env) (host : Host) (mem : Memory) {s : Monitor} {mapID : UInt16}

theorem Monitor.Recorded.exportParty (h : s.Recorded mapID) :
    (exportParty env host mem s).1.Recorded mapID := by
  cases hwas : s.wasInBattle with
  | false =>
    cases hnow : isBattle mem with
    | true =>
      obtain ⟨main, removed, heq⟩ :=
        removePokeballs_state host mem (exportWild mem (s.readSlots mem))
      have hdec : (deciding mem s).Recorded mapID := h
      rw [exportParty_start env host hwas hnow]
      dsimp only
      rw [heq]
      exact hdec.shouldRemove host mem
    | false =>
      rw [exportParty_other env host (hnow.trans hwas.symm)]
      exact h
  | true =>
    cases hnow : isBattle mem with
    | true =>
      rw [exportParty_other env host (hnow.trans hwas.symm)]
      exact h
    | false =>
      rw [exportParty_end env host hwas hnow]
      exact h

theorem Enforced.exportParty (h : Enforced s) : Enforced (exportParty env host mem s).1 := by
  cases hwas : s.wasInBattle with
  | false =>
    cases hnow : isBattle mem with
    | true =>
      obtain ⟨main, removed, heq⟩ :=
        removePokeballs_state host mem (exportWild mem (s.readSlots mem))
      obtain ⟨routes, visRou, hdec⟩ := shouldRemove_eq host mem (deciding mem s)
      rw [exportParty_start env host hwas hnow]
      dsimp only
      rw [heq, show (exportWild mem (s.readSlots mem)).prepare mem = deciding mem s from rfl, hdec]
      refine ⟨?_, h.depMap⟩
      show (s.haspkb || _) = true
      rw [h.haspkb, Bool.true_or]
    | false =>
      rw [exportParty_other env host (hnow.trans hwas.symm)]
      exact ⟨h.haspkb, h.depMap⟩
  | true =>
    cases hnow : isBattle mem with
    | true =>
      rw [exportParty_other env host (hnow.trans hwas.symm)]
      exact ⟨h.haspkb, h.depMap⟩
    | false =>
      rw [exportParty_end env host hwas hnow]
      exact ⟨h.haspkb, h.depMap⟩

end

section

variable (env : Env) {s : Monitor} {mapID : UInt16}

/-- A map id that is recorded stays recorded. -/
theorem Monitor.Recorded.look (h : s.Recorded mapID) (l : Look) : (look env s l).Recorded mapID := by
  obtain ⟨pending, hcheck⟩ := checkDeadPokemon_eq l.mem s
  rw [Poke.look, maybeExportParty, hcheck]
  split_ifs
  · exact Monitor.Recorded.exportParty env l.host l.mem h
  · exact h

theorem Enforced.look (h : Enforced s) (l : Look) : Enforced (look env s l) := by
  obtain ⟨pending, hcheck⟩ := checkDeadPokemon_eq l.mem s
  rw [Poke.look, maybeExportParty, hcheck]
  split_ifs
  · exact Enforced.exportParty env l.host l.mem ⟨h.haspkb, h.depMap⟩
  · exact ⟨h.haspkb, h.depMap⟩

/-- At the start of a battle all hangs on one decision: it says what is recorded, and that
the balls are taken. -/
theorem StartsWild.decision {l : Look} (h : StartsWild s l) (he : Enforced s) :
    ∃ s', Wild l.mem (deciding l.mem s') ∧ (deciding l.mem s').haspkb = true ∧
      (∀ m, s.Recorded m → (deciding l.mem s').Recorded m) ∧
      (∀ m, (shouldRemove l.host l.mem (deciding l.mem s')).2.Recorded m → (Poke.look env s l).Recorded m) ∧
      ((shouldRemove l.host l.mem (deciding l.mem s')).1 = true → NoBalls (memoryAfter env s l)) := by
  obtain ⟨pending, hcheck⟩ := checkDeadPokemon_eq l.mem s
  have hstart := exportParty_start env l.host (s := { s with pendingDelete := pending })
    h.wasInBattle h.isBattle
  have hlook : maybeExportParty env l.host l.exportDue l.mem s =
      exportParty env l.host l.mem { s with pendingDelete := pending } := by
    rw [maybeExportParty, hcheck]
    exact if_pos h.exportDue
  rw [hstart] at hlook
  refine ⟨{ s with pendingDelete := pending }, ⟨he.depMap, h.trainer, anyShiny_deciding _ h.shiny⟩,
    ?_, fun m hm => hm, fun m hm => ?_, fun hrem => ?_⟩
  · show (s.haspkb || _) = true
    rw [he.haspkb, Bool.true_or]
  · obtain ⟨main, removed, heq⟩ := removePokeballs_state l.host l.mem
      (exportWild l.mem (({ s with pendingDelete := pending } : Monitor).readSlots l.mem))
    rw [Poke.look, hlook]
    dsimp only
    rw [heq]
    exact hm
  · rw [memoryAfter, hlook]
    exact noBalls_removePokeballs hrem

/-- Where a battle starts with balls in the bag, the map is recorded. -/
theorem recorded_of_ballsLeft {l : Look} (h : StartsWild s l) (he : Enforced s)
    (hw : l.host.writable = true) (hleft : ¬ NoBalls (memoryAfter env s l)) :
    (Poke.look env s l).Recorded (exportMapID l.mem) := by
  obtain ⟨s', hwild, hpkb, -, hrec, htaken⟩ := h.decision env he
  refine hrec _ (recorded_of_not_shouldRemove l.host l.mem hwild hpkb h.isBattle hw ?_)
  by_contra hne
  exact hleft (htaken (Bool.eq_true_of_not_eq_false hne))

/-- On a recorded map the balls are taken away. -/
theorem taken_of_recorded {l : Look} (h : StartsWild s l) (he : Enforced s)
    (hrec : s.Recorded (exportMapID l.mem)) : NoBalls (memoryAfter env s l) := by
  obtain ⟨s', hwild, -, hkeep, -, htaken⟩ := h.decision env he
  exact htaken (shouldRemove_of_protected l.host l.mem hwild (Or.inr (Or.inr (hkeep _ hrec))))

/-- For a legendary or an evolution line that is owned the balls are taken away. -/
theorem taken_of_protected {l : Look} (h : StartsWild s l) (he : Enforced s)
    (hp : Protected l.mem) : NoBalls (memoryAfter env s l) := by
  obtain ⟨s', hwild, -, -, -, htaken⟩ := h.decision env he
  refine htaken (shouldRemove_of_protected l.host l.mem hwild ?_)
  rcases protected_deciding l.host s' hp with hleg | hline
  · exact Or.inl hleg
  · exact Or.inr (Or.inl hline)

end

/-! ## Whole runs -/

/-- The state after the first `i` looks. -/
def stateAt (env : Env) (s₀ : Monitor) (looks : List Look) (i : Nat) : Monitor :=
  (looks.take i).foldl (look env) s₀

theorem stateAt_succ (env : Env) (s₀ : Monitor) {looks : List Look} {i : Nat} (hi : i < looks.length) :
    stateAt env s₀ looks (i + 1) = look env (stateAt env s₀ looks i) looks[i] := by
  rw [stateAt, List.take_add_one, List.getElem?_eq_getElem hi, List.foldl_append]
  rfl

theorem Enforced.stateAt {s₀ : Monitor} (env : Env) (h : Enforced s₀) (looks : List Look) (i : Nat) :
    Enforced (stateAt env s₀ looks i) := by
  rw [Poke.stateAt]
  induction looks.take i generalizing s₀ with
  | nil => exact h
  | cons l ls ih => exact ih (h.look env l)

/-- Recorded ids stay recorded along a run. -/
theorem recorded_mono {env : Env} {s₀ : Monitor} {looks : List Look} {mapID : UInt16} {i j : Nat}
    (hij : i ≤ j) (hj : j ≤ looks.length) (h : (stateAt env s₀ looks i).Recorded mapID) :
    (stateAt env s₀ looks j).Recorded mapID := by
  induction j, hij using Nat.le_induction with
  | base => exact h
  | succ j _ ih =>
    rw [stateAt_succ env s₀ hj]
    exact (ih (Nat.le_of_lt hj)).look env _

/-- A battle that starts at look `i` with balls in the bag. -/
def StartsWithBalls (env : Env) (s₀ : Monitor) (looks : List Look) (i : Nat) (hi : i < looks.length) :
    Prop :=
  StartsWild (stateAt env s₀ looks i) looks[i] ∧
    ¬ NoBalls (memoryAfter env (stateAt env s₀ looks i) looks[i])

/-- After a battle with balls, the next one on the same map has none. -/
theorem not_startsWithBalls {env : Env} {s₀ : Monitor} {looks : List Look} (h : Enforced s₀)
    (hw : ∀ l ∈ looks, l.host.writable = true) {i j : Nat} (hj : j < looks.length) (hij : i < j)
    (hmap : exportMapID (looks[i]).mem = exportMapID (looks[j]).mem)
    (hi' : StartsWithBalls env s₀ looks i (hij.trans hj)) : ¬ StartsWithBalls env s₀ looks j hj := by
  rintro ⟨hstart, hleft⟩
  have hi := hij.trans hj
  have hrec := recorded_of_ballsLeft env hi'.1 (h.stateAt env looks i)
    (hw _ (List.getElem_mem hi)) hi'.2
  rw [← stateAt_succ env s₀ hi, hmap] at hrec
  exact hleft (taken_of_recorded env hstart (h.stateAt env looks j)
    (recorded_mono (Nat.succ_le_of_lt hij) (Nat.le_of_lt hj) hrec))

/-- What the monitor enforces in a run. -/
structure CaptureLimit (env : Env) (s₀ : Monitor) (looks : List Look) : Prop where
  /-- On each map at most one battle starts with balls in the bag. -/
  one_per_map : ∀ i j (hi : i < looks.length) (hj : j < looks.length),
    exportMapID (looks[i]).mem = exportMapID (looks[j]).mem →
    StartsWithBalls env s₀ looks i hi → StartsWithBalls env s₀ looks j hj → i = j
  /-- A recorded map id stays recorded. -/
  recorded : ∀ mapID i j, i ≤ j → j ≤ looks.length →
    (stateAt env s₀ looks i).Recorded mapID → (stateAt env s₀ looks j).Recorded mapID
  /-- No legendary, and none of an evolution line that is owned, can be caught. -/
  protected_taken : ∀ i (hi : i < looks.length), StartsWild (stateAt env s₀ looks i) looks[i] →
    Protected (looks[i]).mem → NoBalls (memoryAfter env (stateAt env s₀ looks i) looks[i])

/-- In every run the rules are kept: from any state and any file of visited routes, whatever
guest memory holds at each look. -/
theorem capture_limit (env : Env) (s₀ : Monitor) (looks : List Look) (h : Enforced s₀)
    (hw : ∀ l ∈ looks, l.host.writable = true) : CaptureLimit env s₀ looks where
  one_per_map i j hi hj hmap hbi hbj := by
    rcases Nat.lt_trichotomy i j with hij | hij | hij
    · exact absurd hbj (not_startsWithBalls h hw hj hij hmap hbi)
    · exact hij
    · exact absurd hbi (not_startsWithBalls h hw hi hij hmap.symm hbj)
  recorded _ _ _ hij hj hrec := recorded_mono hij hj hrec
  protected_taken i _ hstart hp := taken_of_protected env hstart (h.stateAt env looks i) hp

/-! ## A legendary battle -/

/-- The wild Pokémon of guest memory are deciphered to their clear bytes. -/
theorem slotData_guestMemory (clear : Nat → UInt8) (slots : List ItemEntry) (i : Fin maxWilds) :
    ∃ d, slotData (guestMemory clear slots) i true = pk6FullData (guestMemory clear slots) d true ∧
      ∀ j, pkmEncryptedStart ≤ j → j < pkmBoxSize → byteAt d j = clear j := by
  obtain ⟨d, hd, hclear⟩ := decrypt_enciphered clear
    (b := readBlock (guestMemory clear slots) (wildOras + i * pokemonSlotStride) pkmPartySize) true
    (show pkmBoxSize ≤ pkmPartySize by decide) (by rw [length_readBlock])
    (fun j hj => byteAt_wildSlot clear slots i (Nat.lt_trans hj (by decide)) (by decide))
  refine ⟨d, ?_, hclear⟩
  have hi : ¬ partySize ≤ (i : Nat) := Nat.not_le.2 (Nat.lt_trans i.isLt (by decide))
  unfold slotData readPk6Slot
  rw [if_neg hi]
  simp only [if_true, hd]

/-- A wild Pokémon with the id 256 is not shiny for a player without ids. -/
theorem species_slotData_guestMemory {clear : Nat → UInt8} {species : UInt16} (slots : List ItemEntry)
    (i : Fin maxWilds) (hspecies : word (clear 0x08) (clear 0x09) = species)
    (hpid : clear 0x18 = 0 ∧ clear 0x19 = 1 ∧ clear 0x1A = 0 ∧ clear 0x1B = 0) :
    (slotData (guestMemory clear slots) i true).species = species ∧
      (slotData (guestMemory clear slots) i true).isShiny = false := by
  obtain ⟨d, hslot, hclear⟩ := slotData_guestMemory clear slots i
  have hspecies' : readLE16 d 0x08 = species := by
    rw [readLE16, hclear _ (by decide) (by decide), hclear _ (by decide) (by decide), hspecies]
  have hpid' : readLE32 d 0x18 = 256 := by
    rw [readLE32, hclear _ (by decide) (by decide), hclear _ (by decide) (by decide),
      hclear _ (by decide) (by decide), hclear _ (by decide) (by decide), hpid.1, hpid.2.1, hpid.2.2.1, hpid.2.2.2]
    rfl
  have htid : readWord (guestMemory clear slots) tidOras = 0 := by
    rw [readWord_eq, guestMemory_apart _ _ (by decide) (by decide),
      guestMemory_apart _ _ (by decide) (by decide)]
    decide
  have hsid : readWord (guestMemory clear slots) sidOras = 0 := by
    rw [readWord_eq, guestMemory_apart _ _ (by decide) (by decide),
      guestMemory_apart _ _ (by decide) (by decide)]
    decide
  rw [hslot]
  refine ⟨hspecies', ?_⟩
  simp only [pk6FullData, hpid', if_true, htid, hsid]
  exact Bool.and_eq_false_imp.2 fun _ => by decide

theorem isBattleTrainer_guestMemory (clear : Nat → UInt8) (slots : List ItemEntry) :
    isBattleTrainer (guestMemory clear slots) = false := by
  have hability : readWord (guestMemory clear slots) (battleHpSlotWild + 0x006) = 1 := by
    rw [readWord_eq, guestMemory_apart _ _ (by decide) (by decide),
      guestMemory_apart _ _ (by decide) (by decide)]
    decide
  rw [isBattleTrainer, hability]
  exact Bool.and_false _

/-- The clear bytes of a Mewtwo that is not shiny. -/
def mewtwo (i : Nat) : UInt8 :=
  if i = 0x08 then 150 else if i = 0x19 then 1 else if i = 0xE3 then 1 else 0

/-- Guest memory in a battle with a Mewtwo. -/
def mewtwoBattle (slots : List ItemEntry) : Memory := guestMemory mewtwo slots

theorem isBattle_mewtwoBattle (slots : List ItemEntry) : isBattle (mewtwoBattle slots) = true := by
  rw [mewtwoBattle, isBattle_guestMemory]
  decide +kernel

theorem slotData_mewtwoBattle (slots : List ItemEntry) (i : Fin maxWilds) :
    (slotData (mewtwoBattle slots) i true).species = 150 ∧
      (slotData (mewtwoBattle slots) i true).isShiny = false :=
  species_slotData_guestMemory slots i (by decide) (by decide)

theorem startsWild_mewtwoBattle {s : Monitor} (hwas : s.wasInBattle = false) (host : Host)
    (slots : List ItemEntry) : StartsWild s ⟨mewtwoBattle slots, host, true⟩ where
  exportDue := rfl
  wasInBattle := hwas
  isBattle := isBattle_mewtwoBattle slots
  trainer := isBattleTrainer_guestMemory mewtwo slots
  shiny i := (slotData_mewtwoBattle slots i).2

theorem protected_mewtwoBattle (slots : List ItemEntry) : Protected (mewtwoBattle slots) := by
  refine ⟨0, Or.inl ?_⟩
  rw [(slotData_mewtwoBattle slots 0).1]
  decide

/-- Files whose growth tables and cap are never reached. -/
def quietEnv : Env := ⟨100, fun _ _ => 0, fun _ => none⟩

/-- A host that can write and reads zeros. -/
def quietHost : Host := ⟨⟨0, fun _ => 0, fun _ => 0⟩, true⟩

/-- The process when it starts, with the first Poké Ball found. -/
def startedMonitor : Monitor :=
  ⟨fun _ => Pk6FullData.zero, fun _ => Pk6FullData.zero, fun _ => BattleSlotData.zero, 0, false,
    fun _ => false, List.replicate slotCount ItemEntry.zero, fun _ => ItemEntry.zero,
    SortedSet.empty, [], none, true, false, 0, 0⟩

/-- Five Poké Balls are taken away when a Mewtwo appears. -/
theorem capture_limit_mewtwo :
    NoBalls (memoryAfter quietEnv startedMonitor ⟨mewtwoBattle [⟨4, 5⟩], quietHost, true⟩) :=
  (capture_limit quietEnv startedMonitor [⟨mewtwoBattle [⟨4, 5⟩], quietHost, true⟩] ⟨rfl, rfl⟩
    (by simp [quietHost])).protected_taken 0 (by simp)
    (startsWild_mewtwoBattle rfl quietHost [⟨4, 5⟩]) (protected_mewtwoBattle [⟨4, 5⟩])

end AzaharPlus.Poke
