import AzaharPlus.Poke.CaptureLimit

/-!
# Poké Balls and save states

A save state holds guest memory and nothing else, while the balls that were taken out of the
pocket are in a table of the process.  A state that is saved in a battle and loaded when the
table no longer holds its balls has lost them.

A world keeps, beside guest memory and the process, which balls were taken out of this guest
memory since the last end of a battle (`World.out`), and the same for the state that was
saved.

Main results:

* `Inv.step`: as long as every loaded state finds its balls in the table, the table holds
  every ball that is out;
* `no_ball_lost`: in such a run every end of a battle brings them back;
* `ball_lost_to_savestate`: saved in a battle, loaded in a new process, they are gone.
-/

namespace AzaharPlus.Poke

open Bytes BlockMemory

/-! ## Worlds and events -/

/-- The process, its guest memory and the state that was saved last. -/
structure World where
  monitor : Monitor
  mem : Memory
  /-- The balls taken out of this guest memory since a battle last ended. -/
  out : List ItemEntry
  /-- The guest memory in the save state, and the balls that are out of it. -/
  saved : Option (Memory × List ItemEntry)

/-- What can happen. -/
inductive Event
  /-- The game runs and leaves this guest memory. -/
  | game (mem : Memory)
  /-- The monitor looks. -/
  | look (host : Host) (exportDue : Bool)
  /-- A state is saved. -/
  | save
  /-- The process is started again and the game boots. -/
  | restart (mem : Memory)
  /-- The state that was saved is loaded. -/
  | load

/-- A look sees the start of a battle. -/
def SeesStart (s : Monitor) (mem : Memory) (exportDue : Bool) : Prop :=
  exportDue = true ∧ s.wasInBattle = false ∧ isBattle mem = true

/-- A look sees the end of a battle. -/
def SeesEnd (s : Monitor) (mem : Memory) (exportDue : Bool) : Prop :=
  exportDue = true ∧ s.wasInBattle = true ∧ isBattle mem = false

instance (s : Monitor) (mem : Memory) (exportDue : Bool) : Decidable (SeesStart s mem exportDue) :=
  inferInstanceAs (Decidable (_ ∧ _ ∧ _))

instance (s : Monitor) (mem : Memory) (exportDue : Bool) : Decidable (SeesEnd s mem exportDue) :=
  inferInstanceAs (Decidable (_ ∧ _ ∧ _))

/-- The state in which `RemovePokeballs` is called at the start of a battle. -/
def atStart (mem : Memory) (s : Monitor) : Monitor :=
  exportWild mem ((checkDeadPokemon mem s).readSlots mem)

/-- The balls a look takes out of the pocket. -/
def takenByLook (host : Host) (exportDue : Bool) (mem : Memory) (s : Monitor) : List ItemEntry :=
  if SeesStart s mem exportDue ∧ (removePokeballs host mem (atStart mem s)).1 = true then
    balls (readPocket mem)
  else []

/-- The world after an event. -/
def step (env : Env) (w : World) : Event → World
  | .game mem => { w with mem := mem }
  | .look host exportDue =>
      let after := maybeExportParty env host exportDue w.mem w.monitor
      { w with
        monitor := after.1
        mem := after.2
        out := if SeesEnd w.monitor w.mem exportDue then []
          else w.out ++ takenByLook host exportDue w.mem w.monitor }
  | .save => { w with saved := some (w.mem, w.out) }
  | .restart mem => { w with monitor := w.monitor.restart, mem := mem, out := [] }
  | .load =>
      match w.saved with
      | none => w
      | some (mem, out) => { w with mem := mem, out := out }

theorem step_look_mem (env : Env) (w : World) (host : Host) (exportDue : Bool) :
    (step env w (.look host exportDue)).mem =
      (maybeExportParty env host exportDue w.mem w.monitor).2 := rfl

theorem step_game (env : Env) (w : World) (mem : Memory) :
    step env w (.game mem) = { w with mem := mem } := rfl

theorem step_save (env : Env) (w : World) :
    step env w .save = { w with saved := some (w.mem, w.out) } := rfl

theorem step_load_none {env : Env} {w : World} (h : w.saved = none) : step env w .load = w := by
  rw [step, h]

theorem step_load_some {env : Env} {w : World} {snapshot : Memory × List ItemEntry}
    (h : w.saved = some snapshot) :
    step env w .load = { w with mem := snapshot.1, out := snapshot.2 } := by
  rw [step, h]

/-- A process that has just started, without a state that could be loaded. -/
def startWorld (s : Monitor) (mem : Memory) : World := ⟨s.restart, mem, [], none⟩

/-- The world after the first `i` events. -/
def worldAt (env : Env) (w₀ : World) (events : List Event) (i : Nat) : World :=
  (events.take i).foldl (step env) w₀

/-- An event is a look that sees the end of a battle. -/
def EndsBattle (w : World) : Event → Prop
  | .look _ exportDue => SeesEnd w.monitor w.mem exportDue
  | _ => False

/-- After every end of a battle, the balls that were out are in the pocket. -/
def NoBallLost (env : Env) (w₀ : World) (events : List Event) : Prop :=
  ∀ i (hi : i < events.length), EndsBattle (worldAt env w₀ events i) events[i] →
    (worldAt env w₀ events i).out.Subperm (readPocket (worldAt env w₀ events (i + 1)).mem)

/-- The game leaves the slots with balls alone. -/
def GameKeepsBalls (env : Env) (w₀ : World) (events : List Event) : Prop :=
  ∀ i (hi : i < events.length) mem, events[i] = .game mem →
    balls (readPocket mem) = balls (readPocket (worldAt env w₀ events i).mem)

/-! ## The condition -/

/-- Nothing gets in the way of the balls: those a loaded state is missing are in the table of
the process, and at the start of a battle no two slots compete for an entry of the table. -/
def StepOk (w : World) : Event → Prop
  | .look _ exportDue => SeesStart w.monitor w.mem exportDue → BallsDistinct (readPocket w.mem)
  | .load => ∀ mem out, w.saved = some (mem, out) → ∀ e ∈ out, e ∈ held w.monitor.removedPokeBalls
  | _ => True

/-- Every ball that is out is in the table of the process, and the table is empty between
battles. -/
structure Inv (w : World) : Prop where
  held : ∀ e ∈ w.out, e ∈ held w.monitor.removedPokeBalls
  nodup : w.out.Nodup
  empty : w.monitor.wasInBattle = false → w.monitor.removedPokeBalls = fun _ => ItemEntry.zero
  saved : ∀ mem out, w.saved = some (mem, out) → out.Nodup

theorem held_zero : held (fun _ => ItemEntry.zero) = [] := by decide

theorem Inv.start (s : Monitor) (mem : Memory) : Inv (startWorld s mem) where
  held := by simp [startWorld]
  nodup := by simp [startWorld]
  empty _ := rfl
  saved _ _ h := by simp [startWorld] at h

/-- Between battles no ball is out. -/
theorem Inv.out_eq_nil {w : World} (h : Inv w) (hwas : w.monitor.wasInBattle = false) : w.out = [] := by
  rw [List.eq_nil_iff_forall_not_mem]
  intro e he
  have hheld := h.held e he
  rw [h.empty hwas, held_zero] at hheld
  exact List.not_mem_nil hheld

/-! ## What a look does to the table -/

section

variable (env : Env) (host : Host) {mem : Memory} {s : Monitor}

theorem maybeExportParty_due (mem : Memory) (s : Monitor) :
    maybeExportParty env host true mem s = exportParty env host mem (checkDeadPokemon mem s) := rfl

theorem wasInBattle_checkDeadPokemon (mem : Memory) (s : Monitor) :
    (checkDeadPokemon mem s).wasInBattle = s.wasInBattle := by
  obtain ⟨pending, h⟩ := checkDeadPokemon_eq mem s
  rw [h]

theorem removedPokeBalls_checkDeadPokemon (mem : Memory) (s : Monitor) :
    (checkDeadPokemon mem s).removedPokeBalls = s.removedPokeBalls := by
  obtain ⟨pending, h⟩ := checkDeadPokemon_eq mem s
  rw [h]

theorem removedPokeBalls_shouldRemove (mem : Memory) (s : Monitor) :
    (shouldRemove host mem s).2.removedPokeBalls = s.removedPokeBalls := by
  obtain ⟨routes, visRou, h⟩ := shouldRemove_eq host mem s
  rw [h]

theorem look_start (hwas : s.wasInBattle = false) (hnow : isBattle mem = true) :
    maybeExportParty env host true mem s =
      let removed := removePokeballs host mem (atStart mem s)
      ({ removed.2.1 with wasInBattle := true }, removed.2.2) := by
  rw [maybeExportParty_due]
  exact exportParty_start env host ((wasInBattle_checkDeadPokemon mem s).trans hwas) hnow

/-- `RemovePokeballs` moves the balls to the table when it takes them, and touches neither
pocket nor table otherwise. -/
theorem removePokeballs_cases (host : Host) (mem : Memory) (s : Monitor) :
    ((removePokeballs host mem s).1 = true ∧
      (removePokeballs host mem s).2.2 = (takeOut mem s.removedPokeBalls).1 ∧
      (removePokeballs host mem s).2.1.removedPokeBalls = (takeOut mem s.removedPokeBalls).2.2) ∨
    ((removePokeballs host mem s).1 = false ∧ (removePokeballs host mem s).2.2 = mem ∧
      (removePokeballs host mem s).2.1.removedPokeBalls = s.removedPokeBalls) := by
  have htable : (shouldRemove host mem (s.prepare mem)).2.removedPokeBalls = s.removedPokeBalls :=
    (removedPokeBalls_shouldRemove host mem (s.prepare mem)).trans (by rw [Monitor.prepare])
  unfold removePokeballs
  dsimp only
  split_ifs
  · refine Or.inl ⟨rfl, ?_, ?_⟩
    · dsimp only
      rw [htable]
    · dsimp only
      rw [htable]
  · exact Or.inr ⟨rfl, rfl, htable⟩

/-- The end of a battle empties the table and puts the balls in front. -/
theorem look_end (hwas : s.wasInBattle = true) (hnow : isBattle mem = false) :
    (maybeExportParty env host true mem s).1.wasInBattle = false ∧
    (maybeExportParty env host true mem s).1.removedPokeBalls = (fun _ => ItemEntry.zero) ∧
    readPocket (maybeExportParty env host true mem s).2 = held s.removedPokeBalls ++
      (readPocket mem).take (slotCount - (held s.removedPokeBalls).length) := by
  rw [maybeExportParty_due,
    exportParty_end env host ((wasInBattle_checkDeadPokemon mem s).trans hwas) hnow]
  refine ⟨rfl, rfl, ?_⟩
  have hcap := eqOn_levelCapAdjustment env ((checkDeadPokemon mem s).readSlots mem).partyData mem
  have htable : ((checkDeadPokemon mem s).readSlots mem).removedPokeBalls = s.removedPokeBalls :=
    removedPokeBalls_checkDeadPokemon mem s
  dsimp only [onBattleEnded, deleteFaintedPokemon, restorePokeballs]
  rw [readPocket_congr (eqOn_deleteSlots env _ _ _), readPocket_putBack, htable,
    readPocket_congr hcap]

/-- Any other look leaves the table alone. -/
theorem look_other {exportDue : Bool} (h : exportDue = true → isBattle mem = s.wasInBattle) :
    (maybeExportParty env host exportDue mem s).1.wasInBattle = s.wasInBattle ∧
    (maybeExportParty env host exportDue mem s).1.removedPokeBalls = s.removedPokeBalls := by
  cases exportDue with
  | false =>
    exact ⟨wasInBattle_checkDeadPokemon mem s, removedPokeBalls_checkDeadPokemon mem s⟩
  | true =>
    have hsame := (h rfl).trans (wasInBattle_checkDeadPokemon mem s).symm
    rw [maybeExportParty_due, exportParty_other env host hsame]
    exact ⟨wasInBattle_checkDeadPokemon mem s, removedPokeBalls_checkDeadPokemon mem s⟩

end

/-! ## The invariant is kept -/

section

variable {env : Env} {w : World}

theorem Inv.look_start {host : Host} (h : Inv w) (hwas : w.monitor.wasInBattle = false)
    (hnow : isBattle w.mem = true) (hd : BallsDistinct (readPocket w.mem)) :
    Inv (step env w (.look host true)) := by
  have hend : ¬ SeesEnd w.monitor w.mem true := fun he => by simp [SeesEnd, hwas] at he
  have hstart : SeesStart w.monitor w.mem true := ⟨rfl, hwas, hnow⟩
  have htable : (atStart w.mem w.monitor).removedPokeBalls = w.monitor.removedPokeBalls :=
    removedPokeBalls_checkDeadPokemon w.mem w.monitor
  have hout := h.out_eq_nil hwas
  unfold step
  dsimp only
  rw [Poke.look_start env host hwas hnow, if_neg hend, hout, List.nil_append]
  rcases removePokeballs_cases host w.mem (atStart w.mem w.monitor) with
    ⟨hb, -, hrem⟩ | ⟨hb, -, hrem⟩
  · have htaken : takenByLook host true w.mem w.monitor = balls (readPocket w.mem) :=
      if_pos ⟨hstart, hb⟩
    refine ⟨fun e he => ?_, ?_, fun hf => absurd hf (by simp), h.saved⟩
    · dsimp only at he ⊢
      rw [htaken] at he
      rw [hrem]
      exact mem_held_takeOut hd _ he
    · dsimp only
      rw [htaken]
      exact nodup_balls hd
  · have htaken : takenByLook host true w.mem w.monitor = [] := if_neg fun ht => by simp [hb] at ht
    refine ⟨fun e he => ?_, ?_, fun hf => absurd hf (by simp), h.saved⟩
    · dsimp only at he
      rw [htaken] at he
      exact absurd he List.not_mem_nil
    · dsimp only
      rw [htaken]
      exact List.nodup_nil

theorem Inv.look_other {host : Host} {exportDue : Bool} (h : Inv w)
    (hsame : exportDue = true → isBattle w.mem = w.monitor.wasInBattle) :
    Inv (step env w (.look host exportDue)) := by
  obtain ⟨hwas, hrem⟩ := Poke.look_other env host hsame
  have hend : ¬ SeesEnd w.monitor w.mem exportDue := by
    rintro ⟨hdue, h₁, h₂⟩
    rw [← hsame hdue, h₂] at h₁
    exact Bool.false_ne_true h₁
  have htaken : takenByLook host exportDue w.mem w.monitor = [] := by
    refine if_neg ?_
    rintro ⟨⟨hdue, h₁, h₂⟩, -⟩
    rw [← hsame hdue, h₂] at h₁
    exact Bool.false_ne_true h₁.symm
  unfold step
  dsimp only
  rw [if_neg hend, htaken, List.append_nil]
  refine ⟨fun e he => ?_, h.nodup, fun hf => ?_, h.saved⟩
  · rw [hrem]
    exact h.held e he
  · rw [hrem]
    exact h.empty (hwas.symm.trans hf)

theorem Inv.look_end {host : Host} (h : Inv w) (hwas : w.monitor.wasInBattle = true)
    (hnow : isBattle w.mem = false) : Inv (step env w (.look host true)) := by
  obtain ⟨-, hrem, -⟩ := Poke.look_end env host hwas hnow
  unfold step
  dsimp only
  rw [if_pos ⟨rfl, hwas, hnow⟩]
  exact ⟨by simp, List.nodup_nil, fun _ => hrem, h.saved⟩

/-- Every event that meets the condition keeps the balls in reach. -/
theorem Inv.step {e : Event} (h : Inv w) (hok : StepOk w e) : Inv (step env w e) := by
  cases e with
  | game mem => exact ⟨h.held, h.nodup, h.empty, h.saved⟩
  | save =>
    refine ⟨h.held, h.nodup, h.empty, fun mem out hs => ?_⟩
    cases hs
    exact h.nodup
  | restart mem => exact ⟨by simp [Poke.step], List.nodup_nil, fun _ => rfl, h.saved⟩
  | load =>
    cases hs : w.saved with
    | none =>
      rw [step_load_none hs]
      exact h
    | some snapshot =>
      rw [step_load_some hs]
      exact ⟨hok _ _ hs, h.saved _ _ hs, h.empty, h.saved⟩
  | look host exportDue =>
    cases exportDue with
    | false => exact h.look_other (by simp)
    | true =>
      cases hwas : w.monitor.wasInBattle with
      | false =>
        cases hnow : isBattle w.mem with
        | true => exact h.look_start hwas hnow (hok ⟨rfl, hwas, hnow⟩)
        | false => exact h.look_other fun _ => hnow.trans hwas.symm
      | true =>
        cases hnow : isBattle w.mem with
        | true => exact h.look_other fun _ => hnow.trans hwas.symm
        | false => exact h.look_end hwas hnow

/-- The balls that are out when a battle ends are put back. -/
theorem Inv.endsBattle {e : Event} (h : Inv w) (hend : EndsBattle w e) :
    w.out.Subperm (readPocket (Poke.step env w e).mem) := by
  cases e with
  | look host exportDue =>
    obtain ⟨rfl, hwas, hnow⟩ := hend
    obtain ⟨-, -, hpocket⟩ := Poke.look_end env host hwas hnow
    rw [step_look_mem, hpocket]
    exact (h.nodup.subperm h.held).trans (List.sublist_append_left _ _).subperm
  | game _ => exact hend.elim
  | save => exact hend.elim
  | restart _ => exact hend.elim
  | load => exact hend.elim

end

/-! ## Whole runs -/

/-- Every event of a run meets the condition. -/
def StepsOk (env : Env) (w₀ : World) (events : List Event) : Prop :=
  ∀ i (hi : i < events.length), StepOk (worldAt env w₀ events i) events[i]

theorem worldAt_succ (env : Env) (w₀ : World) {events : List Event} {i : Nat}
    (hi : i < events.length) :
    worldAt env w₀ events (i + 1) = step env (worldAt env w₀ events i) events[i] := by
  rw [worldAt, List.take_add_one, List.getElem?_eq_getElem hi, List.foldl_append]
  rfl

theorem Inv.worldAt {env : Env} {w₀ : World} {events : List Event} (h : Inv w₀)
    (hok : StepsOk env w₀ events) {i : Nat} (hi : i ≤ events.length) : Inv (worldAt env w₀ events i) := by
  induction i with
  | zero => exact h
  | succ i ih =>
    rw [worldAt_succ env w₀ hi]
    exact (ih (Nat.le_of_lt hi)).step (hok i hi)

/-- In every run in which a loaded state always finds its balls in the table of the process,
the end of a battle brings back every ball that was taken out. -/
theorem no_ball_lost (env : Env) (s : Monitor) (mem : Memory) (events : List Event)
    (hok : StepsOk env (startWorld s mem) events) : NoBallLost env (startWorld s mem) events := by
  intro i hi hend
  rw [worldAt_succ env _ hi]
  exact ((Inv.start s mem).worldAt hok (Nat.le_of_lt hi)).endsBattle hend

/-! ## How a ball is lost -/

theorem removePokeballs_fst (host : Host) (mem : Memory) (s : Monitor) :
    (removePokeballs host mem s).1 = (shouldRemove host mem (s.prepare mem)).1 := by
  unfold removePokeballs
  dsimp only
  split_ifs with h
  · exact h.symm
  · exact (Bool.eq_false_of_not_eq_true h).symm

/-- A Mewtwo is one of the Pokémon for which the balls are taken. -/
theorem removePokeballs_mewtwoBattle (host : Host) (slots : List ItemEntry) {s : Monitor}
    (hdep : s.depMap = false) :
    (removePokeballs host (mewtwoBattle slots) (atStart (mewtwoBattle slots) s)).1 = true := by
  obtain ⟨pending, hcheck⟩ := checkDeadPokemon_eq (mewtwoBattle slots) s
  have hwild : Wild (mewtwoBattle slots)
      (deciding (mewtwoBattle slots) { s with pendingDelete := pending }) :=
    ⟨hdep, isBattleTrainer_guestMemory mewtwo slots,
      anyShiny_deciding _ fun i => (slotData_mewtwoBattle slots i).2⟩
  rw [removePokeballs_fst, atStart, hcheck]
  refine shouldRemove_of_protected host _ hwild ?_
  rcases protected_deciding host { s with pendingDelete := pending } (protected_mewtwoBattle slots)
    with h | h
  · exact Or.inl h
  · exact Or.inr (Or.inl h)

/-- Taking the balls out is not seen as the end of the battle. -/
theorem isBattle_takeOut (mem : Memory) (removed : RemovedPokeBalls) :
    isBattle (takeOut mem removed).1 = isBattle mem := by
  have hwild : Set.EqOn (takeOut mem removed).1 mem (Set.Ico wildOras (wildOras + pkmBoxSize)) := by
    refine eqOn_writeBlock fun a ha => Or.inl ?_
    have h₁ : a < 0x81FFA6C + 232 := ha.2
    exact h₁.trans (by decide)
  rw [isBattle, isBattle, readBlock_congr hwild]

theorem balls_takeOut (mem : Memory) (removed : RemovedPokeBalls) :
    balls (readPocket (takeOut mem removed).1) = [] := by
  rw [balls, List.filter_eq_nil_iff]
  intro e he
  rw [no_ball_takeOut mem removed e he]
  exact Bool.false_ne_true

/-- From a pocket without balls nothing is moved to the table. -/
theorem takeOut_table_of_no_ball {mem : Memory} (h : balls (readPocket mem) = [])
    (removed : RemovedPokeBalls) : (takeOut mem removed).2.2 = removed := by
  have hnone : ∀ k, ∀ e ∈ readPocket mem, ballIndex e.id ≠ some k := by
    intro k e he hk
    have hmem := mem_balls_of_ballIndex he hk
    rw [h] at hmem
    exact List.not_mem_nil hmem
  rw [takeOut_table]
  funext k
  exact takeBalls_snd_of_ne (readPocket mem) removed (hnone k)

section

variable {env : Env} {w : World} {host : Host}

theorem step_look_taken (hwas : w.monitor.wasInBattle = false) (hnow : isBattle w.mem = true)
    (hrem : (removePokeballs host w.mem (atStart w.mem w.monitor)).1 = true) :
    (step env w (.look host true)).mem = (takeOut w.mem w.monitor.removedPokeBalls).1 ∧
    (step env w (.look host true)).out = w.out ++ balls (readPocket w.mem) := by
  have hend : ¬ SeesEnd w.monitor w.mem true := fun he => by simp [SeesEnd, hwas] at he
  have htable : (atStart w.mem w.monitor).removedPokeBalls = w.monitor.removedPokeBalls :=
    removedPokeBalls_checkDeadPokemon w.mem w.monitor
  have htaken : takenByLook host true w.mem w.monitor = balls (readPocket w.mem) :=
    if_pos ⟨⟨rfl, hwas, hnow⟩, hrem⟩
  unfold step
  dsimp only
  rw [look_start env host hwas hnow, if_neg hend, htaken]
  rcases removePokeballs_cases host w.mem (atStart w.mem w.monitor) with ⟨-, hmem, -⟩ | ⟨hb, -, -⟩
  · rw [htable] at hmem
    exact ⟨hmem, rfl⟩
  · rw [hrem] at hb
    exact absurd hb (by decide)

/-- The start of a battle with no ball in the pocket. -/
theorem step_look_no_ball (hwas : w.monitor.wasInBattle = false) (hnow : isBattle w.mem = true)
    (hnone : balls (readPocket w.mem) = []) :
    (step env w (.look host true)).monitor.wasInBattle = true ∧
    (step env w (.look host true)).monitor.removedPokeBalls = w.monitor.removedPokeBalls ∧
    (step env w (.look host true)).out = w.out ∧
    balls (readPocket (step env w (.look host true)).mem) = [] := by
  have hend : ¬ SeesEnd w.monitor w.mem true := fun he => by simp [SeesEnd, hwas] at he
  have htable : (atStart w.mem w.monitor).removedPokeBalls = w.monitor.removedPokeBalls :=
    removedPokeBalls_checkDeadPokemon w.mem w.monitor
  have htaken : takenByLook host true w.mem w.monitor = [] := by
    rw [takenByLook, hnone, ite_self]
  unfold step
  dsimp only
  rw [look_start env host hwas hnow, if_neg hend, htaken, List.append_nil]
  rcases removePokeballs_cases host w.mem (atStart w.mem w.monitor) with
    ⟨-, hmem, hrem⟩ | ⟨-, hmem, hrem⟩
  · refine ⟨rfl, hrem.trans ((takeOut_table_of_no_ball hnone _).trans htable), rfl, ?_⟩
    dsimp only
    rw [hmem, balls_takeOut]
  · refine ⟨rfl, hrem.trans htable, rfl, ?_⟩
    dsimp only
    rw [hmem, hnone]

end

/-- A state that is saved, and loaded by a new process. -/
theorem step_save_restart_load (env : Env) (w : World) (mem : Memory) :
    step env (step env (step env w .save) (.restart mem)) .load =
      ⟨w.monitor.restart, w.mem, w.out, some (w.mem, w.out)⟩ := rfl

/-- The new process takes the battle for one that starts, and finds no ball to take. -/
theorem step_look_reloaded (env : Env) (host : Host) (s : Monitor) {mem : Memory}
    (out : List ItemEntry) (saved : Option (Memory × List ItemEntry)) (hnow : isBattle mem = true)
    (hnone : balls (readPocket mem) = []) :
    let w := step env ⟨s.restart, mem, out, saved⟩ (.look host true)
    w.monitor.wasInBattle = true ∧ w.monitor.removedPokeBalls = (fun _ => ItemEntry.zero) ∧
      w.out = out ∧ balls (readPocket w.mem) = [] := by
  obtain ⟨h₁, h₂, h₃, h₄⟩ := @step_look_no_ball env ⟨s.restart, mem, out, saved⟩ host rfl hnow hnone
  exact ⟨h₁, h₂, h₃, h₄⟩

/-- A ball that is out, while the table is empty, is not in the pocket after the end. -/
theorem not_subperm_of_endsBattle {env : Env} {w : World} {e : Event} {b : ItemEntry}
    (hend : EndsBattle w e) (htable : w.monitor.removedPokeBalls = fun _ => ItemEntry.zero)
    (hb : b ∈ w.out) (hnot : b ∉ readPocket w.mem) :
    ¬ w.out.Subperm (readPocket (step env w e).mem) := by
  intro hsub
  have hmem := hsub.subset hb
  cases e with
  | look host exportDue =>
    obtain ⟨rfl, hwas, hnow⟩ := hend
    obtain ⟨-, -, hpocket⟩ := look_end env host hwas hnow
    rw [step_look_mem, hpocket, htable, held_zero, List.nil_append] at hmem
    exact hnot (List.mem_of_mem_take hmem)
  | game _ => exact hend
  | save => exact hend
  | restart _ => exact hend
  | load => exact hend

/-- Guest memory out of a battle, with nothing in the pocket. -/
def quietMemory : Memory := guestMemory (fun _ => 0) []

theorem isBattle_quietMemory : isBattle quietMemory = false := by
  rw [quietMemory, isBattle_guestMemory]
  decide +kernel

theorem readPocket_guestMemory (clear : Nat → UInt8) (slots : List ItemEntry) :
    readPocket (guestMemory clear slots) = parseSlots (slots.flatMap slotBytes) slotCount := by
  have hbyte : ∀ i < slotSize * slotCount,
      byteAt (readBlock (guestMemory clear slots) pocketStart (slotSize * slotCount)) i =
        byteAt (slots.flatMap slotBytes) i := by
    intro i hi
    have hlo : wildOras + maxWilds * pokemonSlotStride ≤ pocketStart := by decide
    rw [byteAt_readBlock _ _ hi, guestMemory, if_neg (by omega), if_pos (by omega),
      Nat.add_sub_cancel_left]
  refine List.map_congr_left fun i hi => ?_
  have hi' : i < 305 := List.mem_range.1 hi
  have hlt : ∀ j < 4, i * slotSize + j < slotSize * slotCount := by
    intro j hj
    show i * 4 + j < 4 * 305
    omega
  have h₀ : i * slotSize < slotSize * slotCount := hlt 0 (by decide)
  unfold parseSlot
  rw [readLE16_congr (hbyte _ h₀) (hbyte _ (hlt 1 (by decide))),
    readLE16_congr (hbyte _ (hlt 2 (by decide))) (hbyte _ (hlt 3 (by decide)))]

/-- A battle with a Mewtwo is saved in one process and finished in the next one. -/
def savedInBattle : List Event :=
  [.look quietHost true, .save, .restart quietMemory, .load, .look quietHost true,
    .game quietMemory, .look quietHost true]

theorem balls_guestMemory (clear : Nat → UInt8) {slots : List ItemEntry} (h : slots.length ≤ slotCount) :
    balls (readPocket (guestMemory clear slots)) = balls slots := by
  have hpad : ∀ n, balls (List.replicate n ItemEntry.zero) = [] := by
    intro n
    rw [balls, List.filter_replicate, if_neg (by decide)]
  rw [readPocket_guestMemory, parseSlots_flatMap slots h, balls, List.filter_append]
  exact (congrArg (balls slots ++ ·) (hpad _)).trans (List.append_nil _)

theorem balls_mewtwoBattle : balls (readPocket (mewtwoBattle [⟨4, 5⟩])) = [⟨4, 5⟩] := by
  rw [mewtwoBattle, balls_guestMemory _ (by decide)]
  decide

theorem balls_quietMemory : balls (readPocket quietMemory) = [] := by
  rw [quietMemory, balls_guestMemory _ (by decide)]
  decide

/-- The world before the first look of `savedInBattle`. -/
def mewtwoWorld : World := startWorld startedMonitor (mewtwoBattle [⟨4, 5⟩])

/-- The world after the first look of `savedInBattle`. -/
def mewtwoTaken : World := step quietEnv mewtwoWorld (.look quietHost true)

theorem mewtwoTaken_spec :
    isBattle mewtwoTaken.mem = true ∧ balls (readPocket mewtwoTaken.mem) = [] ∧
      mewtwoTaken.out = [⟨4, 5⟩] := by
  have hm : mewtwoWorld.mem = mewtwoBattle [⟨4, 5⟩] := rfl
  have ho : mewtwoWorld.out = [] := rfl
  obtain ⟨hmem, hout⟩ : mewtwoTaken.mem = _ ∧ mewtwoTaken.out = _ := step_look_taken rfl
    (isBattle_mewtwoBattle [⟨4, 5⟩]) (removePokeballs_mewtwoBattle quietHost [⟨4, 5⟩] rfl)
  rw [hmem, hout, ho, hm, List.nil_append]
  exact ⟨(isBattle_takeOut _ _).trans (isBattle_mewtwoBattle _), balls_takeOut _ _, balls_mewtwoBattle⟩

/-- When the state is loaded, its balls are neither in the pocket nor in the table. -/
theorem savedInBattle_loaded :
    worldAt quietEnv mewtwoWorld savedInBattle 4 =
      ⟨mewtwoTaken.monitor.restart, mewtwoTaken.mem, mewtwoTaken.out,
        some (mewtwoTaken.mem, mewtwoTaken.out)⟩ := by
  simp only [worldAt, savedInBattle, List.take_succ_cons, List.take_zero, List.foldl_cons,
    List.foldl_nil]
  rw [step_save_restart_load, ← mewtwoTaken]

theorem savedInBattle_seen :
    let w := worldAt quietEnv mewtwoWorld savedInBattle 5
    w.monitor.wasInBattle = true ∧ w.monitor.removedPokeBalls = (fun _ => ItemEntry.zero) ∧
      w.out = [⟨4, 5⟩] ∧ balls (readPocket w.mem) = [] := by
  obtain ⟨hnow, hnone, hout⟩ := mewtwoTaken_spec
  have hlen : savedInBattle.length = 7 := rfl
  have h₄ : savedInBattle[4] = .look quietHost true := rfl
  dsimp only
  rw [worldAt_succ _ _ (i := 4) (by rw [hlen]; decide), savedInBattle_loaded, h₄, ← hout]
  exact step_look_reloaded quietEnv quietHost _ _ _ hnow hnone

/-- The game keeps its hands off the balls, and still the five balls are lost: the process
that ends the battle never held them. -/
theorem ball_lost_to_savestate :
    GameKeepsBalls quietEnv mewtwoWorld savedInBattle ∧
      ¬ NoBallLost quietEnv mewtwoWorld savedInBattle := by
  obtain ⟨hwas, htable, hout, hnone⟩ := savedInBattle_seen
  have hlen : savedInBattle.length = 7 := rfl
  have hw : worldAt quietEnv mewtwoWorld savedInBattle 6 =
      { worldAt quietEnv mewtwoWorld savedInBattle 5 with mem := quietMemory } := by
    rw [worldAt_succ _ _ (i := 5) (by rw [hlen]; decide)]
    exact step_game _ _ _
  constructor
  · intro i hi mem hgame
    rw [hlen] at hi
    interval_cases i
    · cases hgame
    · cases hgame
    · cases hgame
    · cases hgame
    · cases hgame
    · cases hgame
      rw [balls_quietMemory, hnone]
    · cases hgame
  · intro hlost
    have hend : EndsBattle (worldAt quietEnv mewtwoWorld savedInBattle 6) savedInBattle[6] := by
      rw [hw]
      exact ⟨rfl, hwas, isBattle_quietMemory⟩
    have hsub := hlost 6 (by rw [hlen]; decide) hend
    rw [worldAt_succ _ _ (i := 6) (by rw [hlen]; decide)] at hsub
    refine not_subperm_of_endsBattle hend ?_ (b := ⟨4, 5⟩) ?_ ?_ hsub
    · rw [hw]
      exact htable
    · rw [hw]
      exact hout.symm ▸ List.mem_singleton.2 rfl
    · rw [hw]
      intro hmem
      have hball : (⟨4, 5⟩ : ItemEntry) ∈ balls (readPocket quietMemory) :=
        List.mem_filter.2 ⟨hmem, by decide⟩
      rw [balls_quietMemory] at hball
      exact List.not_mem_nil hball

/-- A state may be loaded right after it was saved. -/
theorem stepOk_load_saved {w : World} (h : Inv w) :
    StepOk { w with saved := some (w.mem, w.out) } .load := by
  intro mem out hsaved e he
  cases hsaved
  exact h.held e he

/-- The same battle, saved and loaded in one process. -/
def loadedInBattle : List Event :=
  [.look quietHost true, .save, .load, .game quietMemory, .look quietHost true]

theorem ballsDistinct_mewtwoBattle : BallsDistinct (readPocket (mewtwoBattle [⟨4, 5⟩])) := by
  refine ⟨?_, ?_⟩
  · rw [balls_mewtwoBattle]
    exact List.pairwise_singleton _ _
  · rw [balls_mewtwoBattle]
    decide

theorem ballsDistinct_quietMemory : BallsDistinct (readPocket quietMemory) := by
  refine ⟨?_, ?_⟩
  · rw [balls_quietMemory]
    exact List.Pairwise.nil
  · rw [balls_quietMemory]
    exact fun _ h => absurd h List.not_mem_nil

/-- There the balls come back. -/
theorem no_ball_lost_loadedInBattle : NoBallLost quietEnv mewtwoWorld loadedInBattle := by
  refine no_ball_lost quietEnv startedMonitor (mewtwoBattle [⟨4, 5⟩]) loadedInBattle ?_
  have hinv : Inv mewtwoTaken :=
    (Inv.start startedMonitor (mewtwoBattle [⟨4, 5⟩])).step fun _ => ballsDistinct_mewtwoBattle
  have hlen : loadedInBattle.length = 5 := rfl
  intro i hi
  rw [hlen] at hi
  interval_cases i
  · exact fun _ => ballsDistinct_mewtwoBattle
  · exact trivial
  · have hw : worldAt quietEnv mewtwoWorld loadedInBattle 2 =
        { mewtwoTaken with saved := some (mewtwoTaken.mem, mewtwoTaken.out) } := by
      simp only [worldAt, loadedInBattle, List.take_succ_cons, List.take_zero, List.foldl_cons,
        List.foldl_nil, step_save]
      rw [← mewtwoTaken]
    have hok : StepOk (worldAt quietEnv mewtwoWorld loadedInBattle 2) .load := by
      rw [hw]
      exact stepOk_load_saved hinv
    exact hok
  · exact trivial
  · exact fun _ => ballsDistinct_quietMemory

end AzaharPlus.Poke
