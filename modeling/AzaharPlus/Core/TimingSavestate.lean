import AzaharPlus.Core.FiringOrder
import AzaharPlus.Lib.DoubleRounding
import Mathlib.Data.UInt

/-!
# Timing across a savestate

`Timer::serialize` of `core/core_timing.h` writes the event queue, the number of the next event
and four counters.  It leaves out the flag `is_timer_sane` and the scale of the clock speed, and
a timer that is loaded is a new one, so both come back with their initial values.

* `scaleTicks_ne`: no other percentage scales ticks like 100;
* `reload_timer_eq`: what a timer has to be like to come back as it was;
* `waiting_of_keepsTime`: an event of the `ts_queue` comes back with another number;
* `savestate_keeps_time`: a savestate changes nothing that is seen later only if the clock runs at
  100 percent, no timer was advanced yet and no event waits.
-/

namespace AzaharPlus.Core

open DoubleRounding

/-! ## The scale of the clock speed -/

/-- `static_cast<u64>(ticks * cpu_clock_scale)` for `cpu_clock_scale = 100.0 / percentage`. -/
def scaleTicks (percentage : ℕ+) (ticks : UInt64) : UInt64 :=
  UInt64.ofNat ⌊roundDouble (roundDouble ticks.toNat * roundDouble (100 / (percentage : ℕ)))⌋.toNat

theorem roundDouble_one : roundDouble 1 = 1 := by
  have h := roundDouble_natCast (n := 1) (by norm_num)
  rwa [Nat.cast_one] at h

/-- At 100 percent, ticks a double can hold are not scaled. -/
theorem scaleTicks_hundred {ticks : UInt64} (h : ticks.toNat < 2 ^ 53) : scaleTicks 100 ticks = ticks := by
  have hscale : ((100 : ℚ) / ((100 : ℕ+) : ℕ)) = 1 := by norm_num
  rw [scaleTicks, hscale, roundDouble_one, mul_one, roundDouble_natCast h, roundDouble_natCast h,
    Int.floor_natCast, Int.toNat_natCast, UInt64.ofNat_toNat]

/-- What `2 ^ 40` ticks are scaled to, before the conversion to an integer, is off by less than a
thousandth. -/
theorem abs_scaled_sub_le {x : ℚ} (hx : 0 < x) :
    |roundDouble (2 ^ 40 * roundDouble x) - 2 ^ 40 * x| ≤ 2 ^ 40 * x / 1000 := by
  have h₁ := abs_roundDouble_sub_le hx
  rw [abs_le] at h₁
  have hpos : 0 < roundDouble x := by
    have : x / 2 ^ 53 < x := by
      rw [div_lt_iff₀ (by norm_num)]
      linarith
    linarith
  have h₂ := abs_roundDouble_sub_le (q := 2 ^ 40 * roundDouble x) (by positivity)
  rw [abs_le] at h₂ ⊢
  constructor <;> linarith

/-- No other percentage scales ticks like 100. -/
theorem scaleTicks_ne {p : ℕ+} (h : p ≠ 100) : scaleTicks p (2 ^ 40) ≠ 2 ^ 40 := by
  intro heq
  have hp : (0 : ℚ) < (p : ℕ) := by exact_mod_cast p.pos
  have hx : (0 : ℚ) < 100 / (p : ℕ) := by positivity
  have hle := abs_scaled_sub_le hx
  have hnat : (2 ^ 40 : UInt64).toNat = 2 ^ 40 := by decide
  have h40 : roundDouble (2 ^ 40 : UInt64).toNat = 2 ^ 40 := by
    rw [hnat, roundDouble_natCast (by norm_num)]
    norm_num
  rw [scaleTicks, h40] at heq
  set y := roundDouble (2 ^ 40 * roundDouble (100 / (p : ℕ))) with hy
  rw [abs_le] at hle
  have hx100 : (100 : ℚ) / (p : ℕ) ≤ 100 := by
    rw [div_le_iff₀ hp]
    have : (1 : ℚ) ≤ (p : ℕ) := by exact_mod_cast p.pos
    linarith
  -- the scaled ticks fit in 64 bits, so they are `2 ^ 40` up to the fraction
  have hfloor : ⌊y⌋ = 2 ^ 40 := by
    have h0 : 0 ≤ ⌊y⌋ := Int.floor_nonneg.2 (by linarith)
    have hlt : ⌊y⌋ < 2 ^ 64 := by
      rw [Int.floor_lt]
      push_cast
      linarith
    have htoNat := congrArg UInt64.toNat heq
    rw [UInt64.toNat_ofNat', Nat.mod_eq_of_lt (by omega), hnat] at htoNat
    omega
  have hlo : (2 : ℚ) ^ 40 ≤ y := by
    have := Int.floor_le y
    rw [hfloor] at this
    exact_mod_cast this
  have hhi : y < 2 ^ 40 + 1 := by
    have := Int.lt_floor_add_one y
    rw [hfloor] at this
    exact_mod_cast this
  rcases Nat.lt_or_gt_of_ne (fun hn => h (PNat.coe_inj.1 hn) : (p : ℕ) ≠ (100 : ℕ+)) with hlt | hgt
  · have hp99 : ((p : ℕ) : ℚ) ≤ 99 := by exact_mod_cast Nat.le_of_lt_succ hlt
    have hge : (100 : ℚ) / 99 ≤ 100 / (p : ℕ) := by gcongr
    linarith
  · have hp101 : (101 : ℚ) ≤ (p : ℕ) := by exact_mod_cast hgt
    have hge : (100 : ℚ) / (p : ℕ) ≤ 100 / 101 := by gcongr
    linarith

/-- A timing together with the percentage its clock runs at. -/
structure Clocked (n : Nat) where
  timing : Timing n
  cpuClockPercentage : ℕ+

/-! ## Saving and loading -/

/-- A timer that is saved and loaded: the waiting events are moved first, and what is not in the
archive is as in a new timer. -/
def Timer.reload (t : Timer) : Timer :=
  { Timer.init 0 with
    eventQueue := t.moveEvents.eventQueue
    eventFifoId := t.moveEvents.eventFifoId
    sliceLength := t.moveEvents.sliceLength
    downcount := t.moveEvents.downcount
    executedTicks := t.moveEvents.executedTicks
    idledCycles := t.moveEvents.idledCycles }

namespace Clocked

variable {n : Nat}

/-- `Timing::serialize`, both ways, and the `UnlockEventQueue` at the end of loading.  The scale of
a new timer is `1.0`. -/
def reload (c : Clocked n) : Clocked n where
  timing :=
    { c.timing with
      timers := fun i => (c.timing.timers i).reload
      eventQueueLocked := false }
  cpuClockPercentage := 100

/-! ## Runs -/

/-- One call, with the ticks of `AddTicks` scaled. -/
def step (c : Clocked n) : Op n → Clocked n
  | .addTicks coreId ticks =>
      { c with timing := c.timing.step (.addTicks coreId (scaleTicks c.cpuClockPercentage ticks)) }
  | op => { c with timing := c.timing.step op }

/-- A new timing. -/
def init (n : Nat) [NeZero n] (percentage : ℕ+) (baseTicks : Int) : Clocked n :=
  ⟨Timing.init n baseTicks, percentage⟩

/-- A sequence of calls on a new timing. -/
def run [NeZero n] (percentage : ℕ+) (baseTicks : Int) (ops : List (Op n)) : Clocked n :=
  ops.foldl step (init n percentage baseTicks)

/-- A call from outside, or a question. -/
inductive Call (n : Nat)
  | op (op : Op n)
  | getTicks (coreId : Fin n)
  | getDowncount (coreId : Fin n)

/-- The timing after a sequence of calls. -/
def after (c : Clocked n) : List (Call n) → Clocked n
  | [] => c
  | .op op :: calls => (c.step op).after calls
  | .getTicks _ :: calls => c.after calls
  | .getDowncount _ :: calls => c.after calls

/-- The answers to the questions in a sequence of calls. -/
def answers (c : Clocked n) : List (Call n) → List Int
  | [] => []
  | .op op :: calls => (c.step op).answers calls
  | .getTicks coreId :: calls => (c.timing.timers coreId).getTicks :: c.answers calls
  | .getDowncount coreId :: calls => (c.timing.timers coreId).downcount :: c.answers calls

/-- What is seen of a firing: the timer, the event, the tick it fired at and how late it was. -/
def seen (f : Firing n) : Fin n × Request × Int × Int :=
  (f.timer, f.event.request, f.executedTicks, f.lateness)

/-- Saving and loading changes no answer and no firing of any run that follows. -/
def KeepsTime (c : Clocked n) : Prop :=
  ∀ calls : List (Call n), c.reload.answers calls = c.answers calls ∧
    (c.reload.after calls).timing.history.firings.map seen =
      (c.after calls).timing.history.firings.map seen

end Clocked

/-! ## What comes back -/

/-- The counters of a timer come back. -/
theorem reload_counters (t : Timer) : t.reload.sliceLength = t.sliceLength ∧
    t.reload.downcount = t.downcount ∧ t.reload.executedTicks = t.executedTicks := by
  obtain ⟨-, -, hs, hd, hx⟩ := Timer.foldl_emplace t t.tsQueue
  exact ⟨hs, hd, hx⟩

/-- A timer that was not advanced and has no waiting events comes back as it was. -/
theorem reload_timer_eq {t : Timer} (hs : t.isTimerSane = true) (hw : t.tsQueue = []) :
    t.reload = t := by
  have hm : t.moveEvents = t := by
    rw [Timer.moveEvents, hw, List.foldl_nil, ← hw]
  rw [Timer.reload, hm, Timer.init, ← hs, ← hw]

theorem toS64_emod (x : Int) : toS64 x % 2 ^ 64 = x % 2 ^ 64 := Int.bmod_emod ..

namespace Timing

variable {n : Nat}

/-! ## What every run keeps -/

/-- Nothing locks the queues, and an `s64` can hold the times of all requests. -/
structure Fits (s : Timing n) : Prop where
  unlocked : s.eventQueueLocked = false
  times : ∀ f ∈ s.history.fates, toS64 f.request.time = f.request.time

theorem Fits.schedule {s : Timing n} (h : s.Fits) (i : Fin n) (time : Int) (userData : UInt64)
    (type : EventType) (waiting : Bool) :
    ∀ f ∈ (s.history.schedule i ⟨toS64 time, userData, type⟩ waiting).fates,
      toS64 f.request.time = f.request.time := by
  intro f hf
  rcases List.mem_append.1 hf with hf | hf
  · exact h.times f hf
  · obtain rfl := List.mem_singleton.1 hf
    exact Int.bmod_bmod

theorem Fits.cancelEvents {s : Timing n} (h : s.Fits) (p : Request → Bool) :
    (s.cancelEvents p).Fits := by
  unfold Timing.cancelEvents
  split
  · exact h
  · refine ⟨h.unlocked, fun f hf => ?_⟩
    obtain ⟨f₀, hf₀, rfl⟩ := List.mem_map.1 hf
    rw [Ledger.cancel_request]
    exact h.times f₀ hf₀

theorem Fits.act {s : Timing n} (h : s.Fits) (a : Action n) : (s.act a).Fits := by
  cases a with
  | schedule cycles type userData coreId threadSafe =>
    rw [Timing.act, scheduleEvent]
    dsimp only
    split_ifs
    · exact h
    all_goals exact ⟨h.unlocked, fun f => h.schedule _ _ _ _ _ f⟩
  | unschedule type userData => exact h.cancelEvents fun r => r.type = type ∧ r.userData = userData
  | remove type => exact h.cancelEvents fun r => r.type = type

theorem Fits.fireDue (i : Fin n) (fuel : Nat) {callbacks : List (List (Action n))} {s : Timing n}
    (h : s.Fits) : (Timing.fireDue i fuel callbacks s).Fits := by
  induction fuel generalizing callbacks s with
  | zero => exact h
  | succ fuel ih =>
    rw [Timing.fireDue]
    split
    · exact h
    · split
      · refine ih (List.foldlRecOn _ Timing.act ?_ fun _ h a _ => Fits.act h a)
        exact ⟨h.unlocked, h.times⟩
      · exact h

theorem Fits.step {s : Timing n} (h : s.Fits) (op : Op n) : (s.step op).Fits := by
  cases op with
  | act a => exact h.act a
  | advance i callbacks =>
    have hbegin : (s.beginAdvance i).Fits := by
      refine ⟨h.unlocked, fun f hf => ?_⟩
      obtain ⟨f₀, hf₀, rfl⟩ := List.mem_map.1 hf
      have hreq : (f₀.move i).request = f₀.request := by
        unfold Fate.move
        split <;> rfl
      rw [hreq]
      exact h.times f₀ hf₀
    exact ⟨(hbegin.fireDue i _).unlocked, (hbegin.fireDue i _).times⟩
  | _ => exact ⟨h.unlocked, h.times⟩

/-- An event for the current timer goes into its heap, and nothing fires. -/
theorem schedule_current {s : Timing n} (hlock : s.eventQueueLocked = false) {i : Fin n}
    (hsane : (s.timers i).isTimerSane = true) {time : Int} (htime : toS64 time = time)
    (type : EventType) :
    let s' := (s.setCurrentTimer i).scheduleEvent (time - (s.timers i).executedTicks) type 0 none false
    s'.timers i = (s.timers i).emplace (s.nextEvent time 0 type) ∧
      s'.history.firings = s.history.firings := by
  have hticks : (s.timers i).getTicks + (time - (s.timers i).executedTicks) = time := by
    rw [Timer.getTicks, if_pos hsane]
    omega
  simp [scheduleEvent, setCurrentTimer, hlock, hticks, htime, emplaceEvent, hsane, setTimer, nextEvent,
    History.schedule]

end Timing

namespace Clocked

variable {n : Nat}

theorem step_timing (c : Clocked n) (op : Op n) :
    (c.step op).cpuClockPercentage = c.cpuClockPercentage ∧
      ∃ op', (c.step op).timing = c.timing.step op' := by
  cases hop : op with
  | addTicks i ticks => exact ⟨rfl, .addTicks i _, rfl⟩
  | _ => exact ⟨rfl, op, by rw [hop]; rfl⟩

theorem run_ok [NeZero n] (percentage : ℕ+) (baseTicks : Int) (ops : List (Op n)) :
    (run percentage baseTicks ops).cpuClockPercentage = percentage ∧
      (run percentage baseTicks ops).timing.Ok ∧ (run percentage baseTicks ops).timing.Fits := by
  induction ops using List.reverseRecOn with
  | nil => exact ⟨rfl, Timing.ok_init baseTicks, rfl, fun f hf => absurd hf List.not_mem_nil⟩
  | append_singleton ops op ih =>
    rw [run, List.foldl_append, List.foldl_cons, List.foldl_nil, ← run]
    obtain ⟨hpercentage, op', hop⟩ := step_timing (run percentage baseTicks ops) op
    rw [hop]
    exact ⟨hpercentage.trans ih.1, ih.2.1.step op', ih.2.2.step op'⟩

/-! ## What is seen of a savestate -/

/-- A clock that does not run at 100 percent loses its speed, and the first ticks show it. -/
theorem percentage_of_keepsTime [NeZero n] {c : Clocked n} (h : c.KeepsTime) :
    c.cpuClockPercentage = 100 := by
  by_contra hp
  have hans := (h [.op (.addTicks 0 (2 ^ 40)), .getDowncount 0]).1
  simp only [answers, step, reload, Timing.step, Timing.setTimer_self, Timer.addTicks,
    List.cons.injEq, and_true, (reload_counters _).2.1] at hans
  rw [scaleTicks_hundred (by decide)] at hans
  have hmod := congrArg (· % (2 : Int) ^ 64) hans
  simp only [toS64_emod] at hmod
  have hlt := (scaleTicks c.cpuClockPercentage (2 ^ 40)).toNat_lt
  have hlt' := (2 ^ 40 : UInt64).toNat_lt
  have heq : (2 ^ 40 : UInt64).toNat = (scaleTicks c.cpuClockPercentage (2 ^ 40)).toNat := by omega
  exact scaleTicks_ne hp (UInt64.toNat_inj.1 heq).symm

/-- A timer that was advanced counts the ticks of its slice; loaded, it no longer does. -/
theorem sane_of_keepsTime [NeZero n] {c : Clocked n} (h : c.KeepsTime) (i : Fin n) :
    (c.timing.timers i).isTimerSane = true := by
  have hp := percentage_of_keepsTime h
  by_contra hs
  -- the slice would have to be untouched, now and after one more tick
  have h₀ := (h [.getTicks i]).1
  have h₁ := (h [.op (.addTicks i 1), .getTicks i]).1
  have hsane : (c.timing.timers i).reload.isTimerSane = true := rfl
  simp only [answers, step, reload, Timing.step, Timing.setTimer_self, Timer.addTicks, Timer.getTicks,
    hsane, if_true, if_neg hs, List.cons.injEq, and_true, (reload_counters _).2.2] at h₀ h₁
  rw [hp, scaleTicks_hundred (by decide)] at h₁
  have hmod := toS64_emod ((c.timing.timers i).downcount - (1 : UInt64).toNat)
  have hone : (1 : UInt64).toNat = 1 := by decide
  omega

/-! ## An event of the same time -/

/-- The requests of the events that fired. -/
def requests (c : Clocked n) : List Request := c.timing.history.firings.map (·.event.request)

theorem KeepsTime.requests_eq {c : Clocked n} (h : c.KeepsTime) (calls : List (Call n)) :
    (c.reload.after calls).requests = (c.after calls).requests := by
  have hseen := congrArg (List.map fun o => o.2.1) (h calls).2
  rwa [List.map_map, List.map_map] at hseen

/-- The calls that advance a timer after every tick. -/
def drain (i : Fin n) : Nat → List (Call n)
  | 0 => []
  | r + 1 => .op (.addTicks i 1) :: .op (.advance i []) :: drain i r

theorem after_drain {c : Clocked n} (hp : c.cpuClockPercentage = 100) {i : Fin n} {now : Int}
    (h : Timing.Drained i c.timing now) (r : Nat) :
    ∃ l, Timing.Fires i c.timing (c.after (drain i r)).timing l ∧
      ∀ e ∈ ((c.after (drain i r)).timing.timers i).eventQueue, now + r < e.time := by
  induction r generalizing c now with
  | zero => exact ⟨[], .of_eq rfl rfl, by simpa [drain, after] using h.later⟩
  | succ r ih =>
    obtain ⟨l, hfires, hdrained⟩ := h.next
    have hstep : ((c.step (.addTicks i 1)).step (.advance i [])).timing =
        (c.timing.step (.addTicks i 1)).step (.advance i []) := by
      simp only [step, hp, scaleTicks_hundred (show (1 : UInt64).toNat < 2 ^ 53 by decide)]
    rw [← hstep] at hfires hdrained
    obtain ⟨l', hfires', hlater⟩ := @ih ((c.step (.addTicks i 1)).step (.advance i [])) hp _ hdrained
    refine ⟨l ++ l', hfires.trans hfires', fun e he => ?_⟩
    have := hlater e he
    omega

/-- The calls that schedule an event on a timer, and advance it until that event has fired. -/
def probe (i : Fin n) (cycles : Int) (type : EventType) (r : Nat) : List (Call n) :=
  .op (.setCurrentTimer i) :: .op (.act (.schedule cycles type 0 none false)) ::
    .op (.advance i []) :: drain i r

/-- How many events of its time fire behind an event. -/
theorem countP_behind {l₁ l₂ later M : List Event} {x : Event} (hperm : (l₁ ++ l₂ ++ later).Perm M)
    (hbefore : ∀ e ∈ l₁, e.key ≤ x.key) (hbehind : ∀ e ∈ l₂, x.key ≤ e.key)
    (hlater : ∀ e ∈ later, x.time < e.time) :
    M.countP (fun e => e.time = x.time ∧ x.fifoOrder < e.fifoOrder) ≤ l₂.countP (·.time = x.time) ∧
      l₂.countP (·.time = x.time) ≤ M.countP (fun e => e.time = x.time ∧ x.fifoOrder ≤ e.fifoOrder) := by
  have hfifo : ∀ e e' : Event, e.key ≤ e'.key → e.time = e'.time → e.fifoOrder ≤ e'.fifoOrder := by
    intro e e' hle heq
    rcases Prod.Lex.le_iff.1 hle with hlt | ⟨-, hle⟩
    · exact absurd heq (ne_of_lt hlt)
    · exact hle
  rw [← hperm.countP_eq, ← hperm.countP_eq]
  simp only [List.countP_append]
  constructor
  · have h₁ : l₁.countP (fun e => e.time = x.time ∧ x.fifoOrder < e.fifoOrder) = 0 := by
      refine List.countP_eq_zero.2 fun e he => ?_
      simp only [decide_eq_true_eq, not_and, not_lt]
      exact hfifo e x (hbefore e he)
    have h₂ : later.countP (fun e => e.time = x.time ∧ x.fifoOrder < e.fifoOrder) = 0 := by
      refine List.countP_eq_zero.2 fun e he => ?_
      simp only [decide_eq_true_eq, not_and]
      exact fun heq => absurd heq (ne_of_gt (hlater e he))
    rw [h₁, h₂, Nat.zero_add, Nat.add_zero]
    exact List.countP_mono_left fun e _ he => by simp_all
  · have h₃ : l₂.countP (·.time = x.time) ≤
        l₂.countP (fun e => e.time = x.time ∧ x.fifoOrder ≤ e.fifoOrder) := by
      refine List.countP_mono_left fun e he heq => ?_
      simp only [decide_eq_true_eq] at heq ⊢
      exact ⟨heq, hfifo x e (hbehind e he) heq.symm⟩
    omega

/-- The requests that fire before the new one and behind it are those of the timer, the waiting ones
among them. -/
theorem after_probe {c : Clocked n} (hp : c.cpuClockPercentage = 100)
    (hlock : c.timing.eventQueueLocked = false) {i : Fin n} {t : Timer} (ht : c.timing.timers i = t)
    (hsane : t.isTimerSane = true) (hheap : t.HeapOk) {M : List Event}
    (hM : (t.eventQueue ++ Timer.numbered ((t.eventFifoId + 1) % 2 ^ 64) t.tsQueue).Perm M) {time : Int}
    (htime : toS64 time = time) (type : EventType) {r : Nat}
    (hr : time ≤ t.executedTicks + (t.sliceLength - t.downcount) + r) :
    ∃ k₁ k₂ : List Request,
      (c.after (probe i (time - t.executedTicks) type r)).requests =
        c.requests ++ (k₁ ++ ⟨time, 0, type⟩ :: k₂) ∧
      k₁ ++ k₂ ⊆ M.map Event.request ∧
      M.countP (fun e => e.time = time ∧ t.eventFifoId < e.fifoOrder) ≤ k₂.countP (·.time = time) ∧
      k₂.countP (·.time = time) ≤ M.countP (fun e => e.time = time ∧ t.eventFifoId ≤ e.fifoOrder) := by
  set s := (c.timing.setCurrentTimer i).scheduleEvent (time - t.executedTicks) type 0 none false with hs
  obtain ⟨htimer, hfirings⟩ := Timing.schedule_current hlock (ht ▸ hsane) htime type
  rw [ht, ← hs] at htimer
  rw [ht, ← hs] at hfirings
  set x : Event := { c.timing.nextEvent time 0 type with fifoOrder := t.eventFifoId } with hx
  obtain ⟨l, hfires, hdrained⟩ := @Timing.fires_advance n i s
    (by rw [htimer]; exact hheap.emplace _)
  obtain ⟨l', hfires', hlater⟩ := @after_drain n ⟨s.advance i [], c.cpuClockPercentage⟩ hp i _ hdrained r
  have hqueue : ((s.beginAdvance i).timers i).eventQueue.Perm (x :: M) := by
    have hbegin : ((s.beginAdvance i).timers i).eventQueue =
        (t.tsQueue.foldl Timer.emplace (s.timers i)).eventQueue := by
      show ((Timing.setTimer s i _).timers i).eventQueue = _
      rw [Timing.setTimer_self, htimer]
      rfl
    rw [hbegin, htimer]
    refine (Timer.foldl_emplace_perm _ _).trans (((t.emplace_perm _).append_right _).trans ?_)
    rw [List.append_assoc]
    exact List.perm_middle.trans (hM.cons x)
  rw [htimer] at hlater
  obtain ⟨l₁, l₂, hl, hperm, hbefore, hbehind⟩ := Timing.split_of_fires (hfires.trans hfires') hqueue
    fun e he => lt_of_le_of_lt hr (hlater e he)
  obtain ⟨hless, hmore⟩ := countP_behind hperm hbefore hbehind
    fun e he => lt_of_le_of_lt hr (hlater e he)
  have hcount : (l₂.map Event.request).countP (·.time = time) = l₂.countP (·.time = time) :=
    List.countP_map
  refine ⟨l₁.map Event.request, l₂.map Event.request, ?_, ?_, hcount ▸ hless, hcount ▸ hmore⟩
  · have hrequests := congrArg (List.map Event.request) (hfires.trans hfires').firings
    rw [hl, List.map_append, List.map_append, List.map_cons, List.map_map, List.map_map] at hrequests
    refine hrequests.trans (congrArg (· ++ _) ?_)
    rw [requests, ← hfirings]
    rfl
  · rw [← List.map_append]
    exact List.map_subset _ fun e he => hperm.subset (List.mem_append_left _ he)

/-- An event that waits has its number before a new one of the same time if it was saved and loaded, and
behind it otherwise. -/
theorem waiting_of_keepsTime [NeZero n] {c : Clocked n} (h : c.KeepsTime) (hok : c.timing.Ok)
    (hfit : c.timing.Fits) {i : Fin n} {t : Timer} (ht : c.timing.timers i = t)
    (hfew : t.eventFifoId + t.tsQueue.length < 2 ^ 64) : t.tsQueue = [] := by
  have hheap : t.HeapOk := ht ▸ hok.heap i
  by_contra hne
  obtain ⟨e, rest, hts⟩ := List.exists_cons_of_ne_nil hne
  have htime : toS64 e.time = e.time := by
    have hwaits : e.ticket ∈ (c.timing.timers i).waiting :=
      List.mem_map_of_mem (by rw [ht, hts]; exact List.mem_cons_self)
    obtain ⟨⟨f, hf, -, hreq, -⟩, -⟩ := hok.ledger.waiting i _ hwaits
    have := hfit.times f (List.mem_of_getElem? hf)
    rwa [hreq] at this
  obtain ⟨type, htype⟩ := Infinite.exists_notMem_finset
    ((t.eventQueue ++ t.tsQueue).map (·.type)).toFinset
  obtain ⟨r, hr⟩ : ∃ r : Nat, e.time ≤ t.executedTicks + (t.sliceLength - t.downcount) + r :=
    ⟨(e.time - (t.executedTicks + (t.sliceLength - t.downcount))).toNat, by omega⟩
  -- the numbers of the waiting events, with and without a savestate
  have hnumbers : (t.eventFifoId + 1) % 2 ^ 64 = t.eventFifoId + 1 := by
    rw [hts, List.length_cons] at hfew
    exact Nat.mod_eq_of_lt (by omega)
  have hqueue : (t.reload.eventQueue ++ Timer.numbered ((t.reload.eventFifoId + 1) % 2 ^ 64)
      t.reload.tsQueue).Perm (t.eventQueue ++ Timer.numbered t.eventFifoId t.tsQueue) := by
    show (_ ++ []).Perm _
    rw [List.append_nil]
    exact t.foldl_emplace_perm _
  have hid : t.reload.eventFifoId = t.eventFifoId + t.tsQueue.length :=
    t.foldl_emplace_eventFifoId hfew
  obtain ⟨hslice, hdown, hticks⟩ := reload_counters t
  obtain ⟨k₁, k₂, hfired, hold, hless, -⟩ := after_probe (percentage_of_keepsTime h)
    hfit.unlocked ht (ht ▸ sane_of_keepsTime h i) hheap (.refl _) htime type hr
  obtain ⟨k₁', k₂', hfired', -, -, hmore⟩ := @after_probe n c.reload rfl rfl i t.reload
    (congrArg Timer.reload ht) rfl ((t.foldl_emplace _).1 hheap) _ hqueue _ htime type r
    (by rw [hslice, hdown, hticks]; exact hr)
  -- the same requests fire behind the new one
  have hsame : k₂ = k₂' := by
    rw [hticks, h.requests_eq, hfired] at hfired'
    have hnew : ∀ k ⊆ k₁ ++ k₂, (⟨e.time, 0, type⟩ : Request) ∉ k := by
      intro k hk hin
      obtain ⟨e', he', hreq⟩ := List.mem_map.1 (hold (hk hin))
      obtain ⟨e₀, he₀, hreq₀⟩ : ∃ e₀ ∈ t.eventQueue ++ t.tsQueue, e'.request = e₀.request := by
        rcases List.mem_append.1 he' with he' | he'
        · exact ⟨e', List.mem_append_left _ he', rfl⟩
        · obtain ⟨-, e₀, he₀, hreq₀⟩ := Timer.mem_numbered
            (by rw [hnumbers]; omega) he'
          exact ⟨e₀, List.mem_append_right _ he₀, hreq₀⟩
      refine htype (List.mem_toFinset.2 (List.mem_map.2 ⟨e₀, he₀, ?_⟩))
      exact congrArg Request.type (hreq₀.symm.trans hreq)
    exact ((List.append_cons_inj_of_notMem (hnew _ (List.subset_append_left ..))
      (hnew _ (List.subset_append_right ..))).1 (List.append_cancel_left hfired')).2.2
  have hqueued : t.eventQueue.countP (fun e' => e'.time = e.time ∧ t.reload.eventFifoId ≤ e'.fifoOrder) ≤
      t.eventQueue.countP (fun e' => e'.time = e.time ∧ t.eventFifoId < e'.fifoOrder) := by
    refine List.countP_mono_left fun e' _ he' => ?_
    simp only [decide_eq_true_eq] at he' ⊢
    rw [hid, hts, List.length_cons] at he'
    exact ⟨he'.1, by omega⟩
  have hloaded : (Timer.numbered t.eventFifoId t.tsQueue).countP
      (fun e' => e'.time = e.time ∧ t.reload.eventFifoId ≤ e'.fifoOrder) = 0 := by
    refine List.countP_eq_zero.2 fun e' he' => ?_
    have := (Timer.mem_numbered hfew.le he').1
    simp only [decide_eq_true_eq, not_and]
    omega
  have hwaiting : 0 < (Timer.numbered ((t.eventFifoId + 1) % 2 ^ 64) t.tsQueue).countP
      (fun e' => e'.time = e.time ∧ t.eventFifoId < e'.fifoOrder) := by
    refine List.countP_pos_iff.2 ⟨{ e with fifoOrder := t.eventFifoId + 1 }, ?_, by simp⟩
    rw [hts, Timer.numbered, hnumbers]
    exact List.mem_cons_self
  rw [List.countP_append] at hless hmore
  rw [hsame] at hless
  omega

/-! ## Savestates in every run -/

/-- In every state reached by a run, saving and loading is seen later unless the clock runs at 100
percent, no timer was advanced yet and, as long as the numbers of its events do not wrap around, none
has an event in its `ts_queue`; then it is never seen. -/
theorem savestate_keeps_time [NeZero n] (percentage : ℕ+) (baseTicks : Int) (ops : List (Op n)) :
    ((run percentage baseTicks ops).KeepsTime → percentage = 100 ∧
      ∀ i, ((run percentage baseTicks ops).timing.timers i).isTimerSane = true ∧
        (((run percentage baseTicks ops).timing.timers i).eventFifoId +
            ((run percentage baseTicks ops).timing.timers i).tsQueue.length < 2 ^ 64 →
          ((run percentage baseTicks ops).timing.timers i).tsQueue = [])) ∧
    (percentage = 100 →
      (∀ i, ((run percentage baseTicks ops).timing.timers i).isTimerSane = true ∧
        ((run percentage baseTicks ops).timing.timers i).tsQueue = []) →
      (run percentage baseTicks ops).KeepsTime) := by
  obtain ⟨hpercentage, hok, hfit⟩ := run_ok percentage baseTicks ops
  set c := run percentage baseTicks ops with hc
  constructor
  · intro h
    rw [← hpercentage]
    exact ⟨percentage_of_keepsTime h, fun i =>
      ⟨sane_of_keepsTime h i, waiting_of_keepsTime h hok hfit rfl⟩⟩
  · intro hp h calls
    have htimers : (fun i => (c.timing.timers i).reload) = c.timing.timers := by
      funext i
      exact reload_timer_eq (h i).1 (h i).2
    have hreload : c.reload = c := by
      rw [reload, htimers, ← hfit.unlocked, ← hp, ← hpercentage]
    rw [hreload]
    exact ⟨rfl, rfl⟩

/-- An event scheduled on the first of two cores before anything ran. -/
theorem savestate_keeps_time_start :
    (run (n := 2) 100 0 [.act (.schedule 1000 1 0 none false)]).KeepsTime :=
  (savestate_keeps_time (n := 2) 100 0 [.act (.schedule 1000 1 0 none false)]).2 rfl (by decide)

/-- One core that was advanced once. -/
theorem savestate_loses_time :
    ¬ ∀ (percentage : ℕ+) (baseTicks : Int) (ops : List (Op 1)),
      (run percentage baseTicks ops).KeepsTime := by
  intro h
  have hs := sane_of_keepsTime (h 100 0 [.advance 0 []]) 0
  exact absurd hs (by decide)

end Clocked

end AzaharPlus.Core
