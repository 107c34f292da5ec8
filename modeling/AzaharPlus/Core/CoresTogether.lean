import AzaharPlus.Core.RunLoop

/-!
# Cores stay together

What each call to the timing does to the tick counts, and from that what the loops of
`RunLoop` do.  A timer is `Fresh` when it was advanced and has no event that is due: this is
what the assertion in `GetMaxSliceLength` needs, and it survives what other cores do, since
their events for this core wait in its `ts_queue`.

The main result is `cores_stay_together`.
-/

namespace AzaharPlus.Core

namespace Timing

variable {n : Nat}

/-- The tick counts of the timers. -/
def ticks (s : Timing n) (i : Fin n) : Int := (s.timers i).getTicks

/-- A timer that was not advanced yet has not used anything of its slice. -/
def Steady (s : Timing n) : Prop :=
  ∀ i, (s.timers i).isTimerSane = true → (s.timers i).sliceLength = (s.timers i).downcount

/-- A timer with nothing used of its slice and no event in its heap that is due. -/
structure Fresh (s : Timing n) (i : Fin n) : Prop where
  isTimerSane : (s.timers i).isTimerSane = false
  sliceLength : (s.timers i).sliceLength = (s.timers i).downcount
  notDue : ∀ e ∈ (s.timers i).eventQueue, (s.timers i).executedTicks < e.time

theorem Follows.ticks {s s' : Timing n} (h : Follows s s') : s'.ticks = s.ticks :=
  funext h.getTicks

theorem Follows.steady {s s' : Timing n} (h : Follows s s') (hs : s.Steady) : s'.Steady := by
  intro i hi
  rw [h.isTimerSane] at hi
  have := h.used i
  have := hs i hi
  omega

/-- What other timers do leaves a timer fresh. -/
theorem Follows.fresh {s s' : Timing n} (h : Follows s s') {i : Fin n} (hi : i ≠ s.currentTimer)
    (hf : s.Fresh i) : s'.Fresh i where
  isTimerSane := by rw [h.isTimerSane, hf.isTimerSane]
  sliceLength := by
    have := h.used i
    have := hf.sliceLength
    omega
  notDue := by
    intro e he
    rw [h.executedTicks]
    exact hf.notDue e ((h.queued i e he).resolve_right fun hc => hi hc.1)

/-! ## Unscheduling -/

/-- Between two states events were only taken away. -/
structure Pruned (s s' : Timing n) : Prop where
  follows : Follows s s'
  downcount : ∀ i, (s'.timers i).downcount = (s.timers i).downcount
  sublist : ∀ i, ∀ e ∈ (s'.timers i).eventQueue, e ∈ (s.timers i).eventQueue

theorem Pruned.refl (s : Timing n) : Pruned s s := ⟨.refl s, fun _ => rfl, fun _ _ he => he⟩

theorem Pruned.trans {s₁ s₂ s₃ : Timing n} (h₁ : Pruned s₁ s₂) (h₂ : Pruned s₂ s₃) :
    Pruned s₁ s₃ where
  follows := h₁.follows.trans h₂.follows
  downcount := fun i => (h₂.downcount i).trans (h₁.downcount i)
  sublist := fun i e he => h₁.sublist i e (h₂.sublist i e he)

theorem Pruned.fresh {s s' : Timing n} (h : Pruned s s') {i : Fin n} (hf : s.Fresh i) :
    s'.Fresh i where
  isTimerSane := by rw [h.follows.isTimerSane, hf.isTimerSane]
  sliceLength := by
    have := h.follows.used i
    have := hf.sliceLength
    omega
  notDue := by
    intro e he
    rw [h.follows.executedTicks]
    exact hf.notDue e (h.sublist i e he)

theorem pruned_unscheduleEvent (s : Timing n) (type : EventType) (userData : UInt64) :
    Pruned s (s.unscheduleEvent type userData) := by
  refine ⟨follows_cancelEvents s _, fun i => ?_, fun i e he => ?_⟩
  · unfold unscheduleEvent cancelEvents
    split
    · rfl
    · exact ((s.timers i).removeIf_frame _).2.2.2.2
  · unfold unscheduleEvent cancelEvents at he
    split at he
    · exact he
    · exact List.mem_of_mem_filter (((s.timers i).removeIf_perm _).mem_iff.1 he)

/-! ## Advancing -/

/-- A timer after `Advance` of another one. -/
theorem advance_timers_of_ne (s : Timing n) {i j : Fin n} (hj : j ≠ i)
    (callbacks : List (List (Action n))) : ∃ s₁ s₂, Follows s₁ s₂ ∧ s₁.timers j = s.timers j ∧
      (s.advance i callbacks).timers j = s₂.timers j ∧ s₁.currentTimer = s.currentTimer :=
  ⟨s.beginAdvance i, _, follows_fireDue i _ callbacks _, setTimer_of_ne s hj _,
    setTimer_of_ne _ hj _, rfl⟩

/-- `Advance` makes a timer fresh. -/
theorem fresh_advance {s : Timing n} (hs : s.Ok) (i : Fin n) (callbacks : List (List (Action n))) :
    (s.advance i callbacks).Fresh i := by
  obtain ⟨fuel, hself, -⟩ := advance_timers_self s i callbacks
  refine ⟨by rw [hself], ?_, advance_done hs i callbacks⟩
  have hused := (follows_fireDue i fuel callbacks (s.beginAdvance i)).used i
  have hbegin : ((s.beginAdvance i).timers i).sliceLength -
      ((s.beginAdvance i).timers i).downcount = 0 := by
    have : (s.beginAdvance i).timers i = (s.timers i).beginAdvance := setTimer_self s i _
    rw [this]
    rfl
  rw [hself]
  simp only
  omega

theorem ticks_advance {s : Timing n} (hs : s.Ok) (hst : s.Steady) (i : Fin n)
    (callbacks : List (List (Action n))) : (s.advance i callbacks).ticks = s.ticks := by
  funext j
  unfold ticks
  by_cases hj : j = i
  · subst hj
    have hfresh := fresh_advance hs j callbacks
    rw [Timer.getTicks, Timer.getTicks, hfresh.isTimerSane, hfresh.sliceLength,
      advance_executedTicks]
    cases hsane : (s.timers j).isTimerSane with
    | true =>
      have := hst j hsane
      simp only [Bool.false_eq_true, if_false, if_true]
      omega
    | false =>
      simp only [Bool.false_eq_true, if_false]
      omega
  · obtain ⟨s₁, s₂, hf, h₁, h₂, -⟩ := advance_timers_of_ne s hj callbacks
    rw [h₂, ← h₁]
    exact hf.getTicks j

theorem Steady.advance {s : Timing n} (hst : s.Steady) (hs : s.Ok) (i : Fin n)
    (callbacks : List (List (Action n))) : (s.advance i callbacks).Steady := by
  intro j hsane
  by_cases hj : j = i
  · subst hj
    exact (fresh_advance hs j callbacks).sliceLength
  · obtain ⟨s₁, s₂, hf, h₁, h₂, -⟩ := advance_timers_of_ne s hj callbacks
    have hused := hf.used j
    rw [h₂] at hsane ⊢
    rw [hf.isTimerSane, h₁] at hsane
    have := hst j hsane
    rw [h₁] at hused
    omega

/-- `Advance` of the current timer leaves the others as they are. -/
theorem Fresh.advance {s : Timing n} {i j : Fin n} (hf : s.Fresh j) (hj : j ≠ i)
    (hi : s.currentTimer = i) (callbacks : List (List (Action n))) :
    (s.advance i callbacks).Fresh j ∧
      ((s.advance i callbacks).timers j).downcount = (s.timers j).downcount := by
  obtain ⟨s₁, s₂, hfol, h₁, h₂, hcur⟩ := advance_timers_of_ne s hj callbacks
  have hne : j ≠ s₁.currentTimer := by rwa [hcur, hi]
  have hfresh : s₁.Fresh j :=
    ⟨by rw [h₁, hf.isTimerSane], by rw [h₁, hf.sliceLength], by rw [h₁]; exact hf.notDue⟩
  have hfresh' := hfol.fresh hne hfresh
  refine ⟨⟨by rw [h₂, hfresh'.isTimerSane], by rw [h₂, hfresh'.sliceLength],
    by rw [h₂]; exact hfresh'.notDue⟩, ?_⟩
  rw [h₂, hfol.downcount j hne, h₁]

/-! ## Slices -/

theorem toInt32_of_lt {x : Int} (h₀ : 0 ≤ x) (h : x < 2 ^ 31) : toInt32 x = x := by
  unfold toInt32
  rw [Int.bmod_eq_of_le] <;> omega

/-- The slice of a fresh timer is not longer than the one it was asked for. -/
theorem Fresh.setNextSlice {s : Timing n} {i : Fin n} (hf : s.Fresh i) {maxSlice : Int}
    (h₀ : 0 ≤ maxSlice) (h : maxSlice < 2 ^ 31) :
    0 ≤ ((s.timers i).setNextSlice maxSlice).downcount ∧
      ((s.timers i).setNextSlice maxSlice).downcount ≤ maxSlice := by
  unfold Timer.setNextSlice
  simp only
  split
  · exact ⟨h₀, le_rfl⟩
  · next e rest he =>
      have := hf.notDue e (by rw [he]; exact List.mem_cons_self)
      rw [toInt32_of_lt (by omega) (by omega)]
      omega

theorem fresh_setNextSlice {s : Timing n} {i j : Fin n} (hf : s.Fresh j) (maxSlice : Int) :
    (s.setTimer i ((s.timers i).setNextSlice maxSlice)).Fresh j := by
  by_cases hj : j = i
  · subst hj
    exact ⟨by rw [setTimer_self]; exact hf.isTimerSane, by rw [setTimer_self]; rfl,
      by rw [setTimer_self]; exact hf.notDue⟩
  · exact ⟨by rw [setTimer_of_ne s hj]; exact hf.isTimerSane,
      by rw [setTimer_of_ne s hj]; exact hf.sliceLength,
      by rw [setTimer_of_ne s hj]; exact hf.notDue⟩

theorem Fresh.ticks {s : Timing n} {i : Fin n} (hf : s.Fresh i) :
    s.ticks i = (s.timers i).executedTicks := by
  unfold Timing.ticks Timer.getTicks
  rw [hf.isTimerSane, hf.sliceLength]
  simp

theorem ticks_setNextSlice {s : Timing n} {i : Fin n} (hf : s.Fresh i) (maxSlice : Int) :
    (s.setTimer i ((s.timers i).setNextSlice maxSlice)).ticks = s.ticks := by
  funext j
  by_cases hj : j = i
  · subst hj
    rw [(fresh_setNextSlice hf maxSlice).ticks, hf.ticks, setTimer_self]
    rfl
  · unfold Timing.ticks
    rw [setTimer_of_ne s hj]

theorem Steady.setTimer {s : Timing n} (hst : s.Steady) {i : Fin n} {t : Timer}
    (ht : t.isTimerSane = false) : (s.setTimer i t).Steady := by
  intro j hsane
  by_cases hj : j = i
  · subst hj
    rw [setTimer_self] at hsane
    rw [ht] at hsane
    exact absurd hsane (by simp)
  · rw [setTimer_of_ne s hj] at hsane ⊢
    exact hst j hsane

/-- The assertion in `GetMaxSliceLength` holds for a fresh timer. -/
theorem Fresh.getMaxSliceLength {s : Timing n} {i : Fin n} (hf : s.Fresh i) :
    ∃ length, (s.timers i).getMaxSliceLength = some length ∧ 0 < length := by
  unfold Timer.getMaxSliceLength
  split
  · exact ⟨maxSliceLength, rfl, by decide⟩
  · next e rest he =>
      have := hf.notDue e (by rw [he]; exact List.mem_cons_self)
      exact ⟨e.time - (s.timers i).executedTicks, if_pos (by omega), by omega⟩

end Timing

namespace Machine

open Timing

variable {n : Nat}

/-- The queues are in order, no tick count is negative, and none has ever decreased. -/
structure Ok (m : Machine n) : Prop where
  timing : m.now.Ok
  steady : m.now.Steady
  nonneg : ∀ i, 0 ≤ m.now.ticks i
  mono : (m.past ++ [m.now]).Pairwise fun s s' => s.ticks ≤ s'.ticks

theorem Ok.exec {m : Machine n} (hm : m.Ok) {op : Op n} (hst : (m.now.step op).Steady)
    (hle : m.now.ticks ≤ (m.now.step op).ticks) : (m.exec op).Ok where
  timing := hm.timing.step op
  steady := hst
  nonneg := fun i => (hm.nonneg i).trans (hle i)
  mono := by
    show ((m.past ++ [m.now]) ++ [m.now.step op]).Pairwise _
    rw [List.pairwise_append]
    refine ⟨hm.mono, List.pairwise_singleton _ _, fun s hs s' hs' => ?_⟩
    rw [List.mem_singleton] at hs'
    rw [hs']
    rw [List.mem_append, List.mem_singleton] at hs
    rcases hs with hs | rfl
    · have := (List.pairwise_append.1 hm.mono).2.2 s hs m.now (List.mem_singleton_self _)
      exact this.trans hle
    · exact hle

theorem Ok.exec_follows {m : Machine n} (hm : m.Ok) {op : Op n}
    (hf : Follows m.now (m.now.step op)) : (m.exec op).Ok :=
  hm.exec (hf.steady hm.steady) hf.ticks.ge

theorem Ok.exec_act {m : Machine n} (hm : m.Ok) (a : Action n) : (m.exec (.act a)).Ok :=
  hm.exec_follows (follows_act m.now a)

theorem Ok.exec_setCurrentTimer {m : Machine n} (hm : m.Ok) (i : Fin n) :
    (m.exec (.setCurrentTimer i)).Ok := hm.exec hm.steady le_rfl

theorem Ok.exec_advance {m : Machine n} (hm : m.Ok) (i : Fin n)
    (callbacks : List (List (Action n))) : (m.exec (.advance i callbacks)).Ok :=
  hm.exec (hm.steady.advance hm.timing i callbacks)
    (ticks_advance hm.timing hm.steady i callbacks).ge

theorem Ok.exec_setNextSlice {m : Machine n} (hm : m.Ok) {i : Fin n} (hf : m.now.Fresh i)
    (maxSlice : Int) : (m.exec (.setNextSlice i maxSlice)).Ok :=
  hm.exec (hm.steady.setTimer hf.isTimerSane) (ticks_setNextSlice hf maxSlice).ge

/-- Rescheduling only takes events away. -/
theorem Ok.reschedule {m : Machine n} (hm : m.Ok) (us : List (EventType × UInt64)) :
    (m.reschedule us).Ok ∧ Pruned m.now (m.reschedule us).now := by
  induction us generalizing m with
  | nil => exact ⟨hm, .refl _⟩
  | cons u us ih =>
    obtain ⟨hok, hpr⟩ := ih (hm.exec_act (.unschedule u.1 u.2))
    exact ⟨hok, (pruned_unscheduleEvent m.now u.1 u.2).trans hpr⟩

/-! ## A core that runs -/

/-- The core `i` ran from `m` to `m'`: it used at most `left` ticks, and the other timers are
as they were, but for what waits for them. -/
structure Ran (i : Fin n) (left : Int) (m m' : Machine n) : Prop where
  ok : m'.Ok
  used : m.now.ticks i ≤ m'.now.ticks i ∧ m'.now.ticks i ≤ m.now.ticks i + left
  others : ∀ j, j ≠ i → m'.now.ticks j = m.now.ticks j
  fresh : ∀ j, j ≠ i → m.now.Fresh j → m'.now.Fresh j

theorem toS64_of_lt {x : Int} (h₀ : -2 ^ 63 ≤ x) (h : x < 2 ^ 63) : toS64 x = x := by
  unfold toS64
  rw [Int.bmod_eq_of_le] <;> omega

theorem ticks_setTimer_of_ne (s : Timing n) {i j : Fin n} (hj : j ≠ i) (t : Timer) :
    (s.setTimer i t).ticks j = s.ticks j := by
  unfold Timing.ticks
  rw [setTimer_of_ne s hj]

theorem fresh_setTimer_of_ne {s : Timing n} {i j : Fin n} (hj : j ≠ i) {t : Timer}
    (hf : s.Fresh j) : (s.setTimer i t).Fresh j :=
  ⟨by rw [setTimer_of_ne s hj]; exact hf.isTimerSane,
    by rw [setTimer_of_ne s hj]; exact hf.sliceLength,
    by rw [setTimer_of_ne s hj]; exact hf.notDue⟩

/-- The core uses some ticks. -/
theorem ran_addTicks {m : Machine n} (hm : m.Ok) {i : Fin n}
    (hsane : (m.now.timers i).isTimerSane = false) {k : Nat} (hk : k < 2 ^ 32)
    (hd : -2 ^ 32 ≤ (m.now.timers i).downcount ∧ (m.now.timers i).downcount < 2 ^ 32) :
    (m.exec (.addTicks i (UInt64.ofNat k))).Ok ∧
      (m.exec (.addTicks i (UInt64.ofNat k))).now.ticks i = m.now.ticks i + k ∧
      ((m.exec (.addTicks i (UInt64.ofNat k))).now.timers i).downcount =
        (m.now.timers i).downcount - k := by
  have hnat : (UInt64.ofNat k).toNat = k := UInt64.toNat_ofNat_of_lt' (show k < 2 ^ 64 by omega)
  have hself : (m.exec (.addTicks i (UInt64.ofNat k))).now.timers i =
      (m.now.timers i).addTicks (UInt64.ofNat k) := setTimer_self m.now i _
  have hdown : ((m.exec (.addTicks i (UInt64.ofNat k))).now.timers i).downcount =
      (m.now.timers i).downcount - k := by
    rw [hself, Timer.addTicks, hnat, toS64_of_lt (by omega) (by omega)]
  have hticks : (m.exec (.addTicks i (UInt64.ofNat k))).now.ticks i = m.now.ticks i + k := by
    have hsane' : ((m.exec (.addTicks i (UInt64.ofNat k))).now.timers i).isTimerSane = false := by
      rw [hself]
      exact hsane
    have hslice : ((m.exec (.addTicks i (UInt64.ofNat k))).now.timers i).sliceLength =
        (m.now.timers i).sliceLength := by
      rw [hself]
      rfl
    have hexec : ((m.exec (.addTicks i (UInt64.ofNat k))).now.timers i).executedTicks =
        (m.now.timers i).executedTicks := by
      rw [hself]
      rfl
    unfold Timing.ticks Timer.getTicks
    rw [hsane', hsane, hslice, hexec, hdown]
    simp only [Bool.false_eq_true, if_false]
    omega
  refine ⟨hm.exec (hm.steady.setTimer hsane) fun j => ?_, hticks, hdown⟩
  by_cases hj : j = i
  · subst hj
    show _ ≤ (m.exec (.addTicks j (UInt64.ofNat k))).now.ticks j
    omega
  · exact (ticks_setTimer_of_ne m.now hj _).ge

theorem Ran.refl {m : Machine n} (hm : m.Ok) (i : Fin n) {left : Int} (hl : 0 ≤ left) :
    Ran i left m m := ⟨hm, ⟨le_rfl, by omega⟩, fun _ _ => rfl, fun _ _ hf => hf⟩

/-- Emulated code, with a downcount that it may have run down by what it used of `d`. -/
theorem ran_runCode {i : Fin n} {d : Int} (hd : d < 2 ^ 31) (code : List (CoreStep n)) {left : Nat}
    {m : Machine n} (hm : m.Ok) (hcur : m.now.currentTimer = i)
    (hsane : (m.now.timers i).isTimerSane = false) (hleft : (left : Int) ≤ d)
    (hdown : left - d ≤ (m.now.timers i).downcount ∧ (m.now.timers i).downcount ≤ d) :
    Ran i left m (runCode i code left m) := by
  induction code generalizing left m with
  | nil => exact Ran.refl hm i (by omega)
  | cons step code ih =>
    cases step with
    | consume ticks =>
      obtain ⟨hok, hticks, hd'⟩ := ran_addTicks hm hsane (k := min ticks left) (by omega)
        (by omega)
      have hself : (m.exec (.addTicks i (UInt64.ofNat (min ticks left)))).now.timers i =
          (m.now.timers i).addTicks (UInt64.ofNat (min ticks left)) := setTimer_self m.now i _
      have hran := @ih (left - min ticks left) _ hok hcur (by rw [hself]; exact hsane)
        (by omega) (by omega)
      have hused := hran.used
      refine ⟨hran.ok, ?_, fun j hj => ?_, fun j hj hf => ?_⟩
      · rw [hticks] at hused
        simp only [runCode]
        omega
      · rw [runCode, hran.others j hj]
        exact ticks_setTimer_of_ne m.now hj _
      · exact hran.fresh j hj (fresh_setTimer_of_ne hj hf)
    | act a =>
      have hf := follows_act m.now a
      have hshort := hf.shorter i
      have hran := @ih left (m.exec (.act a)) (hm.exec_act a) (hf.currentTimer.trans hcur)
        ((hf.isTimerSane i).trans hsane) hleft (by
          show left - d ≤ ((m.now.act a).timers i).downcount ∧
            ((m.now.act a).timers i).downcount ≤ d
          omega)
      have hticks : (m.exec (.act a)).now.ticks = m.now.ticks := hf.ticks
      refine ⟨hran.ok, ?_, fun j hj => ?_, fun j hj hfresh => ?_⟩
      · have := hran.used
        rw [hticks] at this
        exact this
      · rw [runCode, hran.others j hj, hticks]
      · exact hran.fresh j hj (hf.fresh (by rwa [hcur]) hfresh)

theorem ran_idle {m : Machine n} (hm : m.Ok) {i : Fin n}
    (hsane : (m.now.timers i).isTimerSane = false) (hd : 0 ≤ (m.now.timers i).downcount) :
    Ran i (m.now.timers i).downcount m (m.exec (.idle i)) := by
  have hself : (m.exec (.idle i)).now.timers i = (m.now.timers i).idle := setTimer_self m.now i _
  have hticks : (m.exec (.idle i)).now.ticks i = m.now.ticks i + (m.now.timers i).downcount := by
    unfold Timing.ticks
    rw [hself]
    unfold Timer.getTicks Timer.idle
    simp only [hsane, Bool.false_eq_true, if_false]
    omega
  refine ⟨hm.exec (hm.steady.setTimer hsane) fun j => ?_, by omega, fun j hj => ?_,
    fun j hj hf => fresh_setTimer_of_ne hj hf⟩
  · by_cases hj : j = i
    · subst hj
      show _ ≤ (m.exec (.idle j)).now.ticks j
      omega
    · exact (ticks_setTimer_of_ne m.now hj _).ge
  · exact ticks_setTimer_of_ne m.now hj _

/-- A core that runs or idles uses at most its downcount. -/
theorem ran_runCore (env : Environment n) {i : Fin n} {m : Machine n} (hm : m.Ok)
    (hcur : m.now.currentTimer = i) (hsane : (m.now.timers i).isTimerSane = false)
    (hd : 0 ≤ (m.now.timers i).downcount ∧ (m.now.timers i).downcount < 2 ^ 31) :
    Ran i (m.now.timers i).downcount m (runCore env i m) := by
  unfold runCore
  split
  · exact ran_idle hm hsane hd.1
  · have hran : Ran i (m.now.timers i).downcount.toNat m
        (runCode i (env.code i) (m.now.timers i).downcount.toNat m) :=
      ran_runCode hd.2 (env.code i) hm hcur hsane (by omega) (by omega)
    rwa [Int.toNat_of_nonneg hd.1] at hran

/-! ## The loops -/

/-- One core is made current, advanced and rescheduled. -/
theorem Ok.advanceCore {m : Machine n} (hm : m.Ok) (i : Fin n)
    (callbacks : List (List (Action n))) (us : List (EventType × UInt64)) {m' : Machine n}
    (hm' : m' = ((m.exec (.setCurrentTimer i)).exec (.advance i callbacks)).reschedule us) :
    m'.Ok ∧ m'.now.ticks = m.now.ticks ∧ m'.now.Fresh i ∧
      ∀ j, j ≠ i → m.now.Fresh j →
        m'.now.Fresh j ∧ (m'.now.timers j).downcount = (m.now.timers j).downcount := by
  have hcur := hm.exec_setCurrentTimer i
  obtain ⟨hok, hpr⟩ := (hcur.exec_advance i callbacks).reschedule us
  rw [← hm'] at hok hpr
  have hticks : (m.now.setCurrentTimer i).ticks = m.now.ticks := rfl
  refine ⟨hok, ?_, hpr.fresh (fresh_advance hcur.timing i callbacks), fun j hj hf => ?_⟩
  · rw [hpr.follows.ticks, ← hticks]
    exact ticks_advance hcur.timing hcur.steady i callbacks
  · have hf' : (m.now.setCurrentTimer i).Fresh j := ⟨hf.isTimerSane, hf.sliceLength, hf.notDue⟩
    obtain ⟨hadv, hdown⟩ := hf'.advance hj rfl callbacks
    exact ⟨hpr.fresh hadv, (hpr.downcount j).trans hdown⟩

/-- The state of the first loop: the core that is furthest behind so far can run up to the
global time. -/
structure Behind (globalTicks : Int) (m : Machine n) (maxDelay : Int) (core : Option (Fin n)) :
    Prop where
  ok : m.Ok
  nonneg : 0 ≤ maxDelay
  none : core = none → maxDelay = 0
  fresh : ∀ i, core = some i → m.now.Fresh i
  delay : ∀ i, core = some i → maxDelay = globalTicks - m.now.ticks i
  slice : ∀ i, core = some i → 0 ≤ (m.now.timers i).downcount ∧
    (m.now.timers i).downcount ≤ maxDelay

/-- A core that is behind, with its slice. -/
theorem Behind.advanceCore {globalTicks : Int} {m : Machine n} {maxDelay : Int}
    {core : Option (Fin n)} (hb : Behind globalTicks m maxDelay core) {i : Fin n}
    (hcore : core ≠ some i) (hlt : m.now.ticks i < globalTicks)
    (hclose : globalTicks - m.now.ticks i < 2 ^ 31) (callbacks : List (List (Action n)))
    (us : List (EventType × UInt64)) {m' : Machine n}
    (hm' : m' = (((m.exec (.setCurrentTimer i)).exec (.advance i callbacks)).reschedule us).exec
      (.setNextSlice i (globalTicks - m.now.ticks i))) :
    m'.now.ticks = m.now.ticks ∧ Behind globalTicks m' maxDelay core ∧
      Behind globalTicks m' (globalTicks - m.now.ticks i) (some i) := by
  obtain ⟨hok, hticks, hfresh, hothers⟩ := hb.ok.advanceCore i callbacks us rfl
  have hok' := hok.exec_setNextSlice hfresh (globalTicks - m.now.ticks i)
  rw [← hm'] at hok'
  have hstep : m'.now = (((m.exec (.setCurrentTimer i)).exec (.advance i callbacks)).reschedule
      us).now.setTimer i _ := congrArg Machine.now hm'
  have hticks' : m'.now.ticks = m.now.ticks := by
    rw [hstep, ticks_setNextSlice hfresh, hticks]
  have hfresh' : ∀ j, (((m.exec (.setCurrentTimer i)).exec (.advance i callbacks)).reschedule
      us).now.Fresh j → m'.now.Fresh j := by
    intro j hf
    rw [hstep]
    exact fresh_setNextSlice hf _
  refine ⟨hticks', ⟨hok', hb.nonneg, hb.none, fun c hc => ?_, fun c hc => ?_, fun c hc => ?_⟩,
    ⟨hok', by omega, by simp, fun c hc => ?_, fun c hc => ?_, fun c hc => ?_⟩⟩
  · have hci : c ≠ i := fun he => hcore (he ▸ hc)
    exact hfresh' c (hothers c hci (hb.fresh c hc)).1
  · rw [hticks']
    exact hb.delay c hc
  · have hci : c ≠ i := fun he => hcore (he ▸ hc)
    rw [hstep, setTimer_of_ne _ hci, (hothers c hci (hb.fresh c hc)).2]
    exact hb.slice c hc
  · obtain rfl := Option.some.inj hc
    exact hfresh' i hfresh
  · obtain rfl := Option.some.inj hc
    rw [hticks']
  · obtain rfl := Option.some.inj hc
    rw [hstep, setTimer_self]
    exact hfresh.setNextSlice (by omega) hclose

/-- The first loop finds the core that is furthest behind and changes no tick count. -/
theorem advanceDelayed_behind (env : Environment n) {globalTicks : Int} (cores : List (Fin n))
    (hnodup : cores.Nodup) {m : Machine n} {maxDelay : Int} {core : Option (Fin n)}
    (hb : Behind globalTicks m maxDelay core) (hcore : ∀ i ∈ cores, core ≠ some i)
    (hglobal : 0 ≤ globalTicks) (hclose : ∀ i, globalTicks - m.now.ticks i < 2 ^ 31) :
    ∃ m' maxDelay' core',
      advanceDelayed env globalTicks cores (m, maxDelay, core) = (m', maxDelay', core') ∧
      Behind globalTicks m' maxDelay' core' ∧ m'.now.ticks = m.now.ticks ∧ maxDelay ≤ maxDelay' ∧
      ∀ i ∈ cores, globalTicks - m.now.ticks i ≤ maxDelay' := by
  induction cores generalizing m maxDelay core with
  | nil => exact ⟨m, maxDelay, core, rfl, hb, rfl, le_rfl, by simp⟩
  | cons i cores ih =>
    obtain ⟨hi, hnodup⟩ := List.nodup_cons.1 hnodup
    have hrest : ∀ j ∈ cores, core ≠ some j := fun j hj => hcore j (List.mem_cons_of_mem _ hj)
    -- no count is negative, so that they compare as integers
    have hnonneg : 0 ≤ m.now.ticks i := hb.ok.nonneg i
    have hself : toU64 (m.now.timers i).getTicks = m.now.ticks i := toU64_of_nonneg hnonneg
    unfold advanceDelayed
    rw [hself, toU64_of_nonneg hglobal]
    split
    · next hlt =>
        obtain ⟨hticks, hsame, hnew⟩ := hb.advanceCore (hcore i List.mem_cons_self) hlt (hclose i)
          (env.delayedCallbacks i) (env.delayedUnschedules i) rfl
        -- the slice that the core got is the delay in both cases
        have hlt31 := hclose i
        have hdelay : toS64 (globalTicks - (m.now.timers i).getTicks) =
            globalTicks - m.now.ticks i :=
          toS64_of_lt (x := globalTicks - m.now.ticks i) (by omega) (by omega)
        simp only [hdelay]
        split
        · next hmax =>
            obtain ⟨m', maxDelay', core', heq, hb', hticks', hle, hall⟩ := ih hnodup hnew
              (fun j hj hc => hi (by rw [Option.some.inj hc]; exact hj))
              (by rw [hticks]; exact hclose)
            rw [hticks] at hticks' hall
            refine ⟨m', maxDelay', core', heq, hb', hticks', by omega, fun j hj => ?_⟩
            rcases List.mem_cons.1 hj with rfl | hj
            · exact hle
            · exact hall j hj
        · next hmax =>
            obtain ⟨m', maxDelay', core', heq, hb', hticks', hle, hall⟩ := ih hnodup hsame hrest
              (by rw [hticks]; exact hclose)
            rw [hticks] at hticks' hall
            refine ⟨m', maxDelay', core', heq, hb', hticks', hle, fun j hj => ?_⟩
            rcases List.mem_cons.1 hj with rfl | hj
            · omega
            · exact hall j hj
    · next hlt =>
        obtain ⟨m', maxDelay', core', heq, hb', hticks', hle, hall⟩ := ih hnodup hb hrest hclose
        refine ⟨m', maxDelay', core', heq, hb', hticks', hle, fun j hj => ?_⟩
        rcases List.mem_cons.1 hj with rfl | hj
        · have := hb.nonneg
          omega
        · exact hall j hj

/-- Advancing all cores makes all timers fresh, so that no assertion fails. -/
theorem advanceAll_fresh (env : Environment n) (cores : List (Fin n)) {m : Machine n} (hm : m.Ok)
    {maxSlice : Int} (h₀ : 0 < maxSlice) (hfresh : ∀ j, j ∉ cores → m.now.Fresh j) :
    ∃ m' maxSlice', advanceAll env cores m maxSlice = some (m', maxSlice') ∧ m'.Ok ∧
      m'.now.ticks = m.now.ticks ∧ 0 < maxSlice' ∧ maxSlice' ≤ maxSlice ∧
      ∀ j, m'.now.Fresh j := by
  induction cores generalizing m maxSlice with
  | nil => exact ⟨m, maxSlice, rfl, hm, rfl, h₀, le_rfl, fun j => hfresh j (by simp)⟩
  | cons i cores ih =>
    obtain ⟨hok, hticks, hi, hothers⟩ := hm.advanceCore i (env.callbacks i) (env.unschedules i) rfl
    obtain ⟨length, hlength, hpos⟩ := hi.getMaxSliceLength
    obtain ⟨m', maxSlice', heq, hok', hticks', hpos', hle, hall⟩ := ih hok
      (show 0 < min maxSlice length by omega) (fun j hj => by
        by_cases hji : j = i
        · rw [hji]
          exact hi
        · exact (hothers j hji (hfresh j (by simp [hji, hj]))).1)
    refine ⟨m', maxSlice', ?_, hok', hticks'.trans hticks, hpos', by omega, hall⟩
    unfold advanceAll
    simp only [hlength, Option.bind_some]
    exact heq

/-- Each core runs for at most the slice. -/
theorem runAll_ran (env : Environment n) (cores : List (Fin n)) (hnodup : cores.Nodup)
    {m : Machine n} (hm : m.Ok) {maxSlice : Int} (h₀ : 0 ≤ maxSlice) (h : maxSlice < 2 ^ 31)
    (hfresh : ∀ j ∈ cores, m.now.Fresh j) :
    (runAll env cores m maxSlice).Ok ∧
      (∀ j, j ∉ cores → (runAll env cores m maxSlice).now.ticks j = m.now.ticks j) ∧
      ∀ j ∈ cores, m.now.ticks j ≤ (runAll env cores m maxSlice).now.ticks j ∧
        (runAll env cores m maxSlice).now.ticks j ≤ m.now.ticks j + maxSlice := by
  induction cores generalizing m maxSlice with
  | nil => exact ⟨hm, fun _ _ => rfl, by simp⟩
  | cons i cores ih =>
    obtain ⟨hi, hnodup⟩ := List.nodup_cons.1 hnodup
    have hf := hfresh i List.mem_cons_self
    have hslice := hf.setNextSlice h₀ h
    have hok := (hm.exec_setNextSlice hf maxSlice).exec_setCurrentTimer i
    have hticks : ((m.exec (.setNextSlice i maxSlice)).exec (.setCurrentTimer i)).now.ticks =
        m.now.ticks := ticks_setNextSlice hf maxSlice
    have hself : ((m.exec (.setNextSlice i maxSlice)).exec (.setCurrentTimer i)).now.timers i =
        (m.now.timers i).setNextSlice maxSlice := setTimer_self m.now i _
    have hran := ran_runCore env (i := i) hok rfl (by rw [hself]; exact hf.isTimerSane)
      (by rw [hself]; omega)
    rw [hself] at hran
    have hused := hran.used
    have hothers := hran.others
    rw [hticks] at hused hothers
    have hstart : (m.exec (.setNextSlice i maxSlice)).now.ticks = m.now.ticks := hticks
    obtain ⟨hok', hrest, hcores⟩ := @ih hnodup _ hran.ok
      ((runCore env i ((m.exec (.setNextSlice i maxSlice)).exec (.setCurrentTimer i))).now.ticks i -
        (m.exec (.setNextSlice i maxSlice)).now.ticks i)
      (by rw [hstart]; omega) (by rw [hstart]; omega) (fun j hj => by
        have hji : j ≠ i := fun he => hi (he ▸ hj)
        have hfj := fresh_setNextSlice (i := i) (hfresh j (List.mem_cons_of_mem _ hj)) maxSlice
        exact hran.fresh j hji ⟨hfj.isTimerSane, hfj.sliceLength, hfj.notDue⟩)
    refine ⟨hok', fun j hj => ?_, fun j hj => ?_⟩
    · rw [List.mem_cons, not_or] at hj
      exact (hrest j hj.2).trans (hothers j hj.1)
    · rcases List.mem_cons.1 hj with rfl | hj
      · have := hrest j hi
        show _ ≤ (runAll env cores _ _).now.ticks j ∧ (runAll env cores _ _).now.ticks j ≤ _
        unfold Timing.ticks at *
        omega
      · have hji : j ≠ i := fun he => hi (he ▸ hj)
        have := hcores j hj
        have := hothers j hji
        have := congrFun hstart i
        show _ ≤ (runAll env cores _ _).now.ticks j ∧ (runAll env cores _ _).now.ticks j ≤ _
        unfold Timing.ticks at *
        omega

/-! ## Calls of the loop -/

/-- A loop that keeps the larger of two values, compared as `u64`, finds the largest. -/
theorem foldl_largest_spec {l : List Int} {a : Int} (ha : 0 ≤ a) (hl : ∀ x ∈ l, 0 ≤ x) :
    let b := l.foldl (fun largest ticks =>
      if toU64 largest < toU64 ticks then ticks else largest) a
    a ≤ b ∧ (∀ x ∈ l, x ≤ b) ∧ (b = a ∨ b ∈ l) := by
  induction l generalizing a with
  | nil => exact ⟨le_rfl, by simp, .inl rfl⟩
  | cons x l ih =>
    have hx : 0 ≤ x := hl x List.mem_cons_self
    have hl' : ∀ y ∈ l, 0 ≤ y := fun y hy => hl y (List.mem_cons_of_mem _ hy)
    simp only [List.foldl_cons, toU64_of_nonneg ha, toU64_of_nonneg hx]
    split
    · next hlt =>
        obtain ⟨hle, hall, hmem⟩ := ih hx hl'
        refine ⟨hlt.le.trans hle, List.forall_mem_cons.2 ⟨hle, hall⟩, .inr ?_⟩
        rw [List.mem_cons]
        exact hmem
    · next hlt =>
        obtain ⟨hle, hall, hmem⟩ := ih ha hl'
        exact ⟨hle, List.forall_mem_cons.2 ⟨(not_lt.1 hlt).trans hle, hall⟩,
          hmem.imp_right (List.mem_cons_of_mem _)⟩

/-- The global time is the largest tick count, if none is negative. -/
theorem getGlobalTicks_spec [NeZero n] {s : Timing n} (hs : ∀ i, 0 ≤ s.ticks i) :
    (∀ i, s.ticks i ≤ s.getGlobalTicks) ∧ ∃ i, s.getGlobalTicks = s.ticks i := by
  obtain ⟨-, hle, hmem⟩ := @foldl_largest_spec (List.ofFn fun i => (s.timers i).getTicks)
    (s.timers 0).getTicks (hs 0) fun x hx => (List.mem_ofFn.1 hx).elim fun i hi => hi ▸ hs i
  refine ⟨fun i => hle _ (List.mem_ofFn.2 ⟨i, rfl⟩), ?_⟩
  rcases hmem with h | h
  · exact ⟨0, h⟩
  · obtain ⟨i, hi⟩ := List.mem_ofFn.1 h
    exact ⟨i, hi.symm⟩

/-- The tick counts differ by at most a slice and the delay that is not made up for. -/
def Together (s : Timing n) : Prop := ∀ i j, s.ticks i - s.ticks j ≤ maxSliceLength + 100

theorem Ok.foldl_act {m : Machine n} (hm : m.Ok) (as : List (Action n)) :
    (as.foldl (fun m a => m.exec (.act a)) m).Ok ∧
      (as.foldl (fun m a => m.exec (.act a)) m).now.ticks = m.now.ticks := by
  induction as generalizing m with
  | nil => exact ⟨hm, rfl⟩
  | cons a as ih =>
    obtain ⟨hok, hticks⟩ := ih (hm.exec_act a)
    exact ⟨hok, hticks.trans (follows_act m.now a).ticks⟩

/-- The core that is furthest behind runs up to the global time at most. -/
theorem Behind.runCore {globalTicks : Int} {m : Machine n} {maxDelay : Int} {i : Fin n}
    (hb : Behind globalTicks m maxDelay (some i)) (hd : maxDelay < 2 ^ 31) (env : Environment n) :
    (runCore env i (m.exec (.setCurrentTimer i))).Ok ∧
      m.now.ticks ≤ (runCore env i (m.exec (.setCurrentTimer i))).now.ticks ∧
      (runCore env i (m.exec (.setCurrentTimer i))).now.ticks i ≤ globalTicks ∧
      ∀ j, j ≠ i → (runCore env i (m.exec (.setCurrentTimer i))).now.ticks j = m.now.ticks j := by
  have hslice := hb.slice i rfl
  have hdelay := hb.delay i rfl
  have hran := ran_runCore env (i := i) (hb.ok.exec_setCurrentTimer i) rfl
    (hb.fresh i rfl).isTimerSane (show 0 ≤ (m.now.timers i).downcount ∧ _ by
      exact ⟨hslice.1, hslice.2.trans_lt hd⟩)
  have hused : m.now.ticks i ≤ (Machine.runCore env i (m.exec (.setCurrentTimer i))).now.ticks i ∧
      (Machine.runCore env i (m.exec (.setCurrentTimer i))).now.ticks i ≤
        m.now.ticks i + (m.now.timers i).downcount := hran.used
  refine ⟨hran.ok, fun j => ?_, by omega, hran.others⟩
  by_cases hj : j = i
  · rw [hj]
    exact hused.1
  · exact (hran.others j hj).ge

/-- One call of the loop. -/
theorem runLoop_spec [NeZero n] (env : Environment n) {m : Machine n} (hm : m.Ok)
    (ht : Together m.now) : ∃ r, runLoop env m = some r ∧ r.machine.Ok ∧ Together r.machine.now ∧
      ∀ i, r.delayedCore = some i → r.machine.now.ticks i ≤ r.globalTicks := by
  obtain ⟨hm₁, hticks₁⟩ := hm.foldl_act env.before
  unfold runLoop
  generalize env.before.foldl (fun m a => m.exec (.act a)) m = m₁ at hm₁ hticks₁ ⊢
  have hslice : maxSliceLength = 1145777 := by decide
  obtain ⟨hglobal, c, hc⟩ := getGlobalTicks_spec hm₁.nonneg
  unfold Together at ht ⊢
  rw [← hticks₁] at ht
  have hb : Behind m₁.now.getGlobalTicks m₁ 0 none :=
    ⟨hm₁, le_rfl, fun _ => rfl, by simp, by simp, by simp⟩
  obtain ⟨m₂, maxDelay, core, heq, hb₂, hticks₂, hle, hall⟩ := advanceDelayed_behind env
    (List.finRange n) (List.nodup_finRange n) hb (by simp)
    (by rw [hc]; exact hm₁.nonneg c) fun i => by
      have := ht c i
      omega
  have hall : ∀ i, m₁.now.getGlobalTicks - m₁.now.ticks i ≤ maxDelay :=
    fun i => hall i (List.mem_finRange i)
  simp only [heq]
  split
  · next hmax =>
      cases core with
      | none =>
        have := hb₂.none rfl
        rw [this] at hmax
        exact absurd hmax (by decide)
      | some i =>
        have hdelay := hb₂.delay i rfl
        rw [hticks₂] at hdelay
        obtain ⟨hok, hmono, hpass, hothers⟩ := hb₂.runCore (by have := ht c i; omega) env
        obtain ⟨hok', hpr⟩ := hok.reschedule env.lastUnschedules
        refine ⟨_, rfl, hok', fun j k => ?_, fun j hj => ?_⟩
        · rw [hpr.follows.ticks]
          have hk : m₂.now.ticks k ≤
              (Machine.runCore env i (m₂.exec (.setCurrentTimer i))).now.ticks k := hmono k
          rw [hticks₂] at hk
          have hj : (Machine.runCore env i (m₂.exec (.setCurrentTimer i))).now.ticks j ≤
              m₁.now.getGlobalTicks := by
            by_cases hji : j = i
            · rw [hji]
              exact hpass
            · rw [hothers j hji, hticks₂]
              exact hglobal j
          have := ht c k
          omega
        · obtain rfl := Option.some.inj hj
          rw [hpr.follows.ticks]
          exact hpass
  · next hmax =>
      have hmin : minDelay = 100 := rfl
      obtain ⟨m₃, maxSlice, heq₃, hok₃, hticks₃, hpos, hle₃, hfresh⟩ := advanceAll_fresh env
        (List.finRange n) hb₂.ok (show 0 < maxSliceLength by decide)
        fun j hj => absurd (List.mem_finRange j) hj
      obtain ⟨hok, -, hran⟩ := runAll_ran env (List.finRange n) (List.nodup_finRange n) hok₃ hpos.le
        (by omega) fun j _ => hfresh j
      obtain ⟨hok', hpr⟩ := hok.reschedule env.lastUnschedules
      simp only [heq₃, Option.map_some]
      refine ⟨_, rfl, hok', fun j k => ?_, by simp⟩
      rw [hpr.follows.ticks]
      have hj := (hran j (List.mem_finRange j)).2
      have hk := (hran k (List.mem_finRange k)).1
      rw [hticks₃, hticks₂] at hj hk
      have := hall k
      have := hglobal j
      omega

theorem ok_init [NeZero n] {baseTicks : Int} (h : 0 ≤ baseTicks) :
    (⟨Timing.init n baseTicks, []⟩ : Machine n).Ok where
  timing := Timing.ok_init baseTicks
  steady := fun _ _ => rfl
  nonneg := fun _ => h
  mono := List.pairwise_singleton _ _

/-- One core idles and the other runs for a thousand ticks. -/
def idleAndBusy : Environment 2 :=
  ⟨[], fun _ => [], fun _ => [], fun _ => [], fun _ => [], fun i => i == 0,
    fun _ => [.consume 1000], []⟩

/-- The first core uses its whole slice and the second nothing. -/
def busyAndStill : Environment 2 :=
  ⟨[], fun _ => [], fun _ => [], fun _ => [], fun _ => [], fun _ => false,
    fun i => if i = 0 then [.consume (2 ^ 40)] else [], []⟩

end Machine

end AzaharPlus.Core
