import AzaharPlus.Core.EventQueues

/-!
# Runs of the event timing

What holds of every run of the calls in `Op`, with callbacks that schedule and cancel events
themselves.

* `timing_queue`: on one timer, the queue is a heap, every event fires once and not before
  its time unless it was cancelled, those that were there before an `Advance` fire in their
  order, and callbacks are passed the lateness as an `int`.
* `events_across_cores`: on any number of timers, an event fires at most once, on its timer
  and not before its time; it does not fire after a matching Unschedule or Remove unless it
  was in a `ts_queue` then, where these functions do not look.
-/

namespace AzaharPlus.Core

namespace Timing

variable {n : Nat}

theorem advance_timers_self (s : Timing n) (i : Fin n) (callbacks : List (List (Action n))) :
    ∃ fuel, (s.advance i callbacks).timers i =
        { (fireDue i fuel callbacks (s.beginAdvance i)).timers i with isTimerSane := false } ∧
      fuel = ((s.beginAdvance i).timers i).eventQueue.length + (callbacks.map List.length).sum :=
  ⟨_, setTimer_self .., rfl⟩

theorem beginAdvance_executedTicks (s : Timing n) (i : Fin n) :
    ((s.beginAdvance i).timers i).executedTicks =
      (s.timers i).executedTicks + ((s.timers i).sliceLength - (s.timers i).downcount) := by
  rw [← Timer.beginAdvance_executedTicks]
  exact congrArg Timer.executedTicks (setTimer_self s i _)

/-- `Advance` adds what was used of the slice to the executed ticks. -/
theorem advance_executedTicks (s : Timing n) (i : Fin n) (callbacks : List (List (Action n))) :
    ((s.advance i callbacks).timers i).executedTicks =
      (s.timers i).executedTicks + ((s.timers i).sliceLength - (s.timers i).downcount) := by
  obtain ⟨fuel, hself, -⟩ := advance_timers_self s i callbacks
  rw [hself, ← beginAdvance_executedTicks]
  exact (follows_fireDue i fuel callbacks _).executedTicks i

/-- After `Advance` no event of the heap is due. -/
theorem advance_done {s : Timing n} (hs : s.Ok) (i : Fin n) (callbacks : List (List (Action n))) :
    ∀ e ∈ ((s.advance i callbacks).timers i).eventQueue,
      ((s.advance i callbacks).timers i).executedTicks < e.time := by
  obtain ⟨fuel, hself, hfuel⟩ := advance_timers_self s i callbacks
  have hdone := fireDue_done fuel (hs.beginAdvance i) hfuel.ge
  intro e he
  rw [advance_executedTicks, ← beginAdvance_executedTicks]
  rw [hself] at he
  exact hdone e he

/-- Requests from before an `Advance` do not wait after it. -/
theorem advance_waiting (s : Timing n) (i : Fin n) (callbacks : List (List (Action n))) {id : Nat}
    {f : Fate n} (hf : (s.advance i callbacks).history.fates[id]? = some f)
    (hid : id < s.history.fates.length) (hi : f.timer = i) : f.waiting = false := by
  have hold := (follows_fireDue i (((s.beginAdvance i).timers i).eventQueue.length +
    (callbacks.map List.length).sum) callbacks (s.beginAdvance i)).old id f hf
    (by simpa [beginAdvance, History.move] using hid)
  obtain ⟨f₁, hf₁, hw, ht⟩ := hold
  change (s.history.fates.map (Fate.move i))[id]? = some f₁ at hf₁
  rw [List.getElem?_map] at hf₁
  obtain ⟨f₀, -, rfl⟩ := Option.map_eq_some_iff.1 hf₁
  rw [hw]
  by_cases h₀ : f₀.timer = i
  · rw [Ledger.move_of_eq h₀]
  · rw [Ledger.move_of_ne h₀, hi] at ht
    exact absurd ht.symm h₀

/-- After `Advance` every request that is due has fired or was cancelled, but for those that
a callback of that `Advance` put in the `ts_queue`. -/
theorem advance_fires {s : Timing n} (hs : s.Ok) (i : Fin n) (callbacks : List (List (Action n)))
    {id : Nat} {f : Fate n} (hf : (s.advance i callbacks).history.fates[id]? = some f)
    (hi : f.timer = i)
    (hdue : f.request.time ≤ ((s.advance i callbacks).timers i).executedTicks)
    (hc : f.cancelled = false) (hid : id < s.history.fates.length ∨ f.waiting = false) :
    id ∈ (s.advance i callbacks).history.firedIds := by
  have hw : f.waiting = false := hid.elim (fun hid => advance_waiting s i callbacks hf hid hi) fun h => h
  have hs' := hs.advance i callbacks
  by_contra hnot
  obtain ⟨r, hr⟩ := hs'.ledger.accounted id f hf hc hnot
  rw [hw, hi] at hr
  obtain ⟨⟨f', hf', -, hreq, -⟩, -⟩ := hs'.ledger.queued i _ hr
  obtain rfl := Option.some.inj (hf.symm.trans hf')
  obtain ⟨e, he, heq⟩ := List.mem_map.1 hr
  have hlt := advance_done hs i callbacks e he
  have htime : e.time = f.request.time := by
    rw [hreq, ← heq]
    rfl
  omega

/-- The firings of one `Advance`: those of requests from before it come in the order of the
events. -/
theorem advance_firings {s : Timing n} (hs : s.Ok) (i : Fin n)
    (callbacks : List (List (Action n))) :
    ∃ new, (s.advance i callbacks).history.firings = s.history.firings ++ new ∧
      (∀ g ∈ new, g.timer = i ∧
        g.executedTicks = ((s.advance i callbacks).timers i).executedTicks) ∧
      (new.filter (·.event.id < s.history.fates.length)).Pairwise
        fun g g' => g.event.key ≤ g'.event.key := by
  obtain ⟨new, hnew, hat, -, hsorted⟩ := @fireDue_firings n i
    (((s.beginAdvance i).timers i).eventQueue.length + (callbacks.map List.length).sum) callbacks
    (s.beginAdvance i) (hs.beginAdvance i) s.history.fates.length
    (by simp [beginAdvance, History.move])
  rw [beginAdvance_executedTicks, ← advance_executedTicks s i callbacks] at hat
  exact ⟨new, hnew, hat, hsorted⟩

/-! ## One timer -/

/-- Every run on one timer.

The queue is a heap.  No event fires twice; a firing is one of a request, not before its
time, and its callback is passed the lateness as an `int`; no event fires after a matching
Unschedule or Remove unless it was in the `ts_queue` then.  After each `Advance` every
request from before it that is due has fired or was cancelled, and so has every one that a
callback put in the heap; the requests from before it fired in the order of their events. -/
theorem timing_queue (baseTicks : Int) (ops : List (Op 1)) :
    Heap.IsHeap Event.key ((run baseTicks ops).timers 0).eventQueue ∧
    (run baseTicks ops).history.firedIds.Nodup ∧
    (∀ g ∈ (run baseTicks ops).history.firings,
      (∃ f, (run baseTicks ops).history.fates[g.event.id]? = some f ∧
        f.request = g.event.request) ∧
      g.event.time ≤ g.executedTicks ∧
      g.lateness = toInt32 (g.executedTicks - g.event.time) ∧
      (g.cancelled = true → g.missed = true)) ∧
    ∀ callbacks,
      (∀ id f, ((run baseTicks ops).advance 0 callbacks).history.fates[id]? = some f →
        f.request.time ≤ (((run baseTicks ops).advance 0 callbacks).timers 0).executedTicks →
        f.cancelled = false →
        id < (run baseTicks ops).history.fates.length ∨ f.waiting = false →
        id ∈ ((run baseTicks ops).advance 0 callbacks).history.firedIds) ∧
      ∃ new, ((run baseTicks ops).advance 0 callbacks).history.firings =
          (run baseTicks ops).history.firings ++ new ∧
        (∀ g ∈ new, g.executedTicks =
          (((run baseTicks ops).advance 0 callbacks).timers 0).executedTicks) ∧
        (new.filter (·.event.id < (run baseTicks ops).history.fates.length)).Pairwise
          fun g g' => g.event.key ≤ g'.event.key := by
  have hs := ok_run baseTicks ops
  refine ⟨hs.heap 0, hs.ledger.fired_nodup, fun g hg => ?_, fun callbacks => ⟨?_, ?_⟩⟩
  · obtain ⟨⟨f, hf, -, hreq, -⟩, hdue, hlate, hc⟩ := hs.ledger.fired g hg
    exact ⟨⟨f, hf, hreq⟩, hdue, hlate, fun h => hc ▸ h⟩
  · intro id f hf hdue hc hid
    exact advance_fires hs 0 callbacks hf (Subsingleton.elim _ _) hdue hc hid
  · obtain ⟨new, hnew, hat, hsorted⟩ := advance_firings hs 0 callbacks
    exact ⟨new, hnew, fun g hg => (hat g hg).2, hsorted⟩

/-- The lateness that a callback is passed is not always the difference: after `2 ^ 31` ticks
it is negative. -/
theorem lateness_not_difference : ¬ ∀ (baseTicks : Int) (ops : List (Op 1)),
    ∀ g ∈ (run baseTicks ops).history.firings, g.lateness = g.executedTicks - g.event.time := by
  intro h
  have hrun := h 0 [.act (.schedule 0 1 7 none false), .addTicks 0 0x80000000, .advance 0 []]
  revert hrun
  decide

/-! ## Any number of timers -/

/-- No Unschedule or Remove returned while an event that it matches was in a `ts_queue`. -/
def NoneMissed (s : Timing n) : Prop := ∀ f ∈ s.history.fates, f.missed = false

/-- Every run on any number of timers in which no matching event was in a `ts_queue` when an
Unschedule or Remove returned: no event fires twice, and each fires on the timer it was
scheduled on, not before its time, and with no matching Unschedule or Remove since it was
scheduled. -/
theorem events_across_cores [NeZero n] (baseTicks : Int) (ops : List (Op n))
    (hmissed : (run baseTicks ops).NoneMissed) :
    (run baseTicks ops).history.firedIds.Nodup ∧
    ∀ g ∈ (run baseTicks ops).history.firings,
      (∃ f, (run baseTicks ops).history.fates[g.event.id]? = some f ∧ f.timer = g.timer ∧
        f.request = g.event.request) ∧
      g.event.time ≤ g.executedTicks ∧ g.cancelled = false := by
  have hs := ok_run baseTicks ops
  refine ⟨hs.ledger.fired_nodup, fun g hg => ?_⟩
  obtain ⟨⟨f, hf, htimer, hreq, hm⟩, hdue, -, hc⟩ := hs.ledger.fired g hg
  refine ⟨⟨f, hf, htimer, hreq⟩, hdue, ?_⟩
  rw [hc]
  by_contra hgm
  have hfm := hm (Bool.eq_true_of_not_eq_false hgm)
  rw [hmissed f (List.mem_of_getElem? hf)] at hfm
  exact absurd hfm (by simp)

/-- Two events on two cores: one is unscheduled after its timer has advanced, the other fires. -/
theorem events_across_cores_two :
    (run 0 [.act (.schedule 5 1 7 (some 1) false), .act (.schedule 5 2 8 none true),
      .setCurrentTimer 1, .advance 1 [], .act (.unschedule 1 7), .setCurrentTimer 0,
      .advance 0 [], .addTicks 0 3000000, .advance 0 []] : Timing 2).NoneMissed ∧
    ∀ g ∈ (run 0 [.act (.schedule 5 1 7 (some 1) false), .act (.schedule 5 2 8 none true),
      .setCurrentTimer 1, .advance 1 [], .act (.unschedule 1 7), .setCurrentTimer 0,
      .advance 0 [], .addTicks 0 3000000, .advance 0 []] : Timing 2).history.firings,
      g.cancelled = false := by
  have hmissed : (run 0 [.act (.schedule 5 1 7 (some 1) false), .act (.schedule 5 2 8 none true),
      .setCurrentTimer 1, .advance 1 [], .act (.unschedule 1 7), .setCurrentTimer 0,
      .advance 0 [], .addTicks 0 3000000, .advance 0 []] : Timing 2).NoneMissed := by
    unfold NoneMissed
    decide
  exact ⟨hmissed, fun g hg => ((events_across_cores _ _ hmissed).2 g hg).2.2⟩

/-- An event for the other core is unscheduled and fires all the same. -/
theorem unscheduled_event_fires :
    ¬ ∀ (baseTicks : Int) (ops : List (Op 2)), ∀ g ∈ (run baseTicks ops).history.firings,
      g.cancelled = false := by
  intro h
  have hrun := h 0 [.act (.schedule 0 1 7 (some 1) false), .act (.unschedule 1 7),
    .setCurrentTimer 1, .advance 1 []]
  revert hrun
  decide

end Timing

end AzaharPlus.Core
