import Mathlib.Data.List.Induction
import AzaharPlus.Core.Ledger

/-!
# The event queues of the timers

One lemma for each function of the timers, and what they keep: `Timing.Ok` says that every
`event_queue` is a heap and that the queues agree with the history.  `ok_run` is the
invariant of whole runs.

* `advance_done`: after `Advance` no event of the heap is due.
* `advance_firings`: the events that were there before an `Advance` fire in their order.
-/

namespace AzaharPlus.Core

namespace Timer

/-- The tickets in the heap. -/
def queued (t : Timer) : List Ticket := t.eventQueue.map Event.ticket

/-- The tickets that wait. -/
def waiting (t : Timer) : List Ticket := t.tsQueue.map Event.ticket

/-- The `event_queue` is a heap. -/
def HeapOk (t : Timer) : Prop := Heap.IsHeap Event.key t.eventQueue

theorem HeapOk.emplace {t : Timer} (ht : t.HeapOk) (e : Event) : (t.emplace e).HeapOk :=
  Heap.isHeap_pushHeap ht _

theorem emplace_perm (t : Timer) (e : Event) : (t.emplace e).eventQueue.Perm
    (t.eventQueue ++ [{ e with fifoOrder := t.eventFifoId }]) := Heap.pushHeap_perm _

theorem emplace_queued (t : Timer) (e : Event) :
    (t.emplace e).queued.Perm (t.queued ++ [e.ticket]) := by
  have h := (t.emplace_perm e).map Event.ticket
  rwa [List.map_append] at h

/-- The loop of `MoveEvents` only changes the heap and the counter. -/
theorem foldl_emplace (t : Timer) (l : List Event) :
    (t.HeapOk → (l.foldl emplace t).HeapOk) ∧
      (l.foldl emplace t).queued.Perm (t.queued ++ l.map Event.ticket) ∧
      (l.foldl emplace t).sliceLength = t.sliceLength ∧
      (l.foldl emplace t).downcount = t.downcount ∧
      (l.foldl emplace t).executedTicks = t.executedTicks := by
  induction l generalizing t with
  | nil => exact ⟨id, by simp, rfl, rfl, rfl⟩
  | cons e l ih =>
    obtain ⟨hheap, hq, hs, hd, hx⟩ := ih (t.emplace e)
    refine ⟨fun ht => hheap (ht.emplace e), ?_, hs, hd, hx⟩
    refine hq.trans (((t.emplace_queued e).append_right _).trans ?_)
    simp

theorem HeapOk.beginAdvance {t : Timer} (ht : t.HeapOk) : t.beginAdvance.HeapOk :=
  (foldl_emplace t t.tsQueue).1 ht

theorem beginAdvance_queued (t : Timer) : t.beginAdvance.queued.Perm (t.queued ++ t.waiting) :=
  (foldl_emplace t t.tsQueue).2.1

theorem beginAdvance_waiting (t : Timer) : t.beginAdvance.waiting = [] := rfl

theorem beginAdvance_executedTicks (t : Timer) :
    t.beginAdvance.executedTicks = t.executedTicks + (t.sliceLength - t.downcount) := by
  obtain ⟨-, -, hs, hd, hx⟩ := foldl_emplace t t.tsQueue
  show (t.tsQueue.foldl emplace t).executedTicks + ((t.tsQueue.foldl emplace t).sliceLength -
    (t.tsQueue.foldl emplace t).downcount) = _
  rw [hs, hd, hx]

theorem forceExceptionCheck_eventQueue (t : Timer) (cycles : Int) :
    (t.forceExceptionCheck cycles).eventQueue = t.eventQueue := by
  unfold forceExceptionCheck
  simp only
  split <;> rfl

theorem forceExceptionCheck_tsQueue (t : Timer) (cycles : Int) :
    (t.forceExceptionCheck cycles).tsQueue = t.tsQueue := by
  unfold forceExceptionCheck
  simp only
  split <;> rfl

/-- The check shortens the slice by what it takes off the downcount. -/
theorem forceExceptionCheck_frame (t : Timer) (cycles : Int) :
    (t.forceExceptionCheck cycles).executedTicks = t.executedTicks ∧
      (t.forceExceptionCheck cycles).isTimerSane = t.isTimerSane ∧
      (min 0 t.downcount ≤ (t.forceExceptionCheck cycles).downcount ∧
        (t.forceExceptionCheck cycles).downcount ≤ t.downcount) ∧
      (t.forceExceptionCheck cycles).sliceLength - (t.forceExceptionCheck cycles).downcount =
        t.sliceLength - t.downcount := by
  unfold forceExceptionCheck
  simp only
  split
  · refine ⟨rfl, rfl, ?_, ?_⟩ <;> simp only <;> omega
  · exact ⟨rfl, rfl, ⟨min_le_right _ _, le_rfl⟩, rfl⟩

/-- Taking the first event out of the heap. -/
theorem popEvent_spec {t : Timer} {e : Event} {rest : List Event} (he : t.eventQueue = e :: rest) :
    t.popEvent.eventQueue.Perm rest ∧ (t.HeapOk → t.popEvent.HeapOk) := by
  obtain ⟨rest', hpop, hperm, hheap⟩ := Heap.popHeap_eq Event.key e rest
  have hq : t.popEvent.eventQueue = rest' := by
    show (Heap.popHeap Event.key t.eventQueue).dropLast = rest'
    rw [he, hpop, List.dropLast_concat]
  unfold HeapOk
  rw [hq, he]
  exact ⟨hperm, hheap⟩

/-- Nothing of the heap is before its first event. -/
theorem HeapOk.head_le {t : Timer} (ht : t.HeapOk) {e : Event} {rest : List Event}
    (he : t.eventQueue = e :: rest) {e' : Event} (he' : e' ∈ t.eventQueue) : e.key ≤ e'.key := by
  unfold HeapOk at ht
  rw [he] at ht he'
  exact ht.head_le he'

theorem time_le_of_key_le {e e' : Event} (h : e.key ≤ e'.key) : e.time ≤ e'.time := by
  rcases (Prod.Lex.le_iff.1 h) with h | h
  · exact le_of_lt h
  · exact le_of_eq h.1

theorem removeIf_perm (t : Timer) (p : Event → Bool) :
    (t.removeIf p).eventQueue.Perm (t.eventQueue.filter fun e => !p e) := by
  unfold removeIf
  split
  · exact Heap.makeHeap_perm _
  · next hany =>
      rw [List.filter_eq_self.2 fun e he => ?_]
      simpa using fun hp => hany (List.any_eq_true.2 ⟨e, he, hp⟩)

theorem HeapOk.removeIf {t : Timer} (ht : t.HeapOk) (p : Event → Bool) : (t.removeIf p).HeapOk := by
  unfold Timer.removeIf
  split
  · exact Heap.isHeap_makeHeap _
  · exact ht

theorem removeIf_queued (t : Timer) (p : Request → Bool) :
    (t.removeIf fun e => p e.request).queued.Perm (t.queued.filter fun r => !p r.2) := by
  have h := (t.removeIf_perm fun e => p e.request).map Event.ticket
  unfold queued
  rwa [List.filter_map]

/-- The fields of a timer that `remove_if` leaves alone. -/
theorem removeIf_frame (t : Timer) (p : Event → Bool) :
    (t.removeIf p).tsQueue = t.tsQueue ∧ (t.removeIf p).executedTicks = t.executedTicks ∧
      (t.removeIf p).isTimerSane = t.isTimerSane ∧ (t.removeIf p).sliceLength = t.sliceLength ∧
      (t.removeIf p).downcount = t.downcount := by
  unfold removeIf
  split <;> exact ⟨rfl, rfl, rfl, rfl, rfl⟩

end Timer

namespace Timing

variable {n : Nat}

/-- Every `event_queue` is a heap, and the queues agree with the history. -/
structure Ok (s : Timing n) : Prop where
  heap : ∀ i, (s.timers i).HeapOk
  ledger : Ledger (fun i => (s.timers i).queued) (fun i => (s.timers i).waiting) s.history

theorem ok_init [NeZero n] (baseTicks : Int) : (init n baseTicks).Ok where
  heap := fun _ => Heap.isHeap_nil
  ledger := Ledger.nil

theorem setTimer_self (s : Timing n) (i : Fin n) (t : Timer) : (s.setTimer i t).timers i = t :=
  Function.update_self ..

theorem setTimer_of_ne (s : Timing n) {i j : Fin n} (hj : j ≠ i) (t : Timer) :
    (s.setTimer i t).timers j = s.timers j := Function.update_of_ne hj ..

/-- A timer with the queues it had. -/
theorem Ok.setTimer {s : Timing n} (hs : s.Ok) {i : Fin n} {t : Timer}
    (hq : t.eventQueue = (s.timers i).eventQueue) (hw : t.tsQueue = (s.timers i).tsQueue) :
    (s.setTimer i t).Ok := by
  have heq : ∀ j, ((s.setTimer i t).timers j).eventQueue = (s.timers j).eventQueue ∧
      ((s.setTimer i t).timers j).tsQueue = (s.timers j).tsQueue := by
    intro j
    by_cases hj : j = i
    · subst hj
      rw [setTimer_self]
      exact ⟨hq, hw⟩
    · rw [setTimer_of_ne s hj]
      exact ⟨rfl, rfl⟩
  refine ⟨fun j => ?_, ?_⟩
  · unfold Timer.HeapOk
    rw [(heq j).1]
    exact hs.heap j
  · have h₁ : (fun j => ((s.setTimer i t).timers j).queued) = fun j => (s.timers j).queued :=
      funext fun j => by rw [Timer.queued, Timer.queued, (heq j).1]
    have h₂ : (fun j => ((s.setTimer i t).timers j).waiting) = fun j => (s.timers j).waiting :=
      funext fun j => by rw [Timer.waiting, Timer.waiting, (heq j).2]
    rw [h₁, h₂]
    exact hs.ledger

/-- The bags of tickets after one timer was replaced. -/
theorem comp_setTimer {β : Type} (f : Timer → β) (s : Timing n) (i : Fin n) (t : Timer) :
    (fun j => f ((s.setTimer i t).timers j)) = Function.update (fun j => f (s.timers j)) i (f t) := by
  funext j
  by_cases hj : j = i
  · subst hj
    rw [setTimer_self, Function.update_self]
  · rw [setTimer_of_ne s hj, Function.update_of_ne hj]

/-- A timer with new queues, and the ledger for them. -/
theorem ok_of_ledger {s : Timing n} (hs : s.Ok) {i : Fin n} {t : Timer} {h : History n}
    (hheap : t.HeapOk) {q : List Ticket} (hq : t.queued.Perm q)
    (hl : Ledger (Function.update (fun j => (s.timers j).queued) i q)
      (Function.update (fun j => (s.timers j).waiting) i t.waiting) h) :
    Ok { s.setTimer i t with history := h } := by
  refine ⟨fun j => ?_, ?_⟩
  · show ((s.setTimer i t).timers j).HeapOk
    by_cases hj : j = i
    · subst hj
      rw [setTimer_self]
      exact hheap
    · rw [setTimer_of_ne s hj]
      exact hs.heap j
  · show Ledger (fun j => ((s.setTimer i t).timers j).queued)
      (fun j => ((s.setTimer i t).timers j).waiting) h
    rw [comp_setTimer Timer.queued, comp_setTimer Timer.waiting]
    refine hl.perm fun j => ?_
    by_cases hj : j = i
    · subst hj
      rw [Function.update_self, Function.update_self]
      exact hq
    · rw [Function.update_of_ne hj, Function.update_of_ne hj]

theorem Ok.pushWaiting {s : Timing n} (hs : s.Ok) (i : Fin n) (time : Int) (userData : UInt64)
    (type : EventType) : (s.pushWaiting i time userData type).Ok := by
  refine ok_of_ledger hs (hs.heap i) (.refl (s.timers i).queued) ?_
  show Ledger _ (Function.update _ i
    (((s.timers i).tsQueue ++ [s.nextEvent time userData type]).map Event.ticket)) _
  rw [Function.update_eq_self_iff.2 rfl, List.map_append]
  exact hs.ledger.scheduleWaiting i (s.nextEvent time userData type).request

theorem Ok.emplaceEvent {s : Timing n} (hs : s.Ok) (i : Fin n) (cycles time : Int)
    (userData : UInt64) (type : EventType) : (s.emplaceEvent i cycles time userData type).Ok := by
  have hsame : ∀ t : Timer, t.eventQueue = (s.timers i).eventQueue →
      t.tsQueue = (s.timers i).tsQueue →
      Ok { s.setTimer i (t.emplace (s.nextEvent time userData type)) with
        history := s.history.schedule i (s.nextEvent time userData type).request false } := by
    intro t hq hw
    have hheap : t.HeapOk := by
      unfold Timer.HeapOk
      rw [hq]
      exact hs.heap i
    refine ok_of_ledger hs (hheap.emplace _) (t.emplace_queued _) ?_
    have hl := hs.ledger.scheduleQueued i (s.nextEvent time userData type).request
    have hqueued : t.queued = (s.timers i).queued := by rw [Timer.queued, Timer.queued, hq]
    have hwaiting : (t.emplace (s.nextEvent time userData type)).waiting = (s.timers i).waiting := by
      rw [Timer.waiting, Timer.waiting, ← hw]
      rfl
    rw [hqueued, hwaiting, Function.update_eq_self_iff.2 rfl]
    exact hl
  unfold Timing.emplaceEvent
  simp only
  split
  · exact hsame _ rfl rfl
  · exact hsame _ (Timer.forceExceptionCheck_eventQueue _ _) (Timer.forceExceptionCheck_tsQueue _ _)

theorem Ok.scheduleEvent {s : Timing n} (hs : s.Ok) (cycles : Int) (type : EventType)
    (userData : UInt64) (coreId : Option (Fin n)) (threadSafeMode : Bool) :
    (s.scheduleEvent cycles type userData coreId threadSafeMode).Ok := by
  unfold Timing.scheduleEvent
  simp only
  split
  · exact hs
  split
  · exact hs.pushWaiting _ _ _ _
  split
  · exact hs.emplaceEvent _ _ _ _ _
  · exact hs.pushWaiting _ _ _ _

theorem Ok.cancelEvents {s : Timing n} (hs : s.Ok) (p : Request → Bool) : (s.cancelEvents p).Ok := by
  unfold Timing.cancelEvents
  split
  · exact hs
  · refine ⟨fun i => (hs.heap i).removeIf _, ?_⟩
    have hl := (hs.ledger.cancel p).perm fun i => (s.timers i).removeIf_queued p
    have hw : (fun i => ((s.timers i).removeIf fun e => p e.request).waiting) =
        fun i => (s.timers i).waiting :=
      funext fun i => by rw [Timer.waiting, ((s.timers i).removeIf_frame _).1, Timer.waiting]
    simp only [hw]
    exact hl

/-- Nothing that callbacks do breaks the queues. -/
theorem Ok.act {s : Timing n} (hs : s.Ok) (a : Action n) : (s.act a).Ok := by
  cases a with
  | schedule cycles type userData coreId threadSafeMode => exact hs.scheduleEvent _ _ _ _ _
  | unschedule type userData =>
    unfold Timing.act unscheduleEvent
    exact hs.cancelEvents _
  | remove type =>
    unfold Timing.act removeEvent
    exact hs.cancelEvents _

theorem Ok.foldl_act {s : Timing n} (hs : s.Ok) (as : List (Action n)) : (as.foldl Timing.act s).Ok := by
  induction as generalizing s with
  | nil => exact hs
  | cons a as ih => exact ih (hs.act a)

theorem Ok.beginAdvance {s : Timing n} (hs : s.Ok) (i : Fin n) : (s.beginAdvance i).Ok :=
  ok_of_ledger hs (hs.heap i).beginAdvance (s.timers i).beginAdvance_queued (hs.ledger.move i)

theorem Ok.fire {s : Timing n} (hs : s.Ok) {i : Fin n} {e : Event} {rest : List Event}
    (he : (s.timers i).eventQueue = e :: rest) (hdue : e.time ≤ (s.timers i).executedTicks)
    (callback : List (Action n)) : (s.fire i e callback).Ok := by
  obtain ⟨hperm, hheap⟩ := Timer.popEvent_spec he
  refine Ok.foldl_act ?_ callback
  refine ok_of_ledger hs (hheap (hs.heap i)) (hperm.map Event.ticket) ?_
  have hq : (s.timers i).queued = e.ticket :: rest.map Event.ticket := by rw [Timer.queued, he]; rfl
  have hw : (s.timers i).popEvent.waiting = (s.timers i).waiting := rfl
  rw [hw, Function.update_eq_self_iff.2 rfl]
  exact hs.ledger.fire hq hdue

theorem Ok.fireDue {i : Fin n} (fuel : Nat) {callbacks : List (List (Action n))} {s : Timing n}
    (hs : s.Ok) : (fireDue i fuel callbacks s).Ok := by
  induction fuel generalizing callbacks s with
  | zero => exact hs
  | succ fuel ih =>
    unfold Timing.fireDue
    split
    · exact hs
    · next e rest he =>
        split
        · next hdue => exact ih (hs.fire he hdue _)
        · exact hs

theorem Ok.advance {s : Timing n} (hs : s.Ok) (i : Fin n) (callbacks : List (List (Action n))) :
    (s.advance i callbacks).Ok :=
  (Ok.fireDue _ (hs.beginAdvance i)).setTimer rfl rfl

theorem Ok.step {s : Timing n} (hs : s.Ok) (op : Op n) : (s.step op).Ok := by
  cases op with
  | act a => exact hs.act a
  | setCurrentTimer i => exact ⟨hs.heap, hs.ledger⟩
  | addTicks i ticks => exact hs.setTimer rfl rfl
  | idle i => exact hs.setTimer rfl rfl
  | advance i callbacks => exact hs.advance i callbacks
  | setNextSlice i m => exact hs.setTimer rfl rfl

/-- Every run keeps the queues and the history together. -/
theorem ok_run [NeZero n] (baseTicks : Int) (ops : List (Op n)) : (run baseTicks ops).Ok := by
  unfold run
  induction ops using List.reverseRecOn with
  | nil => exact ok_init baseTicks
  | append_singleton ops op ih =>
    rw [List.foldl_append]
    exact ih.step op

/-! ## What callbacks leave alone -/

/-- Between two states no time passed on any timer, and only the current timer has new events
in its heap or a shorter slice. -/
structure Follows (s s' : Timing n) : Prop where
  downcount : ∀ i, i ≠ s.currentTimer → (s'.timers i).downcount = (s.timers i).downcount
  shorter : ∀ i, min 0 (s.timers i).downcount ≤ (s'.timers i).downcount ∧
    (s'.timers i).downcount ≤ (s.timers i).downcount
  executedTicks : ∀ i, (s'.timers i).executedTicks = (s.timers i).executedTicks
  isTimerSane : ∀ i, (s'.timers i).isTimerSane = (s.timers i).isTimerSane
  used : ∀ i, (s'.timers i).sliceLength - (s'.timers i).downcount =
    (s.timers i).sliceLength - (s.timers i).downcount
  currentTimer : s'.currentTimer = s.currentTimer
  fates : s.history.fates.length ≤ s'.history.fates.length
  old : ∀ id f, s'.history.fates[id]? = some f → id < s.history.fates.length →
    ∃ f₀, s.history.fates[id]? = some f₀ ∧ f.waiting = f₀.waiting ∧ f.timer = f₀.timer
  queued : ∀ i, ∀ e ∈ (s'.timers i).eventQueue,
    e ∈ (s.timers i).eventQueue ∨ i = s.currentTimer ∧ s.history.fates.length ≤ e.id

namespace Follows

theorem refl (s : Timing n) : Follows s s :=
  ⟨fun _ _ => rfl, fun _ => ⟨min_le_right _ _, le_rfl⟩, fun _ => rfl, fun _ => rfl, fun _ => rfl,
    rfl, le_rfl, fun _ f hf _ => ⟨f, hf, rfl, rfl⟩, fun _ _ he => .inl he⟩

theorem trans {s₁ s₂ s₃ : Timing n} (h₁ : Follows s₁ s₂) (h₂ : Follows s₂ s₃) :
    Follows s₁ s₃ where
  downcount := fun i hi => (h₂.downcount i (by rwa [h₁.currentTimer])).trans (h₁.downcount i hi)
  shorter := by
    intro i
    have := h₁.shorter i
    have := h₂.shorter i
    omega
  executedTicks := fun i => (h₂.executedTicks i).trans (h₁.executedTicks i)
  isTimerSane := fun i => (h₂.isTimerSane i).trans (h₁.isTimerSane i)
  used := fun i => (h₂.used i).trans (h₁.used i)
  currentTimer := h₂.currentTimer.trans h₁.currentTimer
  fates := h₁.fates.trans h₂.fates
  old := by
    intro id f hf hid
    obtain ⟨f₂, hf₂, hw, ht⟩ := h₂.old id f hf (hid.trans_le h₁.fates)
    obtain ⟨f₁, hf₁, hw', ht'⟩ := h₁.old id f₂ hf₂ hid
    exact ⟨f₁, hf₁, hw.trans hw', ht.trans ht'⟩
  queued := by
    intro i e he
    rcases h₂.queued i e he with he | ⟨hi, hid⟩
    · exact h₁.queued i e he
    · exact .inr ⟨hi.trans h₁.currentTimer, h₁.fates.trans hid⟩

theorem getTicks {s s' : Timing n} (h : Follows s s') (i : Fin n) :
    (s'.timers i).getTicks = (s.timers i).getTicks := by
  rw [Timer.getTicks, Timer.getTicks, h.isTimerSane, h.executedTicks, h.used]

/-- One timer is replaced by one with the same time and, for the current timer, new events. -/
theorem setTimer {s : Timing n} {i : Fin n} {t : Timer} {h : History n}
    (hd : i ≠ s.currentTimer → t.downcount = (s.timers i).downcount)
    (hshort : min 0 (s.timers i).downcount ≤ t.downcount ∧ t.downcount ≤ (s.timers i).downcount)
    (hx : t.executedTicks = (s.timers i).executedTicks)
    (hsane : t.isTimerSane = (s.timers i).isTimerSane)
    (hused : t.sliceLength - t.downcount = (s.timers i).sliceLength - (s.timers i).downcount)
    (hf : s.history.fates <+: h.fates)
    (hq : ∀ e ∈ t.eventQueue, e ∈ (s.timers i).eventQueue ∨
      i = s.currentTimer ∧ s.history.fates.length ≤ e.id) :
    Follows s { s.setTimer i t with history := h } := by
  have hcase : ∀ {motive : Timer → Fin n → Prop}, motive t i → (∀ j, motive (s.timers j) j) →
      ∀ j, motive ((s.setTimer i t).timers j) j := by
    intro motive hi hall j
    by_cases hj : j = i
    · subst hj
      rw [setTimer_self]
      exact hi
    · rw [setTimer_of_ne s hj]
      exact hall j
  refine ⟨?_, ?_, ?_, ?_, ?_, rfl, hf.length_le, fun id f hid hlt => ?_, ?_⟩
  · exact hcase (motive := fun t j => j ≠ s.currentTimer →
      t.downcount = (s.timers j).downcount) hd fun _ _ => rfl
  · exact hcase (motive := fun t j => min 0 (s.timers j).downcount ≤ t.downcount ∧
      t.downcount ≤ (s.timers j).downcount) hshort fun _ => ⟨min_le_right _ _, le_rfl⟩
  · exact hcase (motive := fun t j => t.executedTicks = (s.timers j).executedTicks) hx fun _ => rfl
  · exact hcase (motive := fun t j => t.isTimerSane = (s.timers j).isTimerSane) hsane fun _ => rfl
  · exact hcase (motive := fun t j => t.sliceLength - t.downcount =
      (s.timers j).sliceLength - (s.timers j).downcount) hused fun _ => rfl
  · obtain ⟨l, hl⟩ := hf
    show ∃ f₀, s.history.fates[id]? = some f₀ ∧ _
    have hid : h.fates[id]? = some f := hid
    rw [← hl, List.getElem?_append_left hlt] at hid
    exact ⟨f, hid, rfl, rfl⟩
  · exact hcase (motive := fun t j => ∀ e ∈ t.eventQueue, e ∈ (s.timers j).eventQueue ∨
      j = s.currentTimer ∧ s.history.fates.length ≤ e.id) hq fun _ _ he => .inl he

end Follows

theorem follows_pushWaiting (s : Timing n) (i : Fin n) (time : Int) (userData : UInt64)
    (type : EventType) : Follows s (s.pushWaiting i time userData type) :=
  Follows.setTimer (fun _ => rfl) ⟨min_le_right _ _, le_rfl⟩ rfl rfl rfl (List.prefix_append _ _)
    fun _ he => .inl he

theorem follows_emplaceEvent (s : Timing n) (cycles time : Int) (userData : UInt64)
    (type : EventType) : Follows s (s.emplaceEvent s.currentTimer cycles time userData type) := by
  have hemplace : ∀ t : Timer, t.eventQueue = (s.timers s.currentTimer).eventQueue →
      ∀ e ∈ (t.emplace (s.nextEvent time userData type)).eventQueue,
        e ∈ (s.timers s.currentTimer).eventQueue ∨
          s.currentTimer = s.currentTimer ∧ s.history.fates.length ≤ e.id := by
    intro t hq e he
    rw [(t.emplace_perm _).mem_iff, List.mem_append, List.mem_singleton, hq] at he
    rcases he with he | rfl
    · exact .inl he
    · exact .inr ⟨rfl, le_rfl⟩
  unfold emplaceEvent
  simp only
  split
  · exact Follows.setTimer (absurd rfl) ⟨min_le_right _ _, le_rfl⟩ rfl rfl rfl
      (List.prefix_append _ _) (hemplace _ rfl)
  · obtain ⟨hx, hsane, hshort, hused⟩ :=
      (s.timers s.currentTimer).forceExceptionCheck_frame cycles
    exact Follows.setTimer (absurd rfl) hshort hx hsane hused (List.prefix_append _ _)
      (hemplace _ (Timer.forceExceptionCheck_eventQueue _ _))

theorem follows_scheduleEvent (s : Timing n) (cycles : Int) (type : EventType) (userData : UInt64)
    (coreId : Option (Fin n)) (threadSafeMode : Bool) :
    Follows s (s.scheduleEvent cycles type userData coreId threadSafeMode) := by
  unfold scheduleEvent
  simp only
  split
  · exact Follows.refl s
  split
  · exact follows_pushWaiting s _ _ _ _
  split
  · next hc =>
      rw [← hc]
      exact follows_emplaceEvent s _ _ _ _
  · exact follows_pushWaiting s _ _ _ _

theorem follows_cancelEvents (s : Timing n) (p : Request → Bool) : Follows s (s.cancelEvents p) := by
  unfold cancelEvents
  split
  · exact Follows.refl s
  · have hframe := fun i => (s.timers i).removeIf_frame fun e => p e.request
    refine ⟨fun i _ => (hframe i).2.2.2.2, fun i => ?_, fun i => (hframe i).2.1,
      fun i => (hframe i).2.2.1, fun i => ?_, rfl, by simp [History.cancel], fun id f hf _ => ?_, fun i e he => .inl ?_⟩
    · simp only
      rw [(hframe i).2.2.2.2]
      exact ⟨min_le_right _ _, le_rfl⟩
    · simp only
      rw [(hframe i).2.2.2.1, (hframe i).2.2.2.2]
    · obtain ⟨f₀, hf₀, rfl⟩ := Ledger.fates_cancel hf
      exact ⟨f₀, hf₀, Ledger.cancel_waiting p f₀, Ledger.cancel_timer p f₀⟩
    · exact List.mem_of_mem_filter (((s.timers i).removeIf_perm _).mem_iff.1 he)

theorem follows_act (s : Timing n) (a : Action n) : Follows s (s.act a) := by
  cases a with
  | schedule cycles type userData coreId threadSafeMode => exact follows_scheduleEvent s _ _ _ _ _
  | unschedule type userData =>
    unfold act unscheduleEvent
    exact follows_cancelEvents s _
  | remove type =>
    unfold act removeEvent
    exact follows_cancelEvents s _

theorem follows_foldl_act (s : Timing n) (as : List (Action n)) : Follows s (as.foldl act s) := by
  induction as generalizing s with
  | nil => exact Follows.refl s
  | cons a as ih => exact (follows_act s a).trans (ih (s.act a))

theorem follows_fire {s : Timing n} {i : Fin n} {e : Event} {rest : List Event}
    (he : (s.timers i).eventQueue = e :: rest) (callback : List (Action n)) :
    Follows s (s.fire i e callback) := by
  have hpop : Follows s { s.setTimer i (s.timers i).popEvent with
      history := s.history.fire i e (s.timers i).executedTicks } := by
    refine Follows.setTimer (fun _ => rfl) ⟨min_le_right _ _, le_rfl⟩ rfl rfl rfl
      (List.prefix_refl _) fun e' he' => .inl ?_
    rw [he]
    exact List.mem_cons_of_mem _ ((Timer.popEvent_spec he).1.mem_iff.1 he')
  exact hpop.trans (follows_foldl_act _ callback)

theorem follows_fireDue (i : Fin n) (fuel : Nat) (callbacks : List (List (Action n)))
    (s : Timing n) : Follows s (fireDue i fuel callbacks s) := by
  induction fuel generalizing callbacks s with
  | zero => exact Follows.refl s
  | succ fuel ih =>
    unfold fireDue
    split
    · exact Follows.refl s
    · next e rest he =>
        split
        · exact (follows_fire he _).trans (ih _ _)
        · exact Follows.refl s

/-! ## The loop of `Advance` -/

theorem length_act (s : Timing n) (a : Action n) (i : Fin n) :
    ((s.act a).timers i).eventQueue.length ≤ (s.timers i).eventQueue.length + 1 := by
  have hpush : ∀ (j : Fin n) time userData type,
      ((s.pushWaiting j time userData type).timers i).eventQueue = (s.timers i).eventQueue := by
    intro j time userData type
    show ((s.setTimer j _).timers i).eventQueue = _
    by_cases hj : i = j
    · subst hj
      rw [setTimer_self]
    · rw [setTimer_of_ne s hj]
  have hemplace : ∀ (j : Fin n) cycles time userData type,
      ((s.emplaceEvent j cycles time userData type).timers i).eventQueue.length ≤
        (s.timers i).eventQueue.length + 1 := by
    intro j cycles time userData type
    show ((s.setTimer j _).timers i).eventQueue.length ≤ _
    by_cases hj : i = j
    · subst hj
      rw [setTimer_self, (Timer.emplace_perm _ _).length_eq, List.length_append,
        List.length_singleton]
      split
      · exact le_rfl
      · rw [Timer.forceExceptionCheck_eventQueue]
    · rw [setTimer_of_ne s hj]
      exact Nat.le_succ _
  have hcancel : ∀ p : Request → Bool, ((s.cancelEvents p).timers i).eventQueue.length ≤
      (s.timers i).eventQueue.length + 1 := by
    intro p
    unfold cancelEvents
    split
    · exact Nat.le_succ _
    · simp only
      rw [((s.timers i).removeIf_perm _).length_eq]
      exact (List.length_filter_le _ _).trans (Nat.le_succ _)
  cases a with
  | schedule cycles type userData coreId threadSafeMode =>
    unfold act scheduleEvent
    simp only
    split
    · exact Nat.le_succ _
    split
    · rw [hpush]
      exact Nat.le_succ _
    split
    · exact hemplace _ _ _ _ _
    · rw [hpush]
      exact Nat.le_succ _
  | unschedule type userData =>
    unfold act unscheduleEvent
    exact hcancel _
  | remove type =>
    unfold act removeEvent
    exact hcancel _

theorem length_foldl_act (s : Timing n) (as : List (Action n)) (i : Fin n) :
    ((as.foldl act s).timers i).eventQueue.length ≤
      (s.timers i).eventQueue.length + as.length := by
  induction as generalizing s with
  | nil => exact le_rfl
  | cons a as ih =>
    have h₁ := ih (s.act a)
    have h₂ := length_act s a i
    simp only [List.foldl_cons, List.length_cons]
    omega

theorem length_fire {s : Timing n} {i : Fin n} {e : Event} {rest : List Event}
    (he : (s.timers i).eventQueue = e :: rest) (callback : List (Action n)) :
    ((s.fire i e callback).timers i).eventQueue.length ≤ rest.length + callback.length := by
  refine (length_foldl_act _ callback i).trans ?_
  show ((s.setTimer i _).timers i).eventQueue.length + _ ≤ _
  rw [setTimer_self, (Timer.popEvent_spec he).1.length_eq]

/-- With fuel for every event the loop ends when no event of the heap is due. -/
theorem fireDue_done {i : Fin n} (fuel : Nat) {callbacks : List (List (Action n))} {s : Timing n}
    (hs : s.Ok)
    (hfuel : (s.timers i).eventQueue.length + (callbacks.map List.length).sum ≤ fuel) :
    ∀ e ∈ ((fireDue i fuel callbacks s).timers i).eventQueue,
      (s.timers i).executedTicks < e.time := by
  induction fuel generalizing callbacks s with
  | zero =>
    have hnil : (s.timers i).eventQueue = [] := List.eq_nil_of_length_eq_zero (by omega)
    intro e he
    rw [fireDue, hnil] at he
    exact absurd he (by simp)
  | succ fuel ih =>
    unfold fireDue
    split
    · next hnil =>
        intro e he
        rw [hnil] at he
        exact absurd he (by simp)
    · next e rest he =>
        split
        · next hdue =>
            have hlen := length_fire he (callbacks.headD [])
            rw [he, List.length_cons] at hfuel
            have hsum : (callbacks.headD []).length + (callbacks.tail.map List.length).sum =
                (callbacks.map List.length).sum := by
              cases callbacks <;> rfl
            have hdone := @ih callbacks.tail _ (hs.fire he hdue (callbacks.headD [])) (by omega)
            rwa [(follows_fire he _).executedTicks] at hdone
        · next hdue =>
            intro e' he'
            have := Timer.time_le_of_key_le ((hs.heap i).head_le he he')
            omega

theorem firings_act (s : Timing n) (a : Action n) :
    (s.act a).history.firings = s.history.firings := by
  have hcancel : ∀ p, (s.cancelEvents p).history.firings = s.history.firings := by
    intro p
    unfold cancelEvents
    split <;> rfl
  cases a with
  | schedule cycles type userData coreId threadSafeMode =>
    unfold act scheduleEvent
    simp only
    split
    · rfl
    split
    · rfl
    split <;> rfl
  | unschedule type userData =>
    unfold act unscheduleEvent
    exact hcancel _
  | remove type =>
    unfold act removeEvent
    exact hcancel _

theorem firings_foldl_act (s : Timing n) (as : List (Action n)) :
    (as.foldl act s).history.firings = s.history.firings := by
  induction as generalizing s with
  | nil => rfl
  | cons a as ih => exact (ih (s.act a)).trans (firings_act s a)

/-- The events that fire in the loop.  Of those with a number below `m`, which were there
before the callbacks, each was in the heap, and they come in its order. -/
theorem fireDue_firings {i : Fin n} (fuel : Nat) {callbacks : List (List (Action n))}
    {s : Timing n} (hs : s.Ok) {m : Nat} (hm : m ≤ s.history.fates.length) :
    ∃ new, (fireDue i fuel callbacks s).history.firings = s.history.firings ++ new ∧
      (∀ g ∈ new, g.timer = i ∧ g.executedTicks = (s.timers i).executedTicks) ∧
      (∀ g ∈ new, g.event.id < m → g.event ∈ (s.timers i).eventQueue) ∧
      (new.filter (·.event.id < m)).Pairwise fun g g' => g.event.key ≤ g'.event.key := by
  induction fuel generalizing callbacks s with
  | zero => exact ⟨[], by simp [fireDue], by simp, by simp, by simp⟩
  | succ fuel ih =>
    unfold fireDue
    split
    · exact ⟨[], by simp, by simp, by simp, by simp⟩
    · next e rest he =>
        split
        · next hdue =>
            have hfollows := follows_fire he (callbacks.headD [])
            obtain ⟨new, hnew, hat, hmem, hsorted⟩ := @ih callbacks.tail _
              (hs.fire he hdue (callbacks.headD [])) (hm.trans hfollows.fates)
            rw [hfollows.executedTicks] at hat
            -- an old event that fires later was in the heap behind the first one
            have hlater : ∀ g ∈ new, g.event.id < m → g.event ∈ (s.timers i).eventQueue := by
              intro g hg hid
              refine (hfollows.queued i _ (hmem g hg hid)).resolve_right fun hnew => ?_
              omega
            have hfirst : (s.fire i e (callbacks.headD [])).history.firings =
                s.history.firings ++ [_] := firings_foldl_act _ _
            rw [hnew, hfirst, List.append_assoc]
            refine ⟨_, rfl, ?_, ?_, ?_⟩
            · intro g hg
              rw [List.singleton_append, List.mem_cons] at hg
              rcases hg with rfl | hg
              · exact ⟨rfl, rfl⟩
              · exact hat g hg
            · intro g hg hid
              rw [List.singleton_append, List.mem_cons] at hg
              rcases hg with rfl | hg
              · simp [he]
              · exact hlater g hg hid
            · rw [List.filter_append, List.pairwise_append]
              refine ⟨?_, hsorted, fun g hg g' hg' => ?_⟩
              · exact (List.pairwise_singleton _ _).sublist List.filter_sublist
              · rw [List.mem_filter, List.mem_singleton] at hg
                rw [List.mem_filter] at hg'
                obtain ⟨rfl, -⟩ := hg
                exact (hs.heap i).head_le he (hlater g' hg'.1 (by simpa using hg'.2))
        · exact ⟨[], by simp, by simp, by simp, by simp⟩

end Timing

end AzaharPlus.Core
