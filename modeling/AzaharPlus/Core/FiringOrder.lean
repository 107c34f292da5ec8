import AzaharPlus.Core.TimingRuns

/-!
# The order in which events fire

What a timer fires while no callback does anything: the events of its heap, the first one each time.

* `fires_advance` — the firings of one `Advance`, and what it leaves in the heap;
* `Drained.next` — another `Advance` after one more tick;
* `split_of_fires` — the events before and behind one of those that fired.
-/

namespace AzaharPlus.Core

namespace Timer

/-- The events with the numbers that `MoveEvents` gives them. -/
def numbered : Nat → List Event → List Event
  | _, [] => []
  | k, e :: l => { e with fifoOrder := k } :: numbered ((k + 1) % 2 ^ 64) l

theorem foldl_emplace_perm (t : Timer) (l : List Event) :
    (l.foldl emplace t).eventQueue.Perm (t.eventQueue ++ numbered t.eventFifoId l) := by
  induction l generalizing t with
  | nil => simp [numbered]
  | cons e l ih =>
    refine (ih (t.emplace e)).trans (((t.emplace_perm e).append_right _).trans ?_)
    simp [numbered, emplace]

theorem foldl_emplace_eventFifoId (t : Timer) {l : List Event}
    (h : t.eventFifoId + l.length < 2 ^ 64) :
    (l.foldl emplace t).eventFifoId = t.eventFifoId + l.length := by
  induction l generalizing t with
  | nil => rfl
  | cons e l ih =>
    rw [List.length_cons] at h ⊢
    have hnext : (t.emplace e).eventFifoId = t.eventFifoId + 1 := Nat.mod_eq_of_lt (by omega)
    rw [List.foldl_cons, ih _ (by omega), hnext]
    omega

theorem mem_numbered {k : Nat} {l : List Event} (h : k + l.length ≤ 2 ^ 64) {e : Event}
    (he : e ∈ numbered k l) : (k ≤ e.fifoOrder ∧ e.fifoOrder < k + l.length) ∧
      ∃ e₀ ∈ l, e.request = e₀.request := by
  induction l generalizing k with
  | nil => cases he
  | cons e₁ l ih =>
    rw [List.length_cons] at h ⊢
    rw [numbered, List.mem_cons] at he
    rcases he with rfl | he
    · exact ⟨⟨le_rfl, by dsimp only; omega⟩, e₁, List.mem_cons_self, rfl⟩
    · have hlt : k + 1 < 2 ^ 64 := by
        cases l with
        | nil => cases he
        | cons e₂ l =>
          rw [List.length_cons] at h
          omega
      rw [Nat.mod_eq_of_lt hlt] at he
      obtain ⟨hbounds, e₀, he₀, hreq⟩ := ih (by omega) he
      exact ⟨by omega, e₀, List.mem_cons_of_mem _ he₀, hreq⟩

end Timer

namespace Timing

variable {n : Nat}

/-- From one state to another a timer fired these events, the first of its heap each time. -/
structure Fires (i : Fin n) (s s' : Timing n) (l : List Event) : Prop where
  firings : s'.history.firings.map (·.event) = s.history.firings.map (·.event) ++ l
  perm : (l ++ (s'.timers i).eventQueue).Perm (s.timers i).eventQueue
  sorted : l.Pairwise fun e e' => e.key ≤ e'.key
  first : ∀ e ∈ l, ∀ e' ∈ (s'.timers i).eventQueue, e.key ≤ e'.key

namespace Fires

variable {i : Fin n} {s s₁ s₂ : Timing n}

theorem of_eq (hfirings : s₁.history.firings = s.history.firings)
    (hqueue : (s₁.timers i).eventQueue = (s.timers i).eventQueue) : Fires i s s₁ [] :=
  ⟨by rw [hfirings, List.append_nil], by rw [hqueue, List.nil_append], List.Pairwise.nil, by simp⟩

theorem trans {l l' : List Event} (h : Fires i s s₁ l) (h' : Fires i s₁ s₂ l') :
    Fires i s s₂ (l ++ l') where
  firings := by rw [h'.firings, h.firings, List.append_assoc]
  perm := by
    rw [List.append_assoc]
    exact (h'.perm.append_left l).trans h.perm
  sorted := List.pairwise_append.2 ⟨h.sorted, h'.sorted, fun e he e' he' =>
    h.first e he e' (h'.perm.subset (List.mem_append_left _ he'))⟩
  first := by
    intro e he e' he'
    rcases List.mem_append.1 he with he | he
    · exact h.first e he e' (h'.perm.subset (List.mem_append_right _ he'))
    · exact h'.first e he e' he'

end Fires

/-- The first event of the heap fires. -/
theorem fires_fire {i : Fin n} {s : Timing n} (hheap : (s.timers i).HeapOk) {e : Event}
    {rest : List Event} (he : (s.timers i).eventQueue = e :: rest) :
    Fires i s (s.fire i e []) [e] := by
  have hpop := (Timer.popEvent_spec he).1
  have hqueue : ((s.fire i e []).timers i).eventQueue = (s.timers i).popEvent.eventQueue :=
    congrArg Timer.eventQueue (setTimer_self s i _)
  refine ⟨List.map_append, ?_, List.pairwise_singleton _ _, ?_⟩
  · rw [hqueue, he]
    exact hpop.cons e
  · intro e' he' e'' he''
    rw [hqueue] at he''
    obtain rfl := List.mem_singleton.1 he'
    exact hheap.head_le he (by rw [he]; exact List.mem_cons_of_mem _ (hpop.subset he''))

/-- The loop of `Advance` fires what is due, and changes nothing else of the timer. -/
theorem fires_fireDue {i : Fin n} (fuel : Nat) {s : Timing n} (hheap : (s.timers i).HeapOk)
    (hfuel : (s.timers i).eventQueue.length ≤ fuel) :
    ∃ l q, Fires i s (fireDue i fuel [] s) l ∧
      (fireDue i fuel [] s).timers i = { s.timers i with eventQueue := q } ∧
      Heap.IsHeap Event.key q ∧ ∀ e ∈ q, (s.timers i).executedTicks < e.time := by
  induction fuel generalizing s with
  | zero =>
    have hnil : (s.timers i).eventQueue = [] := List.eq_nil_of_length_eq_zero (by omega)
    exact ⟨[], (s.timers i).eventQueue, .of_eq rfl rfl, rfl, hheap, by simp [hnil]⟩
  | succ fuel ih =>
    unfold fireDue
    split
    · next hnil =>
      exact ⟨[], (s.timers i).eventQueue, .of_eq rfl rfl, rfl, hheap, by simp [hnil]⟩
    · next e rest he =>
      split
      · next hdue =>
        have htimer : (s.fire i e []).timers i = (s.timers i).popEvent := setTimer_self s i _
        obtain ⟨hpop, hkeep⟩ := Timer.popEvent_spec he
        obtain ⟨l, q, hfires, htimer', hq, hlater⟩ := @ih (s.fire i e [])
          (by rw [htimer]; exact hkeep hheap)
          (by rw [htimer, hpop.length_eq]; rw [he, List.length_cons] at hfuel; omega)
        rw [htimer] at htimer' hlater
        exact ⟨e :: l, q, (fires_fire hheap he).trans hfires, htimer', hq, hlater⟩
      · next hdue =>
        refine ⟨[], _, .of_eq rfl rfl, rfl, hheap, fun e' he' => ?_⟩
        have := Timer.time_le_of_key_le (hheap.head_le he he')
        omega

/-- A timer that was just advanced to a time. -/
structure Drained (i : Fin n) (s : Timing n) (now : Int) : Prop where
  heap : (s.timers i).HeapOk
  tsQueue : (s.timers i).tsQueue = []
  sliceLength : (s.timers i).sliceLength = 0
  downcount : (s.timers i).downcount = 0
  executedTicks : (s.timers i).executedTicks = now
  later : ∀ e ∈ (s.timers i).eventQueue, now < e.time

theorem fires_advance {i : Fin n} {s : Timing n} (hheap : (s.timers i).HeapOk) :
    ∃ l, Fires i (s.beginAdvance i) (s.advance i []) l ∧
      Drained i (s.advance i []) ((s.timers i).executedTicks +
        ((s.timers i).sliceLength - (s.timers i).downcount)) := by
  have hbegin : (s.beginAdvance i).timers i = (s.timers i).beginAdvance := setTimer_self s i _
  obtain ⟨fuel, hself, hfuel⟩ := advance_timers_self s i []
  obtain ⟨l, q, hfires, htimer, hq, hlater⟩ := @fires_fireDue n i fuel (s.beginAdvance i)
    (by rw [hbegin]; exact hheap.beginAdvance) hfuel.ge
  rw [htimer, hbegin] at hself
  have hnow := (s.timers i).beginAdvance_executedTicks
  refine ⟨l, ⟨?_, ?_, hfires.sorted, ?_⟩, ?_⟩
  · rw [hfuel] at hfires
    exact hfires.firings
  · rw [hself]
    have hperm := hfires.perm
    rwa [htimer] at hperm
  · rw [hself]
    have hfirst := hfires.first
    rwa [htimer] at hfirst
  · refine ⟨?_, ?_, ?_, ?_, ?_, ?_⟩ <;> rw [hself]
    · exact hq
    · rfl
    · rfl
    · rfl
    · exact hnow
    · rw [← hnow, ← hbegin]
      exact hlater

/-- After one more tick the timer is advanced again. -/
theorem Drained.next {i : Fin n} {s : Timing n} {now : Int} (h : Drained i s now) :
    ∃ l, Fires i s ((s.step (.addTicks i 1)).step (.advance i [])) l ∧
      Drained i ((s.step (.addTicks i 1)).step (.advance i [])) (now + 1) := by
  have htimer : (s.step (.addTicks i 1)).timers i = (s.timers i).addTicks 1 := setTimer_self s i _
  obtain ⟨l, hfires, hdrained⟩ := @fires_advance n i (s.step (.addTicks i 1))
    (by rw [htimer]; exact h.heap)
  have hqueue : (((s.step (.addTicks i 1)).beginAdvance i).timers i).eventQueue =
      (s.timers i).eventQueue := by
    show ((Timing.setTimer _ i _).timers i).eventQueue = _
    rw [setTimer_self, htimer, Timer.beginAdvance, Timer.moveEvents, Timer.addTicks, h.tsQueue]
    rfl
  have hstart : Fires i s ((s.step (.addTicks i 1)).beginAdvance i) [] := .of_eq rfl hqueue
  refine ⟨l, hstart.trans hfires, ?_⟩
  rw [htimer, Timer.addTicks, h.downcount, h.sliceLength, h.executedTicks] at hdrained
  exact hdrained

/-- An event of the heap that is due at the end has fired, with the others of the heap before it and
behind it. -/
theorem split_of_fires {i : Fin n} {s s' : Timing n} {l M : List Event} {x : Event}
    (h : Fires i s s' l) (hqueue : (s.timers i).eventQueue.Perm (x :: M))
    (hlater : ∀ e ∈ (s'.timers i).eventQueue, x.time < e.time) :
    ∃ l₁ l₂, l = l₁ ++ x :: l₂ ∧ (l₁ ++ l₂ ++ (s'.timers i).eventQueue).Perm M ∧
      (∀ e ∈ l₁, e.key ≤ x.key) ∧ ∀ e ∈ l₂, x.key ≤ e.key := by
  have hperm := h.perm.trans hqueue
  have hx : x ∈ l := by
    refine (List.mem_append.1 (hperm.symm.subset List.mem_cons_self)).resolve_right fun hin => ?_
    exact lt_irrefl _ (hlater x hin)
  obtain ⟨l₁, l₂, rfl⟩ := List.append_of_mem hx
  have hsorted := h.sorted
  rw [List.pairwise_append, List.pairwise_cons] at hsorted
  refine ⟨l₁, l₂, rfl, ?_, fun e he => hsorted.2.2 e he x List.mem_cons_self, hsorted.2.1.1⟩
  refine List.Perm.cons_inv (a := x) (List.Perm.trans ?_ hperm)
  simp only [List.append_assoc, List.cons_append]
  exact List.perm_middle.symm

end Timing

end AzaharPlus.Core
