import Mathlib.Data.List.TakeWhile
import AzaharPlus.Kernel.ReadyQueues

/-!
# The order of the ready queue

What `PopNextReadyThread` of `core/hle/kernel/thread.cpp` does to the order of the threads.  Threads that may not be
scheduled are popped on the way and pushed back when one is found: from the last to the first, and to the end of their
levels, behind threads that they were in front of.

`keepsOrder_iff`: the call returns the first thread that may be scheduled, and leaves all others in their order exactly
if every thread it passes over is alone in its level, apart from the thread that it returns.
-/

namespace AzaharPlus.Kernel

open Common

namespace KernelSystem

/-! ## Threads in line -/

/-- The threads of the levels before `stop`, in the order in which they are popped. -/
def lineUp (q : ReadyQueue) (stop : Nat) : List Nat := (List.range stop).flatMap q.data

/-- The levels that the scheduler looks at: those better than that of the running thread, or all. -/
def levels (s : KernelSystem) (core : Nat) : Nat :=
  match s.runningThread core with
  | some thread => (s.threads thread).currentPriority
  | none => threadPrioLowest + 1

/-- The first thread in line that may be scheduled. -/
def firstSchedulable (s : KernelSystem) (core : Nat) : Option Nat :=
  (lineUp (s.queue core) (s.levels core)).find? fun t => (s.threads t).canSchedule

/-- The threads in line in front of it. -/
def passedOver (s : KernelSystem) (core : Nat) : List Nat :=
  (lineUp (s.queue core) (s.levels core)).takeWhile fun t => !(s.threads t).canSchedule

/-- What is expected of `PopNextReadyThread`: it returns the first thread that may be scheduled, or else the running
one, and the queue keeps all others in their order. -/
def KeepsOrder (s : KernelSystem) (core : Nat) : Prop :=
  ∃ next q, s.popNextReadyThread core = some (next, q) ∧
    next = (s.firstSchedulable core).or (s.runningThread core) ∧
    ∀ k, q.data k = ((s.queue core).data k).filter fun t => next ≠ some t

/-- Every thread in a level has the priority of the level. -/
def Leveled (s : KernelSystem) (q : ReadyQueue) : Prop :=
  ∀ k, ∀ t ∈ q.data k, (s.threads t).currentPriority = k

variable {s : KernelSystem} {q q' : ReadyQueue} {stop : Nat}

theorem mem_lineUp {t : Nat} : t ∈ lineUp q stop ↔ ∃ k < stop, t ∈ q.data k := by
  rw [lineUp, List.mem_flatMap]
  simp only [List.mem_range]

/-- A level is the part of the line that has its priority. -/
theorem filter_lineUp (hq : s.Leveled q) {k : Nat} : ∀ {stop : Nat},
    (lineUp q stop).filter (fun t => (s.threads t).currentPriority = k) = if k < stop then q.data k else [] := by
  intro stop
  induction stop with
  | zero => rfl
  | succ stop ih =>
    rw [lineUp, List.range_succ, List.flatMap_append, List.filter_append, List.flatMap_singleton]
    rw [lineUp] at ih
    rw [ih]
    by_cases hk : stop = k
    · have hall : (q.data stop).filter (fun t => (s.threads t).currentPriority = k) = q.data stop := by
        rw [List.filter_eq_self]
        intro t ht
        exact decide_eq_true ((hq stop t ht).trans hk)
      rw [hall, if_neg (by omega), if_pos (by omega), List.nil_append, hk]
    · have hnone : (q.data stop).filter (fun t => (s.threads t).currentPriority = k) = [] := by
        rw [List.filter_eq_nil_iff]
        intro t ht hkt
        exact hk ((hq stop t ht).symm.trans (of_decide_eq_true hkt))
      rw [hnone, List.append_nil]
      by_cases hlt : k < stop
      · rw [if_pos hlt, if_pos (by omega)]
      · rw [if_neg hlt, if_neg (by omega)]

/-- Taking the front of the best level takes the front of the line. -/
theorem lineUp_setData {k x : Nat} {rest : List Nat} (hx : q.data k = x :: rest)
    (hbelow : ∀ j < k, q.data j = []) : ∀ {stop : Nat}, k < stop →
    lineUp q stop = x :: lineUp (q.setData k rest) stop := by
  have hnil : ∀ (q : ReadyQueue) {n : Nat}, (∀ j < n, q.data j = []) → lineUp q n = [] := by
    intro q n h
    rw [List.eq_nil_iff_forall_not_mem]
    intro t ht
    obtain ⟨j, hj, hmem⟩ := mem_lineUp.1 ht
    rw [h j hj] at hmem
    cases hmem
  intro stop
  induction stop with
  | zero => intro h; omega
  | succ stop ih =>
    intro hk
    rw [lineUp, lineUp, List.range_succ, List.flatMap_append, List.flatMap_append, List.flatMap_singleton,
      List.flatMap_singleton, ← lineUp, ← lineUp]
    by_cases hlt : k < stop
    · rw [ih hlt, ThreadQueueList.data_setData, if_neg (by omega), List.cons_append]
    · obtain rfl : stop = k := by omega
      have hbelow' : ∀ j < stop, (q.setData stop rest).data j = [] := by
        intro j hj
        rw [ThreadQueueList.data_setData, if_neg (by omega), hbelow j hj]
      rw [hnil q hbelow, hnil _ hbelow', ThreadQueueList.data_setData, if_pos rfl, hx]
      rfl

theorem Leveled.setData (hq : s.Leveled q) {k x : Nat} {rest : List Nat} (hx : q.data k = x :: rest) :
    s.Leveled (q.setData k rest) := by
  intro j t ht
  rw [ThreadQueueList.data_setData] at ht
  by_cases hj : j = k
  · rw [if_pos hj] at ht
    rw [hj]
    exact hq k t (by rw [hx]; exact List.mem_cons_of_mem _ ht)
  · rw [if_neg hj] at ht
    exact hq j t ht

/-! ## The loops -/

/-- What both pops of the scheduler have in common, on links as those of `q₀`. -/
def PopsBefore (stop : Nat) (q₀ : ReadyQueue) (pop : ReadyQueue → Option (Option Nat × ReadyQueue)) : Prop :=
  ∀ q : ReadyQueue, q.Sound → (∀ k, q.Linked k ↔ q₀.Linked k) → ∃ r q', pop q = some (r, q') ∧ q.Popped stop r q'

/-- The line after the loops: the threads up to the first that may be scheduled, and that one, are gone. -/
theorem popSchedulable_lineUp {q₀ : ReadyQueue} {pop : ReadyQueue → Option (Option Nat × ReadyQueue)}
    (hpop : PopsBefore stop q₀ pop) (hstop : stop ≤ threadPrioLowest + 1) : ∀ (turns : Nat) {q : ReadyQueue}
    {unscheduled : List Nat}, queuedThreads q < turns → q.Sound → (∀ k, q.Linked k ↔ q₀.Linked k) → s.Leveled q →
    ∃ q', s.popSchedulable pop turns q unscheduled =
        some ((lineUp q stop).find? (fun t => (s.threads t).canSchedule), q',
          unscheduled ++ (lineUp q stop).takeWhile fun t => !(s.threads t).canSchedule) ∧
      lineUp q' stop = ((lineUp q stop).dropWhile fun t => !(s.threads t).canSchedule).tail ∧
      (∀ k, stop ≤ k → q'.data k = q.data k) ∧ s.Leveled q' := by
  intro turns
  induction turns with
  | zero => intro q unscheduled hturns; omega
  | succ turns ih =>
    intro q unscheduled hturns hsound hlinked hleveled
    obtain ⟨r, q', hr, hpopped⟩ := hpop q hsound hlinked
    obtain ⟨rfl, rfl, hempty⟩ | ⟨k, x, rest, hk, hx, hbelow, rfl, rfl⟩ := hpopped
    · have hnil : lineUp q' stop = [] := by
        rw [List.eq_nil_iff_forall_not_mem]
        intro t ht
        obtain ⟨j, hj, hmem⟩ := mem_lineUp.1 ht
        rw [hempty j hj] at hmem
        cases hmem
      refine ⟨q', ?_, by rw [hnil]; rfl, fun _ _ => rfl, hleveled⟩
      rw [popSchedulable, hr, hnil]
      simp
    · rw [lineUp_setData hx hbelow hk]
      have hdata : ∀ j, stop ≤ j → (q.setData k rest).data j = q.data j := by
        intro j hj
        rw [ThreadQueueList.data_setData, if_neg (by omega)]
      by_cases hc : (s.threads x).canSchedule = true
      · refine ⟨q.setData k rest, ?_, ?_, hdata, hleveled.setData hx⟩
        · rw [popSchedulable, hr]
          simp [hc]
        · simp [hc]
      · have hlt := @queuedThreads_setData_lt q k x rest (by omega) hx
        have hlk : q.Linked k := hsound.linked_of_data k (by rw [hx]; simp)
        obtain ⟨q', hrun, hline, hrest, hleveled'⟩ :
            ∃ q', s.popSchedulable pop turns (q.setData k rest) (unscheduled ++ [x]) = _ ∧ _ :=
          ih (by omega) (hsound.setData fun _ => hlk) hlinked (hleveled.setData hx)
        refine ⟨q', ?_, ?_, fun j hj => (hrest j hj).trans (hdata j hj), hleveled'⟩
        · rw [popSchedulable, hr]
          simp [hc, hrun]
        · simp [hc, hline]

/-- The threads laid aside go to the ends of their levels, the last one first. -/
theorem data_putBack (s : KernelSystem) (q : ReadyQueue) (unscheduled : List Nat) (k : Nat) :
    (s.putBack q unscheduled).data k =
      q.data k ++ (unscheduled.filter fun t => (s.threads t).currentPriority = k).reverse := by
  have hfold : ∀ (l : List Nat) (q : ReadyQueue),
      (l.foldl (fun q t => q.pushBack (s.threads t).currentPriority t) q).data k =
        q.data k ++ l.filter fun t => (s.threads t).currentPriority = k := by
    intro l
    induction l with
    | nil => intro q; simp
    | cons t l ih =>
      intro q
      rw [List.foldl_cons, ih, ThreadQueueList.pushBack, ThreadQueueList.data_setData]
      by_cases hk : (s.threads t).currentPriority = k
      · rw [if_pos hk.symm, hk, List.filter_cons_of_pos (by simpa using hk), List.append_assoc]
        rfl
      · rw [if_neg (Ne.symm hk), List.filter_cons_of_neg (by simpa using hk)]
  rw [putBack, hfold, List.filter_reverse]

/-! ## The order -/

/-- Threads that go behind the others in reverse order stay in place only if there are none, or one and no others. -/
theorem append_reverse_eq_iff {A B : List Nat} (h : (A ++ B).Nodup) :
    B ++ A.reverse = A ++ B ↔ A = [] ∨ (B = [] ∧ ∃ u, A = [u]) := by
  constructor
  · intro heq
    cases A with
    | nil => exact Or.inl rfl
    | cons u A =>
      rw [List.cons_append, List.nodup_cons] at h
      cases B with
      | cons v B =>
        -- the first of the others would be in front now
        obtain ⟨rfl, -⟩ := List.cons.inj heq
        exact absurd (List.mem_append_right A List.mem_cons_self) h.1
      | nil =>
        refine Or.inr ⟨rfl, u, ?_⟩
        rw [List.nil_append, List.append_nil, List.reverse_cons] at heq
        cases hA : A.reverse with
        | nil => rw [List.reverse_eq_nil_iff.1 hA]
        | cons v B =>
          rw [hA] at heq
          obtain ⟨rfl, -⟩ := List.cons.inj heq
          have hmem : v ∈ A := by
            rw [← List.mem_reverse, hA]
            exact List.mem_cons_self
          exact absurd (List.mem_append_left [] hmem) h.1
  · rintro (rfl | ⟨rfl, u, rfl⟩)
    · simp
    · rfl

theorem Queued.leveled (h : s.Queued) (core : Nat) : s.Leveled (s.queue core) :=
  fun _ _ ht => (h.of_mem ht).2.2.1

theorem Queued.nodup_data (h : s.Queued) (core k : Nat) : ((s.queue core).data k).Nodup := by
  rw [List.nodup_iff_count_le_one]
  intro t
  rw [h.count]
  split <;> omega

/-- The running thread is in no queue. -/
theorem Queued.running_not_mem (h : s.Queued) {core t k : Nat} (ht : s.runningThread core = some t) :
    t ∉ (s.queue core).data k := by
  intro hmem
  obtain ⟨-, -, hstatus, -⟩ := h.runningThread ht
  obtain ⟨hready, -⟩ := h.of_mem hmem
  rw [hready] at hstatus
  cases hstatus

/-- What `PopNextReadyThread` returns, and the line that it leaves. -/
theorem popNextReadyThread_lineUp (h : s.Queued) (core : Nat) :
    ∃ q, s.popNextReadyThread core =
        some ((s.firstSchedulable core).or (s.runningThread core), s.putBack q (s.passedOver core)) ∧
      lineUp q (s.levels core) = ((lineUp (s.queue core) (s.levels core)).dropWhile
        fun t => !(s.threads t).canSchedule).tail ∧
      (∀ k, s.levels core ≤ k → q.data k = (s.queue core).data k) ∧ s.Leveled q := by
  rw [firstSchedulable, passedOver, levels]
  cases hrun : s.runningThread core with
  | some thread =>
    obtain ⟨hk, hc, -, -⟩ := h.runningThread hrun
    have hlinked := h.linked thread hk
    rw [hc] at hlinked
    have hpop : PopsBefore (s.threads thread).currentPriority (s.queue core)
        (·.popFirstBetter (s.threads thread).currentPriority) := by
      intro q hq hl
      exact ThreadQueueList.popFirstBetter_popped hq ((hl _).2 hlinked)
    obtain ⟨q, hpopped, hline⟩ : ∃ q, s.popSchedulable _ (queuedThreads (s.queue core) + 1) (s.queue core) [] =
        _ ∧ _ := popSchedulable_lineUp hpop ((h.sound core).bound _ hlinked).le _ (Nat.lt_succ_self _)
      (h.sound core) (fun _ => Iff.rfl) (h.leveled core)
    refine ⟨q, ?_, hline⟩
    rw [popNextReadyThread, hrun]
    dsimp only
    rw [queue] at hpopped
    rw [hpopped, Option.map_some, List.nil_append, queue]
    cases (lineUp (s.managers core).readyQueue (s.threads thread).currentPriority).find?
      fun t => (s.threads t).canSchedule <;> rfl
  | none =>
    have hpop : PopsBefore (threadPrioLowest + 1) (s.queue core) (·.popFirst) :=
      fun q hq _ => ThreadQueueList.popFirst_popped hq
    obtain ⟨q, hpopped, hline⟩ : ∃ q, s.popSchedulable _ (queuedThreads (s.queue core) + 1) (s.queue core) [] =
        _ ∧ _ := popSchedulable_lineUp hpop le_rfl _ (Nat.lt_succ_self _) (h.sound core) (fun _ => Iff.rfl)
      (h.leveled core)
    refine ⟨q, ?_, hline⟩
    rw [popNextReadyThread, hrun]
    dsimp only
    rw [queue] at hpopped
    rw [hpopped, Option.map_some, List.nil_append, queue, Option.or_none]

/-- The threads in line behind the one that is returned. -/
def notReached (s : KernelSystem) (core : Nat) : List Nat :=
  ((lineUp (s.queue core) (s.levels core)).dropWhile fun t => !(s.threads t).canSchedule).tail

/-- The part of a list of threads that belongs to a level. -/
def ofLevel (s : KernelSystem) (k : Nat) (l : List Nat) : List Nat :=
  l.filter fun t => (s.threads t).currentPriority = k

/-- The line consists of the threads passed over, the thread returned, and the rest. -/
theorem lineUp_eq (s : KernelSystem) (core : Nat) :
    lineUp (s.queue core) (s.levels core) =
      s.passedOver core ++ ((s.firstSchedulable core).toList ++ s.notReached core) ∧
    (s.firstSchedulable core = none → s.notReached core = []) ∧
    ∀ u ∈ s.passedOver core, s.firstSchedulable core ≠ some u := by
  have hsplit := List.takeWhile_append_dropWhile (p := fun t => !(s.threads t).canSchedule)
    (l := lineUp (s.queue core) (s.levels core))
  have hfind : s.firstSchedulable core = ((lineUp (s.queue core) (s.levels core)).dropWhile
      fun t => !(s.threads t).canSchedule).head? := by
    rw [firstSchedulable]
    induction lineUp (s.queue core) (s.levels core) with
    | nil => rfl
    | cons t l ih =>
      by_cases hc : (s.threads t).canSchedule = true
      · simp [hc]
      · simp [hc, ih]
  refine ⟨?_, ?_, ?_⟩
  · conv_lhs => rw [← hsplit]
    rw [hfind, passedOver, notReached]
    congr 1
    cases (lineUp (s.queue core) (s.levels core)).dropWhile fun t => !(s.threads t).canSchedule <;> rfl
  · intro hnone
    rw [hfind, List.head?_eq_none_iff] at hnone
    rw [notReached, hnone]
    rfl
  · intro u hu hsome
    have hcan := List.find?_some hsome
    have hnot := List.mem_takeWhile_imp hu
    rw [hcan] at hnot
    cases hnot

/-- A level that is looked at, before and after: threads passed over, the thread returned, and the rest. -/
theorem level_split (h : s.Queued) {core k : Nat} (hk : k < s.levels core) :
    (s.queue core).data k = s.ofLevel k (s.passedOver core) ++
      (s.ofLevel k (s.firstSchedulable core).toList ++ s.ofLevel k (s.notReached core)) ∧
    ((s.queue core).data k).filter (fun t => (s.firstSchedulable core).or (s.runningThread core) ≠ some t) =
      s.ofLevel k (s.passedOver core) ++ s.ofLevel k (s.notReached core) := by
  obtain ⟨hline, hnone, hpassed⟩ := lineUp_eq s core
  have hdata : s.ofLevel k (lineUp (s.queue core) (s.levels core)) = _ := filter_lineUp (h.leveled core)
  rw [if_pos hk, hline, ofLevel, List.filter_append, List.filter_append] at hdata
  refine ⟨hdata.symm, ?_⟩
  have hnodup := h.nodup_data core k
  rw [← hdata] at hnodup ⊢
  rw [List.filter_append, List.filter_append]
  cases hfirst : s.firstSchedulable core with
  | none =>
    rw [hnone hfirst, Option.none_or]
    simp only [Option.toList_none, List.filter_nil, List.append_nil, ofLevel]
    rw [List.filter_eq_self]
    intro t ht
    rw [decide_eq_true_iff]
    intro hrunning
    refine h.running_not_mem hrunning (k := k) ?_
    rw [← hdata, hfirst, hnone hfirst]
    simpa [ofLevel] using ht
  | some x =>
    rw [hfirst] at hnodup
    rw [Option.some_or]
    have hne : ∀ t ∈ s.ofLevel k (s.passedOver core) ++ s.ofLevel k (s.notReached core), t ≠ x := by
      rintro t ht rfl
      rcases List.mem_append.1 ht with ht | ht
      · exact hpassed t (List.mem_of_mem_filter ht) hfirst
      · have hx : (s.threads t).currentPriority = k := of_decide_eq_true (List.mem_filter.1 ht).2
        rw [Option.toList_some, List.filter_cons_of_pos (by simpa using hx), List.filter_nil,
          List.singleton_append] at hnodup
        exact (List.nodup_cons.1 (List.nodup_append.1 hnodup).2.1).1 ht
    have hkeep : ∀ {l : List Nat}, (∀ t ∈ l, t ≠ x) → l.filter (fun t => some x ≠ some t) = l := by
      intro l hl
      rw [List.filter_eq_self]
      intro t ht
      exact decide_eq_true fun heq => hl t ht (Option.some.inj heq).symm
    have hgone : (List.filter (fun t => (s.threads t).currentPriority = k) (some x).toList).filter
        (fun t => some x ≠ some t) = [] := by
      rw [List.filter_eq_nil_iff]
      intro t ht
      have htx := List.mem_of_mem_filter ht
      rw [Option.toList_some, List.mem_singleton] at htx
      simp [htx]
    rw [hgone, List.nil_append]
    rw [ofLevel, ofLevel] at hne
    rw [hkeep fun t ht => hne t (List.mem_append_left _ ht), hkeep fun t ht => hne t (List.mem_append_right _ ht)]
    rfl

/-- A level that is not looked at keeps its threads. -/
theorem level_beyond (h : s.Queued) {core k : Nat} (hk : s.levels core ≤ k) :
    s.ofLevel k (s.passedOver core) = [] ∧
    ((s.queue core).data k).filter (fun t => (s.firstSchedulable core).or (s.runningThread core) ≠ some t) =
      (s.queue core).data k := by
  obtain ⟨hline, -⟩ := lineUp_eq s core
  have hout : ∀ t ∈ lineUp (s.queue core) (s.levels core), (s.threads t).currentPriority ≠ k := by
    intro t ht
    obtain ⟨j, hj, hmem⟩ := mem_lineUp.1 ht
    rw [h.leveled core j t hmem]
    omega
  refine ⟨?_, ?_⟩
  · rw [ofLevel, List.filter_eq_nil_iff]
    intro t ht
    rw [decide_eq_true_iff]
    exact hout t (by rw [hline]; exact List.mem_append_left _ ht)
  · rw [List.filter_eq_self]
    intro t ht
    rw [decide_eq_true_iff]
    intro hnext
    cases hfirst : s.firstSchedulable core with
    | none =>
      rw [hfirst, Option.none_or] at hnext
      exact h.running_not_mem hnext ht
    | some x =>
      rw [hfirst, Option.some_or] at hnext
      obtain rfl := Option.some.inj hnext
      exact hout x (List.mem_of_find?_eq_some hfirst) (h.leveled core k x ht)

/-- `PopNextReadyThread` returns the first thread that may be scheduled and leaves the others in their order, exactly if
every thread that it passes over is alone in its level, apart from the thread that it returns. -/
theorem keepsOrder_iff (s : KernelSystem) (h : s.Queued) (core : Nat) :
    s.KeepsOrder core ↔ ∀ u ∈ s.passedOver core, ∀ v ∈ (s.queue core).data (s.threads u).currentPriority,
      v = u ∨ s.firstSchedulable core = some v := by
  obtain ⟨q, hpop, hline, hbeyond, hleveled⟩ := popNextReadyThread_lineUp h core
  have hkeeps : s.KeepsOrder core ↔ ∀ k < s.levels core,
      s.ofLevel k (s.passedOver core) = [] ∨
        (s.ofLevel k (s.notReached core) = [] ∧ ∃ u, s.ofLevel k (s.passedOver core) = [u]) := by
    have hlevel : ∀ k, ((s.putBack q (s.passedOver core)).data k = ((s.queue core).data k).filter
        fun t => (s.firstSchedulable core).or (s.runningThread core) ≠ some t) ↔
        (k < s.levels core → s.ofLevel k (s.passedOver core) = [] ∨
          (s.ofLevel k (s.notReached core) = [] ∧ ∃ u, s.ofLevel k (s.passedOver core) = [u])) := by
      intro k
      rw [data_putBack]
      by_cases hk : k < s.levels core
      · obtain ⟨hdata, htarget⟩ := level_split h hk
        have hrest : s.ofLevel k (lineUp q (s.levels core)) = _ := filter_lineUp hleveled
        rw [if_pos hk, hline] at hrest
        rw [htarget, ← hrest, forall_prop_of_true hk]
        refine append_reverse_eq_iff ?_
        have hnodup := h.nodup_data core k
        rw [hdata] at hnodup
        exact hnodup.sublist (List.Sublist.append_left (List.sublist_append_right _ _) _)
      · obtain ⟨hnone, htarget⟩ := level_beyond h (not_lt.1 hk)
        rw [ofLevel] at hnone
        rw [htarget, hbeyond k (not_lt.1 hk), hnone, List.reverse_nil, List.append_nil]
        exact iff_of_true rfl fun hlt => absurd hlt hk
    constructor
    · rintro ⟨next, q', hpop', rfl, hdata⟩ k
      obtain ⟨-, rfl⟩ := Prod.mk.inj (Option.some.inj (hpop.symm.trans hpop'))
      exact (hlevel k).1 (hdata k)
    · intro hall
      exact ⟨_, _, hpop, rfl, fun k => (hlevel k).2 (hall k)⟩
  obtain ⟨hsplit, -, hpassed⟩ := lineUp_eq s core
  rw [hkeeps]
  constructor
  · intro hall u hu v hv
    have hk : (s.threads u).currentPriority < s.levels core := by
      have hmem : u ∈ lineUp (s.queue core) (s.levels core) := by
        rw [hsplit]
        exact List.mem_append_left _ hu
      obtain ⟨j, hj, hmem⟩ := mem_lineUp.1 hmem
      rw [h.leveled core j u hmem]
      exact hj
    have humem : u ∈ s.ofLevel (s.threads u).currentPriority (s.passedOver core) :=
      List.mem_filter.2 ⟨hu, decide_eq_true rfl⟩
    obtain hnil | ⟨hnil, w, hw⟩ := hall _ hk
    · rw [hnil] at humem
      cases humem
    · rw [hw, List.mem_singleton] at humem
      rw [(level_split h hk).1, hw, hnil, List.append_nil, List.singleton_append, List.mem_cons] at hv
      rcases hv with rfl | hv
      · exact Or.inl humem.symm
      · exact Or.inr (Option.mem_toList.1 (List.mem_of_mem_filter hv))
  · intro hall k hk
    rcases hA : s.ofLevel k (s.passedOver core) with - | ⟨u, A⟩
    · exact Or.inl rfl
    refine Or.inr ?_
    have humem : u ∈ s.ofLevel k (s.passedOver core) := by
      rw [hA]
      exact List.mem_cons_self
    obtain ⟨hu, hprio⟩ := List.mem_filter.1 humem
    have hdata := (level_split h hk).1
    have hnodup := h.nodup_data core k
    rw [hdata, hA] at hnodup
    -- every thread of the level is this one or the one returned
    have hothers : ∀ v ∈ (s.queue core).data k, v = u ∨ s.firstSchedulable core = some v := by
      rw [← of_decide_eq_true hprio]
      exact hall u hu
    rw [List.cons_append, List.nodup_cons] at hnodup
    constructor
    · rw [List.eq_nil_iff_forall_not_mem]
      intro v hv
      have hvmem : v ∈ (s.queue core).data k := by
        rw [hdata]
        exact List.mem_append_right _ (List.mem_append_right _ hv)
      rcases hothers v hvmem with rfl | hfirst
      · exact hnodup.1 (List.mem_append_right _ (List.mem_append_right _ hv))
      · have hx : v ∈ s.ofLevel k (s.firstSchedulable core).toList := by
          rw [hfirst]
          exact List.mem_filter.2 ⟨List.mem_singleton_self v, (List.mem_filter.1 hv).2⟩
        exact (List.nodup_append.1 (List.nodup_append.1 hnodup.2).2.1).2.2 v hx v hv rfl
    · refine ⟨u, ?_⟩
      cases A with
      | nil => rfl
      | cons v A =>
          have hv : v ∈ s.ofLevel k (s.passedOver core) := by
            rw [hA]
            exact List.mem_cons_of_mem _ List.mem_cons_self
          have hvmem : v ∈ (s.queue core).data k := by
            rw [hdata]
            exact List.mem_append_left _ hv
          rcases hothers v hvmem with rfl | hfirst
          · exact absurd (List.mem_append_left _ List.mem_cons_self) hnodup.1
          · exact absurd hfirst (hpassed v (List.mem_of_mem_filter hv))

/-- A thread that may not be scheduled is alone in its level, in front of one that may. -/
def oneAside : List KernelOp :=
  [.createThread 1 48 0 true, .createThread 2 50 0 true, .setCanSchedule 1 false]

theorem keepsOrder_oneAside : ∃ s, initial.run oneAside = some s ∧ s.Queued ∧ s.KeepsOrder 0 := by
  obtain ⟨s, hs⟩ := Option.isSome_iff_exists.1 (show (initial.run oneAside).isSome = true by decide +kernel)
  have hqueued := queued_reachable (Reachable.initial.run hs)
  have hfacts : (initial.run oneAside).map (fun s => decide (s.passedOver 0 = [1] ∧
      (s.queue 0).data (s.threads 1).currentPriority = [1])) = some true := by decide +kernel
  rw [hs] at hfacts
  obtain ⟨hpassed, hlevel⟩ := of_decide_eq_true (Option.some.inj hfacts)
  refine ⟨s, hs, hqueued, (keepsOrder_iff s hqueued 0).2 fun u hu v hv => Or.inl ?_⟩
  rw [hpassed, List.mem_singleton] at hu
  subst hu
  rw [hlevel, List.mem_singleton] at hv
  exact hv

/-- Two threads of one level may not be scheduled. -/
def twoAside : List KernelOp :=
  [.createThread 1 48 0 true, .createThread 2 48 0 true, .createThread 3 50 0 true, .setCanSchedule 1 false,
    .setCanSchedule 2 false]

/-- They change places when the scheduler passes over them. -/
theorem passedOver_threads_change_places :
    ¬ ∀ s : KernelSystem, s.Queued → ∀ core, s.KeepsOrder core := by
  intro hall
  obtain ⟨s, hs⟩ := Option.isSome_iff_exists.1 (show (initial.run twoAside).isSome = true by decide +kernel)
  obtain ⟨next, q, hpop, -, hdata⟩ := hall s (queued_reachable (Reachable.initial.run hs)) 0
  have hfacts : (initial.run twoAside).map (fun s => decide ((s.queue 0).data 48 = [1, 2] ∧
      (s.popNextReadyThread 0).map (fun r => (r.1, r.2.data 48)) = some (some 3, [2, 1]))) = some true := by
    decide +kernel
  rw [hs] at hfacts
  obtain ⟨hbefore, hafter⟩ := of_decide_eq_true (Option.some.inj hfacts)
  rw [hpop, Option.map_some, Option.some.injEq, Prod.mk.injEq] at hafter
  obtain ⟨rfl, hlevel⟩ := hafter
  have hkept := hdata 48
  rw [hbefore, hlevel] at hkept
  exact absurd hkept (by decide)

end KernelSystem

end AzaharPlus.Kernel
