import AzaharPlus.Kernel.Threads
import Mathlib.Algebra.Order.BigOperators.Group.List
import Mathlib.Algebra.Order.Ring.Nat

/-!
# The ready queues hold the threads that are ready

Status, priority and place in the queue of a thread are written separately, by many operations.
`Queued` is what they agree on between two operations: a thread stands in the queue of its core
once, at the level of its current priority, if it is ready, and in no queue otherwise; and the
level of every thread was entered into the links.  Every operation keeps it (`queued_step`), so it
holds in every state that can be reached, and the pops of the scheduler meet no bad pointer
(`readyQueue_holds_ready_threads`).
-/

namespace AzaharPlus.Kernel

open Common

namespace KernelSystem

/-! ## The invariant -/

/-- What the ready queues say about the threads. -/
structure Queued (s : KernelSystem) : Prop where
  count : ∀ t core p, ((s.queue core).data p).count t =
    if (s.threads t).status = .ready ∧ (s.threads t).coreId = core ∧
      (s.threads t).currentPriority = p then 1 else 0
  sound : ∀ core, (s.queue core).Sound
  linked : ∀ t, s.kind t = .thread →
    (s.queue (s.threads t).coreId).Linked (s.threads t).currentPriority
  nominal : ∀ t, (s.threads t).nominalPriority ≤ threadPrioLowest
  blank : ∀ t, s.kind t ≠ .thread → (s.threads t).status = .dormant
  current : ∀ core t, (s.managers core).currentThread = some t →
    s.kind t = .thread ∧ (s.threads t).coreId = core
  waiters : ∀ o t, t ∈ s.waitingThreads o → s.kind t = .thread

theorem queued_initial : initial.Queued where
  count t core p := by simp [initial, queue, ThreadQueueList.empty, Thread.new]
  sound core := ThreadQueueList.sound_empty
  linked t h := by simp [initial] at h
  nominal t := Nat.zero_le _
  blank t _ := rfl
  current core t h := by simp [initial] at h
  waiters o t h := by simp [initial] at h

/-- The fields that the invariant reads stay as they are. -/
theorem Queued.frame {s s' : KernelSystem} (h : s.Queued)
    (hthreads : ∀ t, (s'.threads t).status = (s.threads t).status ∧
      (s'.threads t).coreId = (s.threads t).coreId ∧
      (s'.threads t).currentPriority = (s.threads t).currentPriority ∧
      (s'.threads t).nominalPriority = (s.threads t).nominalPriority)
    (hkind : ∀ t, s'.kind t = .thread ↔ s.kind t = .thread)
    (hmanagers : s'.managers = s.managers)
    (hwaiters : ∀ o t, t ∈ s'.waitingThreads o → s.kind t = .thread) : s'.Queued := by
  have hq : ∀ core, s'.queue core = s.queue core := fun core => by rw [queue, hmanagers, queue]
  refine ⟨fun t core p => ?_, fun core => ?_, fun t ht => ?_, fun t => ?_, fun t ht => ?_,
    fun core t ht => ?_, fun o t ht => (hkind t).2 (hwaiters o t ht)⟩
  · obtain ⟨h₁, h₂, h₃, -⟩ := hthreads t
    rw [hq, h₁, h₂, h₃]
    exact h.count t core p
  · rw [hq]
    exact h.sound core
  · obtain ⟨-, h₂, h₃, -⟩ := hthreads t
    rw [hq, h₂, h₃]
    exact h.linked t ((hkind t).1 ht)
  · rw [(hthreads t).2.2.2]
    exact h.nominal t
  · rw [(hthreads t).1]
    exact h.blank t fun hcon => ht ((hkind t).2 hcon)
  · rw [hmanagers] at ht
    rw [hkind, (hthreads t).2.1]
    exact h.current core t ht

theorem Queued.modifyThread {s : KernelSystem} (h : s.Queued) (t : Nat) {f : Thread → Thread}
    (hf : ∀ th, (f th).status = th.status ∧ (f th).coreId = th.coreId ∧
      (f th).currentPriority = th.currentPriority ∧ (f th).nominalPriority = th.nominalPriority) :
    (s.modifyThread t f).Queued := by
  refine h.frame (fun u => ?_) (fun u => Iff.rfl) rfl h.waiters
  rw [threads_modifyThread]
  split
  · exact hf _
  · exact ⟨rfl, rfl, rfl, rfl⟩

theorem Queued.setKind {s : KernelSystem} (h : s.Queued) (o : Nat) {k : ObjectKind}
    (hk : k ≠ .thread) (ho : s.kind o ≠ .thread) : (s.setKind o k).Queued := by
  refine h.frame (fun u => ⟨rfl, rfl, rfl, rfl⟩) (fun u => ?_) rfl h.waiters
  rw [kind_setKind]
  split
  · rename_i hu
    simp [hu, hk, ho]
  · exact Iff.rfl

theorem Queued.setWaitingThreads {s : KernelSystem} (h : s.Queued) (o : Nat) {l : List Nat}
    (hl : ∀ t ∈ l, s.kind t = .thread) : (s.setWaitingThreads o l).Queued := by
  refine h.frame (fun u => ⟨rfl, rfl, rfl, rfl⟩) (fun u => Iff.rfl) rfl fun u t ht => ?_
  rw [waitingThreads_setWaitingThreads] at ht
  split at ht
  · exact hl t ht
  · exact h.waiters u t ht

/-! ## Priorities -/

theorem linked_adjustQueue {s : KernelSystem} (h : s.Queued) (t : Nat) {p : Nat}
    (hp : p ≤ threadPrioLowest) (core k : Nat) :
    ((s.adjustQueue t p).queue core).Linked k ↔
      (core = (s.threads t).coreId ∧ k = p) ∨ (s.queue core).Linked k := by
  rw [adjustQueue, queue_modifyQueue]
  by_cases hc : core = (s.threads t).coreId
  · rw [if_pos hc]
    split
    · rw [ThreadQueueList.linked_move (h.sound core) t _ (by omega)]
      simp [hc]
    · rw [ThreadQueueList.linked_prepare (h.sound core) (by omega)]
      simp [hc]
  · rw [if_neg hc]
    simp [hc]

theorem sound_adjustQueue {s : KernelSystem} (h : s.Queued) (t : Nat) {p : Nat}
    (hp : p ≤ threadPrioLowest) (core : Nat) : ((s.adjustQueue t p).queue core).Sound := by
  rw [adjustQueue, queue_modifyQueue]
  split
  · split
    · exact (h.sound core).move t _ (by omega)
    · exact (h.sound core).prepare (by omega)
  · exact h.sound core

/-- A ready thread stands at its new level, and all others where they were. -/
theorem count_adjustQueue {s : KernelSystem} (h : s.Queued) (t p u core k : Nat) :
    (((s.adjustQueue t p).queue core).data k).count u =
      if u = t then
        if (s.threads t).status = .ready ∧ (s.threads t).coreId = core ∧ p = k then 1 else 0
      else ((s.queue core).data k).count u := by
  rw [adjustQueue, queue_modifyQueue]
  by_cases hu : u = t
  · subst hu
    rw [if_pos rfl]
    have hcount := h.count u core k
    by_cases hc : core = (s.threads u).coreId
    · rw [if_pos hc]
      by_cases hr : (s.threads u).status = .ready
      · rw [if_pos hr, ThreadQueueList.count_move, hcount]
        simp only [hr, hc, true_and, and_true]
        grind
      · rw [if_neg hr, ThreadQueueList.data_prepare, hcount]
        simp [hr]
    · rw [if_neg hc, hcount]
      simp [Ne.symm hc]
  · rw [if_neg hu]
    by_cases hc : core = (s.threads t).coreId
    · rw [if_pos hc]
      split
      · rw [ThreadQueueList.count_move]
        simp [hu]
      · rw [ThreadQueueList.data_prepare]
    · rw [if_neg hc]

/-- A thread gets another priority, and maybe another nominal one. -/
theorem Queued.reprioritise {s : KernelSystem} (h : s.Queued) (t : Nat) {p : Nat}
    (hp : p ≤ threadPrioLowest) {f : Thread → Thread}
    (hf : ∀ th, (f th).status = th.status ∧ (f th).coreId = th.coreId ∧
      (f th).currentPriority = p ∧
      ((f th).nominalPriority = th.nominalPriority ∨ (f th).nominalPriority = p)) :
    ((s.adjustQueue t p).modifyThread t f).Queued := by
  have hthreads : ∀ u, ((s.adjustQueue t p).modifyThread t f).threads u =
      if u = t then f (s.threads u) else s.threads u := fun u => threads_modifyThread _ t f u
  have hqueue : ∀ core, ((s.adjustQueue t p).modifyThread t f).queue core =
      (s.adjustQueue t p).queue core := fun core => rfl
  refine ⟨fun u core k => ?_, fun core => sound_adjustQueue h t hp core, fun u hu => ?_,
    fun u => ?_, fun u hu => ?_, fun core u hu => ?_, h.waiters⟩
  · rw [hqueue, count_adjustQueue h, hthreads]
    by_cases hut : u = t
    · obtain ⟨h₁, h₂, h₃, -⟩ := hf (s.threads u)
      rw [if_pos hut, if_pos hut, h₁, h₂, h₃, hut]
    · rw [if_neg hut, if_neg hut]
      exact h.count u core k
  · rw [hqueue, hthreads]
    by_cases hut : u = t
    · obtain ⟨-, h₂, h₃, -⟩ := hf (s.threads u)
      rw [if_pos hut, h₂, h₃, linked_adjustQueue h t hp, hut]
      exact Or.inl ⟨rfl, rfl⟩
    · rw [if_neg hut, linked_adjustQueue h t hp]
      exact Or.inr (h.linked u hu)
  · rw [hthreads]
    split
    · rcases (hf (s.threads u)).2.2.2 with h₄ | h₄
      · rw [h₄]
        exact h.nominal u
      · rwa [h₄]
    · exact h.nominal u
  · rw [hthreads]
    split
    · rw [(hf _).1]
      exact h.blank u hu
    · exact h.blank u hu
  · have hu' : (s.managers core).currentThread = some u := by
      rw [← hu, managers_modifyThread, adjustQueue, currentThread_modifyQueue]
    obtain ⟨h₁, h₂⟩ := h.current core u hu'
    refine ⟨h₁, ?_⟩
    rw [hthreads]
    split
    · rw [(hf _).2.1, h₂]
    · exact h₂

theorem Queued.boostPriority {s : KernelSystem} (h : s.Queued) (t : Nat) {p : Nat}
    (hp : p ≤ threadPrioLowest) : (s.boostPriority t p).Queued :=
  h.reprioritise t hp fun _ => ⟨rfl, rfl, rfl, Or.inl rfl⟩

theorem Queued.setPriority {s : KernelSystem} (h : s.Queued) (t : Nat) {p : Nat}
    (hp : p ≤ threadPrioLowest) : (s.setPriority t p).Queued :=
  h.reprioritise t hp fun _ => ⟨rfl, rfl, rfl, Or.inr rfl⟩

theorem Queued.updatePriority {s : KernelSystem} (h : s.Queued) (t : Nat) :
    (s.updatePriority t).Queued :=
  h.boostPriority t ((bestHeldPriority_le s t).trans (h.nominal t))

theorem Queued.mutexUpdatePriority {s : KernelSystem} (h : s.Queued) (m : Nat) :
    (s.mutexUpdatePriority m).Queued := by
  unfold KernelSystem.mutexUpdatePriority
  split
  · rename_i hm
    split
    · exact (h.setKind m (by simp) (by simp [hm])).updatePriority _
    · exact h
  · exact h

/-! ## Threads stay threads -/

theorem kind_updatePriority (s : KernelSystem) (t : Nat) : (s.updatePriority t).kind = s.kind := rfl

theorem kind_mutexUpdatePriority (s : KernelSystem) (m u : Nat) :
    (s.mutexUpdatePriority m).kind u = .thread ↔ s.kind u = .thread := by
  unfold mutexUpdatePriority
  split
  · rename_i hm
    split
    · rw [kind_updatePriority, kind_setKind]
      split
      · rename_i hu
        simp [hu, hm]
      · exact Iff.rfl
    · exact Iff.rfl
  · exact Iff.rfl

theorem kind_enterWaitingThreads (s : KernelSystem) (o t : Nat) :
    (s.enterWaitingThreads o t).kind = s.kind := by
  unfold enterWaitingThreads
  split <;> rfl

theorem kind_addWaitingThread (s : KernelSystem) (o t u : Nat) :
    (s.addWaitingThread o t).kind u = .thread ↔ s.kind u = .thread := by
  unfold addWaitingThread
  split
  · rw [kind_mutexUpdatePriority, addPending, kind_modifyThread, kind_enterWaitingThreads]
  · rw [kind_enterWaitingThreads]

theorem kind_removeWaitingThread (s : KernelSystem) (o t u : Nat) :
    (s.removeWaitingThread o t).kind u = .thread ↔ s.kind u = .thread := by
  unfold removeWaitingThread
  split
  · rw [kind_mutexUpdatePriority]
    rfl
  · rfl

theorem kind_leaveWaitObjects (s : KernelSystem) (t u : Nat) :
    (s.leaveWaitObjects t).kind u = .thread ↔ s.kind u = .thread := by
  have hfold : ∀ (l : List Nat) (s : KernelSystem),
      (l.foldl (fun s o => s.removeWaitingThread o t) s).kind u = .thread ↔
        s.kind u = .thread := by
    intro l
    induction l with
    | nil => exact fun s => Iff.rfl
    | cons o l ih => exact fun s => (ih _).trans (kind_removeWaitingThread s o t u)
  exact hfold _ s

theorem kind_acquire (s : KernelSystem) (o t u : Nat) :
    (s.acquire o t).kind u = .thread ↔ s.kind u = .thread := by
  have hset : ∀ k, s.kind o ≠ .thread → k ≠ .thread →
      ((s.setKind o k).kind u = .thread ↔ s.kind u = .thread) := by
    intro k ho hk
    rw [kind_setKind]
    split
    · rename_i hu
      simp [hu, ho, hk]
    · exact Iff.rfl
  unfold acquire
  split
  · rename_i hk
    exact hset _ (by simp [hk]) (by simp)
  · rename_i hk
    exact hset _ (by simp [hk]) (by simp)
  · rename_i hk
    exact hset _ (by simp [hk]) (by simp)
  · rename_i hk
    split
    · exact Iff.rfl
    · exact hset _ (by simp [hk]) (by simp)
  · rename_i hk
    exact hset _ (by simp [hk]) (by simp)
  · exact Iff.rfl

theorem kind_acquireAll (s : KernelSystem) (l : List Nat) (t u : Nat) :
    (s.acquireAll l t).kind u = .thread ↔ s.kind u = .thread := by
  induction l generalizing s with
  | nil => exact Iff.rfl
  | cons o l ih => exact (ih _).trans (kind_acquire s o t u)

theorem kind_acquireFor (s : KernelSystem) (o t u : Nat) :
    (s.acquireFor o t).kind u = .thread ↔ s.kind u = .thread := by
  unfold acquireFor
  split
  · exact kind_acquireAll s _ t u
  · exact kind_acquire s o t u

/-! ## Waiting lists -/

theorem Queued.enterWaitingThreads {s : KernelSystem} (h : s.Queued) (o : Nat) {t : Nat}
    (ht : s.kind t = .thread) : (s.enterWaitingThreads o t).Queued := by
  unfold KernelSystem.enterWaitingThreads
  split
  · exact h
  · refine h.setWaitingThreads o fun u hu => ?_
    rcases List.mem_append.1 hu with hu | hu
    · exact h.waiters o u hu
    · rwa [List.mem_singleton.1 hu]

theorem Queued.addWaitingThread {s : KernelSystem} (h : s.Queued) (o : Nat) {t : Nat}
    (ht : s.kind t = .thread) : (s.addWaitingThread o t).Queued := by
  have h₁ := h.enterWaitingThreads o ht
  unfold KernelSystem.addWaitingThread
  split
  · have h₂ : ((s.enterWaitingThreads o t).addPending t o).Queued :=
      h₁.modifyThread t fun _ => ⟨rfl, rfl, rfl, rfl⟩
    exact h₂.mutexUpdatePriority o
  · exact h₁

theorem Queued.removeWaitingThread {s : KernelSystem} (h : s.Queued) (o t : Nat) :
    (s.removeWaitingThread o t).Queued := by
  have h₁ : (s.leaveWaitingThreads o t).Queued :=
    h.setWaitingThreads o fun u hu => h.waiters o u (List.mem_of_mem_erase hu)
  unfold KernelSystem.removeWaitingThread
  split
  · have h₂ : ((s.leaveWaitingThreads o t).removePending t o).Queued :=
      h₁.modifyThread t fun _ => ⟨rfl, rfl, rfl, rfl⟩
    exact h₂.mutexUpdatePriority o
  · exact h₁

theorem Queued.setWaitObjects {s : KernelSystem} (h : s.Queued) (t : Nat) (l : List Nat) :
    (s.setWaitObjects t l).Queued :=
  h.modifyThread t fun _ => ⟨rfl, rfl, rfl, rfl⟩

theorem Queued.leaveWaitObjects {s : KernelSystem} (h : s.Queued) (t : Nat) :
    (s.leaveWaitObjects t).Queued := by
  have hfold : ∀ (l : List Nat) (s : KernelSystem), s.Queued →
      (l.foldl (fun s o => s.removeWaitingThread o t) s).Queued := by
    intro l
    induction l with
    | nil => exact fun s h => h
    | cons o l ih => exact fun s h => ih _ (h.removeWaitingThread o t)
  exact (hfold _ s h).setWaitObjects t []

theorem Queued.acquire {s : KernelSystem} (h : s.Queued) (o t : Nat) : (s.acquire o t).Queued := by
  unfold KernelSystem.acquire
  split
  · rename_i hk
    have h₁ : (s.setKind o (.mutex 1 (s.threads t).currentPriority (some t))).Queued :=
      h.setKind o (by simp) (by simp [hk])
    have h₂ : ((s.setKind o (.mutex 1 (s.threads t).currentPriority (some t))).addHeld t o).Queued :=
      h₁.modifyThread t fun _ => ⟨rfl, rfl, rfl, rfl⟩
    exact h₂.updatePriority t
  · rename_i hk
    exact h.setKind o (by simp) (by simp [hk])
  · rename_i hk
    exact h.setKind o (by simp) (by simp [hk])
  · rename_i hk
    split
    · exact h
    · exact h.setKind o (by simp) (by simp [hk])
  · rename_i hk
    exact h.setKind o (by simp) (by simp [hk])
  · exact h

theorem Queued.acquireAll {s : KernelSystem} (h : s.Queued) (l : List Nat) (t : Nat) :
    (s.acquireAll l t).Queued := by
  induction l generalizing s with
  | nil => exact h
  | cons o l ih => exact ih (h.acquire o t)

theorem Queued.acquireFor {s : KernelSystem} (h : s.Queued) (o t : Nat) :
    (s.acquireFor o t).Queued := by
  unfold KernelSystem.acquireFor
  split
  · exact h.acquireAll _ t
  · exact h.acquire o t

/-! ## Changes of status -/

/-- A thread gets another status, and the queues change as that demands. -/
theorem Queued.restatus {s s' : KernelSystem} (h : s.Queued) {t : Nat} {status : ThreadStatus}
    (ht : s.kind t = .thread)
    (hthreads : ∀ u, s'.threads u =
      if u = t then { s.threads u with status := status } else s.threads u)
    (hkind : s'.kind = s.kind) (hwaiting : s'.waitingThreads = s.waitingThreads)
    (hcurrent : ∀ core u, (s'.managers core).currentThread = some u →
      (s.managers core).currentThread = some u ∨ (u = t ∧ (s.threads t).coreId = core))
    (hsound : ∀ core, (s'.queue core).Sound)
    (hlinked : ∀ core k, (s.queue core).Linked k → (s'.queue core).Linked k)
    (hcount : ∀ core k u, ((s'.queue core).data k).count u =
      if u = t then
        if status = .ready ∧ (s.threads t).coreId = core ∧ (s.threads t).currentPriority = k
          then 1 else 0
      else ((s.queue core).data k).count u) : s'.Queued := by
  have hsame : ∀ u, (s'.threads u).coreId = (s.threads u).coreId ∧
      (s'.threads u).currentPriority = (s.threads u).currentPriority ∧
      (s'.threads u).nominalPriority = (s.threads u).nominalPriority := by
    intro u
    rw [hthreads]
    split <;> exact ⟨rfl, rfl, rfl⟩
  refine ⟨fun u core k => ?_, hsound, fun u hu => ?_, fun u => ?_, fun u hu => ?_,
    fun core u hu => ?_, fun o u hu => ?_⟩
  · rw [hcount, (hsame u).1, (hsame u).2.1]
    by_cases hut : u = t
    · subst hut
      simp [hthreads]
    · rw [if_neg hut, hthreads, if_neg hut]
      exact h.count u core k
  · rw [hkind] at hu
    rw [(hsame u).1, (hsame u).2.1]
    exact hlinked _ _ (h.linked u hu)
  · rw [(hsame u).2.2]
    exact h.nominal u
  · rw [hkind] at hu
    have hut : u ≠ t := fun hut => hu (hut ▸ ht)
    rw [hthreads, if_neg hut]
    exact h.blank u hu
  · rw [hkind, (hsame u).1]
    rcases hcurrent core u hu with hu | ⟨rfl, hu⟩
    · exact h.current core u hu
    · exact ⟨ht, hu⟩
  · rw [hwaiting] at hu
    rw [hkind]
    exact h.waiters o u hu

/-- A thread that is not ready gets another status in which it is not. -/
theorem Queued.setStatus {s : KernelSystem} (h : s.Queued) {t : Nat} {status : ThreadStatus}
    (ht : s.kind t = .thread) (hold : (s.threads t).status ≠ .ready) (hnew : status ≠ .ready) :
    (s.setStatus t status).Queued := by
  refine h.restatus ht (fun u => threads_modifyThread s t _ u) rfl rfl (fun core u hu => Or.inl hu)
    h.sound (fun core k hk => hk) fun core k u => ?_
  by_cases hut : u = t
  · have hcount := h.count t core k
    rw [if_neg fun hcon => hold hcon.1] at hcount
    rw [if_pos hut, if_neg fun hcon => hnew hcon.1, hut]
    exact hcount
  · rw [if_neg hut]
    rfl

/-- A thread that is not ready becomes so at one end of its level. -/
theorem Queued.becomeReady {s : KernelSystem} (h : s.Queued) {t : Nat} {f : ReadyQueue → ReadyQueue}
    (ht : s.kind t = .thread) (hold : (s.threads t).status ≠ .ready)
    (hf : f (s.queue (s.threads t).coreId) =
        (s.queue (s.threads t).coreId).pushBack (s.threads t).currentPriority t ∨
      f (s.queue (s.threads t).coreId) =
        (s.queue (s.threads t).coreId).pushFront (s.threads t).currentPriority t) :
    ((s.modifyQueue (s.threads t).coreId f).setStatus t .ready).Queued := by
  have hq : ∀ core, ((s.modifyQueue (s.threads t).coreId f).setStatus t .ready).queue core =
      if core = (s.threads t).coreId then f (s.queue core) else s.queue core :=
    fun core => queue_modifyQueue s _ f core
  have hl := h.linked t ht
  refine h.restatus ht (fun u => threads_modifyThread _ t _ u) rfl rfl
    (fun core u hu => Or.inl ?_) (fun core => ?_) (fun core k hk => ?_) fun core k u => ?_
  · rwa [KernelSystem.setStatus, managers_modifyThread, currentThread_modifyQueue] at hu
  · rw [hq]
    by_cases hc : core = (s.threads t).coreId
    · rw [if_pos hc, hc]
      rcases hf with hf | hf
      · rw [hf]
        exact (h.sound _).pushBack hl t
      · rw [hf]
        exact (h.sound _).pushFront hl t
    · rw [if_neg hc]
      exact h.sound core
  · rw [hq]
    by_cases hc : core = (s.threads t).coreId
    · rw [if_pos hc, hc]
      rw [hc] at hk
      rcases hf with hf | hf
      · rw [hf]
        exact hk
      · rw [hf]
        exact hk
    · rwa [if_neg hc]
  · rw [hq]
    have hcount := h.count t core k
    rw [if_neg fun hcon => hold hcon.1] at hcount
    by_cases hc : core = (s.threads t).coreId
    · have hdata : ((f (s.queue core)).data k).count u = ((s.queue core).data k).count u +
          if k = (s.threads t).currentPriority ∧ u = t then 1 else 0 := by
        rw [hc]
        rcases hf with hf | hf
        · rw [hf, ThreadQueueList.count_pushBack]
        · rw [hf, ThreadQueueList.count_pushFront]
      rw [if_pos hc, hdata]
      by_cases hut : u = t
      · subst hut
        rw [hcount]
        simp [hc, eq_comm]
      · simp [hut]
    · rw [if_neg hc]
      by_cases hut : u = t
      · subst hut
        simp [hcount, Ne.symm hc]
      · rw [if_neg hut]

theorem Queued.resumeFromWait {s : KernelSystem} (h : s.Queued) {t : Nat}
    (ht : s.kind t = .thread) : (s.resumeFromWait t).Queued := by
  unfold KernelSystem.resumeFromWait
  split
  · exact h
  · exact h
  · exact h
  · rename_i hready _ _
    exact h.becomeReady ht hready (Or.inl rfl)

/-- A ready thread is taken out of its queue and gets another status. -/
theorem Queued.leaveQueue {s s' : KernelSystem} (h : s.Queued) {t : Nat} {status : ThreadStatus}
    (ht : s.kind t = .thread) (hnew : status ≠ .ready)
    (hthreads : ∀ u, s'.threads u =
      if u = t then { s.threads u with status := status } else s.threads u)
    (hkind : s'.kind = s.kind) (hwaiting : s'.waitingThreads = s.waitingThreads)
    (hcurrent : ∀ core u, (s'.managers core).currentThread = some u →
      (s.managers core).currentThread = some u ∨ (u = t ∧ (s.threads t).coreId = core))
    (hqueue : ∀ core, s'.queue core =
      if core = (s.threads t).coreId then (s.queue core).remove (s.threads t).currentPriority t
      else s.queue core) : s'.Queued := by
  refine h.restatus ht hthreads hkind hwaiting hcurrent (fun core => ?_) (fun core k hk => ?_)
    fun core k u => ?_
  · rw [hqueue]
    split
    · exact (h.sound core).remove _ t
    · exact h.sound core
  · rw [hqueue]
    split
    · exact hk
    · exact hk
  · rw [hqueue]
    by_cases hut : u = t
    · subst hut
      have hcount := h.count u core k
      simp only [hnew, false_and, if_false, if_true]
      by_cases hc : core = (s.threads u).coreId
      · rw [if_pos hc, ThreadQueueList.count_remove]
        split
        · rfl
        · rename_i hk
          rw [hcount, if_neg]
          rintro ⟨-, -, hp⟩
          exact hk ⟨hp.symm, rfl⟩
      · rw [if_neg hc, hcount, if_neg]
        rintro ⟨-, hc', -⟩
        exact hc hc'.symm
    · rw [if_neg hut]
      split
      · rw [ThreadQueueList.count_remove, if_neg fun hcon => hut hcon.2]
      · rfl

theorem Queued.kill {s : KernelSystem} (h : s.Queued) {t : Nat} (ht : s.kind t = .thread) :
    (s.kill t).Queued := by
  unfold KernelSystem.kill
  split
  · refine h.leaveQueue ht (by simp) (fun u => threads_modifyThread _ t _ u) rfl rfl
      (fun core u hu => Or.inl ?_) fun core => queue_modifyQueue s (s.threads t).coreId
        (fun q => q.remove (s.threads t).currentPriority t) core
    rwa [KernelSystem.setStatus, managers_modifyThread, currentThread_modifyQueue] at hu
  · rename_i hready
    exact h.setStatus ht hready (by simp)

/-! ## Waking up -/

theorem getHighestPriorityReadyThread_mem {s : KernelSystem} {o t : Nat}
    (h : s.getHighestPriorityReadyThread o = some t) : t ∈ s.waitingThreads o := by
  have hfold : ∀ (l : List Nat) (c : Option Nat × Nat),
      (l.foldl (s.considerThread o) c).1 = some t → c.1 = some t ∨ t ∈ l := by
    intro l
    induction l with
    | nil => exact fun c hc => Or.inl hc
    | cons u l ih =>
      intro c hc
      rcases ih _ hc with hc | hc
      · unfold considerThread at hc
        split at hc
        · exact Or.inl hc
        · split at hc
          · exact Or.inl hc
          · split at hc
            · exact Or.inr (by simp_all)
            · exact Or.inl hc
      · exact Or.inr (List.mem_cons_of_mem u hc)
  rcases hfold _ _ h with hc | hc
  · simp at hc
  · exact hc

theorem Queued.wakeupThread {s : KernelSystem} (h : s.Queued) (o : Nat) {t : Nat}
    (ht : s.kind t = .thread) : (s.wakeupThread o t).Queued := by
  refine ((h.acquireFor o t).leaveWaitObjects t).resumeFromWait ?_
  rwa [kind_leaveWaitObjects, kind_acquireFor]

theorem Queued.wakeupLoop {s : KernelSystem} (h : s.Queued) (o turns : Nat) :
    (wakeupLoop o turns s).Queued := by
  induction turns generalizing s with
  | zero => exact h
  | succ turns ih =>
    unfold KernelSystem.wakeupLoop
    split
    · exact h
    · rename_i t ht
      exact ih (h.wakeupThread o (h.waiters o t (getHighestPriorityReadyThread_mem ht)))

theorem Queued.endPulse {s : KernelSystem} (h : s.Queued) (o : Nat) : (s.endPulse o).Queued := by
  unfold KernelSystem.endPulse
  split
  · rename_i hk
    exact h.setKind o (by simp) (by simp [hk])
  · rename_i hk
    exact h.setKind o (by simp) (by simp [hk])
  · exact h

theorem Queued.wakeupAllWaitingThreads {s : KernelSystem} (h : s.Queued) (o : Nat) :
    (s.wakeupAllWaitingThreads o).Queued :=
  (h.wakeupLoop o _).endPulse o

theorem Queued.freeMutex {s : KernelSystem} (h : s.Queued) (m : Nat) : (s.freeMutex m).Queued := by
  unfold KernelSystem.freeMutex
  split
  · rename_i hk
    exact (h.setKind m (by simp) (by simp [hk])).wakeupAllWaitingThreads m
  · exact h

theorem Queued.releaseThreadMutexes {s : KernelSystem} (h : s.Queued) (t : Nat) :
    (s.releaseThreadMutexes t).Queued := by
  have hfold : ∀ (l : List Nat) (s : KernelSystem), s.Queued →
      (l.foldl KernelSystem.freeMutex s).Queued := by
    intro l
    induction l with
    | nil => exact fun s h => h
    | cons m l ih => exact fun s h => ih _ (h.freeMutex m)
  have h₁ := hfold (s.threads t).heldMutexes.toList s h
  have h₂ : (((s.threads t).heldMutexes.toList.foldl KernelSystem.freeMutex s).clearHeld t).Queued :=
    h₁.modifyThread t fun _ => ⟨rfl, rfl, rfl, rfl⟩
  exact h₂

theorem Queued.releaseMutex {s : KernelSystem} (h : s.Queued) (m t : Nat) :
    (s.releaseMutex m t).Queued := by
  unfold KernelSystem.releaseMutex
  split
  · rename_i n priority holder hk
    split
    · exact h
    · split
      · exact h.setKind m (by simp) (by simp [hk])
      · have h₁ : (s.setKind m (.mutex 0 priority (some holder))).Queued :=
          h.setKind m (by simp) (by simp [hk])
        have h₂ : ((s.setKind m (.mutex 0 priority (some holder))).removeHeld t m).Queued :=
          h₁.modifyThread t fun _ => ⟨rfl, rfl, rfl, rfl⟩
        refine ((h₂.updatePriority t).setKind m (by simp) ?_).wakeupAllWaitingThreads m
        rw [kind_updatePriority, removeHeld, kind_modifyThread, kind_setKind, if_pos rfl]
        simp
  · exact h

theorem Queued.stop {s : KernelSystem} (h : s.Queued) {t : Nat} (ht : s.kind t = .thread) :
    (s.stop t).Queued :=
  (((h.kill ht).wakeupAllWaitingThreads t).leaveWaitObjects t).releaseThreadMutexes t

/-! ## System calls -/

theorem Queued.waitFor {s : KernelSystem} (h : s.Queued) {t : Nat} {status : ThreadStatus}
    (ht : s.kind t = .thread) (hold : (s.threads t).status ≠ .ready) (hnew : status ≠ .ready)
    (objects : List Nat) : (s.waitFor t objects status).Queued := by
  have hfold : ∀ (l : List Nat) (s : KernelSystem), s.Queued → s.kind t = .thread →
      (l.foldl (fun s o => s.addWaitingThread o t) s).Queued := by
    intro l
    induction l with
    | nil => exact fun s h _ => h
    | cons o l ih =>
      exact fun s h ht => ih _ (h.addWaitingThread o ht) ((kind_addWaitingThread s o t t).2 ht)
  exact (hfold objects _ (h.setStatus ht hold hnew) ht).setWaitObjects t objects

theorem Queued.waitSynchronization1 {s : KernelSystem} (h : s.Queued) {t : Nat}
    (ht : s.kind t = .thread) (hold : (s.threads t).status ≠ .ready) (object : Nat)
    (nanoSeconds : Int) : (s.waitSynchronization1 t object nanoSeconds).Queued := by
  unfold KernelSystem.waitSynchronization1
  split
  · split
    · exact h
    · exact h.waitFor ht hold (by simp) _
  · exact h.acquire object t

theorem Queued.waitSynchronizationN {s : KernelSystem} (h : s.Queued) {t : Nat}
    (ht : s.kind t = .thread) (hold : (s.threads t).status ≠ .ready) (objects : List Nat)
    (waitAll : Bool) (nanoSeconds : Int) :
    (s.waitSynchronizationN t objects waitAll nanoSeconds).Queued := by
  unfold KernelSystem.waitSynchronizationN
  split
  · split
    · exact h.acquireAll objects t
    · split
      · exact h
      · exact h.waitFor ht hold (by simp) objects
  · split
    · exact h.acquire _ t
    · split
      · exact h
      · exact h.waitFor ht hold (by simp) objects

theorem Queued.threadWakeupCallback {s : KernelSystem} (h : s.Queued) {t : Nat}
    (ht : s.kind t = .thread) : (s.threadWakeupCallback t).Queued := by
  have hleave : ((s.leaveWaitObjects t).resumeFromWait t).Queued :=
    (h.leaveWaitObjects t).resumeFromWait ((kind_leaveWaitObjects s t t).2 ht)
  unfold KernelSystem.threadWakeupCallback
  split
  · exact hleave
  · exact hleave
  · exact hleave
  · exact hleave
  · exact h.resumeFromWait ht

theorem Queued.setThreadPriority {s : KernelSystem} (h : s.Queued) (t priority : Nat) :
    (s.setThreadPriority t priority).Queued := by
  have hfold : ∀ (l : List Nat) (s : KernelSystem), s.Queued →
      (l.foldl KernelSystem.mutexUpdatePriority s).Queued := by
    intro l
    induction l with
    | nil => exact fun s h => h
    | cons m l ih => exact fun s h => ih _ (h.mutexUpdatePriority m)
  unfold KernelSystem.setThreadPriority
  split
  · exact h
  · exact hfold _ _ ((h.setPriority t (by omega)).updatePriority t)

theorem Queued.signal {s : KernelSystem} (h : s.Queued) (o : Nat) : (s.signal o).Queued := by
  unfold KernelSystem.signal
  split
  · rename_i hk
    exact (h.setKind o (by simp) (by simp [hk])).wakeupAllWaitingThreads o
  · rename_i hk
    exact (h.setKind o (by simp) (by simp [hk])).wakeupAllWaitingThreads o
  · exact h

theorem Queued.clear {s : KernelSystem} (h : s.Queued) (o : Nat) : (s.clear o).Queued := by
  unfold KernelSystem.clear
  split
  · rename_i hk
    exact h.setKind o (by simp) (by simp [hk])
  · rename_i hk
    exact h.setKind o (by simp) (by simp [hk])
  · exact h

theorem Queued.releaseSemaphore {s : KernelSystem} (h : s.Queued) (o : Nat) (releaseCount : Int) :
    (s.releaseSemaphore o releaseCount).Queued := by
  unfold KernelSystem.releaseSemaphore
  split
  · rename_i hk
    split
    · exact h
    · exact (h.setKind o (by simp) (by simp [hk])).wakeupAllWaitingThreads o
  · exact h

/-- The record of a new thread, whose level is entered into the links of its core. -/
theorem Queued.enrolThread {s : KernelSystem} (h : s.Queued) {address priority : Nat}
    (processorId : Nat) (ha : s.kind address = .unused) (hp : priority ≤ threadPrioLowest) :
    (s.enrolThread address priority processorId).Queued := by
  have hthreads : ∀ u, (s.enrolThread address priority processorId).threads u =
      if u = address then Thread.new processorId priority else s.threads u :=
    fun u => threads_modifyThread _ _ _ u
  have hqueue : ∀ core, (s.enrolThread address priority processorId).queue core =
      if core = processorId then (s.queue core).prepare priority else s.queue core :=
    fun core => queue_modifyQueue s processorId (fun q => q.prepare priority) core
  have hkind : ∀ u, (s.enrolThread address priority processorId).kind u =
      if u = address then .thread else s.kind u := fun u => kind_setKind _ _ _ u
  have hne : ∀ u, s.kind u = .thread → u ≠ address := by
    rintro u hu rfl
    rw [ha] at hu
    cases hu
  have hlinked : ∀ core k, ((s.enrolThread address priority processorId).queue core).Linked k ↔
      (core = processorId ∧ k = priority) ∨ (s.queue core).Linked k := by
    intro core k
    rw [hqueue]
    by_cases hc : core = processorId
    · rw [if_pos hc, ThreadQueueList.linked_prepare (h.sound core) (by omega)]
      simp [hc]
    · simp [hc]
  refine ⟨fun u core k => ?_, fun core => ?_, fun u hu => ?_, fun u => ?_, fun u hu => ?_,
    fun core u hu => ?_, fun o u hu => ?_⟩
  · have hdata : ((s.enrolThread address priority processorId).queue core).data =
        (s.queue core).data := by
      rw [hqueue]
      split
      · exact ThreadQueueList.data_prepare _ _
      · rfl
    rw [hdata, h.count, hthreads]
    by_cases hu : u = address
    · have hblank := h.blank u (by simp [hu, ha])
      rw [if_pos hu, hblank]
      simp [Thread.new]
    · rw [if_neg hu]
  · rw [hqueue]
    split
    · exact (h.sound core).prepare (by omega)
    · exact h.sound core
  · rw [hthreads, hlinked]
    rw [hkind] at hu
    by_cases hua : u = address
    · rw [if_pos hua]
      exact Or.inl ⟨rfl, rfl⟩
    · rw [if_neg hua] at hu ⊢
      exact Or.inr (h.linked u hu)
  · rw [hthreads]
    split
    · exact hp
    · exact h.nominal u
  · rw [hkind] at hu
    rw [hthreads]
    split
    · rfl
    · rename_i hua
      rw [if_neg hua] at hu
      exact h.blank u hu
  · have hu' : (s.managers core).currentThread = some u := by
      rw [← hu]
      exact (currentThread_modifyQueue s processorId (fun q => q.prepare priority) core).symm
    obtain ⟨h₁, h₂⟩ := h.current core u hu'
    rw [hkind, hthreads, if_neg (hne u h₁), if_neg (hne u h₁)]
    exact ⟨h₁, h₂⟩
  · rw [hkind, if_neg (hne u (h.waiters o u hu))]
    exact h.waiters o u hu

theorem Queued.createThread {s : KernelSystem} (h : s.Queued) {address : Nat}
    (ha : s.kind address = .unused) (priority processorId : Nat) (makeReady : Bool) :
    (s.createThread address priority processorId makeReady).Queued := by
  unfold KernelSystem.createThread
  split
  · exact h
  · rename_i hp
    have h₁ := h.enrolThread processorId ha (show priority ≤ threadPrioLowest by omega)
    split
    · have hthread : (s.enrolThread address priority processorId).threads address =
          Thread.new processorId priority := by
        rw [KernelSystem.enrolThread, threads_modifyThread, if_pos rfl]
      have hkind : (s.enrolThread address priority processorId).kind address = .thread := by
        rw [KernelSystem.enrolThread, kind_modifyThread, kind_setKind, if_pos rfl]
      have h₂ := @Queued.becomeReady _ h₁ address (fun q => q.pushBack priority address) hkind
        (by rw [hthread]; simp [Thread.new]) (Or.inl (by rw [hthread]; rfl))
      rwa [hthread] at h₂
    · exact h₁

/-! ## The scheduler -/

/-- A thread in a queue is ready, belongs to that core and stands at its level. -/
theorem Queued.of_mem {s : KernelSystem} (h : s.Queued) {core k t : Nat}
    (ht : t ∈ (s.queue core).data k) :
    (s.threads t).status = .ready ∧ (s.threads t).coreId = core ∧
      (s.threads t).currentPriority = k ∧ s.kind t = .thread := by
  have hpos := List.count_pos_iff.2 ht
  rw [h.count] at hpos
  by_cases hc : (s.threads t).status = .ready ∧ (s.threads t).coreId = core ∧
      (s.threads t).currentPriority = k
  · refine ⟨hc.1, hc.2.1, hc.2.2, ?_⟩
    by_contra hk
    have hdormant := h.blank t hk
    rw [hc.1] at hdormant
    cases hdormant
  · simp [hc] at hpos

theorem Queued.runningThread {s : KernelSystem} (h : s.Queued) {core t : Nat}
    (ht : s.runningThread core = some t) :
    s.kind t = .thread ∧ (s.threads t).coreId = core ∧ (s.threads t).status = .running ∧
      (s.managers core).currentThread = some t := by
  unfold KernelSystem.runningThread at ht
  split at ht
  · rename_i u hu
    split at ht
    · rename_i hrun
      cases ht
      exact ⟨(h.current core t hu).1, (h.current core t hu).2, hrun, hu⟩
    · cases ht
  · cases ht

theorem queuedThreads_setData_lt {q : ReadyQueue} {k x : Nat} {rest : List Nat}
    (hk : k < threadPrioLowest + 1) (hx : q.data k = x :: rest) :
    queuedThreads (q.setData k rest) < queuedThreads q := by
  refine List.sum_lt_sum _ _ (fun j _ => ?_) ⟨k, List.mem_range.2 hk, ?_⟩
  · rw [ThreadQueueList.data_setData]
    split
    · rename_i hj
      rw [hj, hx]
      simp
    · exact le_rfl
  · rw [ThreadQueueList.data_setData, if_pos rfl, hx]
    simp

/-- Where the threads of the queue `q₀` are while the scheduler looks for one that it may take:
in what is left of the queue, among those laid aside, or found. -/
structure Spread (s : KernelSystem) (q₀ q : ReadyQueue) (unscheduled : List Nat)
    (found : Option Nat) : Prop where
  sound : q.Sound
  linked : ∀ k, q.Linked k ↔ q₀.Linked k
  count : ∀ k u, (q.data k).count u +
    (if (s.threads u).currentPriority = k then
      unscheduled.count u + (if found = some u then 1 else 0) else 0) = (q₀.data k).count u

/-- What both pops of the scheduler have in common, on links as those of `q₀`. -/
def Pops (q₀ : ReadyQueue) (pop : ReadyQueue → Option (Option Nat × ReadyQueue)) : Prop :=
  ∀ q : ReadyQueue, q.Sound → (∀ k, q.Linked k ↔ q₀.Linked k) →
    ∃ r q' stop, pop q = some (r, q') ∧ stop ≤ threadPrioLowest + 1 ∧ q.Popped stop r q'

theorem pops_popFirst (q₀ : ReadyQueue) : Pops q₀ (·.popFirst) := by
  intro q hq _
  obtain ⟨r, q', h₁, h₂⟩ := ThreadQueueList.popFirst_popped hq
  exact ⟨r, q', _, h₁, le_rfl, h₂⟩

theorem pops_popFirstBetter {q₀ : ReadyQueue} {p : Nat} (hp : q₀.Linked p) :
    Pops q₀ (·.popFirstBetter p) := by
  intro q hq hl
  obtain ⟨r, q', h₁, h₂⟩ := ThreadQueueList.popFirstBetter_popped hq ((hl p).2 hp)
  exact ⟨r, q', p, h₁, (hq.bound p ((hl p).2 hp)).le, h₂⟩

/-- Taking the front of a level. -/
theorem Spread.take {s : KernelSystem} {core : Nat} (h : s.Queued) {q : ReadyQueue}
    {unscheduled : List Nat} (hs : s.Spread (s.queue core) q unscheduled none) {k x : Nat}
    {rest : List Nat} (hx : q.data k = x :: rest) :
    s.Spread (s.queue core) (q.setData k rest) unscheduled (some x) := by
  have hcount := hs.count k x
  have hmem : x ∈ (s.queue core).data k := by
    rw [← List.count_pos_iff, ← hcount, hx, List.count_cons_self]
    omega
  obtain ⟨-, -, hp, -⟩ := h.of_mem hmem
  have hlk : q.Linked k := hs.sound.linked_of_data k (by rw [hx]; simp)
  refine ⟨hs.sound.setData fun _ => hlk, hs.linked, fun j u => ?_⟩
  rw [← hs.count j u, ThreadQueueList.data_setData]
  by_cases hj : j = k
  · subst hj
    rw [if_pos rfl, hx, List.count_cons]
    by_cases hu : x = u
    · subst hu
      simp [hp]
      omega
    · simp [hu]
  · rw [if_neg hj]
    by_cases hu : x = u
    · subst hu
      have hpj : (s.threads x).currentPriority ≠ j := by omega
      simp [hpj]
    · simp [hu]

/-- A thread that may not be scheduled is laid aside. -/
theorem Spread.layAside {s : KernelSystem} {q₀ q : ReadyQueue} {unscheduled : List Nat} {x : Nat}
    (hs : s.Spread q₀ q unscheduled (some x)) : s.Spread q₀ q (unscheduled ++ [x]) none := by
  refine ⟨hs.sound, hs.linked, fun k u => ?_⟩
  rw [← hs.count k u, List.count_append, List.count_singleton]
  by_cases hu : x = u
  · simp [hu]
  · simp [hu]

/-- The loops of `PopNextReadyThread` come to an end. -/
theorem popSchedulable_spread {s : KernelSystem} (h : s.Queued) {core : Nat}
    {pop : ReadyQueue → Option (Option Nat × ReadyQueue)} (hpop : Pops (s.queue core) pop)
    (turns : Nat) (q : ReadyQueue) (unscheduled : List Nat) (hturns : queuedThreads q < turns)
    (hs : s.Spread (s.queue core) q unscheduled none) :
    ∃ r q' unscheduled', s.popSchedulable pop turns q unscheduled = some (r, q', unscheduled') ∧
      s.Spread (s.queue core) q' unscheduled' r := by
  induction turns generalizing q unscheduled with
  | zero => omega
  | succ turns ih =>
    obtain ⟨r, q', stop, hr, hstop, hpopped⟩ := hpop q hs.sound hs.linked
    rcases hpopped with ⟨rfl, rfl, -⟩ | ⟨k, x, rest, hk, hx, -, rfl, rfl⟩
    · exact ⟨none, q', unscheduled, by rw [popSchedulable, hr], hs⟩
    · have htake := hs.take h hx
      by_cases hc : (s.threads x).canSchedule
      · refine ⟨some x, _, unscheduled, ?_, htake⟩
        rw [popSchedulable, hr]
        simp [hc]
      · have hlt := @queuedThreads_setData_lt q k x rest (by omega) hx
        obtain ⟨r, q', un, h₁, h₂⟩ := ih _ _ (by omega) htake.layAside
        refine ⟨r, q', un, ?_, h₂⟩
        rw [popSchedulable, hr]
        simp [hc, h₁]

/-- The threads laid aside go back to their levels. -/
theorem Spread.putBack {s : KernelSystem} {q₀ q : ReadyQueue} {unscheduled : List Nat}
    {found : Option Nat} (hs : s.Spread q₀ q unscheduled found)
    (hlinked : ∀ t ∈ unscheduled, q₀.Linked (s.threads t).currentPriority) :
    s.Spread q₀ (s.putBack q unscheduled) [] found := by
  have hfold : ∀ (l : List Nat) (q : ReadyQueue), s.Spread q₀ q l found →
      (∀ t ∈ l, q₀.Linked (s.threads t).currentPriority) →
      s.Spread q₀ (l.foldl (fun q t => q.pushBack (s.threads t).currentPriority t) q) [] found := by
    intro l
    induction l with
    | nil => exact fun q hs _ => hs
    | cons t l ih =>
      intro q hs hl
      refine ih _ ⟨?_, hs.linked, fun k u => ?_⟩ fun u hu => hl u (List.mem_cons_of_mem t hu)
      · exact hs.sound.pushBack ((hs.linked _).2 (hl t List.mem_cons_self)) t
      · rw [← hs.count k u, ThreadQueueList.count_pushBack, List.count_cons]
        by_cases hu : u = t
        · subst hu
          by_cases hk : (s.threads u).currentPriority = k
          · simp [hk]
            omega
          · simp [hk, Ne.symm hk]
        · simp [hu, Ne.symm hu]
  refine hfold _ q ⟨hs.sound, hs.linked, fun k u => ?_⟩ fun t ht => hlinked t (List.mem_reverse.1 ht)
  rw [List.count_reverse]
  exact hs.count k u

/-- What `PopNextReadyThread` finds and what it leaves in the queue. -/
structure PoppedNext (s : KernelSystem) (core : Nat) (next : Option Nat) (q : ReadyQueue) : Prop where
  sound : q.Sound
  linked : ∀ k, q.Linked k ↔ (s.queue core).Linked k
  count_le : ∀ k u, (q.data k).count u ≤ ((s.queue core).data k).count u
  count_eq : ∀ k u, next ≠ some u → (q.data k).count u = ((s.queue core).data k).count u
  next : ∀ t, next = some t → s.kind t = .thread ∧ (s.threads t).coreId = core ∧
    ((s.threads t).status = .ready ∨ s.runningThread core = some t)

theorem Spread.poppedNext {s : KernelSystem} {core : Nat} (h : s.Queued) {q : ReadyQueue}
    {unscheduled : List Nat} {found next : Option Nat}
    (hs : s.Spread (s.queue core) q unscheduled found)
    (hnext : next = found ∨ (found = none ∧ next = s.runningThread core)) :
    s.PoppedNext core next (s.putBack q unscheduled) := by
  have hready : ∀ t, t ∈ unscheduled ∨ found = some t → (s.threads t).status = .ready ∧
      (s.threads t).coreId = core ∧ s.kind t = .thread := by
    intro t ht
    have hcount := hs.count (s.threads t).currentPriority t
    rw [if_pos rfl] at hcount
    have hpos : 0 < unscheduled.count t + (if found = some t then 1 else 0) := by
      rcases ht with ht | ht
      · have := List.count_pos_iff.2 ht
        omega
      · simp [ht]
    have hmem : t ∈ (s.queue core).data (s.threads t).currentPriority := by
      rw [← List.count_pos_iff]
      omega
    obtain ⟨h₁, h₂, -, h₄⟩ := h.of_mem hmem
    exact ⟨h₁, h₂, h₄⟩
  have hback := hs.putBack fun t ht => by
    obtain ⟨-, hc, hk⟩ := hready t (Or.inl ht)
    have hl := h.linked t hk
    rwa [hc] at hl
  refine ⟨hback.sound, hback.linked, fun k u => ?_, fun k u hu => ?_, fun t ht => ?_⟩
  · rw [← hback.count k u]
    omega
  · rw [← hback.count k u]
    have hfound : found ≠ some u := by
      rcases hnext with rfl | ⟨rfl, -⟩
      · exact hu
      · simp
    simp [hfound]
  · rcases hnext with rfl | ⟨rfl, rfl⟩
    · obtain ⟨h₁, h₂, h₃⟩ := hready t (Or.inr ht)
      exact ⟨h₃, h₂, Or.inl h₁⟩
    · obtain ⟨h₁, h₂, -, -⟩ := h.runningThread ht
      exact ⟨h₁, h₂, Or.inr ht⟩

/-- `PopNextReadyThread` meets no bad pointer. -/
theorem popNextReadyThread_spec {s : KernelSystem} (h : s.Queued) (core : Nat) :
    ∃ next q, s.popNextReadyThread core = some (next, q) ∧ s.PoppedNext core next q := by
  have hstart : s.Spread (s.queue core) (s.queue core) [] none :=
    ⟨h.sound core, fun _ => Iff.rfl, fun k u => by simp⟩
  cases hrun : s.runningThread core with
  | some cur =>
    obtain ⟨hk, hc, -, -⟩ := h.runningThread hrun
    have hlinked := h.linked cur hk
    rw [hc] at hlinked
    obtain ⟨r, q, un, hr, hspread⟩ := popSchedulable_spread h (pops_popFirstBetter hlinked)
      (queuedThreads (s.queue core) + 1) _ [] (Nat.lt_succ_self _) hstart
    refine ⟨some (r.getD cur), s.putBack q un, ?_, hspread.poppedNext h ?_⟩
    · unfold popNextReadyThread
      rw [hrun]
      simp only [queue] at hr
      simp [hr]
    · cases r with
      | none => exact Or.inr ⟨rfl, hrun.symm⟩
      | some t => exact Or.inl rfl
  | none =>
    obtain ⟨r, q, un, hr, hspread⟩ := popSchedulable_spread h (pops_popFirst (s.queue core))
      (queuedThreads (s.queue core) + 1) _ [] (Nat.lt_succ_self _) hstart
    refine ⟨r, s.putBack q un, ?_, hspread.poppedNext h (Or.inl rfl)⟩
    unfold popNextReadyThread
    rw [hrun]
    simp only [queue] at hr
    simp [hr]

theorem threads_suspendPrevious (s : KernelSystem) (core u : Nat) :
    (s.suspendPrevious core).threads u =
      if s.runningThread core = some u then { s.threads u with status := .ready }
      else s.threads u := by
  unfold suspendPrevious
  split
  · rename_i t ht
    rw [setStatus, threads_modifyThread, threads_modifyQueue]
    by_cases hu : u = t
    · simp [hu, ht]
    · simp [hu, ht, Ne.symm hu]
  · rename_i hnone
    simp [hnone]

theorem queue_suspendPrevious (s : KernelSystem) (core c : Nat) :
    (s.suspendPrevious core).queue c =
      match s.runningThread core with
      | some t => if c = core then (s.queue c).pushFront (s.threads t).currentPriority t
          else s.queue c
      | none => s.queue c := by
  unfold suspendPrevious
  cases s.runningThread core with
  | some t =>
    exact queue_modifyQueue s core (fun q => q.pushFront (s.threads t).currentPriority t) c
  | none => rfl

theorem Queued.suspendPrevious {s : KernelSystem} (h : s.Queued) (core : Nat) :
    (s.suspendPrevious core).Queued := by
  unfold KernelSystem.suspendPrevious
  split
  · rename_i t ht
    obtain ⟨hk, hc, hrun, -⟩ := h.runningThread ht
    have hready := @Queued.becomeReady s h t
      (fun q => q.pushFront (s.threads t).currentPriority t) hk (by rw [hrun]; simp) (Or.inr rfl)
    rwa [hc] at hready
  · exact h

/-- The order of the threads within their levels does not matter. -/
theorem Queued.replaceQueue {s : KernelSystem} (h : s.Queued) {core : Nat} {q : ReadyQueue}
    (hq : s.PoppedNext core none q) : (s.modifyQueue core fun _ => q).Queued := by
  have hqueue : ∀ c, (s.modifyQueue core fun _ => q).queue c = if c = core then q else s.queue c :=
    fun c => queue_modifyQueue s core (fun _ => q) c
  refine ⟨fun t c k => ?_, fun c => ?_, fun t ht => ?_, h.nominal, h.blank, fun c t ht => ?_,
    h.waiters⟩
  · rw [hqueue]
    by_cases hc : c = core
    · rw [if_pos hc, hq.count_eq k t (by simp), ← hc]
      exact h.count t c k
    · rw [if_neg hc]
      exact h.count t c k
  · rw [hqueue]
    split
    · exact hq.sound
    · exact h.sound c
  · rw [hqueue]
    by_cases hc : (s.threads t).coreId = core
    · rw [threads_modifyQueue, if_pos hc, hq.linked, ← hc]
      exact h.linked t ht
    · rw [threads_modifyQueue, if_neg hc]
      exact h.linked t ht
  · rw [currentThread_modifyQueue] at ht
    exact h.current c t ht

theorem Queued.idle {s : KernelSystem} (h : s.Queued) (core : Nat) :
    (s.modifyManager core fun m => { m with currentThread := none }).Queued := by
  have hqueue : ∀ c, (s.modifyManager core fun m => { m with currentThread := none }).queue c =
      s.queue c := by
    intro c
    rw [queue, managers_modifyManager]
    split <;> rfl
  refine ⟨fun t c k => ?_, fun c => ?_, fun t ht => ?_, h.nominal, h.blank, fun c t ht => ?_,
    h.waiters⟩
  · rw [hqueue]
    exact h.count t c k
  · rw [hqueue]
    exact h.sound c
  · rw [hqueue]
    exact h.linked t ht
  · rw [managers_modifyManager] at ht
    split at ht
    · cases ht
    · exact h.current c t ht

theorem runningThread_modifyQueue (s : KernelSystem) (core : Nat) (f : ReadyQueue → ReadyQueue)
    (c : Nat) : (s.modifyQueue core f).runningThread c = s.runningThread c := by
  rw [runningThread, currentThread_modifyQueue, runningThread, threads_modifyQueue]

theorem kind_suspendPrevious (s : KernelSystem) (core : Nat) :
    (s.suspendPrevious core).kind = s.kind := by
  unfold suspendPrevious
  split <;> rfl

theorem waitingThreads_suspendPrevious (s : KernelSystem) (core : Nat) :
    (s.suspendPrevious core).waitingThreads = s.waitingThreads := by
  unfold suspendPrevious
  split <;> rfl

theorem currentThread_suspendPrevious (s : KernelSystem) (core c : Nat) :
    ((s.suspendPrevious core).managers c).currentThread = (s.managers c).currentThread := by
  unfold suspendPrevious
  split
  · rw [setStatus, managers_modifyThread, currentThread_modifyQueue]
  · rfl

/-- The previous thread goes into a queue that was popped as it goes into the queue before. -/
theorem count_suspendPrevious (s : KernelSystem) (core : Nat) (q : ReadyQueue) (c k u : Nat) :
    ((((s.modifyQueue core fun _ => q).suspendPrevious core).queue c).data k).count u +
        ((s.queue c).data k).count u =
      (((s.suspendPrevious core).queue c).data k).count u +
        (if c = core then (q.data k).count u else ((s.queue c).data k).count u) := by
  rw [queue_suspendPrevious, queue_suspendPrevious, runningThread_modifyQueue,
    threads_modifyQueue, queue_modifyQueue]
  by_cases hc : c = core
  · simp only [if_pos hc]
    cases s.runningThread core with
    | some t =>
      simp only [ThreadQueueList.count_pushFront]
      omega
    | none => exact Nat.add_comm _ _
  · simp only [if_neg hc]

theorem linked_suspendPrevious (s : KernelSystem) (core c k : Nat) :
    ((s.suspendPrevious core).queue c).Linked k ↔ (s.queue c).Linked k := by
  rw [queue_suspendPrevious]
  cases s.runningThread core with
  | some t =>
    simp only
    split
    · exact ThreadQueueList.linked_pushFront _ _ _ _
    · exact Iff.rfl
  | none => exact Iff.rfl

theorem PoppedNext.sound_suspendPrevious {s : KernelSystem} (h : s.Queued) {core : Nat}
    {next : Option Nat} {q : ReadyQueue} (hq : s.PoppedNext core next q) (c : Nat) :
    (((s.modifyQueue core fun _ => q).suspendPrevious core).queue c).Sound := by
  have hsound : ((s.modifyQueue core fun _ => q).queue c).Sound := by
    rw [queue_modifyQueue]
    split
    · exact hq.sound
    · exact h.sound c
  rw [queue_suspendPrevious, runningThread_modifyQueue, threads_modifyQueue]
  cases hrun : s.runningThread core with
  | some t =>
    simp only
    split
    · rename_i hc
      obtain ⟨hk, hcore, -, -⟩ := h.runningThread hrun
      refine hsound.pushFront ?_ t
      rw [queue_modifyQueue, if_pos hc, hq.linked, ← hcore]
      exact h.linked t hk
    · exact hsound
  | none => exact hsound

/-- The thread that was found becomes the one that runs, whether it was taken out of the queue
before or stays the running one. -/
theorem Queued.runNext {s : KernelSystem} (h : s.Queued) {core t : Nat} {q : ReadyQueue}
    (hq : s.PoppedNext core (some t) q) :
    ∃ s', (s.modifyQueue core fun _ => q).switchContext core (some t) = some s' ∧ s'.Queued := by
  obtain ⟨hk, hc, hstatus⟩ := hq.next t rfl
  have ha := h.suspendPrevious core
  have hcount := count_suspendPrevious s core q
  have hsound := hq.sound_suspendPrevious h
  have hkind : ((s.modifyQueue core fun _ => q).suspendPrevious core).kind =
      (s.suspendPrevious core).kind := by
    rw [kind_suspendPrevious, kind_suspendPrevious, kind_modifyQueue]
  have hwaiting : ((s.modifyQueue core fun _ => q).suspendPrevious core).waitingThreads =
      (s.suspendPrevious core).waitingThreads := by
    rw [waitingThreads_suspendPrevious, waitingThreads_suspendPrevious, waitingThreads_modifyQueue]
  have hcurrent : ∀ c, (((s.modifyQueue core fun _ => q).suspendPrevious core).managers
      c).currentThread = ((s.suspendPrevious core).managers c).currentThread := by
    intro c
    rw [currentThread_suspendPrevious, currentThread_suspendPrevious, currentThread_modifyQueue]
  have hthreads : ∀ u, ((s.modifyQueue core fun _ => q).suspendPrevious core).threads u =
      (s.suspendPrevious core).threads u := by
    intro u
    rw [threads_suspendPrevious, threads_suspendPrevious, runningThread_modifyQueue,
      threads_modifyQueue]
  have hlinked : ∀ c k, ((s.suspendPrevious core).queue c).Linked k →
      (((s.modifyQueue core fun _ => q).suspendPrevious core).queue c).Linked k := by
    intro c k hl
    rw [linked_suspendPrevious] at hl ⊢
    rw [queue_modifyQueue]
    split
    · rename_i hcc
      rw [hq.linked, ← hcc]
      exact hl
    · exact hl
  have hready : (((s.suspendPrevious core).threads t)).status = .ready := by
    rw [threads_suspendPrevious]
    split
    · rfl
    · rename_i hrun
      exact hstatus.resolve_right hrun
  have hcore : ((s.suspendPrevious core).threads t).coreId = core := by
    rw [threads_suspendPrevious]
    split <;> exact hc
  rw [switchContext]
  generalize (s.modifyQueue core fun _ => q).suspendPrevious core = s₁ at *
  simp only [loadContext, hthreads, if_pos hready]
  refine ⟨_, rfl, ?_⟩
  have hqueue : ∀ c, ((s₁.modifyManager core fun m =>
      { currentThread := some t
        readyQueue := m.readyQueue.remove ((s.suspendPrevious core).threads t).currentPriority
          t }).setStatus t .running).queue c =
      if c = core then
        (s₁.queue c).remove ((s.suspendPrevious core).threads t).currentPriority t
      else s₁.queue c := by
    intro c
    rw [queue, KernelSystem.setStatus, managers_modifyThread, managers_modifyManager]
    split <;> rfl
  refine @Queued.restatus _ _ ha t .running (by rwa [kind_suspendPrevious]) (fun u => ?_) hkind
    hwaiting (fun c u hu => ?_) (fun c => ?_) (fun c k hl => ?_) fun c k u => ?_
  · rw [KernelSystem.setStatus, threads_modifyThread, threads_modifyManager, hthreads]
  · rw [KernelSystem.setStatus, managers_modifyThread, managers_modifyManager] at hu
    split at hu
    · rename_i hcc
      cases hu
      exact Or.inr ⟨rfl, hcc ▸ hcore⟩
    · rw [hcurrent] at hu
      exact Or.inl hu
  · rw [hqueue]
    split
    · exact (hsound c).remove _ t
    · exact hsound c
  · rw [hqueue]
    split
    · exact hlinked c k hl
    · exact hlinked c k hl
  · have hck := hcount c k u
    have hold := ha.count u c k
    rw [hqueue]
    by_cases hut : u = t
    · subst hut
      rw [hready, hcore] at hold
      simp only [reduceCtorEq, false_and, if_false, if_true]
      by_cases hcc : c = core
      · rw [if_pos hcc, ThreadQueueList.count_remove]
        split
        · rfl
        · rename_i hkp
          have hle := hq.count_le k u
          rw [if_neg fun hcon => hkp ⟨hcon.2.2.symm, rfl⟩] at hold
          rw [if_pos hcc, hcc] at hck
          rw [hcc] at hold ⊢
          omega
      · rw [if_neg hcc]
        rw [if_neg hcc] at hck
        rw [if_neg fun hcon => hcc hcon.2.1.symm] at hold
        omega
    · rw [if_neg hut]
      have heq := hq.count_eq k u fun hcon => hut (Option.some.inj hcon).symm
      have hmain : ((s₁.queue c).data k).count u =
          (((s.suspendPrevious core).queue c).data k).count u := by
        by_cases hcc : c = core
        · rw [if_pos hcc, heq, hcc] at hck
          rw [hcc]
          omega
        · rw [if_neg hcc] at hck
          omega
      split
      · rw [ThreadQueueList.count_remove, if_neg fun hcon => hut hcon.2]
        exact hmain
      · exact hmain

/-- A core can always reschedule, and the queues are as they should be afterwards. -/
theorem Queued.reschedule {s : KernelSystem} (h : s.Queued) (core : Nat) :
    ∃ s', s.reschedule core = some s' ∧ s'.Queued := by
  obtain ⟨next, q, hpop, hq⟩ := popNextReadyThread_spec h core
  unfold KernelSystem.reschedule
  rw [hpop]
  cases next with
  | some t => simpa using h.runNext hq
  | none =>
    have h₁ := h.replaceQueue hq
    simp only [and_true]
    split
    · exact ⟨_, rfl, h₁⟩
    · exact ⟨_, rfl, (h₁.suspendPrevious core).idle core⟩

/-! ## Every run -/

/-- Every operation keeps the invariant. -/
theorem queued_step {s s' : KernelSystem} (h : s.Queued) (op : KernelOp)
    (hs : s.step op = some s') : s'.Queued := by
  cases op with
  | createThread address priority processorId makeReady =>
    simp only [step] at hs
    split at hs
    · rename_i ha
      cases hs
      exact h.createThread ha priority processorId makeReady
    · cases hs
  | createMutex core address initialLocked =>
    simp only [step, Option.bind_eq_some_iff, Option.map_eq_some_iff, createObject_eq_some] at hs
    obtain ⟨t, -, s₁, ⟨ha, rfl⟩, rfl⟩ := hs
    have h₁ := @Queued.setKind s h address (.mutex 0 0 none) (by simp) (by simp [ha])
    split
    · exact h₁.acquire address t
    · exact h₁
  | createEvent address resetType =>
    obtain ⟨ha, rfl⟩ := createObject_eq_some.1 hs
    exact h.setKind address (by simp) (by simp [ha])
  | createSemaphore address initialCount maxCount =>
    simp only [step] at hs
    split at hs
    · cases hs
      exact h
    · obtain ⟨ha, rfl⟩ := createObject_eq_some.1 hs
      exact h.setKind address (by simp) (by simp [ha])
  | createTimer address resetType =>
    obtain ⟨ha, rfl⟩ := createObject_eq_some.1 hs
    exact h.setKind address (by simp) (by simp [ha])
  | waitSynchronization1 core object nanoSeconds =>
    simp only [step, Option.bind_eq_some_iff] at hs
    obtain ⟨t, ht, hs⟩ := hs
    obtain ⟨hk, -, hrun, -⟩ := h.runningThread ht
    split at hs
    · cases hs
    · cases hs
      exact h.waitSynchronization1 hk (by simp [hrun]) object nanoSeconds
  | waitSynchronizationN core objects waitAll nanoSeconds =>
    simp only [step, Option.bind_eq_some_iff] at hs
    obtain ⟨t, ht, hs⟩ := hs
    obtain ⟨hk, -, hrun, -⟩ := h.runningThread ht
    split at hs
    · cases hs
    · cases hs
      exact h.waitSynchronizationN hk (by simp [hrun]) objects waitAll nanoSeconds
  | suspend core status =>
    simp only [step, Option.bind_eq_some_iff] at hs
    obtain ⟨t, ht, hs⟩ := hs
    obtain ⟨hk, -, hrun, -⟩ := h.runningThread ht
    split at hs
    · rename_i hstatus
      cases hs
      refine h.setStatus hk (by simp [hrun]) ?_
      rcases hstatus with rfl | rfl | rfl <;> simp
    · cases hs
  | sleepClientThread core address =>
    simp only [step, Option.bind_eq_some_iff, Option.map_eq_some_iff, createObject_eq_some] at hs
    obtain ⟨t, ht, s₁, ⟨ha, rfl⟩, rfl⟩ := hs
    obtain ⟨hk, -, hrun, -⟩ := h.runningThread ht
    have h₁ := @Queued.setKind s h address (.event .oneShot false) (by simp) (by simp [ha])
    refine h₁.waitFor ?_ (by simp [hrun]) (by simp) [address]
    rw [kind_setKind, if_neg]
    · exact hk
    · rintro rfl
      rw [ha] at hk
      cases hk
  | signal object =>
    cases hs
    exact h.signal object
  | clear object =>
    cases hs
    exact h.clear object
  | releaseSemaphore object releaseCount =>
    cases hs
    exact h.releaseSemaphore object releaseCount
  | releaseMutex core object =>
    simp only [step, Option.map_eq_some_iff] at hs
    obtain ⟨t, -, rfl⟩ := hs
    exact h.releaseMutex object t
  | threadWakeupCallback thread =>
    simp only [step, onThread_eq_some] at hs
    obtain ⟨ht, rfl⟩ := hs
    exact h.threadWakeupCallback ht
  | resumeFromWait thread =>
    simp only [step] at hs
    split at hs
    · obtain ⟨ht, rfl⟩ := onThread_eq_some.1 hs
      exact h.resumeFromWait ht
    · cases hs
  | setThreadPriority thread priority =>
    simp only [step, onThread_eq_some] at hs
    obtain ⟨-, rfl⟩ := hs
    exact h.setThreadPriority thread priority
  | setPriority thread priority =>
    simp only [step] at hs
    split at hs
    · rename_i hp
      obtain ⟨-, rfl⟩ := onThread_eq_some.1 hs
      exact h.setPriority thread hp
    · cases hs
  | boostPriority thread priority =>
    simp only [step] at hs
    split at hs
    · rename_i hp
      obtain ⟨-, rfl⟩ := onThread_eq_some.1 hs
      exact h.boostPriority thread hp
    · cases hs
  | setCanSchedule thread canSchedule =>
    simp only [step, onThread_eq_some] at hs
    obtain ⟨-, rfl⟩ := hs
    exact h.modifyThread thread fun _ => ⟨rfl, rfl, rfl, rfl⟩
  | stop thread =>
    simp only [step] at hs
    split at hs
    · cases hs
    · obtain ⟨ht, rfl⟩ := onThread_eq_some.1 hs
      exact h.stop ht
  | exitCurrentThread core =>
    simp only [step, Option.map_eq_some_iff] at hs
    obtain ⟨t, ht, rfl⟩ := hs
    exact h.stop (h.runningThread ht).1
  | reschedule core =>
    obtain ⟨s₁, hs₁, h₁⟩ := h.reschedule core
    simp only [step, hs₁, Option.some.injEq] at hs
    exact hs ▸ h₁

theorem queued_reachable {s : KernelSystem} (h : s.Reachable) : s.Queued := by
  induction h with
  | initial => exact queued_initial
  | step op _ hs ih => exact queued_step ih op hs

/-- Two threads on one core: the better one runs, the other stands in the queue. -/
def twoThreads : List KernelOp :=
  [.createThread 1 48 0 true, .createThread 2 50 0 true, .reschedule 0]

end KernelSystem
end AzaharPlus.Kernel
