import AzaharPlus.Kernel.Wakeups

/-!
# Priority inheritance

A thread that holds mutexes should run at the best of its nominal priority and the current
priorities of the threads that wait for these mutexes (`inheritedPriority`).  The kernel keeps two
caches: the priority of a mutex, for its best waiter, and the current priority of a thread, for its
nominal one and the mutexes it holds.  The second is always right.  The first is not:

* when the priority of a thread changes because of a mutex it holds, the mutexes that the thread
  itself waits for are not updated, so that a boost is not passed on, or not taken back, along a
  chain of holders;
* a thread that takes a free mutex leaves its own current priority in it, which stays there as a
  boost until the next thread comes to wait or leaves.

`Gentle` excludes the operations that reach one of these, and along every run of gentle operations
every thread has the priority it should have (`priority_inherited`).
-/

namespace AzaharPlus.Kernel

open Common

namespace KernelSystem

/-! ## What the priorities should be -/

/-- The best of the nominal priority of a thread and the current priorities of all threads that
wait for a mutex it holds. -/
def inheritedPriority (s : KernelSystem) (t : Nat) : Nat :=
  ((s.threads t).heldMutexes.toList.flatMap s.waitingThreads).foldl
    (fun best u =>
      if (s.threads u).currentPriority < best then (s.threads u).currentPriority else best)
    (s.threads t).nominalPriority

theorem le_inheritedPriority (s : KernelSystem) (t x : Nat) :
    x ≤ s.inheritedPriority t ↔ x ≤ (s.threads t).nominalPriority ∧
      ∀ m ∈ (s.threads t).heldMutexes, ∀ u ∈ s.waitingThreads m,
        x ≤ (s.threads u).currentPriority := by
  rw [inheritedPriority, le_foldl_best (fun u => (s.threads u).currentPriority)]
  simp only [List.mem_flatMap, SortedSet.mem_toList]
  constructor
  · rintro ⟨h₁, h₂⟩
    exact ⟨h₁, fun m hm u hu => h₂ u ⟨m, hm, hu⟩⟩
  · rintro ⟨h₁, h₂⟩
    exact ⟨h₁, fun u ⟨m, hm, hu⟩ => h₂ m hm u hu⟩

/-- The holder of an object of some kind. -/
def holderOf : ObjectKind → Option Nat
  | .mutex _ _ h => h
  | _ => none

/-- The holder of a mutex. -/
def holder (s : KernelSystem) (m : Nat) : Option Nat := holderOf (s.kind m)

/-! ## Operations that keep the caches right -/

/-- No holder of a mutex that the thread waits for waits for a mutex itself, unless it is `x`. -/
def Unchained (s : KernelSystem) (x : Option Nat) (w : Nat) : Prop :=
  ∀ m ∈ (s.threads w).pendingMutexes.toList, ∀ h ∈ s.holder m,
    x = some h ∨ (s.threads h).pendingMutexes.toList = []

/-- Whoever waits for the object is unchained. -/
def WakeOk (s : KernelSystem) (x : Option Nat) (o : Nat) : Prop :=
  ∀ w ∈ s.waitingThreads o, s.Unchained x w

/-- A thread may start to wait: the mutexes are not its own, and their holders wait for none. -/
def WaitOk (s : KernelSystem) (t : Nat) (objects : List Nat) : Prop :=
  ∀ m ∈ objects, ∀ h ∈ s.holder m, h ≠ t ∧ (s.threads h).pendingMutexes.toList = []

/-- A thread may take an object: if that is a free mutex, the thread runs at its nominal priority
and nobody who waits for the mutex has a better one. -/
def AcquireOk (s : KernelSystem) (t o : Nat) : Prop :=
  match s.kind o with
  | .mutex 0 _ _ =>
      (s.threads t).currentPriority = (s.threads t).nominalPriority ∧
        ∀ w ∈ s.waitingThreads o, (s.threads t).currentPriority ≤ (s.threads w).currentPriority
  | _ => True

/-- The priority in a mutex is that of its best waiter, or both are no better than `priority`. -/
def CacheOk (s : KernelSystem) (m priority : Nat) : Prop :=
  s.mutexPriority m = s.bestWaitingPriority m ∨
    (priority ≤ s.mutexPriority m ∧ priority ≤ s.bestWaitingPriority m)

/-- A thread may wait for any of some objects. -/
def WaitAnyOk (s : KernelSystem) (t : Nat) (objects : List Nat) (nanoSeconds : Int) : Prop :=
  match objects.find? fun o => !s.shouldWait o t with
  | some o => s.AcquireOk t o
  | none => nanoSeconds ≠ 0 → s.WaitOk t objects

/-- A thread may end. -/
def StopOk (s : KernelSystem) (t : Nat) : Prop :=
  s.WakeOk none t ∧ s.Unchained none t ∧
    ∀ m ∈ (s.threads t).heldMutexes.toList, s.WakeOk (some t) m

/-- The operations that reach neither of the two defects.  `SetPriority` and `BoostPriority` are
called by the kernel alone. -/
def Gentle (s : KernelSystem) : KernelOp → Prop
  | .createMutex core _ initialLocked =>
      initialLocked = true → ∀ t ∈ s.runningThread core,
        (s.threads t).currentPriority = (s.threads t).nominalPriority
  | .waitSynchronization1 core object nanoSeconds =>
      ∀ t ∈ s.runningThread core,
        if s.shouldWait object t = true then nanoSeconds ≠ 0 → s.WaitOk t [object]
        else s.AcquireOk t object
  | .waitSynchronizationN core objects waitAll nanoSeconds =>
      ∀ t ∈ s.runningThread core,
        if waitAll = true then
          if ∀ o ∈ objects, s.shouldWait o t = false then ∀ o ∈ objects, s.AcquireOk t o
          else nanoSeconds ≠ 0 → s.WaitOk t objects
        else s.WaitAnyOk t objects nanoSeconds
  | .signal object => s.WakeOk none object
  | .releaseSemaphore object _ => s.WakeOk none object
  | .releaseMutex _ object => s.WakeOk none object
  | .threadWakeupCallback thread => s.Unchained none thread
  | .setThreadPriority thread priority =>
      s.Unchained none thread ∧
        ∀ m ∈ (s.threads thread).heldMutexes.toList, s.CacheOk m priority
  | .stop thread => s.StopOk thread
  | .exitCurrentThread core => ∀ t ∈ s.runningThread core, s.StopOk t
  | .setPriority _ _ => False
  | .boostPriority _ _ => False
  | _ => True

instance (s : KernelSystem) (x : Option Nat) (w : Nat) : Decidable (s.Unchained x w) :=
  inferInstanceAs (Decidable (∀ m ∈ (s.threads w).pendingMutexes.toList, ∀ h ∈ s.holder m,
    x = some h ∨ (s.threads h).pendingMutexes.toList = []))

instance (s : KernelSystem) (x : Option Nat) (o : Nat) : Decidable (s.WakeOk x o) :=
  inferInstanceAs (Decidable (∀ w ∈ s.waitingThreads o, s.Unchained x w))

instance (s : KernelSystem) (t : Nat) (objects : List Nat) : Decidable (s.WaitOk t objects) :=
  inferInstanceAs (Decidable (∀ m ∈ objects, ∀ h ∈ s.holder m,
    h ≠ t ∧ (s.threads h).pendingMutexes.toList = []))

instance (s : KernelSystem) (t o : Nat) : Decidable (s.AcquireOk t o) := by
  unfold AcquireOk
  split <;> infer_instance

instance (s : KernelSystem) (t : Nat) (objects : List Nat) (nanoSeconds : Int) :
    Decidable (s.WaitAnyOk t objects nanoSeconds) := by
  unfold WaitAnyOk
  split <;> infer_instance

instance (s : KernelSystem) (m priority : Nat) : Decidable (s.CacheOk m priority) :=
  inferInstanceAs (Decidable (_ ∨ _))

instance (s : KernelSystem) (t : Nat) : Decidable (s.StopOk t) :=
  inferInstanceAs (Decidable (_ ∧ _ ∧ ∀ m ∈ (s.threads t).heldMutexes.toList, s.WakeOk (some t) m))

instance (s : KernelSystem) (op : KernelOp) : Decidable (s.Gentle op) :=
  match op with
  | .createMutex core _ initialLocked =>
      inferInstanceAs (Decidable (initialLocked = true → ∀ t ∈ s.runningThread core,
        (s.threads t).currentPriority = (s.threads t).nominalPriority))
  | .waitSynchronization1 core object nanoSeconds =>
      inferInstanceAs (Decidable (∀ t ∈ s.runningThread core,
        if s.shouldWait object t = true then nanoSeconds ≠ 0 → s.WaitOk t [object]
        else s.AcquireOk t object))
  | .waitSynchronizationN core objects waitAll nanoSeconds =>
      inferInstanceAs (Decidable (∀ t ∈ s.runningThread core,
        if waitAll = true then
          if ∀ o ∈ objects, s.shouldWait o t = false then ∀ o ∈ objects, s.AcquireOk t o
          else nanoSeconds ≠ 0 → s.WaitOk t objects
        else s.WaitAnyOk t objects nanoSeconds))
  | .signal object | .releaseSemaphore object _ | .releaseMutex _ object =>
      inferInstanceAs (Decidable (s.WakeOk none object))
  | .threadWakeupCallback thread => inferInstanceAs (Decidable (s.Unchained none thread))
  | .setThreadPriority thread priority =>
      inferInstanceAs (Decidable (s.Unchained none thread ∧
        ∀ m ∈ (s.threads thread).heldMutexes.toList, s.CacheOk m priority))
  | .stop thread => inferInstanceAs (Decidable (s.StopOk thread))
  | .exitCurrentThread core =>
      inferInstanceAs (Decidable (∀ t ∈ s.runningThread core, s.StopOk t))
  | .setPriority .. | .boostPriority .. => .isFalse id
  | .createThread .. | .createEvent .. | .createSemaphore .. | .createTimer .. | .suspend ..
  | .sleepClientThread .. | .clear .. | .resumeFromWait .. | .setCanSchedule .. | .reschedule .. =>
      .isTrue trivial

/-- Several operations, as long as they are gentle. -/
def runGently (s : KernelSystem) : List KernelOp → Option KernelSystem
  | [] => some s
  | op :: ops => if s.Gentle op then (s.step op).bind fun s' => s'.runGently ops else none

/-- The states that gentle operations lead to. -/
inductive GentlyReachable : KernelSystem → Prop
  | initial : GentlyReachable initial
  | step {s s' : KernelSystem} (op : KernelOp) (h : GentlyReachable s) (hg : s.Gentle op)
      (hs : s.step op = some s') : GentlyReachable s'

theorem GentlyReachable.reachable {s : KernelSystem} (h : s.GentlyReachable) : s.Reachable := by
  induction h with
  | initial => exact .initial
  | step op _ _ hs ih => exact .step op ih hs

theorem GentlyReachable.run {s s' : KernelSystem} (h : s.GentlyReachable) {ops : List KernelOp}
    (hs : s.runGently ops = some s') : s'.GentlyReachable := by
  induction ops generalizing s with
  | nil =>
    cases hs
    exact h
  | cons op ops ih =>
    unfold runGently at hs
    split at hs
    · rename_i hg
      obtain ⟨s₁, h₁, h₂⟩ := Option.bind_eq_some_iff.1 hs
      exact ih (h.step op hg h₁) h₂
    · cases hs

/-! ## The invariant -/

/-- The caches are right, but for the priorities of the mutexes in `x`. -/
structure Inherits (s : KernelSystem) (x : Nat → Prop) : Prop where
  pending : ∀ t m, m ∈ (s.threads t).pendingMutexes ↔
    (∃ n p h, s.kind m = .mutex n p h) ∧ t ∈ s.waitingThreads m
  lock : ∀ m p h, s.kind m = .mutex 0 p h → h = none
  held : ∀ m t, s.holder m = some t → m ∈ (s.threads t).heldMutexes ∧ s.kind t = .thread
  holds : ∀ t m, (s.threads t).status ≠ .dead → m ∈ (s.threads t).heldMutexes →
    s.holder m = some t
  cached : ∀ t, (s.threads t).status ≠ .dead →
    (s.threads t).currentPriority = s.bestHeldPriority t
  exact : ∀ m t, s.holder m = some t → ¬ x m → s.CacheOk m (s.threads t).nominalPriority

theorem bestWaitingPriority_congr {s s' : KernelSystem} {m : Nat}
    (hw : s'.waitingThreads m = s.waitingThreads m)
    (hp : ∀ t ∈ s.waitingThreads m,
      (s'.threads t).currentPriority = (s.threads t).currentPriority) :
    s'.bestWaitingPriority m = s.bestWaitingPriority m := by
  refine eq_of_forall_le_iff fun x => ?_
  rw [le_bestWaitingPriority, le_bestWaitingPriority, hw]
  constructor
  · rintro ⟨h₁, h₂⟩
    exact ⟨h₁, fun t ht => hp t ht ▸ h₂ t ht⟩
  · rintro ⟨h₁, h₂⟩
    exact ⟨h₁, fun t ht => (hp t ht).symm ▸ h₂ t ht⟩

theorem bestHeldPriority_congr {s s' : KernelSystem} {t : Nat}
    (hn : (s'.threads t).nominalPriority = (s.threads t).nominalPriority)
    (hh : (s'.threads t).heldMutexes = (s.threads t).heldMutexes)
    (hp : ∀ m ∈ (s.threads t).heldMutexes, s'.mutexPriority m = s.mutexPriority m) :
    s'.bestHeldPriority t = s.bestHeldPriority t := by
  refine eq_of_forall_le_iff fun x => ?_
  rw [le_bestHeldPriority, le_bestHeldPriority, hn, hh]
  constructor
  · rintro ⟨h₁, h₂⟩
    exact ⟨h₁, fun m hm => hp m hm ▸ h₂ m hm⟩
  · rintro ⟨h₁, h₂⟩
    exact ⟨h₁, fun m hm => (hp m hm).symm ▸ h₂ m hm⟩

/-- With both caches right, every thread has the priority it should have. -/
theorem Inherits.inherited {s : KernelSystem} (h : s.Inherits fun _ => False) (hq : s.Queued)
    {t : Nat} (ht : (s.threads t).status ≠ .dead) :
    (s.threads t).currentPriority = s.inheritedPriority t := by
  have hnominal := hq.nominal t
  refine eq_of_forall_le_iff fun x => ?_
  rw [h.cached t ht, le_bestHeldPriority, le_inheritedPriority]
  refine and_congr_right fun hx => forall₂_congr fun m hm => ?_
  rcases h.exact m t (h.holds t m ht hm) not_false with he | ⟨h₁, h₂⟩
  · rw [he, le_bestWaitingPriority]
    exact ⟨fun hle => hle.2, fun hle => ⟨hx.trans hnominal, hle⟩⟩
  · rw [le_bestWaitingPriority] at h₂
    exact ⟨fun _ u hu => hx.trans (h₂.2 u hu), fun _ => hx.trans h₁⟩

/-! ## Changes that do not touch the caches -/

theorem holder_eq_some {s : KernelSystem} {m t : Nat} :
    s.holder m = some t ↔ ∃ n p, s.kind m = .mutex n p (some t) := by
  unfold holder
  cases s.kind m with
  | mutex n p h => simp [holderOf]
  | _ => simp [holderOf]

theorem holder_setKind (s : KernelSystem) (o : Nat) (k : ObjectKind) (m : Nat) :
    (s.setKind o k).holder m = if m = o then holderOf k else s.holder m := by
  unfold holder
  rw [kind_setKind]
  split <;> rfl

theorem mutexPriority_of_kind {s : KernelSystem} {m n p : Nat} {h : Option Nat}
    (hk : s.kind m = .mutex n p h) : s.mutexPriority m = p := by
  rw [mutexPriority, hk]

theorem mutexPriority_setKind_of_ne (s : KernelSystem) {o m : Nat} (k : ObjectKind)
    (hm : m ≠ o) : (s.setKind o k).mutexPriority m = s.mutexPriority m := by
  unfold mutexPriority
  rw [kind_setKind, if_neg hm]

/-- The two states have the same mutexes. -/
def SameMutexes (s s' : KernelSystem) : Prop :=
  ∀ m n p h, s'.kind m = .mutex n p h ↔ s.kind m = .mutex n p h

theorem SameMutexes.holder {s s' : KernelSystem} (h : SameMutexes s s') (m : Nat) :
    s'.holder m = s.holder m := by
  refine Option.ext fun t => ?_
  rw [holder_eq_some, holder_eq_some]
  exact exists₂_congr fun n p => h m n p (some t)

theorem SameMutexes.mutexPriority {s s' : KernelSystem} (h : SameMutexes s s') (m : Nat) :
    s'.mutexPriority m = s.mutexPriority m := by
  cases hk : s.kind m with
  | mutex n p o => rw [KernelSystem.mutexPriority, (h m n p o).2 hk, KernelSystem.mutexPriority, hk]
  | _ =>
    have hnot : ∀ n p o, s'.kind m ≠ .mutex n p o := by
      intro n p o hcon
      rw [h m n p o, hk] at hcon
      cases hcon
    have hs : s.mutexPriority m = threadPrioLowest := by simp [KernelSystem.mutexPriority, hk]
    rw [hs]
    unfold KernelSystem.mutexPriority
    split
    · rename_i hcon
      exact absurd hcon (hnot _ _ _)
    · rfl

theorem sameMutexes_setKind {s : KernelSystem} {o : Nat} {k : ObjectKind}
    (hk : ∀ n p h, k ≠ .mutex n p h) (ho : ∀ n p h, s.kind o ≠ .mutex n p h) :
    SameMutexes s (s.setKind o k) := by
  intro m n p h
  rw [kind_setKind]
  split
  · rename_i hm
    subst hm
    simp [hk, ho]
  · exact Iff.rfl

/-- Neither what the invariant reads of the mutexes, nor the priorities, the lists or the sets of
mutexes change. -/
theorem Inherits.congr {s s' : KernelSystem} {x : Nat → Prop} (h : s.Inherits x)
    (hmutex : ∀ m, (∃ n p h, s'.kind m = .mutex n p h) ↔ ∃ n p h, s.kind m = .mutex n p h)
    (hholder : ∀ m, s'.holder m = s.holder m)
    (hprio : ∀ m, s'.mutexPriority m = s.mutexPriority m)
    (hlock : ∀ m p h, s'.kind m = .mutex 0 p h → h = none)
    (hthread : ∀ t, s.kind t = .thread → s'.kind t = .thread)
    (hwait : ∀ m, (∃ n p h, s.kind m = .mutex n p h) → s'.waitingThreads m = s.waitingThreads m)
    (hthreads : ∀ t, (s'.threads t).nominalPriority = (s.threads t).nominalPriority ∧
      (s'.threads t).currentPriority = (s.threads t).currentPriority ∧
      (s'.threads t).heldMutexes = (s.threads t).heldMutexes ∧
      (s'.threads t).pendingMutexes = (s.threads t).pendingMutexes ∧
      ((s'.threads t).status ≠ .dead → (s.threads t).status ≠ .dead)) : s'.Inherits x := by
  refine ⟨fun t m => ?_, hlock, fun m t hm => ?_, fun t m ht hm => ?_, fun t ht => ?_,
    fun m t hm hx => ?_⟩
  · rw [(hthreads t).2.2.2.1, h.pending, hmutex]
    exact and_congr_right fun hm => by rw [hwait m hm]
  · rw [hholder] at hm
    rw [(hthreads t).2.2.1]
    exact ⟨(h.held m t hm).1, hthread t (h.held m t hm).2⟩
  · rw [hholder]
    rw [(hthreads t).2.2.1] at hm
    exact h.holds t m ((hthreads t).2.2.2.2 ht) hm
  · rw [(hthreads t).2.1, h.cached t ((hthreads t).2.2.2.2 ht)]
    exact (bestHeldPriority_congr (hthreads t).1 (hthreads t).2.2.1 fun m _ => hprio m).symm
  · rw [hholder] at hm
    have hbest : s'.bestWaitingPriority m = s.bestWaitingPriority m := by
      obtain ⟨n, p, hk⟩ := holder_eq_some.1 hm
      exact bestWaitingPriority_congr (hwait m ⟨n, p, some t, hk⟩) fun u _ => (hthreads u).2.1
    unfold CacheOk
    rw [hprio, hbest, (hthreads t).1]
    exact h.exact m t hm hx

/-- The mutexes are the same. -/
theorem Inherits.frame {s s' : KernelSystem} {x : Nat → Prop} (h : s.Inherits x)
    (hkind : SameMutexes s s') (hthread : ∀ t, s.kind t = .thread → s'.kind t = .thread)
    (hwait : ∀ m, (∃ n p h, s.kind m = .mutex n p h) → s'.waitingThreads m = s.waitingThreads m)
    (hthreads : ∀ t, (s'.threads t).nominalPriority = (s.threads t).nominalPriority ∧
      (s'.threads t).currentPriority = (s.threads t).currentPriority ∧
      (s'.threads t).heldMutexes = (s.threads t).heldMutexes ∧
      (s'.threads t).pendingMutexes = (s.threads t).pendingMutexes ∧
      ((s'.threads t).status ≠ .dead → (s.threads t).status ≠ .dead)) : s'.Inherits x := by
  refine h.congr (fun m => ?_) hkind.holder hkind.mutexPriority
    (fun m p o hm => h.lock m p o ((hkind m 0 p o).1 hm)) hthread hwait hthreads
  exact exists₂_congr fun n p => exists_congr fun o => hkind m n p o

theorem Inherits.modifyThread {s : KernelSystem} {x : Nat → Prop} (h : s.Inherits x) (t : Nat)
    {f : Thread → Thread}
    (hf : (f (s.threads t)).nominalPriority = (s.threads t).nominalPriority ∧
      (f (s.threads t)).currentPriority = (s.threads t).currentPriority ∧
      (f (s.threads t)).heldMutexes = (s.threads t).heldMutexes ∧
      (f (s.threads t)).pendingMutexes = (s.threads t).pendingMutexes ∧
      ((f (s.threads t)).status ≠ .dead → (s.threads t).status ≠ .dead)) :
    (s.modifyThread t f).Inherits x := by
  refine h.frame (fun _ _ _ _ => Iff.rfl) (fun _ ht => ht) (fun _ _ => rfl) fun u => ?_
  rw [threads_modifyThread]
  split
  · rename_i hu
    subst hu
    exact hf
  · exact ⟨rfl, rfl, rfl, rfl, fun hu => hu⟩

theorem Inherits.mono {s : KernelSystem} {x y : Nat → Prop} (h : s.Inherits x)
    (hxy : ∀ m, s.holder m ≠ none → x m → y m) : s.Inherits y := by
  refine ⟨h.pending, h.lock, h.held, h.holds, h.cached, fun m t hm hy => h.exact m t hm ?_⟩
  exact fun hx => hy (hxy m (by rw [hm]; simp) hx)

/-! ## A thread's priority -/

theorem threads_updatePriority (s : KernelSystem) (t u : Nat) :
    (s.updatePriority t).threads u =
      if u = t then { s.threads u with currentPriority := s.bestHeldPriority t }
      else s.threads u := by
  rw [updatePriority, boostPriority, threads_modifyThread]
  rfl

/-- `UpdatePriority` repairs the cache of one thread.  If that thread waits for mutexes, their
caches may be wrong after it. -/
theorem Inherits.updatePriority {s : KernelSystem} {x : Nat → Prop} {t : Nat}
    (hpending : ∀ u m, m ∈ (s.threads u).pendingMutexes ↔
      (∃ n p h, s.kind m = .mutex n p h) ∧ u ∈ s.waitingThreads m)
    (hlock : ∀ m p h, s.kind m = .mutex 0 p h → h = none)
    (hheld : ∀ m u, s.holder m = some u → m ∈ (s.threads u).heldMutexes ∧ s.kind u = .thread)
    (hholds : ∀ u m, (s.threads u).status ≠ .dead → m ∈ (s.threads u).heldMutexes →
      s.holder m = some u)
    (hcached : ∀ u, u ≠ t → (s.threads u).status ≠ .dead →
      (s.threads u).currentPriority = s.bestHeldPriority u)
    (hexact : ∀ m u, s.holder m = some u → ¬ x m → s.CacheOk m (s.threads u).nominalPriority)
    (hfree : ∀ m, s.holder m ≠ none → t ∈ s.waitingThreads m → x m) :
    (s.updatePriority t).Inherits x := by
  have hthreads := threads_updatePriority s t
  have hsame : ∀ u, ((s.updatePriority t).threads u).status = (s.threads u).status ∧
      ((s.updatePriority t).threads u).nominalPriority = (s.threads u).nominalPriority ∧
      ((s.updatePriority t).threads u).heldMutexes = (s.threads u).heldMutexes ∧
      ((s.updatePriority t).threads u).pendingMutexes = (s.threads u).pendingMutexes := by
    intro u
    rw [hthreads]
    split <;> exact ⟨rfl, rfl, rfl, rfl⟩
  have hbest : ∀ u, (s.updatePriority t).bestHeldPriority u = s.bestHeldPriority u :=
    fun u => bestHeldPriority_congr (hsame u).2.1 (hsame u).2.2.1 fun _ _ => rfl
  refine ⟨fun u m => ?_, hlock, fun m u hm => ?_, fun u m hu hm => ?_, fun u hu => ?_,
    fun m u hm hx => ?_⟩
  · rw [(hsame u).2.2.2]
    exact hpending u m
  · rw [(hsame u).2.2.1]
    exact hheld m u hm
  · rw [(hsame u).1] at hu
    rw [(hsame u).2.2.1] at hm
    exact hholds u m hu hm
  · rw [hbest]
    by_cases hut : u = t
    · rw [hthreads, if_pos hut, hut]
    · rw [(hsame u).1] at hu
      rw [hthreads, if_neg hut]
      exact hcached u hut hu
  · have hm' : s.holder m = some u := hm
    have hw : (s.updatePriority t).bestWaitingPriority m = s.bestWaitingPriority m := by
      refine bestWaitingPriority_congr rfl fun v hv => ?_
      rw [hthreads, if_neg]
      rintro rfl
      exact hx (hfree m (by rw [hm']; simp) hv)
    have hex := hexact m u hm' hx
    unfold CacheOk at hex ⊢
    rw [hw, (hsame u).2.1]
    exact hex

/-- `Mutex::UpdatePriority` repairs the cache of a mutex, if its holder waits for no other mutex
whose cache is right. -/
theorem Inherits.mutexUpdatePriority {s : KernelSystem} {x : Nat → Prop} (h : s.Inherits x)
    (m : Nat) (hfree : ∀ t, s.holder m = some t → ∀ k, s.holder k ≠ none →
      t ∈ s.waitingThreads k → x k ∧ k ≠ m) :
    (s.mutexUpdatePriority m).Inherits fun k => x k ∧ k ≠ m := by
  unfold KernelSystem.mutexUpdatePriority
  split
  · rename_i n p t hk
    have ht : s.holder m = some t := holder_eq_some.2 ⟨n, p, hk⟩
    split
    · have hkind : ∀ k, (s.setKind m (.mutex n (s.bestWaitingPriority m) (some t))).kind k =
          if k = m then .mutex n (s.bestWaitingPriority m) (some t) else s.kind k :=
        fun k => kind_setKind s m _ k
      have hholder : ∀ k, (s.setKind m (.mutex n (s.bestWaitingPriority m) (some t))).holder k =
          s.holder k := by
        intro k
        rw [holder_setKind]
        split
        · rename_i hkm
          rw [hkm, ht]
          rfl
        · rfl
      have hprio : ∀ k, k ≠ m →
          (s.setKind m (.mutex n (s.bestWaitingPriority m) (some t))).mutexPriority k =
            s.mutexPriority k := fun k hkm => mutexPriority_setKind_of_ne s _ hkm
      have hthread : ∀ u, s.kind u = .thread →
          (s.setKind m (.mutex n (s.bestWaitingPriority m) (some t))).kind u = .thread := by
        intro u hu
        rw [hkind, if_neg]
        · exact hu
        · rintro rfl
          rw [hk] at hu
          cases hu
      refine Inherits.updatePriority (fun u k => ?_) (fun k p' o hk' => ?_) (fun k u hku => ?_)
        (fun u k hu hku => ?_) (fun u hut hu => ?_) (fun k u hku hx => ?_) fun k hku htk => ?_
      · rw [threads_setKind, waitingThreads_setKind, h.pending]
        refine and_congr_left fun _ => ?_
        rw [hkind]
        by_cases hkm : k = m
        · simp [hkm, hk]
        · simp [hkm]
      · rw [hkind] at hk'
        split at hk'
        · cases hk'
          exact absurd (h.lock m p (some t) hk) (by simp)
        · exact h.lock k p' o hk'
      · rw [hholder] at hku
        exact ⟨(h.held k u hku).1, hthread u (h.held k u hku).2⟩
      · rw [hholder]
        exact h.holds u k hu hku
      · rw [threads_setKind, h.cached u hu]
        refine (@bestHeldPriority_congr s (s.setKind m (.mutex n (s.bestWaitingPriority m) (some t)))
          u rfl rfl fun k hku => hprio k ?_).symm
        rintro rfl
        have := h.holds u k hu hku
        rw [ht] at this
        exact hut (Option.some.inj this).symm
      · rw [hholder] at hku
        by_cases hkm : k = m
        · left
          rw [hkm, mutexPriority_of_kind ((hkind m).trans (if_pos rfl))]
          rfl
        · have hex := h.exact k u hku fun hcon => hx ⟨hcon, hkm⟩
          unfold CacheOk at hex ⊢
          rw [hprio k hkm]
          exact hex
      · rw [hholder] at hku
        exact hfree t ht k hku htk
    · rename_i hbest
      refine ⟨h.pending, h.lock, h.held, h.holds, h.cached, fun k u hku hx => ?_⟩
      by_cases hkm : k = m
      · left
        rw [hkm, not_not.1 hbest, mutexPriority_of_kind hk]
      · exact h.exact k u hku fun hcon => hx ⟨hcon, hkm⟩
  · rename_i hk
    refine h.mono fun k hkm hx => ⟨hx, ?_⟩
    rintro rfl
    obtain ⟨t, ht⟩ := Option.ne_none_iff_exists'.1 hkm
    obtain ⟨n, p, hk'⟩ := holder_eq_some.1 ht
    exact hk n p t hk'

/-! ## Waiting lists -/

/-- The waiting list of one mutex changes, and the sets of pending mutexes with it. -/
theorem Inherits.relist {s s' : KernelSystem} {x : Nat → Prop} {o : Nat} (h : s.Inherits x)
    (hkind : s'.kind = s.kind)
    (hwait : ∀ m, m ≠ o → s'.waitingThreads m = s.waitingThreads m)
    (hthreads : ∀ t, (s'.threads t).status = (s.threads t).status ∧
      (s'.threads t).nominalPriority = (s.threads t).nominalPriority ∧
      (s'.threads t).currentPriority = (s.threads t).currentPriority ∧
      (s'.threads t).heldMutexes = (s.threads t).heldMutexes)
    (hpending : ∀ t m, m ∈ (s'.threads t).pendingMutexes ↔
      (∃ n p h, s'.kind m = .mutex n p h) ∧ t ∈ s'.waitingThreads m) :
    s'.Inherits fun k => x k ∨ k = o := by
  have hholder : ∀ m, s'.holder m = s.holder m := fun m => by rw [holder, hkind, holder]
  have hprio : ∀ m, s'.mutexPriority m = s.mutexPriority m :=
    fun m => by rw [mutexPriority, hkind, mutexPriority]
  refine ⟨hpending, by rw [hkind]; exact h.lock, fun m t hm => ?_, fun t m ht hm => ?_,
    fun t ht => ?_, fun m t hm hx => ?_⟩
  · rw [hholder] at hm
    rw [(hthreads t).2.2.2, hkind]
    exact h.held m t hm
  · rw [(hthreads t).1] at ht
    rw [(hthreads t).2.2.2] at hm
    rw [hholder]
    exact h.holds t m ht hm
  · rw [(hthreads t).1] at ht
    rw [(hthreads t).2.2.1, h.cached t ht]
    exact (bestHeldPriority_congr (hthreads t).2.1 (hthreads t).2.2.2 fun m _ => hprio m).symm
  · rw [hholder] at hm
    have hmo : m ≠ o := fun hcon => hx (Or.inr hcon)
    have hbest : s'.bestWaitingPriority m = s.bestWaitingPriority m :=
      bestWaitingPriority_congr (hwait m hmo) fun u _ => (hthreads u).2.2.1
    have hex := h.exact m t hm fun hcon => hx (Or.inl hcon)
    unfold CacheOk at hex ⊢
    rw [hprio, hbest, (hthreads t).2.1]
    exact hex

theorem waitingThreads_enterWaitingThreads_of_ne (s : KernelSystem) {o m : Nat} (t : Nat)
    (hm : m ≠ o) : (s.enterWaitingThreads o t).waitingThreads m = s.waitingThreads m := by
  unfold enterWaitingThreads
  split
  · rfl
  · rw [waitingThreads_setWaitingThreads, if_neg hm]

theorem mem_enterWaitingThreads (s : KernelSystem) (o t u : Nat) :
    u ∈ (s.enterWaitingThreads o t).waitingThreads o ↔ u ∈ s.waitingThreads o ∨ u = t := by
  unfold enterWaitingThreads
  split
  · rename_i ht
    constructor
    · exact Or.inl
    · rintro (hu | rfl)
      · exact hu
      · exact ht
  · rw [waitingThreads_setWaitingThreads, if_pos rfl]
    simp

theorem threads_enterWaitingThreads (s : KernelSystem) (o t : Nat) :
    (s.enterWaitingThreads o t).threads = s.threads := by
  unfold enterWaitingThreads
  split <;> rfl

/-- The kinds of objects, without what is written into them. -/
theorem isMutex_or (s : KernelSystem) (o : Nat) :
    (∃ n p h, s.kind o = .mutex n p h) ∨ ∀ n p h, s.kind o ≠ .mutex n p h := by
  by_cases hk : ∃ n p h, s.kind o = .mutex n p h
  · exact Or.inl hk
  · exact Or.inr fun n p h hcon => hk ⟨n, p, h, hcon⟩

theorem addWaitingThread_of_mutex {s : KernelSystem} {o : Nat}
    (hk : ∃ n p h, s.kind o = .mutex n p h) (t : Nat) :
    s.addWaitingThread o t =
      ((s.enterWaitingThreads o t).addPending t o).mutexUpdatePriority o := by
  obtain ⟨n, p, h, hk⟩ := hk
  rw [addWaitingThread, hk]

theorem addWaitingThread_of_not_mutex {s : KernelSystem} {o : Nat}
    (hk : ∀ n p h, s.kind o ≠ .mutex n p h) (t : Nat) :
    s.addWaitingThread o t = s.enterWaitingThreads o t := by
  unfold addWaitingThread
  split
  · rename_i hcon
    exact absurd hcon (hk _ _ _)
  · rfl

theorem removeWaitingThread_of_mutex {s : KernelSystem} {o : Nat}
    (hk : ∃ n p h, s.kind o = .mutex n p h) (t : Nat) :
    s.removeWaitingThread o t =
      ((s.leaveWaitingThreads o t).removePending t o).mutexUpdatePriority o := by
  obtain ⟨n, p, h, hk⟩ := hk
  rw [removeWaitingThread, hk]

theorem removeWaitingThread_of_not_mutex {s : KernelSystem} {o : Nat}
    (hk : ∀ n p h, s.kind o ≠ .mutex n p h) (t : Nat) :
    s.removeWaitingThread o t = s.leaveWaitingThreads o t := by
  unfold removeWaitingThread
  split
  · rename_i hcon
    exact absurd hcon (hk _ _ _)
  · rfl

/-- A thread that waits for no mutex is in no list of a mutex. -/
theorem Inherits.not_waiting {s : KernelSystem} {x : Nat → Prop} (h : s.Inherits x) {t k : Nat}
    (ht : (s.threads t).pendingMutexes.toList = []) (hk : s.holder k ≠ none) :
    t ∉ s.waitingThreads k := by
  intro hw
  obtain ⟨u, hu⟩ := Option.ne_none_iff_exists'.1 hk
  obtain ⟨n, p, hkind⟩ := holder_eq_some.1 hu
  have hmem : k ∈ (s.threads t).pendingMutexes := (h.pending t k).2 ⟨⟨n, p, some u, hkind⟩, hw⟩
  rw [← SortedSet.mem_toList, ht] at hmem
  cases hmem

theorem Inherits.addWaitingThread {s : KernelSystem} {x : Nat → Prop} (h : s.Inherits x)
    {o t : Nat} (hok : ∀ u, s.holder o = some u →
      u ≠ t ∧ (s.threads u).pendingMutexes.toList = []) : (s.addWaitingThread o t).Inherits x := by
  rcases isMutex_or s o with hk | hk
  · rw [addWaitingThread_of_mutex hk]
    have hkind : ((s.enterWaitingThreads o t).addPending t o).kind = s.kind := by
      rw [addPending, kind_modifyThread, kind_enterWaitingThreads]
    have hthreads : ∀ u, ((s.enterWaitingThreads o t).addPending t o).threads u =
        if u = t then { s.threads u with pendingMutexes := (s.threads u).pendingMutexes.insert o }
        else s.threads u := by
      intro u
      rw [addPending, threads_modifyThread, threads_enterWaitingThreads]
    have hwait : ∀ m, m ≠ o →
        ((s.enterWaitingThreads o t).addPending t o).waitingThreads m = s.waitingThreads m :=
      fun m hm => waitingThreads_enterWaitingThreads_of_ne s t hm
    have h₁ : ((s.enterWaitingThreads o t).addPending t o).Inherits fun k => x k ∨ k = o := by
      refine h.relist hkind hwait (fun u => ?_) fun u m => ?_
      · rw [hthreads]
        split <;> exact ⟨rfl, rfl, rfl, rfl⟩
      · have hmem : u ∈ ((s.enterWaitingThreads o t).addPending t o).waitingThreads m ↔
            u ∈ s.waitingThreads m ∨ (u = t ∧ m = o) := by
          by_cases hm : m = o
          · subst hm
            rw [addPending, waitingThreads_modifyThread, mem_enterWaitingThreads]
            simp
          · rw [hwait m hm]
            simp [hm]
        rw [hkind, hmem, hthreads]
        by_cases hu : u = t
        · subst hu
          simp only [if_true, SortedSet.mem_insert, h.pending, true_and]
          constructor
          · rintro (rfl | hm)
            · exact ⟨hk, Or.inr rfl⟩
            · exact ⟨hm.1, Or.inl hm.2⟩
          · rintro ⟨h₁, h₂ | h₂⟩
            · exact Or.inr ⟨h₁, h₂⟩
            · exact Or.inl h₂
        · rw [if_neg hu, h.pending]
          simp [hu]
    refine (h₁.mutexUpdatePriority o fun u hu k hku huk => ?_).mono fun k _ hx => ?_
    · have hu' : s.holder o = some u := by
        rwa [holder, hkind] at hu
      have hku' : s.holder k ≠ none := by
        rwa [holder, hkind] at hku
      obtain ⟨hut, hnone⟩ := hok u hu'
      have hnot := h.not_waiting hnone hku'
      by_cases hko : k = o
      · subst hko
        rw [addPending, waitingThreads_modifyThread, mem_enterWaitingThreads] at huk
        exact absurd huk (by simp [hnot, hut])
      · rw [hwait k hko] at huk
        exact absurd huk hnot
    · exact hx.1.resolve_right hx.2
  · rw [addWaitingThread_of_not_mutex hk]
    refine h.frame (fun _ _ _ _ => by rw [kind_enterWaitingThreads])
      (fun u hu => by rwa [kind_enterWaitingThreads]) (fun m hm => ?_) fun u => ?_
    · refine waitingThreads_enterWaitingThreads_of_ne s t ?_
      rintro rfl
      obtain ⟨n, p, o, hkm⟩ := hm
      exact hk n p o hkm
    · rw [threads_enterWaitingThreads]
      exact ⟨rfl, rfl, rfl, rfl, fun hu => hu⟩

/-- A thread leaves a waiting list.  The holder of a mutex may be the thread itself, if the caches
of the other mutexes it waits for are given up. -/
theorem Inherits.removeWaitingThread {s : KernelSystem} {x : Nat → Prop} (h : s.Inherits x)
    {o t : Nat} (hnodup : (s.waitingThreads o).Nodup)
    (hok : ∀ u, s.holder o = some u →
      (u = t ∧ ∀ k, s.holder k ≠ none → k ≠ o → t ∈ s.waitingThreads k → x k) ∨
        (s.threads u).pendingMutexes.toList = []) :
    (s.removeWaitingThread o t).Inherits fun k => x k ∧ k ≠ o := by
  rcases isMutex_or s o with hk | hk
  · rw [removeWaitingThread_of_mutex hk]
    have hthreads : ∀ u, ((s.leaveWaitingThreads o t).removePending t o).threads u =
        if u = t then { s.threads u with pendingMutexes := (s.threads u).pendingMutexes.erase o }
        else s.threads u := by
      intro u
      rw [removePending, threads_modifyThread]
      rfl
    have hwait : ∀ m, ((s.leaveWaitingThreads o t).removePending t o).waitingThreads m =
        if m = o then (s.waitingThreads o).erase t else s.waitingThreads m := fun m => by
      rw [removePending, waitingThreads_modifyThread, leaveWaitingThreads,
        waitingThreads_setWaitingThreads]
    have h₁ : ((s.leaveWaitingThreads o t).removePending t o).Inherits fun k => x k ∨ k = o := by
      refine h.relist rfl (fun m hm => by rw [hwait, if_neg hm]) (fun u => ?_) fun u m => ?_
      · rw [hthreads]
        split <;> exact ⟨rfl, rfl, rfl, rfl⟩
      · rw [hwait, hthreads]
        have hkind : ((s.leaveWaitingThreads o t).removePending t o).kind = s.kind := rfl
        rw [hkind]
        by_cases hu : u = t
        · subst hu
          rw [if_pos rfl, SortedSet.mem_erase, h.pending]
          by_cases hm : m = o
          · subst hm
            simp [hnodup.mem_erase_iff]
          · simp [hm]
        · rw [if_neg hu, h.pending]
          by_cases hm : m = o
          · subst hm
            rw [if_pos rfl, List.mem_erase_of_ne hu]
          · rw [if_neg hm]
    refine (h₁.mutexUpdatePriority o fun u hu k hku huk => ?_).mono fun k _ hx => ?_
    · have hu' : s.holder o = some u := hu
      have hku' : s.holder k ≠ none := hku
      rw [hwait] at huk
      rcases hok u hu' with ⟨rfl, hself⟩ | hnone
      · by_cases hko : k = o
        · subst hko
          rw [if_pos rfl, hnodup.mem_erase_iff] at huk
          exact absurd rfl huk.1
        · rw [if_neg hko] at huk
          exact ⟨Or.inl (hself k hku' hko huk), hko⟩
      · have hnot := h.not_waiting hnone hku'
        by_cases hko : k = o
        · subst hko
          rw [if_pos rfl] at huk
          exact absurd (List.mem_of_mem_erase huk) hnot
        · rw [if_neg hko] at huk
          exact absurd huk hnot
    · exact ⟨hx.1.resolve_right hx.2, hx.2⟩
  · rw [removeWaitingThread_of_not_mutex hk]
    have hframe : (s.leaveWaitingThreads o t).Inherits x := by
      refine h.frame (fun _ _ _ _ => Iff.rfl) (fun u hu => hu) (fun m hm => ?_) fun u =>
        ⟨rfl, rfl, rfl, rfl, fun hu => hu⟩
      rw [leaveWaitingThreads, waitingThreads_setWaitingThreads, if_neg]
      rintro rfl
      obtain ⟨n, p, o, hkm⟩ := hm
      exact hk n p o hkm
    refine hframe.mono fun k hkn hx => ⟨hx, ?_⟩
    rintro rfl
    obtain ⟨u, hu⟩ := Option.ne_none_iff_exists'.1 hkn
    obtain ⟨n, p, hkm⟩ := holder_eq_some.1 hu
    exact hk n p (some u) hkm

/-! ## Holders and pending mutexes -/

theorem pending_updatePriority (s : KernelSystem) (t u : Nat) :
    ((s.updatePriority t).threads u).pendingMutexes = (s.threads u).pendingMutexes := by
  rw [threads_updatePriority]
  split <;> rfl

theorem mutexUpdatePriority_frame (s : KernelSystem) (m : Nat) :
    (∀ k, (s.mutexUpdatePriority m).holder k = s.holder k) ∧
      ∀ u, ((s.mutexUpdatePriority m).threads u).pendingMutexes =
        (s.threads u).pendingMutexes := by
  unfold mutexUpdatePriority
  split
  · rename_i n p t hk
    split
    · refine ⟨fun k => ?_, fun u => by rw [pending_updatePriority, threads_setKind]⟩
      rw [holder, kind_updatePriority, ← holder, holder_setKind]
      split
      · rename_i hkm
        rw [hkm, holder_eq_some.2 ⟨n, p, hk⟩]
        rfl
      · rfl
    · exact ⟨fun _ => rfl, fun _ => rfl⟩
  · exact ⟨fun _ => rfl, fun _ => rfl⟩

theorem removeWaitingThread_frame (s : KernelSystem) (o t : Nat) :
    (∀ k, (s.removeWaitingThread o t).holder k = s.holder k) ∧
      ∀ u, u ≠ t → ((s.removeWaitingThread o t).threads u).pendingMutexes =
        (s.threads u).pendingMutexes := by
  rcases isMutex_or s o with hk | hk
  · rw [removeWaitingThread_of_mutex hk]
    obtain ⟨h₁, h₂⟩ := mutexUpdatePriority_frame ((s.leaveWaitingThreads o t).removePending t o) o
    refine ⟨fun k => (h₁ k).trans rfl, fun u hu => ?_⟩
    rw [h₂, removePending, threads_modifyThread, if_neg hu]
    rfl
  · rw [removeWaitingThread_of_not_mutex hk]
    exact ⟨fun _ => rfl, fun _ _ => rfl⟩

theorem addWaitingThread_frame (s : KernelSystem) (o t : Nat) :
    (∀ k, (s.addWaitingThread o t).holder k = s.holder k) ∧
      ∀ u, u ≠ t → ((s.addWaitingThread o t).threads u).pendingMutexes =
        (s.threads u).pendingMutexes := by
  rcases isMutex_or s o with hk | hk
  · rw [addWaitingThread_of_mutex hk]
    obtain ⟨h₁, h₂⟩ := mutexUpdatePriority_frame ((s.enterWaitingThreads o t).addPending t o) o
    refine ⟨fun k => ?_, fun u hu => ?_⟩
    · rw [h₁, holder, addPending, kind_modifyThread, kind_enterWaitingThreads, holder]
    · rw [h₂, addPending, threads_modifyThread, if_neg hu, threads_enterWaitingThreads]
  · rw [addWaitingThread_of_not_mutex hk]
    exact ⟨fun k => by rw [holder, kind_enterWaitingThreads, holder],
      fun u _ => by rw [threads_enterWaitingThreads]⟩

/-- A thread leaves all lists it is in.  The caches of the mutexes among them may be wrong before,
and are right after it. -/
theorem Inherits.leaveLists {s : KernelSystem} {t : Nat} (l : List Nat)
    (h : s.Inherits (· ∈ l)) (hnodup : ∀ o, (s.waitingThreads o).Nodup)
    (hcover : ∀ k, s.holder k ≠ none → t ∈ s.waitingThreads k → k ∈ l)
    (hok : ∀ o ∈ l, ∀ u, s.holder o = some u →
      u = t ∨ (s.threads u).pendingMutexes.toList = []) :
    (l.foldl (fun s o => s.removeWaitingThread o t) s).Inherits fun _ => False := by
  induction l generalizing s with
  | nil => exact h.mono fun k _ hk => by simp at hk
  | cons o l ih =>
    obtain ⟨hholder, hpending⟩ := removeWaitingThread_frame s o t
    have hwait := waitingThreads_removeWaitingThread s o t
    have h₁ : (s.removeWaitingThread o t).Inherits (· ∈ l) := by
      refine (h.removeWaitingThread (hnodup o) fun u hu => ?_).mono fun k _ hx => ?_
      · rcases hok o List.mem_cons_self u hu with rfl | hnone
        · exact Or.inl ⟨rfl, fun k hk _ hw => hcover k hk hw⟩
        · exact Or.inr hnone
      · exact (List.mem_cons.1 hx.1).resolve_left hx.2
    refine ih h₁ (fun k => ?_) (fun k hk hw => ?_) fun k hk u hu => ?_
    · rw [hwait]
      split
      · exact (hnodup k).sublist List.erase_sublist
      · exact hnodup k
    · rw [hholder] at hk
      rw [hwait] at hw
      by_cases hko : k = o
      · rw [if_pos hko, (hnodup k).mem_erase_iff] at hw
        exact absurd rfl hw.1
      · rw [if_neg hko] at hw
        exact (List.mem_cons.1 (hcover k hk hw)).resolve_left hko
    · rw [hholder] at hu
      by_cases hut : u = t
      · exact Or.inl hut
      · rw [hpending u hut]
        exact hok k (List.mem_cons_of_mem o hk) u hu

/-! ## Taking objects -/

/-- A thread takes a free mutex: the mutex gets the priority of the thread, which stays as it
is. -/
theorem Inherits.takeMutex {s : KernelSystem} {x : Nat → Prop} (h : s.Inherits x) {o t p : Nat}
    {old : Option Nat} (ho : s.kind o = .mutex 0 p old) (ht : s.kind t = .thread)
    (hlive : (s.threads t).status ≠ .dead) :
    ((s.setKind o (.mutex 1 (s.threads t).currentPriority (some t))).addHeld t o).Inherits
        (fun k => x k ∨ k = o) ∧
      ((s.setKind o (.mutex 1 (s.threads t).currentPriority (some t))).addHeld t
        o).bestHeldPriority t = (s.threads t).currentPriority := by
  have hnone : s.holder o = none := by
    rw [holder, ho, h.lock o p old ho]
    rfl
  have hkind : ∀ k, ((s.setKind o (.mutex 1 (s.threads t).currentPriority (some t))).addHeld t
      o).kind k = if k = o then .mutex 1 (s.threads t).currentPriority (some t) else s.kind k :=
    fun k => kind_setKind s o _ k
  have hholder : ∀ k, ((s.setKind o (.mutex 1 (s.threads t).currentPriority (some t))).addHeld t
      o).holder k = if k = o then some t else s.holder k := by
    intro k
    exact holder_setKind s o (.mutex 1 (s.threads t).currentPriority (some t)) k
  have hprio : ∀ k, k ≠ o → ((s.setKind o (.mutex 1 (s.threads t).currentPriority
      (some t))).addHeld t o).mutexPriority k = s.mutexPriority k :=
    fun k hk => mutexPriority_setKind_of_ne s _ hk
  have hprioO : ((s.setKind o (.mutex 1 (s.threads t).currentPriority (some t))).addHeld t
      o).mutexPriority o = (s.threads t).currentPriority :=
    mutexPriority_of_kind ((hkind o).trans (if_pos rfl))
  have hthreads : ∀ u, ((s.setKind o (.mutex 1 (s.threads t).currentPriority (some t))).addHeld t
      o).threads u = if u = t then { s.threads u with heldMutexes := (s.threads u).heldMutexes.insert o }
        else s.threads u := by
    intro u
    rw [addHeld, threads_modifyThread]
    rfl
  have hsame : ∀ u, (((s.setKind o (.mutex 1 (s.threads t).currentPriority (some t))).addHeld t
        o).threads u).status = (s.threads u).status ∧
      (((s.setKind o (.mutex 1 (s.threads t).currentPriority (some t))).addHeld t o).threads
        u).currentPriority = (s.threads u).currentPriority ∧
      (((s.setKind o (.mutex 1 (s.threads t).currentPriority (some t))).addHeld t o).threads
        u).nominalPriority = (s.threads u).nominalPriority ∧
      (((s.setKind o (.mutex 1 (s.threads t).currentPriority (some t))).addHeld t o).threads
        u).pendingMutexes = (s.threads u).pendingMutexes := by
    intro u
    rw [hthreads]
    split <;> exact ⟨rfl, rfl, rfl, rfl⟩
  have hwait : ((s.setKind o (.mutex 1 (s.threads t).currentPriority (some t))).addHeld t
      o).waitingThreads = s.waitingThreads := rfl
  generalize (s.setKind o (.mutex 1 (s.threads t).currentPriority (some t))).addHeld t o = s' at *
  have hto : t ≠ o := by
    rintro rfl
    rw [ho] at ht
    cases ht
  -- the new mutex counts for the priority the thread has anyway
  have hbest : s'.bestHeldPriority t = (s.threads t).currentPriority := by
    refine eq_of_forall_le_iff fun y => ?_
    have hcached : y ≤ (s.threads t).currentPriority ↔ y ≤ (s.threads t).nominalPriority ∧
        ∀ m ∈ (s.threads t).heldMutexes, y ≤ s.mutexPriority m := by
      rw [h.cached t hlive, le_bestHeldPriority]
    rw [le_bestHeldPriority, hthreads, if_pos rfl]
    simp only [SortedSet.mem_insert]
    constructor
    · rintro ⟨-, hm⟩
      have := hm o (Or.inl rfl)
      rwa [hprioO] at this
    · intro hy
      refine ⟨(hcached.1 hy).1, fun m hm => ?_⟩
      by_cases hmo : m = o
      · rw [hmo, hprioO]
        exact hy
      · rw [hprio m hmo]
        exact (hcached.1 hy).2 m (hm.resolve_left hmo)
  refine ⟨⟨fun u m => ?_, fun m q e hm => ?_, fun m u hm => ?_, fun u m hu hm => ?_, fun u hu => ?_,
    fun m u hm hx => ?_⟩, hbest⟩
  · rw [(hsame u).2.2.2, h.pending, hwait, hkind]
    refine and_congr_left fun _ => ?_
    by_cases hm : m = o
    · simp [hm, ho]
    · simp [hm]
  · rw [hkind] at hm
    split at hm
    · cases hm
    · exact h.lock m q e hm
  · rw [hholder] at hm
    rw [hthreads, hkind]
    by_cases hmo : m = o
    · rw [if_pos hmo] at hm
      cases hm
      rw [if_pos rfl, if_neg hto]
      exact ⟨SortedSet.mem_insert.2 (Or.inl hmo), ht⟩
    · rw [if_neg hmo] at hm
      obtain ⟨h₁, h₂⟩ := h.held m u hm
      have huo : u ≠ o := by
        rintro rfl
        rw [ho] at h₂
        cases h₂
      rw [if_neg huo]
      refine ⟨?_, h₂⟩
      split
      · exact SortedSet.mem_insert.2 (Or.inr h₁)
      · exact h₁
  · rw [(hsame u).1] at hu
    rw [hthreads] at hm
    rw [hholder]
    by_cases hut : u = t
    · rw [if_pos hut] at hm
      rcases SortedSet.mem_insert.1 hm with hmo | hm
      · rw [if_pos hmo, hut]
      · split
        · rw [hut]
        · exact h.holds u m hu hm
    · rw [if_neg hut] at hm
      have hmu := h.holds u m hu hm
      rw [if_neg]
      · exact hmu
      · rintro rfl
        rw [hnone] at hmu
        cases hmu
  · rw [(hsame u).1] at hu
    rw [(hsame u).2.1]
    by_cases hut : u = t
    · rw [hut, hbest]
    · rw [h.cached u hu]
      refine (bestHeldPriority_congr (hsame u).2.2.1 (by rw [hthreads, if_neg hut])
        fun m hm => hprio m ?_).symm
      rintro rfl
      have hmu := h.holds u m hu hm
      rw [hnone] at hmu
      cases hmu
  · have hmo : m ≠ o := fun hcon => hx (Or.inr hcon)
    rw [hholder, if_neg hmo] at hm
    have hex := h.exact m u hm fun hcon => hx (Or.inl hcon)
    have hw : s'.bestWaitingPriority m = s.bestWaitingPriority m :=
      bestWaitingPriority_congr (by rw [hwait]) fun v _ => (hsame v).2.1
    unfold CacheOk at hex ⊢
    rw [hprio m hmo, hw, (hsame u).2.2.1]
    exact hex

theorem Inherits.updatePriority_same {s : KernelSystem} {x : Nat → Prop} (h : s.Inherits x)
    {t : Nat} (ht : s.bestHeldPriority t = (s.threads t).currentPriority) :
    (s.updatePriority t).Inherits x := by
  refine h.frame (fun _ _ _ _ => Iff.rfl) (fun _ hu => hu) (fun _ _ => rfl) fun u => ?_
  rw [threads_updatePriority]
  split
  · rename_i hu
    subst hu
    exact ⟨rfl, ht, rfl, rfl, fun hu => hu⟩
  · exact ⟨rfl, rfl, rfl, rfl, fun hu => hu⟩

theorem Inherits.relock {s : KernelSystem} {x : Nat → Prop} (h : s.Inherits x) {o n n' p : Nat}
    {e : Option Nat} (ho : s.kind o = .mutex n p e) (hn : n' ≠ 0) :
    (s.setKind o (.mutex n' p e)).Inherits x := by
  refine h.congr (fun m => ?_) (fun m => ?_) (fun m => ?_) (fun m q f hm => ?_) (fun u hu => ?_)
    (fun _ _ => rfl) fun u => ⟨rfl, rfl, rfl, rfl, fun hu => hu⟩
  · rw [kind_setKind]
    by_cases hm : m = o
    · simp [hm, ho]
    · simp [hm]
  · rw [holder_setKind]
    split
    · rename_i hm
      rw [hm, holder, ho]
      rfl
    · rfl
  · by_cases hm : m = o
    · rw [hm, mutexPriority_of_kind ho,
        mutexPriority_of_kind ((kind_setKind s o _ o).trans (if_pos rfl))]
    · exact mutexPriority_setKind_of_ne s _ hm
  · rw [kind_setKind] at hm
    split at hm
    · cases hm
      exact absurd rfl hn
    · exact h.lock m q f hm
  · rw [kind_setKind, if_neg]
    · exact hu
    · rintro rfl
      rw [ho] at hu
      cases hu

/-- An object that is not a mutex changes. -/
theorem Inherits.setOther {s : KernelSystem} {x : Nat → Prop} (h : s.Inherits x) {o : Nat}
    {k : ObjectKind} (hk : ∀ n p e, k ≠ .mutex n p e) (ho : ∀ n p e, s.kind o ≠ .mutex n p e)
    (ht : s.kind o ≠ .thread) : (s.setKind o k).Inherits x := by
  refine h.frame (sameMutexes_setKind hk ho) (fun u hu => ?_) (fun _ _ => rfl)
    fun u => ⟨rfl, rfl, rfl, rfl, fun hu => hu⟩
  rw [kind_setKind, if_neg]
  · exact hu
  · rintro rfl
    exact ht hu

/-- A thread takes an object.  A mutex that was free has the priority of the thread in it, not
that of its best waiter. -/
theorem Inherits.acquire {s : KernelSystem} {x : Nat → Prop} (h : s.Inherits x) {o t : Nat}
    (ht : s.kind t = .thread) (hlive : (s.threads t).status ≠ .dead) :
    (s.acquire o t).Inherits fun k => x k ∨ (k = o ∧ ∃ p e, s.kind o = .mutex 0 p e) := by
  unfold KernelSystem.acquire
  split
  · rename_i p e hk
    obtain ⟨h₁, h₂⟩ := h.takeMutex hk ht hlive
    have h₃ := h₁.updatePriority_same (h₂.trans (by
      rw [addHeld, threads_modifyThread, if_pos rfl]
      rfl))
    exact h₃.mono fun k _ hx => hx.imp_right fun hk' => ⟨hk', p, e, hk⟩
  · rename_i n p e hk
    exact (h.relock hk (by simp)).mono fun _ _ hx => Or.inl hx
  · rename_i hk
    exact (h.setOther (by simp) (by simp [hk]) (by simp [hk])).mono fun _ _ hx => Or.inl hx
  · rename_i hk
    split
    · exact h.mono fun _ _ hx => Or.inl hx
    · exact (h.setOther (by simp) (by simp [hk]) (by simp [hk])).mono fun _ _ hx => Or.inl hx
  · rename_i hk
    exact (h.setOther (by simp) (by simp [hk]) (by simp [hk])).mono fun _ _ hx => Or.inl hx
  · exact h.mono fun _ _ hx => Or.inl hx

/-- Taking an object changes nobody's priority. -/
theorem Inherits.priorities_acquire {s : KernelSystem} {x : Nat → Prop} (h : s.Inherits x)
    {o t : Nat} (ht : s.kind t = .thread) (hlive : (s.threads t).status ≠ .dead) (u : Nat) :
    ((s.acquire o t).threads u).currentPriority = (s.threads u).currentPriority ∧
      ((s.acquire o t).threads u).nominalPriority = (s.threads u).nominalPriority := by
  unfold KernelSystem.acquire
  split
  · rename_i p e hk
    obtain ⟨-, h₂⟩ := h.takeMutex hk ht hlive
    rw [threads_updatePriority, h₂, addHeld, threads_modifyThread]
    by_cases hu : u = t
    · simp [hu]
    · simp [hu]
  · exact ⟨rfl, rfl⟩
  · exact ⟨rfl, rfl⟩
  · split <;> exact ⟨rfl, rfl⟩
  · exact ⟨rfl, rfl⟩
  · exact ⟨rfl, rfl⟩

/-! ## Who holds which mutex -/

/-- The object is a mutex. -/
def IsMutex (s : KernelSystem) (m : Nat) : Prop := ∃ n p h, s.kind m = .mutex n p h

/-- Mutexes stay mutexes and keep their holders, and those that were free may be held by `t`. -/
structure Taken (s s' : KernelSystem) (t : Nat) : Prop where
  mutex : ∀ m, s'.IsMutex m ↔ s.IsMutex m
  kept : ∀ m h, s.holder m = some h → s'.holder m = some h
  new : ∀ m h, s'.holder m = some h → s.holder m = some h ∨ h = t
  free : ∀ m p e, s'.kind m = .mutex 0 p e → s.kind m = .mutex 0 p e

theorem Taken.refl (s : KernelSystem) (t : Nat) : Taken s s t :=
  ⟨fun _ => Iff.rfl, fun _ _ h => h, fun _ _ h => Or.inl h, fun _ _ _ h => h⟩

theorem Taken.trans {s₁ s₂ s₃ : KernelSystem} {t : Nat} (h₁ : Taken s₁ s₂ t)
    (h₂ : Taken s₂ s₃ t) : Taken s₁ s₃ t := by
  refine ⟨fun m => (h₂.mutex m).trans (h₁.mutex m), fun m h hm => h₂.kept m h (h₁.kept m h hm),
    fun m h hm => ?_, fun m p e hm => h₁.free m p e (h₂.free m p e hm)⟩
  rcases h₂.new m h hm with hm | hm
  · exact h₁.new m h hm
  · exact Or.inr hm

theorem Taken.of_kind {s s' : KernelSystem} (h : s'.kind = s.kind) (t : Nat) : Taken s s' t := by
  have hh : ∀ m, s'.holder m = s.holder m := fun m => by rw [holder, h, holder]
  refine ⟨fun m => ?_, fun m e hm => ?_, fun m e hm => Or.inl ?_, fun m p e hm => ?_⟩
  · unfold IsMutex
    rw [h]
  · rwa [hh]
  · rwa [hh] at hm
  · rwa [h] at hm

theorem taken_mutexUpdatePriority (s : KernelSystem) (m t : Nat)
    (hlock : ∀ m p h, s.kind m = .mutex 0 p h → h = none) : Taken s (s.mutexUpdatePriority m) t := by
  obtain ⟨hh, -⟩ := mutexUpdatePriority_frame s m
  refine ⟨fun k => ?_, fun k h hk => by rwa [hh], fun k h hk => Or.inl (by rwa [hh] at hk),
    fun k p e hk => ?_⟩
  · unfold IsMutex mutexUpdatePriority
    split
    · rename_i n p u hm
      split
      · rw [kind_updatePriority, kind_setKind]
        by_cases hkm : k = m
        · simp [hkm, hm]
        · simp [hkm]
      · exact Iff.rfl
    · exact Iff.rfl
  · unfold mutexUpdatePriority at hk
    split at hk
    · rename_i n q u hm
      split at hk
      · rw [kind_updatePriority, kind_setKind] at hk
        split at hk
        · cases hk
          exact absurd (hlock m q (some u) hm) (by simp)
        · exact hk
      · exact hk
    · exact hk

theorem taken_removeWaitingThread {s : KernelSystem}
    (hlock : ∀ m p h, s.kind m = .mutex 0 p h → h = none) (o t u : Nat) :
    Taken s (s.removeWaitingThread o t) u := by
  rcases isMutex_or s o with hk | hk
  · rw [removeWaitingThread_of_mutex hk]
    have h₁ : Taken s ((s.leaveWaitingThreads o t).removePending t o) u := by
      refine Taken.of_kind ?_ u
      rfl
    exact h₁.trans (taken_mutexUpdatePriority _ o u hlock)
  · rw [removeWaitingThread_of_not_mutex hk]
    refine Taken.of_kind ?_ u
    rfl

theorem taken_setKind_other {s : KernelSystem} {o : Nat} {k : ObjectKind}
    (hk : ∀ n p e, k ≠ .mutex n p e) (ho : ∀ n p e, s.kind o ≠ .mutex n p e) (t : Nat) :
    Taken s (s.setKind o k) t := by
  have hsame := sameMutexes_setKind hk ho
  refine ⟨fun m => exists₂_congr fun n p => exists_congr fun e => hsame m n p e,
    fun m e hm => by rwa [hsame.holder], fun m e hm => Or.inl (by rwa [hsame.holder] at hm),
    fun m p e hm => (hsame m 0 p e).1 hm⟩

theorem Inherits.taken_acquire {s : KernelSystem} {x : Nat → Prop} (h : s.Inherits x) (o t : Nat) :
    Taken s (s.acquire o t) t := by
  have hset : ∀ n p e n' p' e', s.kind o = .mutex n p e → n' ≠ 0 → (e' = e ∨ e = none ∧ e' = some t) →
      Taken s (s.setKind o (.mutex n' p' e')) t := by
    intro n p e n' p' e' ho hn he
    have hholder := holder_setKind s o (.mutex n' p' e')
    have hold : s.holder o = e := by
      rw [holder, ho]
      rfl
    refine ⟨fun m => ?_, fun m u hm => ?_, fun m u hm => ?_, fun m q f hm => ?_⟩
    · unfold IsMutex
      rw [kind_setKind]
      by_cases hmo : m = o
      · simp [hmo, ho]
      · simp [hmo]
    · rw [hholder]
      split
      · rename_i hmo
        rw [hmo, hold] at hm
        rcases he with rfl | ⟨rfl, -⟩
        · exact hm
        · cases hm
      · exact hm
    · rw [hholder] at hm
      split at hm
      · rename_i hmo
        rcases he with rfl | ⟨-, rfl⟩
        · left
          rw [hmo, hold]
          exact hm
        · right
          exact (Option.some.inj hm).symm
      · exact Or.inl hm
    · rw [kind_setKind] at hm
      split at hm
      · cases hm
        exact absurd rfl hn
      · exact hm
  unfold KernelSystem.acquire
  split
  · rename_i p e hk
    have h₁ := hset 0 p e 1 (s.threads t).currentPriority (some t) hk (by simp)
      (Or.inr ⟨h.lock o p e hk, rfl⟩)
    refine h₁.trans (Taken.of_kind ?_ t)
    rfl
  · rename_i n p e hk
    exact hset (n + 1) p e (n + 2) p e hk (by simp) (Or.inl rfl)
  · rename_i hk
    exact taken_setKind_other (by simp) (by simp [hk]) t
  · rename_i hk
    split
    · exact Taken.refl s t
    · exact taken_setKind_other (by simp) (by simp [hk]) t
  · rename_i hk
    exact taken_setKind_other (by simp) (by simp [hk]) t
  · exact Taken.refl s t

theorem Inherits.acquireAll {s : KernelSystem} {x : Nat → Prop} (h : s.Inherits x) {t : Nat}
    (ht : s.kind t = .thread) (hlive : (s.threads t).status ≠ .dead) (l : List Nat) :
    (s.acquireAll l t).Inherits (fun k => x k ∨ k ∈ l) ∧ Taken s (s.acquireAll l t) t := by
  induction l generalizing s x with
  | nil => exact ⟨h.mono fun _ _ hx => Or.inl hx, Taken.refl s t⟩
  | cons o l ih =>
    have h₁ := h.acquire ht hlive (o := o)
    have ht₁ := (kind_acquire s o t t).2 ht
    have hlive₁ : ((s.acquire o t).threads t).status ≠ .dead := by
      rwa [(Follows.acquire s o t).status]
    obtain ⟨h₂, h₃⟩ := ih h₁ ht₁ hlive₁
    refine ⟨h₂.mono fun k _ hx => ?_, (h.taken_acquire o t).trans h₃⟩
    rcases hx with (hx | ⟨rfl, -⟩) | hx
    · exact Or.inl hx
    · exact Or.inr List.mem_cons_self
    · exact Or.inr (List.mem_cons_of_mem o hx)

/-! ## Waking up -/

/-- No holder of a mutex that the thread waits for is itself in the list of a mutex, unless it is
`x`: what `Unchained` says, in terms of the lists. -/
def Loose (s : KernelSystem) (x : Option Nat) (w : Nat) : Prop :=
  ∀ m h, w ∈ s.waitingThreads m → s.holder m = some h →
    x = some h ∨ ∀ k, s.IsMutex k → h ∉ s.waitingThreads k

theorem Inherits.loose {s : KernelSystem} {x : Nat → Prop} (h : s.Inherits x) {y : Option Nat}
    {w : Nat} : s.Unchained y w ↔ s.Loose y w := by
  have hnil : ∀ u, (s.threads u).pendingMutexes.toList = [] ↔
      ∀ k, s.IsMutex k → u ∉ s.waitingThreads k := by
    intro u
    constructor
    · intro hu k hk hw
      have hmem : k ∈ (s.threads u).pendingMutexes := (h.pending u k).2 ⟨hk, hw⟩
      rw [← SortedSet.mem_toList, hu] at hmem
      cases hmem
    · intro hu
      refine List.eq_nil_iff_forall_not_mem.2 fun k hk => ?_
      obtain ⟨h₁, h₂⟩ := (h.pending u k).1 hk
      exact hu k h₁ h₂
  constructor
  · intro hun m e hw hm
    have hmem : m ∈ (s.threads w).pendingMutexes := by
      obtain ⟨n, p, hk⟩ := holder_eq_some.1 hm
      exact (h.pending w m).2 ⟨⟨n, p, some e, hk⟩, hw⟩
    exact (hun m hmem e hm).imp_right (hnil e).1
  · intro hun m hm e he
    exact (hun m e ((h.pending w m).1 hm).2 he).imp_right (hnil e).2

/-- Woken threads hold no one up. -/
theorem Loose.woke {s s' : KernelSystem} {y : Option Nat} {t w : Nat} (h : s.Loose y w)
    (hw : Woke s s' t) (ht : Taken s s' t) : s'.Loose y w := by
  intro m e hm he
  by_cases het : e = t
  · exact Or.inr fun k _ => het ▸ hw.not_waiting k
  · have he' := (ht.new m e he).resolve_right het
    have hm' : w ∈ s.waitingThreads m := (hw.sublist m).subset hm
    refine (h m e hm' he').imp_right fun hnone k hk hek => ?_
    exact hnone k ((ht.mutex k).1 hk) ((hw.sublist k).subset hek)

theorem taken_leaveLists {s : KernelSystem} (hlock : ∀ m p h, s.kind m = .mutex 0 p h → h = none)
    (l : List Nat) (t u : Nat) : Taken s (l.foldl (fun s o => s.removeWaitingThread o t) s) u := by
  induction l generalizing s with
  | nil => exact Taken.refl s u
  | cons o l ih =>
    have h₁ := taken_removeWaitingThread hlock o t u
    exact h₁.trans (ih fun m p e hm => hlock m p e (h₁.free m p e hm))

theorem Inherits.resumeFromWait {s : KernelSystem} {x : Nat → Prop} (h : s.Inherits x) (t : Nat) :
    (s.resumeFromWait t).Inherits x := by
  obtain ⟨hkind, hwait⟩ := resumeFromWait_frame s t
  refine h.frame (fun _ _ _ _ => by rw [hkind]) (fun u hu => by rwa [hkind])
    (fun m _ => by rw [hwait]) fun u => ?_
  have hdead := (threads_resumeFromWait s t u).2.1
  have hsame : ((s.resumeFromWait t).threads u).nominalPriority = (s.threads u).nominalPriority ∧
      ((s.resumeFromWait t).threads u).currentPriority = (s.threads u).currentPriority ∧
      ((s.resumeFromWait t).threads u).heldMutexes = (s.threads u).heldMutexes ∧
      ((s.resumeFromWait t).threads u).pendingMutexes = (s.threads u).pendingMutexes := by
    unfold KernelSystem.resumeFromWait
    split
    · exact ⟨rfl, rfl, rfl, rfl⟩
    · exact ⟨rfl, rfl, rfl, rfl⟩
    · exact ⟨rfl, rfl, rfl, rfl⟩
    · rw [setStatus, threads_modifyThread]
      split <;> exact ⟨rfl, rfl, rfl, rfl⟩
  obtain ⟨h₁, h₂, h₃, h₄⟩ := hsame
  exact ⟨h₁, h₂, h₃, h₄, fun hu hcon => hu (hdead.2 hcon)⟩

theorem Inherits.setWaitObjects {s : KernelSystem} {x : Nat → Prop} (h : s.Inherits x) (t : Nat)
    (l : List Nat) : (s.setWaitObjects t l).Inherits x := by
  unfold KernelSystem.setWaitObjects
  exact h.modifyThread t ⟨rfl, rfl, rfl, rfl, fun hu => hu⟩

/-- A thread that took some of the objects it waits for leaves all lists. -/
theorem Inherits.leaveWaitObjects {s s₁ : KernelSystem} {y : Nat → Prop} {t : Nat}
    (h₁ : s₁.Inherits (· ∈ (s.threads t).waitObjects)) (hwaits : s.Waits y)
    (hloose : s.Loose none t) (hf : Follows s s₁)
    (hw : s₁.waitingThreads = s.waitingThreads) (htaken : Taken s s₁ t) :
    (s₁.leaveWaitObjects t).Inherits (fun _ => False) ∧ Taken s (s₁.leaveWaitObjects t) t := by
  have hobjects : (s₁.threads t).waitObjects = (s.threads t).waitObjects := hf.waitObjects t
  rw [← hobjects] at h₁
  have h₂ := h₁.leaveLists _ (fun o => by rw [hw]; exact hwaits.nodup o)
    (fun k _ hk => by rwa [hobjects, ← hwaits.mem, ← hw]) (fun o ho u hu => ?_)
  · have h₃ := taken_leaveLists h₁.lock (s₁.threads t).waitObjects t t
    refine ⟨h₂.setWaitObjects t [], (htaken.trans h₃).trans ?_⟩
    refine Taken.of_kind ?_ t
    rfl
  · rcases htaken.new o u hu with hu | hu
    · refine Or.inr ?_
      rw [hobjects, ← hwaits.mem] at ho
      have hnone := (hloose o u ho hu).resolve_left (by simp)
      refine List.eq_nil_iff_forall_not_mem.2 fun k hk => ?_
      obtain ⟨hk₁, hk₂⟩ := (h₁.pending u k).1 hk
      rw [hw] at hk₂
      exact hnone k ((htaken.mutex k).1 hk₁) hk₂
    · exact Or.inl hu

end KernelSystem
end AzaharPlus.Kernel
