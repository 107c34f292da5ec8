import AzaharPlus.Kernel.Arbitration

/-!
# The waiting lists of the address arbiters

A thread that waits at an arbiter is in the list of no object, and so nothing else in the kernel
wakes it (`Leaves`).  In every run in which no thread is stopped while it waits at an arbiter, the
list of an arbiter holds the threads that wait at it, each once (`Listed`), and those that wait on
one address in the order in which they came.

* `listed_reachable` — the invariant.
* `arbiter_lists` — the lists, and the threads that a signal resumes.
* `arbiter_list_reordered` — a signal moves the threads of its address behind the others, and a
  thread that is stopped stays in the list.
-/

namespace AzaharPlus.Kernel

open KernelSystem

namespace KernelSystem

/-! ## Threads that wait at arbiters and the rest of the kernel -/

/-- The thread waits at an arbiter, and is in the list of no object. -/
def ArbSleeper (s : KernelSystem) (t : Nat) : Prop :=
  (s.threads t).status = .waitArb ∧ ∀ o, t ∉ s.waitingThreads o

/-- Nobody starts to wait at an arbiter, and nobody who waits at one is woken. -/
structure Leaves (s s' : KernelSystem) : Prop where
  sleeper : ∀ t, s.ArbSleeper t → s'.ArbSleeper t
  only : ∀ t, (s'.threads t).status = .waitArb → (s.threads t).status = .waitArb

theorem Leaves.refl (s : KernelSystem) : Leaves s s := ⟨fun _ h => h, fun _ h => h⟩

theorem Leaves.trans {s₁ s₂ s₃ : KernelSystem} (h₁ : Leaves s₁ s₂) (h₂ : Leaves s₂ s₃) :
    Leaves s₁ s₃ :=
  ⟨fun t h => h₂.sleeper t (h₁.sleeper t h), fun t h => h₁.only t (h₂.only t h)⟩

/-- Steps that change no status and put nobody into a list. -/
theorem leaves_of_status {s s' : KernelSystem}
    (hstatus : ∀ t, (s'.threads t).status = (s.threads t).status)
    (hlists : ∀ o t, t ∈ s'.waitingThreads o → t ∈ s.waitingThreads o) : Leaves s s' :=
  ⟨fun t h => ⟨(hstatus t).trans h.1, fun o hcon => h.2 o (hlists o t hcon)⟩,
    fun t h => (hstatus t).symm.trans h⟩

theorem Follows.leaves {s s' : KernelSystem} (hf : Follows s s')
    (hw : s'.waitingThreads = s.waitingThreads) : Leaves s s' :=
  leaves_of_status hf.status fun o t h => by rwa [hw] at h

theorem Leaves.setKind (s : KernelSystem) (o : Nat) (k : ObjectKind) : Leaves s (s.setKind o k) :=
  leaves_of_status (fun _ => rfl) fun _ _ h => h

theorem Leaves.acquireAll (s : KernelSystem) (l : List Nat) (t : Nat) :
    Leaves s (s.acquireAll l t) :=
  (Follows.acquireAll s l t).leaves (waitingThreads_acquireAll s l t)

theorem Leaves.acquire (s : KernelSystem) (o t : Nat) : Leaves s (s.acquire o t) :=
  (Follows.acquire s o t).leaves (waitingThreads_acquire s o t)

theorem Leaves.leaveWaitObjects (s : KernelSystem) (t : Nat) :
    Leaves s (s.leaveWaitObjects t) := by
  refine leaves_of_status (fun u => (threads_leaveWaitObjects s t u).1) fun o u h => ?_
  exact ((waitingThreads_leaveLists s (s.threads t).waitObjects t).1 o).subset h

theorem status_resumeFromWait_ne (s : KernelSystem) (t : Nat) :
    ((s.resumeFromWait t).threads t).status ≠ .waitArb := by
  unfold resumeFromWait
  split
  · rename_i h
    simp [h]
  · rename_i h
    simp [h]
  · rename_i h
    simp [h]
  · rw [setStatus, threads_modifyThread, if_pos rfl]
    simp

theorem Leaves.resumeFromWait {s : KernelSystem} {t : Nat}
    (ht : (s.threads t).status ≠ .waitArb) : Leaves s (s.resumeFromWait t) := by
  obtain ⟨-, hlists⟩ := resumeFromWait_frame s t
  refine ⟨fun u hu => ⟨?_, fun o => ?_⟩, fun u hu => ?_⟩
  · have hut : u ≠ t := by
      rintro rfl
      exact ht hu.1
    rw [(threads_resumeFromWait s t u).2.2 hut]
    exact hu.1
  · rw [hlists]
    exact hu.2 o
  · have hut : u ≠ t := by
      rintro rfl
      exact status_resumeFromWait_ne s u hu
    rwa [(threads_resumeFromWait s t u).2.2 hut] at hu

/-- The loop wakes only threads that are in a list. -/
theorem Leaves.wakeupThread {s : KernelSystem} {o t : Nat} (ht : t ∈ s.waitingThreads o) :
    Leaves s (s.wakeupThread o t) := by
  have hleave : Leaves s ((s.acquireFor o t).leaveWaitObjects t) :=
    ((Follows.acquireFor s o t).leaves (waitingThreads_acquireFor s o t)).trans
      (Leaves.leaveWaitObjects _ t)
  obtain ⟨-, hlists⟩ := resumeFromWait_frame ((s.acquireFor o t).leaveWaitObjects t) t
  refine ⟨fun u hu => ?_, fun u hu => ?_⟩
  · have hut : u ≠ t := by
      rintro rfl
      exact hu.2 o ht
    obtain ⟨h₁, h₂⟩ := hleave.sleeper u hu
    unfold KernelSystem.wakeupThread
    refine ⟨?_, fun p => ?_⟩
    · rw [(threads_resumeFromWait _ t u).2.2 hut]
      exact h₁
    · rw [hlists]
      exact h₂ p
  · have hut : u ≠ t := by
      rintro rfl
      exact status_resumeFromWait_ne _ u hu
    refine hleave.only u ?_
    rwa [KernelSystem.wakeupThread, (threads_resumeFromWait _ t u).2.2 hut] at hu

theorem Leaves.wakeupAllWaitingThreads (s : KernelSystem) (o : Nat) :
    Leaves s (s.wakeupAllWaitingThreads o) := by
  have hloop : ∀ (turns : Nat) (s : KernelSystem), Leaves s (wakeupLoop o turns s) := by
    intro turns
    induction turns with
    | zero => exact fun s => Leaves.refl s
    | succ turns ih =>
      intro s
      unfold wakeupLoop
      split
      · exact Leaves.refl s
      · rename_i t hsome
        exact (Leaves.wakeupThread (getHighestPriorityReadyThread_mem hsome)).trans (ih _)
  exact (hloop _ s).trans ((Follows.endPulse _ o).leaves (waitingThreads_endPulse _ o))

/-- An object changes and the threads that wait for it are woken. -/
theorem Leaves.change (s : KernelSystem) (o : Nat) (k : ObjectKind) :
    Leaves s ((s.setKind o k).wakeupAllWaitingThreads o) :=
  (Leaves.setKind s o k).trans (Leaves.wakeupAllWaitingThreads _ o)

theorem Leaves.freeMutex (s : KernelSystem) (m : Nat) : Leaves s (s.freeMutex m) := by
  unfold KernelSystem.freeMutex
  split
  · exact Leaves.change s m _
  · exact Leaves.refl s

theorem Leaves.modifyThread (s : KernelSystem) (t : Nat) {f : Thread → Thread}
    (hf : ∀ th, (f th).status = th.status ∧ (f th).waitObjects = th.waitObjects) :
    Leaves s (s.modifyThread t f) :=
  (Follows.modifyThread s t hf).leaves rfl

theorem Leaves.releaseThreadMutexes (s : KernelSystem) (t : Nat) :
    Leaves s (s.releaseThreadMutexes t) := by
  have hfold : ∀ (l : List Nat) (s : KernelSystem),
      Leaves s (l.foldl KernelSystem.freeMutex s) := by
    intro l
    induction l with
    | nil => exact fun s => Leaves.refl s
    | cons m l ih => exact fun s => (Leaves.freeMutex s m).trans (ih _)
  unfold KernelSystem.releaseThreadMutexes clearHeld
  exact (hfold _ s).trans (Leaves.modifyThread _ t fun _ => ⟨rfl, rfl⟩)

theorem Leaves.stop {s : KernelSystem} {t : Nat} (ht : (s.threads t).status ≠ .waitArb) :
    Leaves s (s.stop t) := by
  obtain ⟨-, hlists, hthreads⟩ := kill_frame s t
  have hkill : Leaves s (s.kill t) := by
    refine ⟨fun u hu => ⟨?_, fun o => ?_⟩, fun u hu => ?_⟩
    · have hut : u ≠ t := by
        rintro rfl
        exact ht hu.1
      rw [hthreads, if_neg hut]
      exact hu.1
    · rw [hlists]
      exact hu.2 o
    · rw [hthreads] at hu
      split at hu
      · cases hu
      · exact hu
  exact ((hkill.trans (Leaves.wakeupAllWaitingThreads _ t)).trans
    (Leaves.leaveWaitObjects _ t)).trans (Leaves.releaseThreadMutexes _ t)

theorem Leaves.releaseMutex (s : KernelSystem) (m t : Nat) : Leaves s (s.releaseMutex m t) := by
  unfold KernelSystem.releaseMutex
  split
  · split
    · exact Leaves.refl s
    · split
      · exact Leaves.setKind s m _
      · have hheld : ∀ s : KernelSystem, Leaves s (s.removeHeld t m) :=
          fun s => Leaves.modifyThread s t fun _ => ⟨rfl, rfl⟩
        exact (((Leaves.setKind s m _).trans (hheld _)).trans
          ((Follows.updatePriority _ t).leaves rfl)).trans (Leaves.change _ m _)
  · exact Leaves.refl s

theorem Leaves.signal (s : KernelSystem) (o : Nat) : Leaves s (s.signal o) := by
  unfold KernelSystem.signal
  split
  · exact Leaves.change s o _
  · exact Leaves.change s o _
  · exact Leaves.refl s

theorem Leaves.clear (s : KernelSystem) (o : Nat) : Leaves s (s.clear o) := by
  unfold KernelSystem.clear
  split
  · exact Leaves.setKind s o _
  · exact Leaves.setKind s o _
  · exact Leaves.refl s

theorem Leaves.releaseSemaphore (s : KernelSystem) (o : Nat) (releaseCount : Int) :
    Leaves s (s.releaseSemaphore o releaseCount) := by
  unfold KernelSystem.releaseSemaphore
  split
  · split
    · exact Leaves.refl s
    · exact Leaves.change s o _
  · exact Leaves.refl s

/-- A running thread starts to wait for objects. -/
theorem Leaves.waitFor {s : KernelSystem} {t : Nat} (ht : (s.threads t).status = .running)
    (objects : List Nat) {status : ThreadStatus} (hstatus : status ≠ .waitArb) :
    Leaves s (s.waitFor t objects status) := by
  have hthreads := threads_waitFor s t objects status
  refine ⟨fun u hu => ⟨?_, fun o hcon => ?_⟩, fun u hu => ?_⟩
  · have hut : u ≠ t := by
      rintro rfl
      rw [hu.1] at ht
      cases ht
    rw [(hthreads u).1, if_neg hut]
    exact hu.1
  · rcases (mem_enterLists (s.setStatus t status) objects t o u).1 hcon with hmem | ⟨rfl, -⟩
    · exact hu.2 o hmem
    · rw [hu.1] at ht
      cases ht
  · rw [(hthreads u).1] at hu
    split at hu
    · exact absurd hu hstatus
    · exact hu

theorem Leaves.setStatus {s : KernelSystem} {t : Nat} (ht : (s.threads t).status = .running)
    {status : ThreadStatus} (hstatus : status ≠ .waitArb) : Leaves s (s.setStatus t status) := by
  refine ⟨fun u hu => ⟨?_, hu.2⟩, fun u hu => ?_⟩
  · rw [KernelSystem.setStatus, threads_modifyThread]
    split
    · rename_i hut
      rw [← hut, hu.1] at ht
      cases ht
    · exact hu.1
  · rw [KernelSystem.setStatus, threads_modifyThread] at hu
    split at hu
    · exact absurd hu hstatus
    · exact hu

theorem Leaves.createThread {s : KernelSystem} {address : Nat}
    (ha : (s.threads address).status ≠ .waitArb) (priority processorId : Nat) (makeReady : Bool) :
    Leaves s (s.createThread address priority processorId makeReady) := by
  by_cases herr : threadPrioLowest < priority ∨ threadProcessorIdMax < processorId
  · unfold KernelSystem.createThread
    rw [if_pos herr]
    exact Leaves.refl s
  obtain ⟨hlists, -, hothers, hnew⟩ := createThread_frame s address makeReady herr
  refine ⟨fun t ht => ⟨?_, fun o => ?_⟩, fun t ht => ?_⟩
  · have hta : t ≠ address := by
      rintro rfl
      exact ha ht.1
    rw [hothers t hta]
    exact ht.1
  · rw [hlists]
    exact ht.2 o
  · by_cases hta : t = address
    · rw [hta, hnew] at ht
      cases makeReady <;> cases ht
    · rwa [hothers t hta] at ht

theorem Switched.leaves {s s' : KernelSystem} (h : Switched s s')
    (hready : ∀ t, (s.threads t).status = .waitArb ↔ (s'.threads t).status = .waitArb) :
    Leaves s s' :=
  ⟨fun t ht => ⟨(hready t).1 ht.1, fun o => by rw [h.waitingThreads]; exact ht.2 o⟩,
    fun t => (hready t).2⟩

theorem leaves_reschedule {s s' : KernelSystem} {core : Nat} (h : s.reschedule core = some s') :
    Leaves s s' := by
  have hsuspend : ∀ s : KernelSystem, Leaves s (s.suspendPrevious core) := by
    intro s
    refine (switched_suspendPrevious s core).leaves fun t => ?_
    rw [threads_suspendPrevious]
    split
    · rename_i hrun
      have hs : (s.threads t).status = .running := by
        unfold runningThread at hrun
        split at hrun
        · split at hrun
          · cases hrun
            assumption
          · cases hrun
        · cases hrun
      simp [hs]
    · exact Iff.rfl
  have hload : ∀ (s s' : KernelSystem) (next : Option Nat), s.loadContext core next = some s' →
      Leaves s s' := by
    intro s s' next hs
    refine (switched_loadContext hs).leaves fun t => ?_
    unfold loadContext at hs
    split at hs
    · split at hs
      · rename_i u hu
        cases hs
        rw [setStatus, threads_modifyThread, threads_modifyManager]
        split
        · rename_i htu
          rw [htu, hu]
          simp
        · exact Iff.rfl
      · cases hs
    · cases hs
      exact Iff.rfl
  unfold reschedule at h
  split at h
  · cases h
  · split at h
    · cases h
      exact leaves_of_status (fun _ => rfl) fun _ _ h => h
    · have hqueue : ∀ q, Leaves s (s.modifyQueue core fun _ => q) :=
        fun q => leaves_of_status (fun _ => rfl) fun _ _ h => h
      exact ((hqueue _).trans (hsuspend _)).trans (hload _ _ _ h)

/-- The operations that let no thread wait at an arbiter, and resume or stop none. -/
def SparesArbiters (s : KernelSystem) : KernelOp → Prop
  | .suspend _ status => status ≠ .waitArb
  | .threadWakeupCallback t => (s.threads t).status ≠ .waitArb
  | .resumeFromWait t => (s.threads t).status ≠ .waitArb
  | .stop t => (s.threads t).status ≠ .waitArb
  | _ => True

theorem leaves_step {s s' : KernelSystem} (h : s.AtRest) {op : KernelOp}
    (hs : s.step op = some s') (hop : s.SparesArbiters op) : Leaves s s' := by
  cases op with
  | createThread address priority processorId makeReady =>
    simp only [step] at hs
    split at hs
    · rename_i ha
      cases hs
      refine Leaves.createThread ?_ priority processorId makeReady
      rw [h.queued.blank address (by simp [ha])]
      simp
    · cases hs
  | createMutex core address initialLocked =>
    simp only [step, Option.bind_eq_some_iff, Option.map_eq_some_iff, createObject_eq_some] at hs
    obtain ⟨t, -, s₁, ⟨-, rfl⟩, rfl⟩ := hs
    split
    · exact (Leaves.setKind s address _).trans (Leaves.acquire _ address t)
    · exact Leaves.setKind s address _
  | createEvent address resetType =>
    obtain ⟨-, rfl⟩ := createObject_eq_some.1 hs
    exact Leaves.setKind s address _
  | createSemaphore address initialCount maxCount =>
    simp only [step] at hs
    split at hs
    · cases hs
      exact Leaves.refl s
    · obtain ⟨-, rfl⟩ := createObject_eq_some.1 hs
      exact Leaves.setKind s address _
  | createTimer address resetType =>
    obtain ⟨-, rfl⟩ := createObject_eq_some.1 hs
    exact Leaves.setKind s address _
  | waitSynchronization1 core object nanoSeconds =>
    simp only [step, Option.bind_eq_some_iff] at hs
    obtain ⟨t, ht, hs⟩ := hs
    obtain ⟨-, -, hrun, -⟩ := h.queued.runningThread ht
    split at hs
    · cases hs
    · cases hs
      unfold waitSynchronization1
      split
      · split
        · exact Leaves.refl s
        · exact Leaves.waitFor hrun _ (by simp)
      · exact Leaves.acquire s object t
  | waitSynchronizationN core objects waitAll nanoSeconds =>
    simp only [step, Option.bind_eq_some_iff] at hs
    obtain ⟨t, ht, hs⟩ := hs
    obtain ⟨-, -, hrun, -⟩ := h.queued.runningThread ht
    split at hs
    · cases hs
    · cases hs
      unfold waitSynchronizationN
      split
      · split
        · exact Leaves.acquireAll s objects t
        · split
          · exact Leaves.refl s
          · exact Leaves.waitFor hrun _ (by simp)
      · split
        · exact Leaves.acquire s _ t
        · split
          · exact Leaves.refl s
          · exact Leaves.waitFor hrun _ (by simp)
  | suspend core status =>
    simp only [step, Option.bind_eq_some_iff] at hs
    obtain ⟨t, ht, hs⟩ := hs
    obtain ⟨-, -, hrun, -⟩ := h.queued.runningThread ht
    split at hs
    · cases hs
      exact Leaves.setStatus hrun hop
    · cases hs
  | sleepClientThread core address =>
    simp only [step, Option.bind_eq_some_iff, Option.map_eq_some_iff, createObject_eq_some] at hs
    obtain ⟨t, ht, s₁, ⟨-, rfl⟩, rfl⟩ := hs
    obtain ⟨-, -, hrun, -⟩ := h.queued.runningThread ht
    have hwait : Leaves (s.setKind address (.event .oneShot false))
        ((s.setKind address (.event .oneShot false)).waitFor t [address] .waitHleEvent) :=
      Leaves.waitFor (s := s.setKind address (.event .oneShot false)) hrun _ (by simp)
    exact (Leaves.setKind s address _).trans hwait
  | signal object =>
    cases hs
    exact Leaves.signal s object
  | clear object =>
    cases hs
    exact Leaves.clear s object
  | releaseSemaphore object releaseCount =>
    cases hs
    exact Leaves.releaseSemaphore s object releaseCount
  | releaseMutex core object =>
    simp only [step, Option.map_eq_some_iff] at hs
    obtain ⟨t, -, rfl⟩ := hs
    exact Leaves.releaseMutex s object t
  | threadWakeupCallback thread =>
    simp only [step, onThread_eq_some] at hs
    obtain ⟨-, rfl⟩ := hs
    have hleave : Leaves s ((s.leaveWaitObjects thread).resumeFromWait thread) :=
      (Leaves.leaveWaitObjects s thread).trans
        (Leaves.resumeFromWait (by rw [(threads_leaveWaitObjects s thread thread).1]; exact hop))
    unfold threadWakeupCallback
    split
    · exact hleave
    · exact hleave
    · exact hleave
    · exact hleave
    · exact Leaves.resumeFromWait hop
  | resumeFromWait thread =>
    simp only [step] at hs
    split at hs
    · obtain ⟨-, rfl⟩ := onThread_eq_some.1 hs
      exact Leaves.resumeFromWait hop
    · cases hs
  | setThreadPriority thread priority =>
    simp only [step, onThread_eq_some] at hs
    obtain ⟨-, rfl⟩ := hs
    obtain ⟨hf, hw⟩ := Follows.setThreadPriority s thread priority
    exact hf.leaves hw
  | setPriority thread priority =>
    simp only [step] at hs
    split at hs
    · obtain ⟨-, rfl⟩ := onThread_eq_some.1 hs
      exact (Follows.setPriority s thread priority).leaves rfl
    · cases hs
  | boostPriority thread priority =>
    simp only [step] at hs
    split at hs
    · obtain ⟨-, rfl⟩ := onThread_eq_some.1 hs
      exact (Follows.boostPriority s thread priority).leaves rfl
    · cases hs
  | setCanSchedule thread canSchedule =>
    simp only [step, onThread_eq_some] at hs
    obtain ⟨-, rfl⟩ := hs
    exact Leaves.modifyThread s thread fun _ => ⟨rfl, rfl⟩
  | stop thread =>
    simp only [step] at hs
    split at hs
    · cases hs
    · obtain ⟨-, rfl⟩ := onThread_eq_some.1 hs
      exact Leaves.stop hop
  | exitCurrentThread core =>
    simp only [step, Option.map_eq_some_iff] at hs
    obtain ⟨t, ht, rfl⟩ := hs
    refine Leaves.stop ?_
    rw [(h.queued.runningThread ht).2.2.1]
    simp
  | reschedule core => exact leaves_reschedule hs

/-- Between two operations a thread that waits at an arbiter is in no list. -/
theorem AtRest.arbSleeper {s : KernelSystem} (h : s.AtRest) {t : Nat}
    (ht : (s.threads t).status = .waitArb) : s.ArbSleeper t := by
  refine ⟨ht, fun o hmem => ?_⟩
  have hwaits := h.waits.status t not_false (List.ne_nil_of_mem ((h.waits.mem o t).1 hmem))
  rw [ht] at hwaits
  simp [WaitsForObjects] at hwaits

theorem AtRest.waitObjects_arb {s : KernelSystem} (h : s.AtRest) {t : Nat}
    (ht : (s.threads t).status = .waitArb) : (s.threads t).waitObjects = [] := by
  by_contra hcon
  have hwaits := h.waits.status t not_false hcon
  rw [ht] at hwaits
  simp [WaitsForObjects] at hwaits

theorem AtRest.kind_arb {s : KernelSystem} (h : s.AtRest) {t : Nat}
    (ht : (s.threads t).status = .waitArb) : s.kind t = .thread := by
  by_contra hcon
  rw [h.queued.blank t hcon] at ht
  cases ht

end KernelSystem

namespace ArbiterSystem

/-! ## What the lists say -/

/-- The invariant. -/
structure Listed (s : ArbiterSystem) : Prop where
  rest : s.kernel.AtRest
  /-- No event is outstanding for a thread that runs. -/
  idle : ∀ t, s.status t = .running → s.scheduled t = false
  mem : ∀ a t, t ∈ s.waitingThreads a ↔ s.status t = .waitArb ∧ s.arbiterOf t = a
  nodup : ∀ a, (s.waitingThreads a).Nodup
  /-- The event of a thread that waits finds the arbiter. -/
  callback : ∀ t, s.status t = .waitArb → s.scheduled t = true →
    s.wakeupCallback t = some (s.arbiterOf t)
  since : ∀ t, s.status t = .waitArb → s.waitingSince t < s.clock
  /-- Threads that wait on one address stand in the order in which they came. -/
  ordered : ∀ a, (s.waitingThreads a).Pairwise fun t u =>
    s.waitAddress t = s.waitAddress u → s.waitingSince t < s.waitingSince u

theorem listed_initial : initial.Listed where
  rest := atRest_initial
  idle t h := rfl
  mem a t := by simp [initial, status, KernelSystem.initial, Thread.new]
  nodup a := List.nodup_nil
  callback t h := by simp [initial, status, KernelSystem.initial, Thread.new] at h
  since t h := by simp [initial, status, KernelSystem.initial, Thread.new] at h
  ordered a := List.Pairwise.nil

/-! ## Threads that start to wait -/

/-- The current thread starts to wait at an arbiter, perhaps with an event that finds it. -/
theorem Listed.waitThread {s s₁ : ArbiterSystem} (h : s.Listed) {core t a : Nat}
    (ht : s.kernel.runningThread core = some t) (hkernel : s₁.kernel = s.kernel)
    (haddress : s₁.waitAddress = s.waitAddress) (hlists : s₁.waitingThreads = s.waitingThreads)
    (harbiter : s₁.arbiterOf = s.arbiterOf)
    (hsince : s₁.waitingSince = s.waitingSince) (hclock : s₁.clock = s.clock)
    (hscheduled : ∀ u, u ≠ t → s₁.scheduled u = s.scheduled u)
    (hothers : ∀ u, u ≠ t → s₁.wakeupCallback u = s.wakeupCallback u)
    (hnew : s₁.scheduled t = true → s₁.wakeupCallback t = some a) (address : Nat) :
    (s₁.waitThread a t address).Listed := by
  obtain ⟨-, -, hrun, -⟩ := h.rest.queued.runningThread ht
  have hstatus : ∀ u, (s₁.waitThread a t address).status u =
      if u = t then .waitArb else s.status u := by
    intro u
    have hthreads := threads_modifyThread s₁.kernel t (fun th => { th with status := .waitArb }) u
    unfold ArbiterSystem.waitThread ArbiterSystem.status
    rw [KernelSystem.setStatus, hthreads, hkernel]
    split <;> rfl
  have hfresh : ∀ b, t ∉ s.waitingThreads b := by
    intro b hmem
    have hcon := ((h.mem b t).1 hmem).1
    rw [ArbiterSystem.status, hrun] at hcon
    cases hcon
  have harbiterOf : ∀ u, (s₁.waitThread a t address).arbiterOf u =
      if u = t then a else s.arbiterOf u := by
    intro u
    rw [← harbiter]
    exact Function.update_apply _ t a u
  have hwaitingSince : ∀ u, (s₁.waitThread a t address).waitingSince u =
      if u = t then s.clock else s.waitingSince u := by
    intro u
    rw [← hsince, ← hclock]
    exact Function.update_apply _ t s₁.clock u
  have hwaitAddress : ∀ u, (s₁.waitThread a t address).waitAddress u =
      if u = t then address else s.waitAddress u := by
    intro u
    rw [← haddress]
    exact Function.update_apply _ t address u
  have hwaiting : ∀ b, (s₁.waitThread a t address).waitingThreads b =
      if b = a then s.waitingThreads a ++ [t] else s.waitingThreads b := by
    intro b
    rw [← hlists]
    exact Function.update_apply _ a (s₁.waitingThreads a ++ [t]) b
  have hclock' : (s₁.waitThread a t address).clock = s.clock + 1 := congrArg (· + 1) hclock
  refine ⟨?_, fun u hu => ?_, fun b u => ?_, fun b => ?_, fun u hu hs => ?_, fun u hu => ?_,
    fun b => ?_⟩
  · refine KernelSystem.atRest_step h.rest (.suspend core .waitArb) ?_
    unfold ArbiterSystem.waitThread
    rw [hkernel]
    simp [KernelSystem.step, ht]
  · rw [hstatus] at hu
    split at hu
    · cases hu
    · rename_i hut
      exact (hscheduled u hut).trans (h.idle u hu)
  · rw [hwaiting, hstatus, harbiterOf]
    by_cases hut : u = t
    · subst hut
      by_cases hb : b = a
      · simp [hb]
      · have hba : ¬ a = b := fun hcon => hb hcon.symm
        simp [hb, hba, hfresh b]
    · rw [if_neg hut, if_neg hut]
      by_cases hb : b = a
      · rw [if_pos hb, hb, List.mem_append, List.mem_singleton, h.mem]
        simp [hut]
      · rw [if_neg hb]
        exact h.mem b u
  · rw [hwaiting]
    split
    · refine List.nodup_append.2 ⟨h.nodup a, List.nodup_singleton t, fun u hu v hv => ?_⟩
      rw [List.mem_singleton.1 hv]
      rintro rfl
      exact hfresh a hu
    · exact h.nodup b
  · rw [harbiterOf]
    split
    · rename_i hut
      rw [hut] at hs ⊢
      exact hnew hs
    · rename_i hut
      rw [hstatus, if_neg hut] at hu
      have hs' : s.scheduled u = true := (hscheduled u hut).symm.trans hs
      exact (hothers u hut).trans (h.callback u hu hs')
  · rw [hwaitingSince, hclock']
    split
    · omega
    · rename_i hut
      rw [hstatus, if_neg hut] at hu
      have := h.since u hu
      omega
  · have hold : ∀ c, (s.waitingThreads c).Pairwise fun u v =>
        (s₁.waitThread a t address).waitAddress u = (s₁.waitThread a t address).waitAddress v →
          (s₁.waitThread a t address).waitingSince u <
            (s₁.waitThread a t address).waitingSince v := by
      intro c
      refine (h.ordered c).imp_of_mem fun {u v} hu hv huv => ?_
      have hut : u ≠ t := fun hcon => hfresh c (hcon ▸ hu)
      have hvt : v ≠ t := fun hcon => hfresh c (hcon ▸ hv)
      rw [hwaitAddress, hwaitAddress, hwaitingSince, hwaitingSince, if_neg hut, if_neg hvt,
        if_neg hut, if_neg hvt]
      exact huv
    rw [hwaiting]
    split
    · refine List.pairwise_append.2 ⟨hold a, List.pairwise_singleton _ _, fun u hu v hv _ => ?_⟩
      have hut : u ≠ t := fun hcon => hfresh a (hcon ▸ hu)
      rw [List.mem_singleton.1 hv, hwaitingSince, hwaitingSince, if_pos rfl, if_neg hut]
      exact h.since u ((h.mem a u).1 hu).1
    · exact hold b

/-! ## Threads that are resumed -/

/-- What it takes to resume some threads of a list and to leave the others in another list. -/
theorem Listed.resumed {s s' : ArbiterSystem} (h : s.Listed) {a : Nat} {gone : List Nat}
    (hgone : ∀ t ∈ gone, t ∈ s.waitingThreads a) (hrest : s'.kernel.AtRest)
    (hready : ∀ t ∈ gone, s'.status t = .ready)
    (hstill : ∀ t, t ∉ gone → s'.status t = s.status t)
    (hscheduled : ∀ t, s'.scheduled t = true → s.scheduled t = true)
    (hcallback : ∀ t, t ∉ gone → s'.wakeupCallback t = s.wakeupCallback t)
    (haddress : s'.waitAddress = s.waitAddress) (harbiter : s'.arbiterOf = s.arbiterOf)
    (hsince : s'.waitingSince = s.waitingSince) (hclock : s'.clock = s.clock)
    (hlists : ∀ b, b ≠ a → s'.waitingThreads b = s.waitingThreads b)
    (hmem : ∀ t, t ∈ s'.waitingThreads a ↔ t ∈ s.waitingThreads a ∧ t ∉ gone)
    (hnodup : (s'.waitingThreads a).Nodup)
    (hordered : (s'.waitingThreads a).Pairwise fun t u =>
      s.waitAddress t = s.waitAddress u → s.waitingSince t < s.waitingSince u) : s'.Listed := by
  have hstatus : ∀ t, s'.status t = .waitArb ↔ s.status t = .waitArb ∧ t ∉ gone := by
    intro t
    by_cases ht : t ∈ gone
    · rw [hready t ht]
      simp [ht]
    · rw [hstill t ht]
      simp [ht]
  refine ⟨hrest, fun t ht => ?_, fun b t => ?_, fun b => ?_, fun t ht hs => ?_, fun t ht => ?_,
    fun b => ?_⟩
  · have hnot : t ∉ gone := by
      intro hcon
      rw [hready t hcon] at ht
      cases ht
    rw [hstill t hnot] at ht
    have hidle := h.idle t ht
    by_contra hcon
    rw [hscheduled t (by simpa using hcon)] at hidle
    cases hidle
  · rw [hstatus, harbiter]
    by_cases hb : b = a
    · rw [hb, hmem, h.mem]
      tauto
    · rw [hlists b hb, h.mem]
      constructor
      · rintro ⟨h₁, h₂⟩
        refine ⟨⟨h₁, fun hcon => hb ?_⟩, h₂⟩
        rw [← h₂]
        exact ((h.mem a t).1 (hgone t hcon)).2
      · rintro ⟨⟨h₁, -⟩, h₂⟩
        exact ⟨h₁, h₂⟩
  · by_cases hb : b = a
    · rw [hb]
      exact hnodup
    · rw [hlists b hb]
      exact h.nodup b
  · obtain ⟨h₁, h₂⟩ := (hstatus t).1 ht
    rw [hcallback t h₂, harbiter]
    exact h.callback t h₁ (hscheduled t hs)
  · rw [hsince, hclock]
    exact h.since t ((hstatus t).1 ht).1
  · rw [haddress, hsince]
    by_cases hb : b = a
    · rw [hb]
      exact hordered
    · rw [hlists b hb]
      exact h.ordered b

/-- What resuming threads that wait at arbiters leaves. -/
theorem resume_waiting {s : ArbiterSystem} (h : s.kernel.AtRest) {l : List Nat}
    (hl : l.Nodup) (harb : ∀ t ∈ l, s.status t = .waitArb) :
    (l.foldl resumeFromWait s).kernel.AtRest ∧
      (∀ t ∈ l, (l.foldl resumeFromWait s).status t = .ready) ∧
      (∀ t, t ∉ l → (l.foldl resumeFromWait s).status t = s.status t) ∧
      (∀ t, t ∉ l → (l.foldl resumeFromWait s).wakeupCallback t = s.wakeupCallback t) ∧
      (∀ t, (l.foldl resumeFromWait s).priority t = s.priority t) := by
  induction l generalizing s with
  | nil => exact ⟨h, fun t ht => (by cases ht), fun t _ => rfl, fun t _ => rfl, fun t => rfl⟩
  | cons u l ih =>
    obtain ⟨hul, hl⟩ := List.nodup_cons.1 hl
    have hu := harb u (List.mem_cons_self ..)
    have hothers : ∀ t, t ≠ u → (s.resumeFromWait u).status t = s.status t :=
      fun t ht => (threads_resumeFromWait s.kernel u t).2.2 ht
    have hthreads : (s.resumeFromWait u).kernel =
        (s.kernel.modifyQueue (s.kernel.threads u).coreId fun q =>
          q.pushBack (s.kernel.threads u).currentPriority u).setStatus u .ready := by
      have hstatus : (s.kernel.threads u).status = .waitArb := hu
      unfold ArbiterSystem.resumeFromWait KernelSystem.resumeFromWait
      simp only [hstatus]
    have hnext : (s.resumeFromWait u).status u = .ready := by
      rw [ArbiterSystem.status, hthreads, KernelSystem.setStatus, threads_modifyThread,
        if_pos rfl]
    have hpriority : ∀ t, (s.resumeFromWait u).priority t = s.priority t := by
      intro t
      rw [ArbiterSystem.priority, hthreads, KernelSystem.setStatus, threads_modifyThread]
      split <;> rfl
    have hcallback : ∀ t, t ≠ u →
        (s.resumeFromWait u).wakeupCallback t = s.wakeupCallback t := by
      intro t ht
      unfold ArbiterSystem.resumeFromWait
      simp only [hu]
      simp [ht]
    obtain ⟨h₁, h₂, h₃, h₄, h₅⟩ := ih (s := s.resumeFromWait u)
      (h.resumeFromWait (h.kind_arb hu) (h.waitObjects_arb hu)) hl (fun t ht => by
        have htu : t ≠ u := fun hcon => hul (hcon ▸ ht)
        rw [hothers t htu]
        exact harb t (List.mem_cons_of_mem u ht))
    refine ⟨h₁, fun t ht => ?_, fun t ht => ?_, fun t ht => ?_, fun t => ?_⟩
    · rcases List.mem_cons.1 ht with rfl | ht
      · exact (h₃ t hul).trans hnext
      · exact h₂ t ht
    · obtain ⟨htu, htl⟩ := List.ne_and_not_mem_of_not_mem_cons ht
      exact (h₃ t htl).trans (hothers t htu)
    · obtain ⟨htu, htl⟩ := List.ne_and_not_mem_of_not_mem_cons ht
      exact (h₄ t htl).trans (hcallback t htu)
    · exact (h₅ t).trans (hpriority t)

theorem resume_frame (s : ArbiterSystem) (l : List Nat) :
    (l.foldl resumeFromWait s).waitAddress = s.waitAddress ∧
      (l.foldl resumeFromWait s).waitingThreads = s.waitingThreads ∧
      (l.foldl resumeFromWait s).scheduled = s.scheduled ∧
      (l.foldl resumeFromWait s).arbiterOf = s.arbiterOf ∧
      (l.foldl resumeFromWait s).waitingSince = s.waitingSince ∧
      (l.foldl resumeFromWait s).clock = s.clock := by
  induction l generalizing s with
  | nil => exact ⟨rfl, rfl, rfl, rfl, rfl, rfl⟩
  | cons t l ih => exact ih (s.resumeFromWait t)

theorem waitingThreads_setWaiting (s : ArbiterSystem) (a : Nat) (l : List Nat) (b : Nat) :
    (s.setWaiting a l).waitingThreads b = if b = a then l else s.waitingThreads b :=
  Function.update_apply _ a l b

/-! ## Signals -/

/-- What a signal of an address leaves that resumes some threads. -/
structure Signalled (s s' : ArbiterSystem) (a address : Nat) (resumed : List Nat) : Prop where
  ready : ∀ t ∈ resumed, s'.status t = .ready
  still : ∀ t, t ∉ resumed → s'.status t = s.status t
  /-- The threads that wait on the address are those that were not resumed, in their order. -/
  left : s'.matching address (s'.waitingThreads a) =
    (s.matching address (s.waitingThreads a)).filter (· ∉ resumed)
  /-- The threads that wait on other addresses stay in their order. -/
  others : s'.others address (s'.waitingThreads a) = s.others address (s.waitingThreads a)
  lists : ∀ b, b ≠ a → s'.waitingThreads b = s.waitingThreads b
  priority : ∀ t, s'.priority t = s.priority t
  waitingSince : s'.waitingSince = s.waitingSince

theorem Signalled.trans {s₁ s₂ s₃ : ArbiterSystem} {a address : Nat} {l l' : List Nat}
    (h₁ : Signalled s₁ s₂ a address l) (h₂ : Signalled s₂ s₃ a address l') :
    Signalled s₁ s₃ a address (l ++ l') := by
  refine ⟨fun t ht => ?_, fun t ht => ?_, ?_, h₂.others.trans h₁.others,
    fun b hb => (h₂.lists b hb).trans (h₁.lists b hb),
    fun t => (h₂.priority t).trans (h₁.priority t), h₂.waitingSince.trans h₁.waitingSince⟩
  · by_cases ht' : t ∈ l'
    · exact h₂.ready t ht'
    · rw [h₂.still t ht']
      exact h₁.ready t ((List.mem_append.1 ht).resolve_right ht')
  · rw [List.mem_append, not_or] at ht
    exact (h₂.still t ht.2).trans (h₁.still t ht.1)
  · rw [h₂.left, h₁.left, List.filter_filter]
    refine List.filter_congr fun t _ => ?_
    simp [Bool.and_comm]

theorem mem_matching {s : ArbiterSystem} {address t : Nat} {l : List Nat} :
    t ∈ s.matching address l ↔ t ∈ l ∧ s.waitAddress t = address := by
  simp [matching]

theorem mem_others {s : ArbiterSystem} {address t : Nat} {l : List Nat} :
    t ∈ s.others address l ↔ t ∈ l ∧ s.waitAddress t ≠ address := by
  simp [others]

/-- Some threads that wait on an address are resumed; the others go behind the threads that wait
on other addresses. -/
theorem Listed.resumeSome {s : ArbiterSystem} (h : s.Listed) {a address : Nat} {gone : List Nat}
    (hnodup : gone.Nodup) (hgone : ∀ t ∈ gone, t ∈ s.matching address (s.waitingThreads a)) :
    ((gone.foldl resumeFromWait s).setWaiting a (s.others address (s.waitingThreads a) ++
      (s.matching address (s.waitingThreads a)).filter (· ∉ gone))).Listed ∧
    Signalled s ((gone.foldl resumeFromWait s).setWaiting a
      (s.others address (s.waitingThreads a) ++
        (s.matching address (s.waitingThreads a)).filter (· ∉ gone))) a address gone := by
  have hwait : ∀ t ∈ gone, t ∈ s.waitingThreads a := fun t ht => (mem_matching.1 (hgone t ht)).1
  obtain ⟨hrest, hready, hstill, hcallback, hpriority⟩ :=
    resume_waiting h.rest hnodup fun t ht => ((h.mem a t).1 (hwait t ht)).1
  obtain ⟨haddress, hwaiting, hscheduled, harbiter, hsince, hclock⟩ := resume_frame s gone
  have hlists : ∀ b, b ≠ a → ((gone.foldl resumeFromWait s).setWaiting a
      (s.others address (s.waitingThreads a) ++ (s.matching address
        (s.waitingThreads a)).filter (· ∉ gone))).waitingThreads b = s.waitingThreads b := by
    intro b hb
    rw [waitingThreads_setWaiting, if_neg hb, hwaiting]
  have hlist : ((gone.foldl resumeFromWait s).setWaiting a
      (s.others address (s.waitingThreads a) ++ (s.matching address
        (s.waitingThreads a)).filter (· ∉ gone))).waitingThreads a =
      s.others address (s.waitingThreads a) ++
        (s.matching address (s.waitingThreads a)).filter (· ∉ gone) := by
    rw [waitingThreads_setWaiting, if_pos rfl]
  constructor
  · refine h.resumed hwait hrest hready hstill (fun t ht => hscheduled ▸ ht) hcallback haddress
      harbiter hsince hclock hlists (fun t => ?_) ?_ ?_
    · rw [hlist, List.mem_append, List.mem_filter, mem_others, mem_matching]
      by_cases ht : s.waitAddress t = address
      · simp [ht]
      · have hnot : t ∉ gone := fun hcon => ht (mem_matching.1 (hgone t hcon)).2
        simp [ht, hnot]
    · rw [hlist]
      refine List.nodup_append.2 ⟨(h.nodup a).filter _, ((h.nodup a).filter _).filter _,
        fun t ht u hu => ?_⟩
      rintro rfl
      exact (mem_others.1 ht).2 (mem_matching.1 (List.mem_of_mem_filter hu)).2
    · rw [hlist]
      refine List.pairwise_append.2 ⟨(h.ordered a).sublist List.filter_sublist,
        (h.ordered a).sublist (List.filter_sublist.trans List.filter_sublist),
        fun t ht u hu htu => ?_⟩
      exact absurd (htu.trans (mem_matching.1 (List.mem_of_mem_filter hu)).2) (mem_others.1 ht).2
  · refine ⟨hready, hstill, ?_, ?_, hlists, hpriority, hsince⟩
    · rw [hlist]
      have hmatching : ∀ l, ((gone.foldl resumeFromWait s).setWaiting a
          (s.others address (s.waitingThreads a) ++ (s.matching address
            (s.waitingThreads a)).filter (· ∉ gone))).matching address l = s.matching address l := by
        intro l
        unfold matching
        exact List.filter_congr fun t _ => by rw [← haddress]; rfl
      rw [hmatching, matching, List.filter_append]
      have hnone : (s.others address (s.waitingThreads a)).filter
          (fun t => s.waitAddress t = address) = [] := by
        refine List.filter_eq_nil_iff.2 fun t ht => ?_
        simpa using (mem_others.1 ht).2
      rw [hnone, List.nil_append]
      refine List.filter_eq_self.2 fun t ht => ?_
      simpa using (mem_matching.1 (List.mem_of_mem_filter ht)).2
    · rw [hlist]
      have hothers : ∀ l, ((gone.foldl resumeFromWait s).setWaiting a
          (s.others address (s.waitingThreads a) ++ (s.matching address
            (s.waitingThreads a)).filter (· ∉ gone))).others address l = s.others address l := by
        intro l
        unfold others
        exact List.filter_congr fun t _ => by rw [← haddress]; rfl
      rw [hothers, others, List.filter_append]
      have hnone : ((s.matching address (s.waitingThreads a)).filter (· ∉ gone)).filter
          (fun t => s.waitAddress t ≠ address) = [] := by
        refine List.filter_eq_nil_iff.2 fun t ht => ?_
        simpa using (mem_matching.1 (List.mem_of_mem_filter ht)).2
      rw [hnone, List.append_nil]
      refine List.filter_eq_self.2 fun t ht => ?_
      simpa using (mem_others.1 ht).2

/-- A thread comes before another: its priority is better, or the same and it waits longer. -/
def Before (s : ArbiterSystem) (t u : Nat) : Prop :=
  s.priority t < s.priority u ∨
    (s.priority t = s.priority u ∧ s.waitingSince t ≤ s.waitingSince u)

/-- The threads are taken one by one, each of them before all that wait at that moment. -/
def InTurn (s : ArbiterSystem) : List Nat → List Nat → Prop
  | _, [] => True
  | waiting, t :: resumed =>
      t ∈ waiting ∧ (∀ u ∈ waiting, s.Before t u) ∧ s.InTurn (waiting.erase t) resumed

theorem InTurn.congr {s s' : ArbiterSystem} (hpriority : ∀ t, s'.priority t = s.priority t)
    (hsince : s'.waitingSince = s.waitingSince) {waiting resumed : List Nat}
    (h : s'.InTurn waiting resumed) : s.InTurn waiting resumed := by
  induction resumed generalizing waiting with
  | nil => trivial
  | cons t resumed ih =>
    obtain ⟨h₁, h₂, h₃⟩ := h
    refine ⟨h₁, fun u hu => ?_, ih h₃⟩
    have hbefore := h₂ u hu
    unfold Before at hbefore ⊢
    rwa [hpriority, hpriority, hsince] at hbefore

/-- The thread that `std::min_element` finds comes before the others. -/
theorem Listed.before_argmin {s : ArbiterSystem} (h : s.Listed) {a address t : Nat}
    (ht : (s.matching address (s.waitingThreads a)).argmin s.priority = some t) :
    ∀ u ∈ s.matching address (s.waitingThreads a), s.Before t u := by
  intro u hu
  have hmem : t ∈ s.matching address (s.waitingThreads a) := List.argmin_mem ht
  have hle : s.priority t ≤ s.priority u := List.le_of_mem_argmin hu ht
  rcases Nat.lt_or_eq_of_le hle with hlt | heq
  · exact Or.inl hlt
  · refine Or.inr ⟨heq, ?_⟩
    have hindex := List.index_of_argmin ht hu (Nat.le_of_eq heq.symm)
    rcases Nat.lt_or_eq_of_le hindex with hbefore | hsame
    · -- the list is in the order of waiting
      have hpairwise : (s.matching address (s.waitingThreads a)).Pairwise fun t u =>
          s.waitAddress t = s.waitAddress u → s.waitingSince t < s.waitingSince u :=
        (h.ordered a).sublist List.filter_sublist
      have hlt := List.pairwise_iff_getElem.1 hpairwise _ _ (List.idxOf_lt_length_of_mem hmem)
        (List.idxOf_lt_length_of_mem hu) hbefore
      rw [List.getElem_idxOf, List.getElem_idxOf] at hlt
      exact Nat.le_of_lt (hlt ((mem_matching.1 hmem).2.trans (mem_matching.1 hu).2.symm))
    · rw [(List.idxOf_inj hmem).1 hsame]

/-- The loop over the first threads. -/
theorem Listed.resumeFirst {s : ArbiterSystem} (h : s.Listed) (a address n : Nat) :
    ∃ resumed, (resumeFirst a address n s).2.Listed ∧
      Signalled s (resumeFirst a address n s).2 a address resumed ∧
      resumed.length = min n (s.matching address (s.waitingThreads a)).length ∧
      (ArbiterSystem.resumeFirst a address n s).1 = resumed.length ∧
      s.InTurn (s.matching address (s.waitingThreads a)) resumed := by
  induction n generalizing s with
  | zero =>
    refine ⟨[], h, ⟨fun t ht => (by cases ht), fun t _ => rfl, ?_, rfl, fun _ _ => rfl,
      fun _ => rfl, rfl⟩, by simp, rfl, trivial⟩
    simp [ArbiterSystem.resumeFirst]
  | succ n ih =>
    unfold ArbiterSystem.resumeFirst resumeHighestPriorityThread
    split
    rename_i found s₁ hfound
    split at hfound
    · -- nobody waits on the address, and the list stays as it is
      rename_i hnone
      have hnil : s.matching address (s.waitingThreads a) = [] := List.argmin_eq_none.1 hnone
      have hself : s.others address (s.waitingThreads a) = s.waitingThreads a := by
        refine List.filter_eq_self.2 fun t ht => ?_
        have := List.filter_eq_nil_iff.1 hnil t ht
        simpa using this
      have hs₁ : s₁ = s := by
        rw [← (Prod.mk.inj hfound).2, hnil, List.append_nil, hself]
        unfold setWaiting
        rw [Function.update_eq_self]
      obtain ⟨resumed, h₁, h₂, h₃, h₄, h₅⟩ := ih h
      rw [hnil, List.length_nil, Nat.min_zero] at h₃
      rw [← (Prod.mk.inj hfound).1, hs₁]
      refine ⟨resumed, h₁, h₂, ?_, ?_, h₅⟩
      · rw [hnil, h₃, List.length_nil, Nat.min_zero]
      · simpa using h₄
    · rename_i t hsome
      have hmem : t ∈ s.matching address (s.waitingThreads a) := List.argmin_mem hsome
      have herase : (s.matching address (s.waitingThreads a)).erase t =
          (s.matching address (s.waitingThreads a)).filter (· ∉ [t]) := by
        have hnodup : (s.matching address (s.waitingThreads a)).Nodup := (h.nodup a).filter _
        rw [hnodup.erase_eq_filter]
        exact List.filter_congr fun u _ => by rw [Bool.eq_iff_iff]; simp
      have honly : ∀ u ∈ [t], u ∈ s.matching address (s.waitingThreads a) := fun u hu => by
        rwa [List.mem_singleton.1 hu]
      obtain ⟨hlisted, hsignalled⟩ := h.resumeSome (List.nodup_singleton t) honly
      have hs₁ : s₁ = ([t].foldl resumeFromWait s).setWaiting a
          (s.others address (s.waitingThreads a) ++
            (s.matching address (s.waitingThreads a)).filter (· ∉ [t])) := by
        rw [← (Prod.mk.inj hfound).2, herase]
        rfl
      rw [← hs₁] at hlisted hsignalled
      obtain ⟨resumed, h₁, h₂, h₃, h₄, h₅⟩ := ih hlisted
      rw [hsignalled.left, ← herase] at h₃ h₅
      rw [← (Prod.mk.inj hfound).1]
      refine ⟨t :: resumed, h₁, hsignalled.trans h₂, ?_, ?_, hmem, h.before_argmin hsome,
        InTurn.congr hsignalled.priority hsignalled.waitingSince h₅⟩
      · rw [List.length_cons, h₃, List.length_erase_of_mem hmem]
        have := List.length_pos_of_mem hmem
        omega
      · change true.toNat + (ArbiterSystem.resumeFirst a address n s₁).1 = _
        rw [List.length_cons, h₄, Nat.add_comm]
        rfl

/-! ## Every run -/

theorem Listed.signal {s : ArbiterSystem} (h : s.Listed) (a t address : Nat) (value : Int) :
    ∃ resumed, (s.signal a t address value).Listed ∧
      Signalled s (s.signal a t address value) a address resumed ∧
      if value < 0 then resumed = s.matching address (s.waitingThreads a)
      else
        resumed.length = min value.toNat (s.matching address (s.waitingThreads a)).length ∧
          s.InTurn (s.matching address (s.waitingThreads a)) resumed := by
  -- the ticks that are added at the end change nothing else
  have hticks : ∀ (n : Nat) (s' : ArbiterSystem), ∀ resumed, s'.Listed →
      Signalled s s' a address resumed →
      (if n = 0 ∧ 49 ≤ s'.priority t then { s' with ticks := s'.ticks + idleSignalTicks }
        else s').Listed ∧
      Signalled s (if n = 0 ∧ 49 ≤ s'.priority t then
        { s' with ticks := s'.ticks + idleSignalTicks } else s') a address resumed := by
    intro n s' resumed h₁ h₂
    split
    · exact ⟨⟨h₁.rest, h₁.idle, h₁.mem, h₁.nodup, h₁.callback, h₁.since, h₁.ordered⟩,
        ⟨h₂.ready, h₂.still, h₂.left, h₂.others, h₂.lists, h₂.priority, h₂.waitingSince⟩⟩
    · exact ⟨h₁, h₂⟩
  unfold ArbiterSystem.signal
  by_cases hvalue : value < 0
  · have hnodup : (s.matching address (s.waitingThreads a)).Nodup := (h.nodup a).filter _
    obtain ⟨h₁, h₂⟩ := h.resumeSome hnodup fun _ ht => ht
    have hall : (s.matching address (s.waitingThreads a)).filter
        (· ∉ s.matching address (s.waitingThreads a)) = [] := by
      refine List.filter_eq_nil_iff.2 fun t ht => ?_
      simpa using ht
    rw [hall, List.append_nil] at h₁ h₂
    rw [if_pos hvalue]
    obtain ⟨h₃, h₄⟩ := hticks (s.resumeAllThreads a address).1 _ _ h₁ h₂
    exact ⟨_, h₃, h₄, if_pos hvalue ▸ rfl⟩
  · obtain ⟨resumed, h₁, h₂, h₃, -, h₅⟩ := h.resumeFirst a address value.toNat
    rw [if_neg hvalue]
    obtain ⟨h₆, h₇⟩ := hticks (ArbiterSystem.resumeFirst a address value.toNat s).1 _ _ h₁ h₂
    refine ⟨resumed, h₆, h₇, ?_⟩
    rw [if_neg hvalue]
    exact ⟨h₃, h₅⟩

theorem Listed.arbitrateAddress {s : ArbiterSystem} (h : s.Listed) {core t : Nat}
    (ht : s.kernel.runningThread core = some t) (a type address : Nat) (value nanoSeconds : Int) :
    (s.arbitrateAddress a t type address value nanoSeconds).2.Listed := by
  obtain ⟨-, -, hrun, -⟩ := h.rest.queued.runningThread ht
  have hnone : s.scheduled t = true → s.wakeupCallback t = some a := by
    intro hcon
    rw [h.idle t hrun] at hcon
    cases hcon
  -- a wait with a timeout leaves the callback of the arbiter
  have hprepare : ∀ s₁ : ArbiterSystem, s₁.scheduled = s.scheduled →
      s₁.wakeupCallback = s.wakeupCallback →
      (∀ u, u ≠ t → (s₁.prepareTimeout a t nanoSeconds).scheduled u = s.scheduled u) ∧
      (∀ u, u ≠ t → (s₁.prepareTimeout a t nanoSeconds).wakeupCallback u = s.wakeupCallback u) ∧
      (s₁.prepareTimeout a t nanoSeconds).wakeupCallback t = some a := by
    intro s₁ h₁ h₂
    unfold prepareTimeout wakeAfterDelay
    split
    · refine ⟨fun u _ => by rw [← h₁], fun u hu => ?_, ?_⟩
      · rw [← h₂]
        exact Function.update_of_ne hu _ _
      · exact Function.update_self t _ _
    · refine ⟨fun u hu => ?_, fun u hu => ?_, ?_⟩
      · rw [← h₁]
        exact Function.update_of_ne hu _ _
      · rw [← h₂]
        exact Function.update_of_ne hu _ _
      · exact Function.update_self t _ _
  have hframe : ∀ s₁ : ArbiterSystem,
      (s₁.prepareTimeout a t nanoSeconds).kernel = s₁.kernel ∧
      (s₁.prepareTimeout a t nanoSeconds).waitAddress = s₁.waitAddress ∧
      (s₁.prepareTimeout a t nanoSeconds).waitingThreads = s₁.waitingThreads ∧
      (s₁.prepareTimeout a t nanoSeconds).arbiterOf = s₁.arbiterOf ∧
      (s₁.prepareTimeout a t nanoSeconds).waitingSince = s₁.waitingSince ∧
      (s₁.prepareTimeout a t nanoSeconds).clock = s₁.clock := by
    intro s₁
    unfold prepareTimeout wakeAfterDelay
    split <;> exact ⟨rfl, rfl, rfl, rfl, rfl, rfl⟩
  unfold ArbiterSystem.arbitrateAddress
  split
  · obtain ⟨_, hlisted, -⟩ := h.signal a t address value
    exact hlisted
  · simp only
    split
    · exact h.waitThread ht rfl rfl rfl rfl rfl rfl (fun _ _ => rfl) (fun _ _ => rfl) hnone address
    · exact h
  · simp only
    split
    · obtain ⟨h₁, h₂, h₃⟩ := hprepare s rfl rfl
      obtain ⟨k₁, k₂, k₃, k₄, k₅, k₆⟩ := hframe s
      exact h.waitThread ht k₁ k₂ k₃ k₄ k₅ k₆ h₁ h₂ (fun _ => h₃) address
    · exact h
  · simp only
    split
    · have hkernel : (s.decrement address).kernel = s.kernel := rfl
      exact h.waitThread ht hkernel rfl rfl rfl rfl rfl (fun _ _ => rfl) (fun _ _ => rfl) hnone
        address
    · exact h
  · simp only
    split
    · obtain ⟨h₁, h₂, h₃⟩ := hprepare (s.decrement address) rfl rfl
      obtain ⟨k₁, k₂, k₃, k₄, k₅, k₆⟩ := hframe (s.decrement address)
      exact h.waitThread ht k₁ k₂ k₃ k₄ k₅ k₆ h₁ h₂ (fun _ => h₃) address
    · exact h
  · exact h

/-- The rest of the kernel goes on, and the lists stay. -/
theorem Listed.others_go_on {s s' : ArbiterSystem} (h : s.Listed) (hrest : s'.kernel.AtRest)
    (hleaves : Leaves s.kernel s'.kernel)
    (hidle : ∀ t, s'.status t = .running → s'.scheduled t = false)
    (hscheduled : ∀ t, s'.status t = .waitArb → s'.scheduled t = s.scheduled t)
    (hcallback : ∀ t, s'.status t = .waitArb → s'.wakeupCallback t = s.wakeupCallback t)
    (haddress : s'.waitAddress = s.waitAddress) (hlists : s'.waitingThreads = s.waitingThreads)
    (harbiter : s'.arbiterOf = s.arbiterOf) (hsince : s'.waitingSince = s.waitingSince)
    (hclock : s'.clock = s.clock) : s'.Listed := by
  have hstatus : ∀ t, s'.status t = .waitArb ↔ s.status t = .waitArb :=
    fun t => ⟨hleaves.only t, fun ht => (hleaves.sleeper t (h.rest.arbSleeper ht)).1⟩
  refine ⟨hrest, hidle, fun a t => ?_, fun a => ?_, fun t ht hs => ?_, fun t ht => ?_, fun a => ?_⟩
  · rw [hlists, hstatus, harbiter]
    exact h.mem a t
  · rw [hlists]
    exact h.nodup a
  · rw [hcallback t ht, harbiter]
    rw [hscheduled t ht] at hs
    exact h.callback t ((hstatus t).1 ht) hs
  · rw [hsince, hclock]
    exact h.since t ((hstatus t).1 ht)
  · rw [hlists, haddress, hsince]
    exact h.ordered a

theorem kernel_threadWakeupCallback (s : ArbiterSystem) (t : Nat) :
    (s.threadWakeupCallback t).kernel = s.kernel.threadWakeupCallback t := by
  unfold ArbiterSystem.threadWakeupCallback KernelSystem.threadWakeupCallback
  unfold ArbiterSystem.status
  cases hstatus : (s.kernel.threads t).status <;> simp [WaitsWithTimeout] <;> rfl

theorem runCallback_frame (s : ArbiterSystem) (t : Nat) :
    (s.runCallback t).scheduled = s.scheduled ∧
      (s.runCallback t).wakeupCallback = s.wakeupCallback ∧
      (s.runCallback t).waitAddress = s.waitAddress ∧
      (s.runCallback t).arbiterOf = s.arbiterOf ∧
      (s.runCallback t).waitingSince = s.waitingSince ∧
      (s.runCallback t).clock = s.clock := by
  unfold runCallback
  split <;> exact ⟨rfl, rfl, rfl, rfl, rfl, rfl⟩

/-- The state after a timeout, up to the list of the arbiter. -/
theorem threadWakeupCallback_frame (s : ArbiterSystem) (t : Nat) :
    (s.threadWakeupCallback t).scheduled = Function.update s.scheduled t false ∧
      (∀ u, u ≠ t → (s.threadWakeupCallback t).wakeupCallback u = s.wakeupCallback u) ∧
      (s.threadWakeupCallback t).waitAddress = s.waitAddress ∧
      (s.threadWakeupCallback t).arbiterOf = s.arbiterOf ∧
      (s.threadWakeupCallback t).waitingSince = s.waitingSince ∧
      (s.threadWakeupCallback t).clock = s.clock := by
  have hcallback : ∀ (s' : ArbiterSystem) (u : Nat), u ≠ t →
      (s'.resumeFromWait t).wakeupCallback u = s'.wakeupCallback u := by
    intro s' u hu
    unfold ArbiterSystem.resumeFromWait
    simp only
    split
    · rfl
    · exact Function.update_of_ne hu _ _
  obtain ⟨h₁, h₂, h₃, h₄, h₅, h₆⟩ := runCallback_frame (s.expire t) t
  unfold ArbiterSystem.threadWakeupCallback
  split
  · exact ⟨h₁, fun u hu => (hcallback _ u hu).trans (congrFun h₂ u), h₃, h₄, h₅, h₆⟩
  · exact ⟨rfl, fun u hu => hcallback _ u hu, rfl, rfl, rfl, rfl⟩

/-- The statuses after a timeout. -/
theorem status_threadWakeupCallback (s : ArbiterSystem) (t u : Nat) (hu : u ≠ t) :
    (s.threadWakeupCallback t).status u = s.status u := by
  unfold ArbiterSystem.threadWakeupCallback
  split
  · exact ((threads_resumeFromWait (s.kernel.leaveWaitObjects t) t u).2.2 hu).trans
      (threads_leaveWaitObjects s.kernel t u).1
  · exact (threads_resumeFromWait s.kernel t u).2.2 hu

theorem waitingThreads_timeout (s : ArbiterSystem) (t b : Nat) :
    (s.threadWakeupCallback t).waitingThreads b =
      if WaitsWithTimeout (s.status t) ∧ s.wakeupCallback t = some b then
        (s.waitingThreads b).filter (· ≠ t)
      else s.waitingThreads b := by
  unfold ArbiterSystem.threadWakeupCallback
  by_cases hwaits : WaitsWithTimeout (s.status t)
  · rw [if_pos hwaits]
    change ((s.expire t).runCallback t).waitingThreads b = _
    unfold runCallback
    split
    · rename_i a ha
      have ha' : s.wakeupCallback t = some a := ha
      rw [wakeUp, waitingThreads_setWaiting, ha']
      by_cases hb : b = a
      · rw [if_pos hb, if_pos ⟨hwaits, by rw [hb]⟩, hb]
        rfl
      · rw [if_neg hb, if_neg (fun hcon => hb (Option.some.inj hcon.2).symm)]
        rfl
    · rename_i hnone
      have hnone' : s.wakeupCallback t = none := hnone
      rw [hnone', if_neg (fun hcon => by cases hcon.2)]
      rfl
  · rw [if_neg hwaits, if_neg (fun hcon => hwaits hcon.1)]
    rfl

/-- A timeout takes the thread out of the list of the arbiter at which it waits. -/
theorem Listed.timeout {s : ArbiterSystem} (h : s.Listed) {t : Nat} (ht : s.scheduled t = true)
    (hthread : s.kernel.kind t = .thread) : (s.threadWakeupCallback t).Listed := by
  have hkernel := kernel_threadWakeupCallback s t
  obtain ⟨hscheduled, hcallback, haddress, harbiter, hsince, hclock⟩ :=
    threadWakeupCallback_frame s t
  have hrest : (s.threadWakeupCallback t).kernel.AtRest := by
    rw [hkernel]
    exact h.rest.threadWakeupCallback hthread
  have hscheduled' : ∀ u, (s.threadWakeupCallback t).scheduled u =
      if u = t then false else s.scheduled u := by
    intro u
    rw [hscheduled]
    exact Function.update_apply _ t false u
  by_cases harb : s.status t = .waitArb
  · have hfound := h.callback t harb ht
    have hlist := waitingThreads_timeout s t
    have hmem : t ∈ s.waitingThreads (s.arbiterOf t) := (h.mem _ t).2 ⟨harb, rfl⟩
    have hin : (s.threadWakeupCallback t).waitingThreads (s.arbiterOf t) =
        (s.waitingThreads (s.arbiterOf t)).filter (· ≠ t) := by
      rw [hlist, if_pos ⟨by simp [WaitsWithTimeout, harb], hfound⟩]
    have hready : (s.threadWakeupCallback t).status t = .ready := by
      have hstatus : ((s.kernel.leaveWaitObjects t).threads t).status = .waitArb :=
        (threads_leaveWaitObjects s.kernel t t).1.trans harb
      unfold ArbiterSystem.threadWakeupCallback
      rw [if_pos (by simp [WaitsWithTimeout, harb])]
      unfold ArbiterSystem.resumeFromWait ArbiterSystem.status KernelSystem.resumeFromWait
      simp only [hstatus]
      rw [KernelSystem.setStatus, threads_modifyThread, if_pos rfl]
    refine h.resumed (a := s.arbiterOf t) (fun u hu => by rwa [List.mem_singleton.1 hu]) hrest
      (fun u hu => by rwa [List.mem_singleton.1 hu])
      (fun u hu => status_threadWakeupCallback s t u (by simpa using hu)) (fun u hu => ?_)
      (fun u hu => hcallback u (by simpa using hu)) haddress harbiter hsince hclock
      (fun b hb => ?_) (fun u => ?_) ?_ ?_
    · rw [hscheduled'] at hu
      split at hu
      · cases hu
      · exact hu
    · rw [hlist, if_neg]
      rintro ⟨-, hcon⟩
      rw [hfound] at hcon
      exact hb (Option.some.inj hcon).symm
    · rw [hin, List.mem_filter]
      simp
    · rw [hin]
      exact (h.nodup _).filter _
    · rw [hin]
      exact (h.ordered _).sublist List.filter_sublist
  · have hleaves : Leaves s.kernel (s.threadWakeupCallback t).kernel := by
      have hstep : s.kernel.step (.threadWakeupCallback t) =
          some (s.kernel.threadWakeupCallback t) := if_pos hthread
      rw [hkernel]
      exact leaves_step h.rest hstep harb
    refine h.others_go_on hrest hleaves (fun u hu => ?_) (fun u hu => ?_) (fun u hu => ?_) haddress
      ?_ harbiter hsince hclock
    · rw [hscheduled']
      split
      · rfl
      · rename_i hut
        rw [status_threadWakeupCallback s t u hut] at hu
        exact h.idle u hu
    · have hut : u ≠ t := by
        rintro rfl
        exact harb (hleaves.only u hu)
      rw [hscheduled', if_neg hut]
    · have hut : u ≠ t := by
        rintro rfl
        exact harb (hleaves.only u hu)
      exact hcallback u hut
    · funext b
      rw [waitingThreads_timeout]
      split
      · refine List.filter_eq_self.2 fun u hu => ?_
        have hut : u ≠ t := by
          rintro rfl
          exact harb ((h.mem b u).1 hu).1
        simpa using hut
      · rfl

/-- The runs that are meant: no thread is stopped while it waits at an arbiter. -/
def Careful (s : ArbiterSystem) : ArbiterOp → Prop
  | .kernel (.stop t) _ => s.status t ≠ .waitArb
  | _ => True

theorem Listed.step {s s' : ArbiterSystem} (h : s.Listed) {op : ArbiterOp} (hop : s.Careful op)
    (hs : s.step op = some s') : s'.Listed := by
  cases op with
  | arbitrateAddress core a type address value nanoSeconds =>
    simp only [ArbiterSystem.step, Option.map_eq_some_iff] at hs
    obtain ⟨t, ht, rfl⟩ := hs
    exact h.arbitrateAddress ht a type address value nanoSeconds
  | timeout t =>
    simp only [ArbiterSystem.step] at hs
    split at hs
    · rename_i ht
      cases hs
      exact h.timeout ht.1 ht.2
    · cases hs
  | store address value =>
    cases hs
    exact ⟨h.rest, h.idle, h.mem, h.nodup, h.callback, h.since, h.ordered⟩
  | kernel op delay =>
    simp only [ArbiterSystem.step] at hs
    split at hs
    · cases hs
    · rename_i hforeign
      obtain ⟨k, hk, rfl⟩ := Option.map_eq_some_iff.1 hs
      have hspares : s.kernel.SparesArbiters op := by
        cases op with
        | suspend core status => exact hforeign
        | threadWakeupCallback t => exact absurd trivial hforeign
        | resumeFromWait t => exact hforeign
        | stop t => exact hop
        | _ => trivial
      have hleaves := leaves_step h.rest hk hspares
      refine h.others_go_on (atRest_step h.rest op hk) hleaves (fun t ht => ?_)
        (fun t ht => ?_) (fun t ht => ?_) rfl rfl rfl rfl rfl
      · exact if_pos (Or.inl ht)
      · have hold : s.status t = .waitArb := hleaves.only t ht
        have hnew : (k.threads t).status = .waitArb := ht
        simp [afterKernel, hold, hnew]
      · have hold : s.status t = .waitArb := hleaves.only t ht
        have hnew : (k.threads t).status = .waitArb := ht
        simp [afterKernel, hold, hnew]

/-- The states that such operations lead to. -/
inductive CarefullyReachable : ArbiterSystem → Prop
  | initial : CarefullyReachable initial
  | step {s s' : ArbiterSystem} (op : ArbiterOp) (h : CarefullyReachable s) (hc : s.Careful op)
      (hs : s.step op = some s') : CarefullyReachable s'

theorem listed_reachable {s : ArbiterSystem} (h : s.CarefullyReachable) : s.Listed := by
  induction h with
  | initial => exact listed_initial
  | step op _ hc hs ih => exact ih.step hc hs

/-- **The waiting lists of the arbiters.**  In every run in which no thread is stopped while it
waits at an arbiter, the list of an arbiter holds the threads that wait at it, each once.  A
signal resumes all threads of its address, or as many of them as it says and in their turn; the
others stay as they are, and those of one address in their order. -/
theorem arbiter_lists {s : ArbiterSystem} (h : s.CarefullyReachable) :
    (∀ a t, t ∈ s.waitingThreads a ↔ s.status t = .waitArb ∧ s.arbiterOf t = a) ∧
      (∀ a, (s.waitingThreads a).Nodup) ∧
      ∀ a t address value nanoSeconds, ∃ resumed,
        Signalled s (s.arbitrateAddress a t 0 address value nanoSeconds).2 a address resumed ∧
          if value < 0 then resumed = s.matching address (s.waitingThreads a)
          else
            resumed.length = min value.toNat (s.matching address (s.waitingThreads a)).length ∧
              s.InTurn (s.matching address (s.waitingThreads a)) resumed := by
  have hlisted := listed_reachable h
  refine ⟨hlisted.mem, hlisted.nodup, fun a t address value nanoSeconds => ?_⟩
  obtain ⟨resumed, -, h₁, h₂⟩ := hlisted.signal a t address value
  exact ⟨resumed, h₁, h₂⟩

/-- Four threads, each on a core of its own. -/
def fourThreads : List ArbiterOp :=
  [.createThread 1 50 0 true, .createThread 2 40 1 true, .createThread 3 30 2 true,
    .createThread 4 20 3 true, .reschedule 0, .reschedule 1, .reschedule 2, .reschedule 3].map
      fun op => .kernel op false

/-- Two of them wait on the address 8, and then a third on the address 12. -/
def threeWaiters : List ArbiterOp :=
  fourThreads ++ [.arbitrateAddress 0 7 1 8 1 0, .arbitrateAddress 1 7 3 8 1 1000,
    .arbitrateAddress 2 7 1 12 1 0]

theorem carefullyReachable_run {s s' : ArbiterSystem} (h : s.CarefullyReachable)
    {ops : List ArbiterOp} (hops : ∀ op ∈ ops, ∀ s : ArbiterSystem, s.Careful op)
    (hs : s.run ops = some s') : s'.CarefullyReachable := by
  induction ops generalizing s with
  | nil =>
    cases hs
    exact h
  | cons op ops ih =>
    obtain ⟨s₁, h₁, h₂⟩ := Option.bind_eq_some_iff.1 hs
    exact ih (h.step op (hops op (List.mem_cons_self ..) s) h₁)
      (fun op' hop' => hops op' (List.mem_cons_of_mem op hop')) h₂

theorem arbiter_lists_three :
    ∃ s, initial.run threeWaiters = some s ∧ s.waitingThreads 7 = [1, 2, 3] ∧
      ∃ resumed, Signalled s (s.arbitrateAddress 7 4 0 8 1 0).2 7 8 resumed ∧
        resumed.length = 1 := by
  obtain ⟨s, hs⟩ := Option.isSome_iff_exists.1
    (show (initial.run threeWaiters).isSome = true by decide +kernel)
  have hstate : (initial.run threeWaiters).map (fun s =>
      (s.waitingThreads 7, (s.matching 8 (s.waitingThreads 7)).length)) =
      some ([1, 2, 3], 2) := by decide +kernel
  rw [hs] at hstate
  simp only [Option.map_some, Option.some.injEq, Prod.mk.injEq] at hstate
  have hcareful : ∀ op ∈ threeWaiters, ∀ s : ArbiterSystem, s.Careful op := by
    simp [threeWaiters, fourThreads, Careful]
  obtain ⟨resumed, h₁, h₂⟩ := (arbiter_lists
    (carefullyReachable_run .initial hcareful hs)).2.2 7 4 8 1 0
  rw [if_neg (by decide), hstate.2] at h₂
  exact ⟨s, hs, hstate.1, resumed, h₁, h₂.1⟩

/-- A thread that is stopped while it waits stays in the list; and a signal that wakes the second
of two threads on its address moves the first behind a thread on another address. -/
theorem arbiter_list_reordered :
    (¬ ∀ s : ArbiterSystem, s.Reachable →
      ∀ a t, t ∈ s.waitingThreads a ↔ s.status t = .waitArb ∧ s.arbiterOf t = a) ∧
    ¬ ∀ s : ArbiterSystem, s.CarefullyReachable → ∀ core t, s.kernel.runningThread core = some t →
      ∀ a address value nanoSeconds,
        ((s.arbitrateAddress a t 0 address value nanoSeconds).2.waitingThreads a).Sublist
          (s.waitingThreads a) := by
  constructor
  · intro hall
    obtain ⟨s, hs⟩ := Option.isSome_iff_exists.1
      (show (initial.run (threeWaiters ++ [.kernel (.stop 1) false])).isSome = true by
        decide +kernel)
    have hstate : (initial.run (threeWaiters ++ [.kernel (.stop 1) false])).map (fun s =>
        (decide (1 ∈ s.waitingThreads 7), s.status 1)) = some (true, .dead) := by decide +kernel
    rw [hs] at hstate
    simp only [Option.map_some, Option.some.injEq, Prod.mk.injEq, decide_eq_true_eq] at hstate
    have hwaits := ((hall s (Reachable.initial.run hs) 7 1).1 hstate.1).1
    rw [hstate.2] at hwaits
    cases hwaits
  · intro hall
    obtain ⟨s, hs⟩ := Option.isSome_iff_exists.1
      (show (initial.run threeWaiters).isSome = true by decide +kernel)
    have hstate : (initial.run threeWaiters).map (fun s => (s.kernel.runningThread 3,
        s.waitingThreads 7, (s.arbitrateAddress 7 4 0 8 1 0).2.waitingThreads 7)) =
        some (some 4, [1, 2, 3], [3, 1]) := by decide +kernel
    rw [hs] at hstate
    simp only [Option.map_some, Option.some.injEq, Prod.mk.injEq] at hstate
    obtain ⟨hrun, hbefore, hafter⟩ := hstate
    have hcareful : ∀ op ∈ threeWaiters, ∀ s : ArbiterSystem, s.Careful op := by
      simp [threeWaiters, fourThreads, Careful]
    have hsublist := hall s (carefullyReachable_run .initial hcareful hs) 3 4 hrun 7 8 1 0
    rw [hbefore, hafter] at hsublist
    exact absurd hsublist (by decide)

end ArbiterSystem
end AzaharPlus.Kernel
