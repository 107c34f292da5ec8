import AzaharPlus.Common.ThreadQueueList
import AzaharPlus.Lib.SortedSet

/-!
# Threads, wait objects and the scheduler

The threads of the kernel, the objects they wait for and the ready queue of each core, from
`thread.cpp`, `wait_object.cpp`, `mutex.cpp`, `event.cpp`, `semaphore.cpp`, `timer.cpp` and the
system calls of `svc.cpp` that change them.

Threads and objects are known by their addresses; a thread is an object too.  The address of a
new one comes with the operation that creates it and may be any that is not in use: the sets of
mutexes are ordered by address.  Handles, resource limits and the time at which a timeout comes
are left out: any thread may use any object, and a timeout may come at any time.  The lock count
of a mutex, an `int` in the source, does not overflow: it is a natural number.  A failing
assertion stops the emulator; the model goes on after it, with the one exception of the assertion
of `SwitchContext`.
-/

namespace AzaharPlus.Kernel

open Common

/-! ## Data -/

/-- The worst priority. -/
def threadPrioLowest : Nat := 63

/-- The greatest processor id that `CreateThread` lets pass. -/
def threadProcessorIdMax : Nat := 4

inductive ThreadStatus where
  | running
  | ready
  | waitArb
  | waitSleep
  | waitIPC
  | waitSynchAny
  | waitSynchAll
  | waitHleEvent
  | dormant
  | dead
  deriving DecidableEq, Repr

structure Thread where
  status : ThreadStatus
  coreId : Nat
  canSchedule : Bool
  /-- Nominal priority, as set by the emulated application. -/
  nominalPriority : Nat
  /-- Current priority, can be temporarily changed. -/
  currentPriority : Nat
  /-- Mutexes currently held by this thread, which will be released when it exits. -/
  heldMutexes : SortedSet Nat
  /-- Mutexes that this thread is currently waiting for. -/
  pendingMutexes : SortedSet Nat
  /-- Objects that the thread is waiting on, in the same order as they were passed. -/
  waitObjects : List Nat

/-- A thread record as `CreateThread` fills it. -/
def Thread.new (coreId priority : Nat) : Thread where
  status := .dormant
  coreId := coreId
  canSchedule := true
  nominalPriority := priority
  currentPriority := priority
  heldMutexes := .empty
  pendingMutexes := .empty
  waitObjects := []

inductive ResetType where
  | oneShot
  | sticky
  | pulse
  deriving DecidableEq, Repr

/-- What kind of object an address holds, with the fields of that kind. -/
inductive ObjectKind where
  | unused
  | thread
  | mutex (lockCount priority : Nat) (holdingThread : Option Nat)
  | event (resetType : ResetType) (signaled : Bool)
  | semaphore (maxCount availableCount : Int)
  | timer (resetType : ResetType) (signaled : Bool)
  deriving DecidableEq, Repr

/-- A ready queue, with one level for each priority. -/
abbrev ReadyQueue := ThreadQueueList Nat (threadPrioLowest + 1)

/-- The scheduler of one core. -/
structure ThreadManager where
  currentThread : Option Nat
  readyQueue : ReadyQueue

structure KernelSystem where
  threads : Nat → Thread
  kind : Nat → ObjectKind
  /-- Threads waiting for each object to become available. -/
  waitingThreads : Nat → List Nat
  managers : Nat → ThreadManager

namespace KernelSystem

/-- The kernel before anything was created. -/
def initial : KernelSystem where
  threads _ := Thread.new 0 0
  kind _ := .unused
  waitingThreads _ := []
  managers _ := { currentThread := none, readyQueue := .empty }

def modifyThread (s : KernelSystem) (t : Nat) (f : Thread → Thread) : KernelSystem :=
  { s with threads := Function.update s.threads t (f (s.threads t)) }

def setStatus (s : KernelSystem) (t : Nat) (status : ThreadStatus) : KernelSystem :=
  s.modifyThread t fun th => { th with status := status }

def setKind (s : KernelSystem) (o : Nat) (k : ObjectKind) : KernelSystem :=
  { s with kind := Function.update s.kind o k }

def setWaitingThreads (s : KernelSystem) (o : Nat) (l : List Nat) : KernelSystem :=
  { s with waitingThreads := Function.update s.waitingThreads o l }

def modifyManager (s : KernelSystem) (core : Nat) (f : ThreadManager → ThreadManager) :
    KernelSystem :=
  { s with managers := Function.update s.managers core (f (s.managers core)) }

def modifyQueue (s : KernelSystem) (core : Nat) (f : ReadyQueue → ReadyQueue) : KernelSystem :=
  s.modifyManager core fun m => { m with readyQueue := f m.readyQueue }

/-- The ready queue of a core. -/
def queue (s : KernelSystem) (core : Nat) : ReadyQueue := (s.managers core).readyQueue

section Fields

variable (s : KernelSystem)

theorem threads_modifyThread (t : Nat) (f : Thread → Thread) (u : Nat) :
    (s.modifyThread t f).threads u = if u = t then f (s.threads u) else s.threads u := by
  by_cases h : u = t
  · subst h
    simp [modifyThread]
  · simp [modifyThread, h]

@[simp] theorem kind_modifyThread (t : Nat) (f : Thread → Thread) :
    (s.modifyThread t f).kind = s.kind := rfl

@[simp] theorem waitingThreads_modifyThread (t : Nat) (f : Thread → Thread) :
    (s.modifyThread t f).waitingThreads = s.waitingThreads := rfl

@[simp] theorem managers_modifyThread (t : Nat) (f : Thread → Thread) :
    (s.modifyThread t f).managers = s.managers := rfl

@[simp] theorem threads_setKind (o : Nat) (k : ObjectKind) :
    (s.setKind o k).threads = s.threads := rfl

theorem kind_setKind (o : Nat) (k : ObjectKind) (u : Nat) :
    (s.setKind o k).kind u = if u = o then k else s.kind u := by
  by_cases h : u = o
  · subst h
    simp [setKind]
  · simp [setKind, h]

@[simp] theorem waitingThreads_setKind (o : Nat) (k : ObjectKind) :
    (s.setKind o k).waitingThreads = s.waitingThreads := rfl

theorem waitingThreads_setWaitingThreads (o : Nat) (l : List Nat) (u : Nat) :
    (s.setWaitingThreads o l).waitingThreads u = if u = o then l else s.waitingThreads u := by
  by_cases h : u = o
  · subst h
    simp [setWaitingThreads]
  · simp [setWaitingThreads, h]

@[simp] theorem threads_modifyManager (core : Nat) (f : ThreadManager → ThreadManager) :
    (s.modifyManager core f).threads = s.threads := rfl

theorem managers_modifyManager (core : Nat) (f : ThreadManager → ThreadManager) (c : Nat) :
    (s.modifyManager core f).managers c = if c = core then f (s.managers c) else s.managers c := by
  by_cases h : c = core
  · subst h
    simp [modifyManager]
  · simp [modifyManager, h]

@[simp] theorem threads_modifyQueue (core : Nat) (f : ReadyQueue → ReadyQueue) :
    (s.modifyQueue core f).threads = s.threads := rfl

@[simp] theorem kind_modifyQueue (core : Nat) (f : ReadyQueue → ReadyQueue) :
    (s.modifyQueue core f).kind = s.kind := rfl

@[simp] theorem waitingThreads_modifyQueue (core : Nat) (f : ReadyQueue → ReadyQueue) :
    (s.modifyQueue core f).waitingThreads = s.waitingThreads := rfl

theorem queue_modifyQueue (core : Nat) (f : ReadyQueue → ReadyQueue) (c : Nat) :
    (s.modifyQueue core f).queue c = if c = core then f (s.queue c) else s.queue c := by
  rw [queue, modifyQueue, managers_modifyManager]
  split <;> rfl

@[simp] theorem currentThread_modifyQueue (core : Nat) (f : ReadyQueue → ReadyQueue) (c : Nat) :
    ((s.modifyQueue core f).managers c).currentThread = (s.managers c).currentThread := by
  rw [modifyQueue, managers_modifyManager]
  split <;> rfl

end Fields

/-! ## Priorities -/

/-- The part that `SetPriority` and `BoostPriority` share: a thread that is ready changes its
place in the queue, and the level of any other is prepared. -/
def adjustQueue (s : KernelSystem) (t priority : Nat) : KernelSystem :=
  s.modifyQueue (s.threads t).coreId fun q =>
    if (s.threads t).status = .ready then q.move t (s.threads t).currentPriority priority
    else q.prepare priority

/-- `Thread::BoostPriority` -/
def boostPriority (s : KernelSystem) (t priority : Nat) : KernelSystem :=
  (s.adjustQueue t priority).modifyThread t fun th => { th with currentPriority := priority }

/-- `Thread::SetPriority` -/
def setPriority (s : KernelSystem) (t priority : Nat) : KernelSystem :=
  (s.adjustQueue t priority).modifyThread t fun th =>
    { th with nominalPriority := priority, currentPriority := priority }

/-- The `priority` of a mutex. -/
def mutexPriority (s : KernelSystem) (m : Nat) : Nat :=
  match s.kind m with
  | .mutex _ priority _ => priority
  | _ => threadPrioLowest

/-- The loop of `Thread::UpdatePriority`. -/
def bestHeldPriority (s : KernelSystem) (t : Nat) : Nat :=
  (s.threads t).heldMutexes.toList.foldl
    (fun best m => if s.mutexPriority m < best then s.mutexPriority m else best)
    (s.threads t).nominalPriority

/-- The best of some priorities, as both loops find it. -/
theorem le_foldl_best {α : Type} (f : α → Nat) (l : List α) (start x : Nat) :
    x ≤ l.foldl (fun best a => if f a < best then f a else best) start ↔
      x ≤ start ∧ ∀ a ∈ l, x ≤ f a := by
  induction l generalizing start with
  | nil => simp
  | cons a l ih =>
    rw [List.foldl_cons, ih, List.forall_mem_cons]
    split
    · constructor
      · rintro ⟨h₁, h₂⟩
        exact ⟨by omega, h₁, h₂⟩
      · rintro ⟨-, h₁, h₂⟩
        exact ⟨h₁, h₂⟩
    · constructor
      · rintro ⟨h₁, h₂⟩
        exact ⟨h₁, by omega, h₂⟩
      · rintro ⟨h₁, -, h₂⟩
        exact ⟨h₁, h₂⟩

theorem le_bestHeldPriority (s : KernelSystem) (t x : Nat) :
    x ≤ s.bestHeldPriority t ↔
      x ≤ (s.threads t).nominalPriority ∧ ∀ m ∈ (s.threads t).heldMutexes, x ≤ s.mutexPriority m :=
  le_foldl_best _ _ _ x

theorem bestHeldPriority_le (s : KernelSystem) (t : Nat) :
    s.bestHeldPriority t ≤ (s.threads t).nominalPriority :=
  ((s.le_bestHeldPriority t _).1 (Nat.le_refl _)).1

/-- `Thread::UpdatePriority` -/
def updatePriority (s : KernelSystem) (t : Nat) : KernelSystem :=
  s.boostPriority t (s.bestHeldPriority t)

/-- The loop of `Mutex::UpdatePriority`. -/
def bestWaitingPriority (s : KernelSystem) (m : Nat) : Nat :=
  (s.waitingThreads m).foldl
    (fun best t =>
      if (s.threads t).currentPriority < best then (s.threads t).currentPriority else best)
    threadPrioLowest

theorem le_bestWaitingPriority (s : KernelSystem) (m x : Nat) :
    x ≤ s.bestWaitingPriority m ↔
      x ≤ threadPrioLowest ∧ ∀ t ∈ s.waitingThreads m, x ≤ (s.threads t).currentPriority :=
  le_foldl_best _ _ _ x

/-- `Mutex::UpdatePriority` -/
def mutexUpdatePriority (s : KernelSystem) (m : Nat) : KernelSystem :=
  match s.kind m with
  | .mutex lockCount priority (some holder) =>
      if s.bestWaitingPriority m ≠ priority then
        (s.setKind m (.mutex lockCount (s.bestWaitingPriority m) (some holder))).updatePriority
          holder
      else s
  | _ => s

/-! ## Waiting lists -/

/-- `WaitObject::AddWaitingThread` -/
def enterWaitingThreads (s : KernelSystem) (o t : Nat) : KernelSystem :=
  if t ∈ s.waitingThreads o then s else s.setWaitingThreads o (s.waitingThreads o ++ [t])

/-- `WaitObject::RemoveWaitingThread` -/
def leaveWaitingThreads (s : KernelSystem) (o t : Nat) : KernelSystem :=
  s.setWaitingThreads o ((s.waitingThreads o).erase t)

def addPending (s : KernelSystem) (t m : Nat) : KernelSystem :=
  s.modifyThread t fun th => { th with pendingMutexes := th.pendingMutexes.insert m }

def removePending (s : KernelSystem) (t m : Nat) : KernelSystem :=
  s.modifyThread t fun th => { th with pendingMutexes := th.pendingMutexes.erase m }

def addHeld (s : KernelSystem) (t m : Nat) : KernelSystem :=
  s.modifyThread t fun th => { th with heldMutexes := th.heldMutexes.insert m }

def removeHeld (s : KernelSystem) (t m : Nat) : KernelSystem :=
  s.modifyThread t fun th => { th with heldMutexes := th.heldMutexes.erase m }

def clearHeld (s : KernelSystem) (t : Nat) : KernelSystem :=
  s.modifyThread t fun th => { th with heldMutexes := .empty }

def setWaitObjects (s : KernelSystem) (t : Nat) (objects : List Nat) : KernelSystem :=
  s.modifyThread t fun th => { th with waitObjects := objects }

/-- `AddWaitingThread`, with the override of `Mutex`. -/
def addWaitingThread (s : KernelSystem) (o t : Nat) : KernelSystem :=
  match s.kind o with
  | .mutex .. => ((s.enterWaitingThreads o t).addPending t o).mutexUpdatePriority o
  | _ => s.enterWaitingThreads o t

/-- `RemoveWaitingThread`, with the override of `Mutex`. -/
def removeWaitingThread (s : KernelSystem) (o t : Nat) : KernelSystem :=
  match s.kind o with
  | .mutex .. => ((s.leaveWaitingThreads o t).removePending t o).mutexUpdatePriority o
  | _ => s.leaveWaitingThreads o t

/-- `ShouldWait` of each kind of object. -/
def shouldWait (s : KernelSystem) (o t : Nat) : Bool :=
  match s.kind o with
  | .unused => true
  | .thread => (s.threads o).status ≠ .dead
  | .mutex lockCount _ holder => 0 < lockCount ∧ holder ≠ some t
  | .event _ signaled => !signaled
  | .semaphore _ available => available ≤ 0
  | .timer _ signaled => !signaled

/-- `Acquire` of each kind of object.  Nothing between the two writes of a mutex reads its lock
count. -/
def acquire (s : KernelSystem) (o t : Nat) : KernelSystem :=
  match s.kind o with
  | .mutex 0 _ _ =>
      ((s.setKind o (.mutex 1 (s.threads t).currentPriority (some t))).addHeld t o).updatePriority t
  | .mutex (n + 1) priority holder => s.setKind o (.mutex (n + 2) priority holder)
  | .event .oneShot _ => s.setKind o (.event .oneShot false)
  | .semaphore maxCount available =>
      if available ≤ 0 then s else s.setKind o (.semaphore maxCount (available - 1))
  | .timer .oneShot _ => s.setKind o (.timer .oneShot false)
  | _ => s

/-- `Thread::ResumeFromWait` -/
def resumeFromWait (s : KernelSystem) (t : Nat) : KernelSystem :=
  match (s.threads t).status with
  | .ready | .running | .dead => s
  | _ =>
      (s.modifyQueue (s.threads t).coreId fun q =>
        q.pushBack (s.threads t).currentPriority t).setStatus t .ready

/-- The last condition of `GetHighestPriorityReadyThread`. -/
def readyToRun (s : KernelSystem) (t : Nat) : Bool :=
  (s.threads t).status ≠ .waitSynchAll ∨ ∀ o ∈ (s.threads t).waitObjects, s.shouldWait o t = false

/-- One turn of the loop of `GetHighestPriorityReadyThread`, on the candidate and its priority. -/
def considerThread (s : KernelSystem) (o : Nat) (candidate : Option Nat × Nat) (t : Nat) :
    Option Nat × Nat :=
  if candidate.2 ≤ (s.threads t).currentPriority then candidate
  else if s.shouldWait o t then candidate
  else if s.readyToRun t then (some t, (s.threads t).currentPriority)
  else candidate

/-- `WaitObject::GetHighestPriorityReadyThread` -/
def getHighestPriorityReadyThread (s : KernelSystem) (o : Nat) : Option Nat :=
  ((s.waitingThreads o).foldl (s.considerThread o) (none, threadPrioLowest + 1)).1

/-- A thread leaves all lists it waits in. -/
def leaveWaitObjects (s : KernelSystem) (t : Nat) : KernelSystem :=
  ((s.threads t).waitObjects.foldl (fun s o => s.removeWaitingThread o t) s).setWaitObjects t []

/-- A thread takes some objects, one after the other. -/
def acquireAll (s : KernelSystem) (objects : List Nat) (t : Nat) : KernelSystem :=
  objects.foldl (fun s o => s.acquire o t) s

/-- What a thread takes when it wakes up for an object: all it waits for, or that object. -/
def acquireFor (s : KernelSystem) (o t : Nat) : KernelSystem :=
  if (s.threads t).status = .waitSynchAll then s.acquireAll (s.threads t).waitObjects t
  else s.acquire o t

/-- The body of the loop of `WakeupAllWaitingThreads`. -/
def wakeupThread (s : KernelSystem) (o t : Nat) : KernelSystem :=
  ((s.acquireFor o t).leaveWaitObjects t).resumeFromWait t

/-- The loop of `WakeupAllWaitingThreads`, with one turn for each thread that waits. -/
def wakeupLoop (o : Nat) : Nat → KernelSystem → KernelSystem
  | 0, s => s
  | turns + 1, s =>
      match s.getHighestPriorityReadyThread o with
      | none => s
      | some t => wakeupLoop o turns (s.wakeupThread o t)

/-- The override of `WakeupAllWaitingThreads` by `Event` and `Timer`. -/
def endPulse (s : KernelSystem) (o : Nat) : KernelSystem :=
  match s.kind o with
  | .event .pulse _ => s.setKind o (.event .pulse false)
  | .timer .pulse _ => s.setKind o (.timer .pulse false)
  | _ => s

/-- `WakeupAllWaitingThreads` -/
def wakeupAllWaitingThreads (s : KernelSystem) (o : Nat) : KernelSystem :=
  (wakeupLoop o (s.waitingThreads o).length s).endPulse o

/-! ## Leaving mutexes, and threads that end -/

/-- One mutex of `ReleaseThreadMutexes`. -/
def freeMutex (s : KernelSystem) (m : Nat) : KernelSystem :=
  match s.kind m with
  | .mutex _ priority _ => (s.setKind m (.mutex 0 priority none)).wakeupAllWaitingThreads m
  | _ => s

/-- `ReleaseThreadMutexes` -/
def releaseThreadMutexes (s : KernelSystem) (t : Nat) : KernelSystem :=
  ((s.threads t).heldMutexes.toList.foldl freeMutex s).clearHeld t

/-- `Mutex::Release` by a thread. -/
def releaseMutex (s : KernelSystem) (m t : Nat) : KernelSystem :=
  match s.kind m with
  | .mutex (n + 1) priority (some holder) =>
      if holder ≠ t then s
      else if n ≠ 0 then s.setKind m (.mutex n priority (some holder))
      else
        ((((s.setKind m (.mutex 0 priority (some holder))).removeHeld t m).updatePriority t).setKind m
          (.mutex 0 priority none)).wakeupAllWaitingThreads m
  | _ => s

/-- The first part of `Thread::Stop`: the thread is in no queue any more, and dead. -/
def kill (s : KernelSystem) (t : Nat) : KernelSystem :=
  if (s.threads t).status = .ready then
    (s.modifyQueue (s.threads t).coreId fun q =>
      q.remove (s.threads t).currentPriority t).setStatus t .dead
  else s.setStatus t .dead

/-- `Thread::Stop` -/
def stop (s : KernelSystem) (t : Nat) : KernelSystem :=
  (((s.kill t).wakeupAllWaitingThreads t).leaveWaitObjects t).releaseThreadMutexes t

/-! ## The scheduler -/

/-- The current thread of a core, if it is running. -/
def runningThread (s : KernelSystem) (core : Nat) : Option Nat :=
  match (s.managers core).currentThread with
  | some t => if (s.threads t).status = .running then some t else none
  | none => none

/-- The number of threads in a queue, over all levels. -/
def queuedThreads (q : ReadyQueue) : Nat :=
  ((List.range (threadPrioLowest + 1)).map fun k => (q.data k).length).sum

/-- Both loops of `PopNextReadyThread`: threads that may not be scheduled are laid aside. -/
def popSchedulable (s : KernelSystem) (pop : ReadyQueue → Option (Option Nat × ReadyQueue)) :
    Nat → ReadyQueue → List Nat → Option (Option Nat × ReadyQueue × List Nat)
  | 0, _, _ => none
  | turns + 1, q, unscheduled =>
      match pop q with
      | none => none
      | some (none, q') => some (none, q', unscheduled)
      | some (some t, q') =>
          if (s.threads t).canSchedule then some (some t, q', unscheduled)
          else s.popSchedulable pop turns q' (unscheduled ++ [t])

/-- The last loop of `PopNextReadyThread`, which takes the threads laid aside from the back. -/
def putBack (s : KernelSystem) (q : ReadyQueue) (unscheduled : List Nat) : ReadyQueue :=
  unscheduled.reverse.foldl (fun q t => q.pushBack (s.threads t).currentPriority t) q

/-- `ThreadManager::PopNextReadyThread`; `none` if the queue dereferences a bad pointer. -/
def popNextReadyThread (s : KernelSystem) (core : Nat) : Option (Option Nat × ReadyQueue) :=
  let q := (s.managers core).readyQueue
  match s.runningThread core with
  | some thread =>
      (s.popSchedulable (·.popFirstBetter (s.threads thread).currentPriority)
        (queuedThreads q + 1) q []).map fun r => (some (r.1.getD thread), s.putBack r.2.1 r.2.2)
  | none =>
      (s.popSchedulable (·.popFirst) (queuedThreads q + 1) q []).map fun r =>
        (r.1, s.putBack r.2.1 r.2.2)

/-- The first half of `SwitchContext`: the thread that was running goes to the front of its
level. -/
def suspendPrevious (s : KernelSystem) (core : Nat) : KernelSystem :=
  match s.runningThread core with
  | some t =>
      (s.modifyQueue core fun q => q.pushFront (s.threads t).currentPriority t).setStatus t .ready
  | none => s

/-- The second half of `SwitchContext`; `none` if the assertion on the new thread fails. -/
def loadContext (s : KernelSystem) (core : Nat) : Option Nat → Option KernelSystem
  | some t =>
      if (s.threads t).status = .ready then
        some ((s.modifyManager core fun m =>
          { currentThread := some t
            readyQueue := m.readyQueue.remove (s.threads t).currentPriority t }).setStatus t
              .running)
      else none
  | none => some (s.modifyManager core fun m => { m with currentThread := none })

/-- `ThreadManager::SwitchContext` -/
def switchContext (s : KernelSystem) (core : Nat) (newThread : Option Nat) :
    Option KernelSystem :=
  (s.suspendPrevious core).loadContext core newThread

/-- `ThreadManager::Reschedule` -/
def reschedule (s : KernelSystem) (core : Nat) : Option KernelSystem :=
  match s.popNextReadyThread core with
  | none => none
  | some (next, q) =>
      if (s.managers core).currentThread = none ∧ next = none then
        some (s.modifyQueue core fun _ => q)
      else (s.modifyQueue core fun _ => q).switchContext core next

/-! ## System calls and callbacks -/

/-- The part of `CreateThread` that fills the record of the thread. -/
def enrolThread (s : KernelSystem) (address priority processorId : Nat) : KernelSystem :=
  ((s.modifyQueue processorId fun q => q.prepare priority).setKind address .thread).modifyThread
    address fun _ => Thread.new processorId priority

/-- `KernelSystem::CreateThread`.  A thread whose local storage cannot be allocated stays dormant,
as one that is not to be made ready. -/
def createThread (s : KernelSystem) (address priority processorId : Nat) (makeReady : Bool) :
    KernelSystem :=
  if threadPrioLowest < priority ∨ threadProcessorIdMax < processorId then s
  else if makeReady then
    ((s.enrolThread address priority processorId).modifyQueue processorId fun q =>
      q.pushBack priority address).setStatus address .ready
  else s.enrolThread address priority processorId

/-- A thread starts to wait for some objects. -/
def waitFor (s : KernelSystem) (t : Nat) (objects : List Nat) (status : ThreadStatus) :
    KernelSystem :=
  (objects.foldl (fun s o => s.addWaitingThread o t) (s.setStatus t status)).setWaitObjects t
    objects

/-- `SVC::WaitSynchronization1` by a thread. -/
def waitSynchronization1 (s : KernelSystem) (t object : Nat) (nanoSeconds : Int) : KernelSystem :=
  if s.shouldWait object t then
    if nanoSeconds = 0 then s else s.waitFor t [object] .waitSynchAny
  else s.acquire object t

/-- `SVC::WaitSynchronizationN` by a thread. -/
def waitSynchronizationN (s : KernelSystem) (t : Nat) (objects : List Nat) (waitAll : Bool)
    (nanoSeconds : Int) : KernelSystem :=
  if waitAll then
    if ∀ o ∈ objects, s.shouldWait o t = false then s.acquireAll objects t
    else if nanoSeconds = 0 then s
    else s.waitFor t objects .waitSynchAll
  else
    match objects.find? fun o => !s.shouldWait o t with
    | some o => s.acquire o t
    | none => if nanoSeconds = 0 then s else s.waitFor t objects .waitSynchAny

/-- `ThreadManager::ThreadWakeupCallback` -/
def threadWakeupCallback (s : KernelSystem) (t : Nat) : KernelSystem :=
  match (s.threads t).status with
  | .waitSynchAny | .waitSynchAll | .waitArb | .waitHleEvent =>
      (s.leaveWaitObjects t).resumeFromWait t
  | _ => s.resumeFromWait t

/-- The loop of `SVC::SetThreadPriority`. -/
def updatePendingMutexes (s : KernelSystem) (t : Nat) : KernelSystem :=
  (s.threads t).pendingMutexes.toList.foldl mutexUpdatePriority s

/-- `SVC::SetThreadPriority` -/
def setThreadPriority (s : KernelSystem) (t priority : Nat) : KernelSystem :=
  if threadPrioLowest < priority then s
  else
    ((s.setPriority t priority).updatePriority t).updatePendingMutexes t

/-- `Event::Signal`, and `Timer::Signal` up to its next alarm. -/
def signal (s : KernelSystem) (o : Nat) : KernelSystem :=
  match s.kind o with
  | .event resetType _ => (s.setKind o (.event resetType true)).wakeupAllWaitingThreads o
  | .timer resetType _ => (s.setKind o (.timer resetType true)).wakeupAllWaitingThreads o
  | _ => s

/-- `Event::Clear` and `Timer::Clear` -/
def clear (s : KernelSystem) (o : Nat) : KernelSystem :=
  match s.kind o with
  | .event resetType _ => s.setKind o (.event resetType false)
  | .timer resetType _ => s.setKind o (.timer resetType false)
  | _ => s

/-- The sum of two signed 32-bit numbers, which wraps around. -/
def addS32 (a b : Int) : Int := (a + b).bmod (2 ^ 32)

/-- `Semaphore::Release` -/
def releaseSemaphore (s : KernelSystem) (o : Nat) (releaseCount : Int) : KernelSystem :=
  match s.kind o with
  | .semaphore maxCount available =>
      if maxCount < addS32 releaseCount available then s
      else
        (s.setKind o (.semaphore maxCount (addS32 available releaseCount))).wakeupAllWaitingThreads o
  | _ => s

end KernelSystem

/-- What happens in the kernel from one moment to the next.  A system call comes from the current
thread of a core. -/
inductive KernelOp where
  | createThread (address priority processorId : Nat) (makeReady : Bool)
  | createMutex (core address : Nat) (initialLocked : Bool)
  | createEvent (address : Nat) (resetType : ResetType)
  | createSemaphore (address : Nat) (initialCount maxCount : Int)
  | createTimer (address : Nat) (resetType : ResetType)
  | waitSynchronization1 (core object : Nat) (nanoSeconds : Int)
  | waitSynchronizationN (core : Nat) (objects : List Nat) (waitAll : Bool) (nanoSeconds : Int)
  /-- The current thread sleeps, waits for the answer to a request or at an address arbiter. -/
  | suspend (core : Nat) (status : ThreadStatus)
  /-- An HLE handler lets the current thread wait for an event of its own. -/
  | sleepClientThread (core address : Nat)
  | signal (object : Nat)
  | clear (object : Nat)
  | releaseSemaphore (object : Nat) (releaseCount : Int)
  | releaseMutex (core object : Nat)
  | threadWakeupCallback (thread : Nat)
  | resumeFromWait (thread : Nat)
  | setThreadPriority (thread priority : Nat)
  | setPriority (thread priority : Nat)
  | boostPriority (thread priority : Nat)
  | setCanSchedule (thread : Nat) (canSchedule : Bool)
  /-- A thread of the thread list is stopped; a dead one is not in the list any more. -/
  | stop (thread : Nat)
  | exitCurrentThread (core : Nat)
  | reschedule (core : Nat)

namespace KernelSystem

/-- A new object at an address that is not in use. -/
def createObject (s : KernelSystem) (address : Nat) (k : ObjectKind) : Option KernelSystem :=
  if s.kind address = .unused then some (s.setKind address k) else none

/-- An operation on a thread. -/
def onThread (s : KernelSystem) (t : Nat) (f : KernelSystem → KernelSystem) :
    Option KernelSystem :=
  if s.kind t = .thread then some (f s) else none

theorem createObject_eq_some {s s' : KernelSystem} {address : Nat} {k : ObjectKind} :
    s.createObject address k = some s' ↔ s.kind address = .unused ∧ s.setKind address k = s' := by
  unfold createObject
  split
  · rename_i h
    simp [h]
  · rename_i h
    simp [h]

theorem onThread_eq_some {s s' : KernelSystem} {t : Nat} {f : KernelSystem → KernelSystem} :
    s.onThread t f = some s' ↔ s.kind t = .thread ∧ f s = s' := by
  unfold onThread
  split
  · rename_i h
    simp [h]
  · rename_i h
    simp [h]

/-- One operation; `none` if it cannot happen in this state, or stops the emulator. -/
def step (s : KernelSystem) : KernelOp → Option KernelSystem
  | .createThread address priority processorId makeReady =>
      if s.kind address = .unused then
        some (s.createThread address priority processorId makeReady)
      else none
  | .createMutex core address initialLocked =>
      (s.runningThread core).bind fun t =>
        (s.createObject address (.mutex 0 0 none)).map fun s =>
          if initialLocked then s.acquire address t else s
  | .createEvent address resetType => s.createObject address (.event resetType false)
  | .createSemaphore address initialCount maxCount =>
      if maxCount < initialCount then some s
      else s.createObject address (.semaphore maxCount initialCount)
  | .createTimer address resetType => s.createObject address (.timer resetType false)
  | .waitSynchronization1 core object nanoSeconds =>
      (s.runningThread core).bind fun t =>
        if s.kind object = .unused then none
        else some (s.waitSynchronization1 t object nanoSeconds)
  | .waitSynchronizationN core objects waitAll nanoSeconds =>
      (s.runningThread core).bind fun t =>
        if ∃ o ∈ objects, s.kind o = .unused then none
        else some (s.waitSynchronizationN t objects waitAll nanoSeconds)
  | .suspend core status =>
      (s.runningThread core).bind fun t =>
        if status = .waitSleep ∨ status = .waitIPC ∨ status = .waitArb then
          some (s.setStatus t status)
        else none
  | .sleepClientThread core address =>
      (s.runningThread core).bind fun t =>
        (s.createObject address (.event .oneShot false)).map fun s =>
          s.waitFor t [address] .waitHleEvent
  | .signal object => some (s.signal object)
  | .clear object => some (s.clear object)
  | .releaseSemaphore object releaseCount => some (s.releaseSemaphore object releaseCount)
  | .releaseMutex core object => (s.runningThread core).map fun t => s.releaseMutex object t
  | .threadWakeupCallback thread => s.onThread thread (·.threadWakeupCallback thread)
  | .resumeFromWait thread =>
      if (s.threads thread).waitObjects = [] then s.onThread thread (·.resumeFromWait thread)
      else none
  | .setThreadPriority thread priority => s.onThread thread (·.setThreadPriority thread priority)
  | .setPriority thread priority =>
      if priority ≤ threadPrioLowest then s.onThread thread (·.setPriority thread priority)
      else none
  | .boostPriority thread priority =>
      if priority ≤ threadPrioLowest then s.onThread thread (·.boostPriority thread priority)
      else none
  | .setCanSchedule thread canSchedule =>
      s.onThread thread (·.modifyThread thread fun th => { th with canSchedule := canSchedule })
  | .stop thread =>
      if (s.threads thread).status = .dead then none else s.onThread thread (·.stop thread)
  | .exitCurrentThread core => (s.runningThread core).map fun t => s.stop t
  | .reschedule core => s.reschedule core

/-- The states that some order of operations leads to. -/
inductive Reachable : KernelSystem → Prop
  | initial : Reachable initial
  | step {s s' : KernelSystem} (op : KernelOp) (h : Reachable s) (hs : s.step op = some s') :
      Reachable s'

/-- Several operations, one after the other. -/
def run (s : KernelSystem) : List KernelOp → Option KernelSystem
  | [] => some s
  | op :: ops => (s.step op).bind fun s' => s'.run ops

theorem Reachable.run {s s' : KernelSystem} (h : s.Reachable) {ops : List KernelOp}
    (hs : s.run ops = some s') : s'.Reachable := by
  induction ops generalizing s with
  | nil =>
    cases hs
    exact h
  | cons op ops ih =>
    obtain ⟨s₁, h₁, h₂⟩ := Option.bind_eq_some_iff.1 hs
    exact ih (h.step op h₁) h₂

end KernelSystem
end AzaharPlus.Kernel
