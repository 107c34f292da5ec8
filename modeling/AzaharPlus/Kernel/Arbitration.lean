import AzaharPlus.Kernel.Wakeups
import Mathlib.Data.List.MinMax

/-!
# Address arbiters

`address_arbiter.cpp` over the threads of the kernel: an arbiter keeps a list of the threads that
wait at it, each for an address, and `ArbitrateAddress` signals an address or waits for it.  What
a thread has beside its record is its wakeup callback, if that is the one of an arbiter, and
whether a wakeup event is outstanding for it.

Any number is the name of an arbiter.  `Thread::Stop` says nothing to an arbiter, and so a thread
that is stopped while it waits stays in the list.  A failing assertion stops the emulator; the
model goes on after it.
-/

namespace AzaharPlus.Kernel

open KernelSystem

inductive ArbitrationType where
  | signal
  | waitIfLessThan
  | decrementAndWaitIfLessThan
  | waitIfLessThanWithTimeout
  | decrementAndWaitIfLessThanWithTimeout
  deriving DecidableEq, Repr

/-- The cast of the argument of the system call. -/
def arbitrationType : Nat → Option ArbitrationType
  | 0 => some .signal
  | 1 => some .waitIfLessThan
  | 2 => some .decrementAndWaitIfLessThan
  | 3 => some .waitIfLessThanWithTimeout
  | 4 => some .decrementAndWaitIfLessThanWithTimeout
  | _ => none

inductive ArbitrationResult where
  | success
  | timeout
  | invalidEnumValue
  deriving DecidableEq, Repr

/-- The ticks of a signal that wakes nobody. -/
def idleSignalTicks : Nat := 1614

structure ArbiterSystem where
  kernel : KernelSystem
  /-- The words of the memory, as signed numbers. -/
  memory : Nat → Int
  waitAddress : Nat → Nat
  /-- Threads waiting for each arbiter to be signaled. -/
  waitingThreads : Nat → List Nat
  /-- The arbiter whose timeout callback is the wakeup callback of a thread. -/
  wakeupCallback : Nat → Option Nat
  /-- A wakeup event is outstanding for the thread. -/
  scheduled : Nat → Bool
  /-- The ticks that were added to the timer. -/
  ticks : Nat
  /-- The arbiter at which a thread waited last, and when; only the statements read these. -/
  arbiterOf : Nat → Nat
  waitingSince : Nat → Nat
  clock : Nat

namespace ArbiterSystem

def initial : ArbiterSystem where
  kernel := .initial
  memory _ := 0
  waitAddress _ := 0
  waitingThreads _ := []
  wakeupCallback _ := none
  scheduled _ := false
  ticks := 0
  arbiterOf _ := 0
  waitingSince _ := 0
  clock := 0

def setWaiting (s : ArbiterSystem) (a : Nat) (l : List Nat) : ArbiterSystem :=
  { s with waitingThreads := Function.update s.waitingThreads a l }

/-- The status of a thread. -/
def status (s : ArbiterSystem) (t : Nat) : ThreadStatus := (s.kernel.threads t).status

/-- The current priority of a thread. -/
def priority (s : ArbiterSystem) (t : Nat) : Nat := (s.kernel.threads t).currentPriority

/-! ## Waiting and waking -/

/-- `AddressArbiter::WaitThread` -/
def waitThread (s : ArbiterSystem) (a t address : Nat) : ArbiterSystem :=
  { s with
    kernel := s.kernel.setStatus t .waitArb
    waitAddress := Function.update s.waitAddress t address
    waitingThreads := Function.update s.waitingThreads a (s.waitingThreads a ++ [t])
    arbiterOf := Function.update s.arbiterOf t a
    waitingSince := Function.update s.waitingSince t s.clock
    clock := s.clock + 1 }

/-- `Thread::WakeAfterDelay` -/
def wakeAfterDelay (s : ArbiterSystem) (t : Nat) (nanoSeconds : Int) : ArbiterSystem :=
  if nanoSeconds = -1 then s else { s with scheduled := Function.update s.scheduled t true }

/-- The two lines in front of a wait that may time out. -/
def prepareTimeout (s : ArbiterSystem) (a t : Nat) (nanoSeconds : Int) : ArbiterSystem :=
  { s with wakeupCallback := Function.update s.wakeupCallback t (some a) }.wakeAfterDelay t
    nanoSeconds

/-- The write of a wait that decrements. -/
def decrement (s : ArbiterSystem) (address : Nat) : ArbiterSystem :=
  { s with memory := Function.update s.memory address (addS32 (s.memory address) (-1)) }

/-- `Thread::ResumeFromWait`, which clears the callback of a thread that goes on. -/
def resumeFromWait (s : ArbiterSystem) (t : Nat) : ArbiterSystem :=
  { s with
    kernel := s.kernel.resumeFromWait t
    wakeupCallback :=
      if s.status t = .ready ∨ s.status t = .running ∨ s.status t = .dead then s.wakeupCallback
      else Function.update s.wakeupCallback t none }

/-- The threads in front of the point where `std::stable_partition` splits a list. -/
def others (s : ArbiterSystem) (address : Nat) (l : List Nat) : List Nat :=
  l.filter fun t => s.waitAddress t ≠ address

/-- The threads that wait on an address. -/
def matching (s : ArbiterSystem) (address : Nat) (l : List Nat) : List Nat :=
  l.filter fun t => s.waitAddress t = address

/-- `AddressArbiter::ResumeAllThreads` -/
def resumeAllThreads (s : ArbiterSystem) (a address : Nat) : Nat × ArbiterSystem :=
  ((s.matching address (s.waitingThreads a)).length,
    ((s.matching address (s.waitingThreads a)).foldl resumeFromWait s).setWaiting a
      (s.others address (s.waitingThreads a)))

/-- `AddressArbiter::ResumeHighestPriorityThread`.  The first of the threads with the best
priority is the one that `std::min_element` finds. -/
def resumeHighestPriorityThread (s : ArbiterSystem) (a address : Nat) : Bool × ArbiterSystem :=
  match (s.matching address (s.waitingThreads a)).argmin s.priority with
  | none =>
      (false, s.setWaiting a (s.others address (s.waitingThreads a) ++
        s.matching address (s.waitingThreads a)))
  | some t =>
      (true, (s.resumeFromWait t).setWaiting a (s.others address (s.waitingThreads a) ++
        (s.matching address (s.waitingThreads a)).erase t))

/-- The loop over the first threads, with the number of those that were there. -/
def resumeFirst (a address : Nat) : Nat → ArbiterSystem → Nat × ArbiterSystem
  | 0, s => (0, s)
  | n + 1, s =>
      let (found, s₁) := s.resumeHighestPriorityThread a address
      let (number, s₂) := resumeFirst a address n s₁
      (found.toNat + number, s₂)

/-- A signal by a thread: all threads for a negative value, or the first ones. -/
def signal (s : ArbiterSystem) (a t address : Nat) (value : Int) : ArbiterSystem :=
  let (number, s₁) :=
    if value < 0 then s.resumeAllThreads a address else resumeFirst a address value.toNat s
  if number = 0 ∧ 49 ≤ s₁.priority t then { s₁ with ticks := s₁.ticks + idleSignalTicks } else s₁

/-- `AddressArbiter::ArbitrateAddress` by a thread. -/
def arbitrateAddress (s : ArbiterSystem) (a t type address : Nat) (value nanoSeconds : Int) :
    ArbitrationResult × ArbiterSystem :=
  match arbitrationType type with
  | some .signal => (.success, s.signal a t address value)
  | some .waitIfLessThan =>
      (.success, if s.memory address < value then s.waitThread a t address else s)
  | some .waitIfLessThanWithTimeout =>
      (.timeout,
        if s.memory address < value then
          (s.prepareTimeout a t nanoSeconds).waitThread a t address
        else s)
  | some .decrementAndWaitIfLessThan =>
      (.success,
        if s.memory address < value then (s.decrement address).waitThread a t address else s)
  | some .decrementAndWaitIfLessThanWithTimeout =>
      (.timeout,
        if s.memory address < value then
          ((s.decrement address).prepareTimeout a t nanoSeconds).waitThread a t address
        else s)
  | none => (.invalidEnumValue, s)

/-- `AddressArbiter::WakeUp` -/
def wakeUp (s : ArbiterSystem) (a t : Nat) : ArbiterSystem :=
  s.setWaiting a ((s.waitingThreads a).filter (· ≠ t))

/-- The wakeup callback of a thread, if it is the one of an arbiter. -/
def runCallback (s : ArbiterSystem) (t : Nat) : ArbiterSystem :=
  match s.wakeupCallback t with
  | some a => s.wakeUp a t
  | none => s

/-- The event of a thread is taken off the queue. -/
def expire (s : ArbiterSystem) (t : Nat) : ArbiterSystem :=
  { s with scheduled := Function.update s.scheduled t false }

/-- The statuses in which a timeout reaches the callback and the wait objects of a thread. -/
def WaitsWithTimeout (status : ThreadStatus) : Prop :=
  status = .waitSynchAny ∨ status = .waitSynchAll ∨ status = .waitArb ∨ status = .waitHleEvent

instance (status : ThreadStatus) : Decidable (WaitsWithTimeout status) :=
  inferInstanceAs (Decidable (_ ∨ _))

/-- `ThreadManager::ThreadWakeupCallback` -/
def threadWakeupCallback (s : ArbiterSystem) (t : Nat) : ArbiterSystem :=
  if WaitsWithTimeout (s.status t) then
    { (s.expire t).runCallback t with
      kernel := s.kernel.leaveWaitObjects t }.resumeFromWait t
  else (s.expire t).resumeFromWait t

/-- What the other functions of the kernel leave: a thread that runs next or dies has no event
outstanding, and one that starts to wait has one if it asks for a delay; whoever changes its
status has no callback of an arbiter any more. -/
def afterKernel (s : ArbiterSystem) (kernel : KernelSystem) (delay : Bool) : ArbiterSystem :=
  { s with
    kernel := kernel
    wakeupCallback := fun t =>
      if (kernel.threads t).status = s.status t then s.wakeupCallback t else none
    scheduled := fun t =>
      if (kernel.threads t).status = .running ∨ (kernel.threads t).status = .dead then false
      else if s.status t = .running ∧ (kernel.threads t).status ≠ .ready then delay
      else s.scheduled t }

end ArbiterSystem

/-- What happens from one moment to the next. -/
inductive ArbiterOp where
  /-- The current thread of a core calls `ArbitrateAddress`. -/
  | arbitrateAddress (core arbiter type address : Nat) (value nanoSeconds : Int)
  /-- An outstanding wakeup event of a thread is due. -/
  | timeout (thread : Nat)
  /-- A program writes to the memory. -/
  | store (address : Nat) (value : Int)
  /-- Anything else in the kernel, with or without a delay for the thread that starts to wait. -/
  | kernel (op : KernelOp) (delay : Bool)

namespace ArbiterSystem

/-- The operations that are steps of their own here: only arbiters let threads wait at them, and
only they and timeouts resume these. -/
def Foreign (s : ArbiterSystem) : KernelOp → Prop
  | .suspend _ status => status = .waitArb
  | .threadWakeupCallback _ => True
  | .resumeFromWait t => s.status t = .waitArb
  | _ => False

instance (s : ArbiterSystem) (op : KernelOp) : Decidable (s.Foreign op) :=
  match op with
  | .suspend _ status => inferInstanceAs (Decidable (status = .waitArb))
  | .threadWakeupCallback _ => .isTrue trivial
  | .resumeFromWait t => inferInstanceAs (Decidable (s.status t = .waitArb))
  | .createThread .. | .createMutex .. | .createEvent .. | .createSemaphore .. | .createTimer ..
  | .waitSynchronization1 .. | .waitSynchronizationN .. | .sleepClientThread .. | .signal ..
  | .clear .. | .releaseSemaphore .. | .releaseMutex .. | .setThreadPriority .. | .setPriority ..
  | .boostPriority .. | .setCanSchedule .. | .stop .. | .exitCurrentThread .. | .reschedule .. =>
      .isFalse id

/-- One operation; `none` if it cannot happen in this state, or stops the emulator. -/
def step (s : ArbiterSystem) : ArbiterOp → Option ArbiterSystem
  | .arbitrateAddress core a type address value nanoSeconds =>
      (s.kernel.runningThread core).map fun t =>
        (s.arbitrateAddress a t type address value nanoSeconds).2
  | .timeout t =>
      if s.scheduled t ∧ s.kernel.kind t = .thread then some (s.threadWakeupCallback t) else none
  | .store address value => some { s with memory := Function.update s.memory address value }
  | .kernel op delay =>
      if s.Foreign op then none else (s.kernel.step op).map fun k => s.afterKernel k delay

/-- Several operations, one after the other. -/
def run (s : ArbiterSystem) : List ArbiterOp → Option ArbiterSystem
  | [] => some s
  | op :: ops => (s.step op).bind fun s' => s'.run ops

/-- The states that some order of operations leads to. -/
inductive Reachable : ArbiterSystem → Prop
  | initial : Reachable initial
  | step {s s' : ArbiterSystem} (op : ArbiterOp) (h : Reachable s) (hs : s.step op = some s') :
      Reachable s'

theorem Reachable.run {s s' : ArbiterSystem} (h : s.Reachable) {ops : List ArbiterOp}
    (hs : s.run ops = some s') : s'.Reachable := by
  induction ops generalizing s with
  | nil =>
    cases hs
    exact h
  | cons op ops ih =>
    obtain ⟨s₁, h₁, h₂⟩ := Option.bind_eq_some_iff.1 hs
    exact ih (h.step op h₁) h₂

end ArbiterSystem
end AzaharPlus.Kernel
