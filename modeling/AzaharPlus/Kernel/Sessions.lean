import AzaharPlus.Kernel.Threads
import AzaharPlus.Lib.Parties
import Mathlib.Tactic.Simps.Basic

/-!
# Sessions between processes

Ports, sessions and the requests that go through them, from `client_port.cpp`,
`server_port.cpp`, `client_session.cpp`, `server_session.cpp`, `wait_object.cpp` and the system
calls of `svc.cpp` that use them.

Any number of threads open sessions, send requests, accept, receive and reply in any order, close
their handles and die.  Ports, sessions and threads are known by their numbers.  A handle is one
count of its object, whatever process holds it.  The copies between the command buffers of the two
processes succeed (the source asserts it).

Left out are ports and sessions with an `hle_handler` of the emulator, whose requests come into no
list and are answered without a server thread, and waiting for all of several objects at once.

`trace` is a record of what happened to the requests, which the code does not keep.
-/

namespace AzaharPlus.Kernel.Sessions

/-! ## Data -/

/-- What a thread can wait for here. -/
inductive WaitObject where
  | serverPort (p : Nat)
  | serverSession (s : Nat)
  deriving DecidableEq, Repr

inductive Result where
  | success
  | timeout
  | sessionClosed
  | maxConnectionsReached
  | noPendingSessions
  | noReply
  deriving DecidableEq, Repr

structure Thread where
  status : ThreadStatus
  priority : Fin (threadPrioLowest + 1)
  /-- Objects that the thread is waiting on, in the same order as they were passed. -/
  waitObjects : List WaitObject
  /-- Whether the wakeup callback is the one of `ReplyAndReceive`. -/
  receives : Bool
  /-- What the thread finds in its first register. -/
  result : Result
  /-- What the thread finds in its second register after a wait. -/
  output : Int

structure Port where
  maxSessions : Nat
  activeSessions : Nat
  /-- Server ends waiting to be accepted, the next one last. -/
  pendingSessions : List Nat

/-- A session with its two ends. -/
structure Session where
  /-- The client end exists. -/
  client : Bool
  /-- The server end exists. -/
  server : Bool
  port : Option Nat
  clientHandles : Nat
  serverHandles : Nat
  /-- Threads that wait for a reply, the next one to be handled last. -/
  pendingRequestingThreads : List Nat
  currentlyHandling : Option Nat

/-- A session that was never created. -/
def Session.none : Session where
  client := false
  server := false
  port := .none
  clientHandles := 0
  serverHandles := 0
  pendingRequestingThreads := []
  currentlyHandling := .none

/-- What happens to the request of a client thread. -/
inductive Event where
  | sent (t s : Nat)
  /-- A server thread takes the request up. -/
  | taken (t s : Nat)
  | replied (t s : Nat)
  /-- One of the two ends of the session went away. -/
  | dropped (t s : Nat)
  deriving DecidableEq, Repr

/-- The client thread of an event. -/
def Event.client : Event → Nat
  | .sent t _ | .taken t _ | .replied t _ | .dropped t _ => t

/-- The session of an event. -/
def Event.session : Event → Nat
  | .sent _ s | .taken _ s | .replied _ s | .dropped _ s => s

structure System where
  threads : Nat → Thread
  waitingThreads : WaitObject → List Nat
  ports : Nat → Port
  portCount : Nat
  sessions : Nat → Session
  sessionCount : Nat
  trace : List Event

namespace System

/-- No port and no session; any threads, which all can run. -/
def initial (priority : Nat → Fin (threadPrioLowest + 1)) : System where
  threads t := ⟨.ready, priority t, [], false, .success, 0⟩
  waitingThreads _ := []
  ports _ := ⟨0, 0, []⟩
  portCount := 0
  sessions _ := .none
  sessionCount := 0
  trace := []

/-! ## Changes of one record -/

@[simps]
def modifyThread (σ : System) (t : Nat) (f : Thread → Thread) : System :=
  { σ with threads := Function.update σ.threads t (f (σ.threads t)) }

@[simps]
def modifyPort (σ : System) (p : Nat) (f : Port → Port) : System :=
  { σ with ports := Function.update σ.ports p (f (σ.ports p)) }

@[simps]
def modifySession (σ : System) (s : Nat) (f : Session → Session) : System :=
  { σ with sessions := Function.update σ.sessions s (f (σ.sessions s)) }

@[simps]
def setWaitingThreads (σ : System) (o : WaitObject) (l : List Nat) : System :=
  { σ with waitingThreads := Function.update σ.waitingThreads o l }

@[simps]
def emit (σ : System) (e : Event) : System :=
  { σ with trace := σ.trace ++ [e] }

/-- Leaves `r` and `i` in the registers of a thread. -/
def setResult (σ : System) (t : Nat) (r : Result) (i : Int) : System :=
  σ.modifyThread t fun th => { th with result := r, output := i }

/-! ## Waiting -/

/-- `ServerPort::ShouldWait` and `ServerSession::ShouldWait`. -/
def shouldWait (σ : System) : WaitObject → Bool
  | .serverPort p => (σ.ports p).pendingSessions.isEmpty
  | .serverSession s =>
    (σ.sessions s).client &&
      ((σ.sessions s).pendingRequestingThreads.isEmpty ||
        (σ.sessions s).currentlyHandling.isSome)

/-- `Acquire`: a server port stays as it is, a server session takes up its last request. -/
def acquire (σ : System) : WaitObject → System
  | .serverPort _ => σ
  | .serverSession s =>
    if (σ.sessions s).client then
      match (σ.sessions s).pendingRequestingThreads.getLast? with
      | none => σ
      | some t =>
        (σ.modifySession s fun ss => { ss with
          currentlyHandling := some t
          pendingRequestingThreads := ss.pendingRequestingThreads.dropLast }).emit (.taken t s)
    else σ

/-- `AddWaitingThread`. -/
def addWaitingThread (σ : System) (t : Nat) (o : WaitObject) : System :=
  if t ∈ σ.waitingThreads o then σ else σ.setWaitingThreads o (σ.waitingThreads o ++ [t])

/-- `RemoveWaitingThread`. -/
def removeWaitingThread (σ : System) (t : Nat) (o : WaitObject) : System :=
  σ.setWaitingThreads o ((σ.waitingThreads o).erase t)

/-- What the destructor of the server end does. -/
def destroyServer (σ : System) (s : Nat) : System :=
  let σ₁ := match (σ.sessions s).port with
    | none => σ
    | some p => σ.modifyPort p fun port => { port with activeSessions := port.activeSessions - 1 }
  let lost := (σ.sessions s).pendingRequestingThreads ++ (σ.sessions s).currentlyHandling.toList
  let σ₂ := σ₁.modifySession s fun ss =>
    { ss with server := false, pendingRequestingThreads := [], currentlyHandling := none }
  { σ₂ with trace := σ₂.trace ++ lost.map (Event.dropped · s) }

/-- A port still keeps the server end until somebody accepts it. -/
def isPending (σ : System) (s : Nat) : Bool :=
  match (σ.sessions s).port with
  | none => false
  | some p => s ∈ (σ.ports p).pendingSessions

/-- The server end goes away with its last reference: a handle, the list of its port, or a thread
that waits for it. -/
def releaseServer (σ : System) (s : Nat) : System :=
  if (σ.sessions s).server ∧ (σ.sessions s).serverHandles = 0 ∧ ¬ σ.isPending s ∧
      σ.waitingThreads (.serverSession s) = [] then σ.destroyServer s
  else σ

def releaseObject (σ : System) : WaitObject → System
  | .serverPort _ => σ
  | .serverSession s => σ.releaseServer s

/-- Takes a thread off the lists of all objects it waits for, and drops its references. -/
def clearWaitObjects (σ : System) (t : Nat) : System :=
  let objects := (σ.threads t).waitObjects
  let σ₁ := objects.foldl (fun σ o => σ.removeWaitingThread t o) σ
  let σ₂ := σ₁.modifyThread t fun th => { th with waitObjects := [] }
  objects.foldl releaseObject σ₂

/-- `Thread::ResumeFromWait`, where a thread that can run or is dead stays as it is. -/
def resumeFromWait (σ : System) (t : Nat) : System :=
  match (σ.threads t).status with
  | .ready | .running | .dead => σ
  | _ => σ.modifyThread t fun th => { th with status := .ready }

/-- `GetHighestPriorityReadyThread`, for threads that wait for any of their objects. -/
def getHighestPriorityReadyThread (σ : System) (o : WaitObject) : Option Nat :=
  let candidatePriority : Option Nat → Nat
    | none => threadPrioLowest + 1
    | some t => (σ.threads t).priority
  (σ.waitingThreads o).foldl (fun candidate t =>
    if candidatePriority candidate ≤ (σ.threads t).priority then candidate
    else if σ.shouldWait o then candidate
    else some t) none

/-- `ReceiveIPCRequest`, as far as the result tells. -/
def receiveResult (σ : System) : WaitObject → Result
  | .serverPort _ => .success
  | .serverSession s => if (σ.sessions s).client then .success else .sessionClosed

/-- `GetWaitObjectIndex`: the last place of the object among those the thread waits for. -/
def waitObjectIndex (σ : System) (t : Nat) (o : WaitObject) : Int :=
  let objects := (σ.threads t).waitObjects
  (objects.length : Int) - objects.reverse.idxOf o - 1

/-- `SVC_IPCCallback::WakeUp` and `SVC_SyncCallback::WakeUp` for a signal. -/
def wakeupCallback (σ : System) (t : Nat) (o : WaitObject) : System :=
  let result := if (σ.threads t).receives then σ.receiveResult o else .success
  σ.setResult t result (σ.waitObjectIndex t o)

/-- One turn of the loop of `WakeupAllWaitingThreads`. -/
def wakeup (σ : System) (o : WaitObject) (t : Nat) : System :=
  ((((σ.acquire o).wakeupCallback t o).clearWaitObjects t)).resumeFromWait t

def wakeupLoop (o : WaitObject) : Nat → System → System
  | 0, σ => σ
  | fuel + 1, σ =>
    match σ.getHighestPriorityReadyThread o with
    | none => σ
    | some t => wakeupLoop o fuel (σ.wakeup o t)

/-- `WakeupAllWaitingThreads`: every turn takes one thread off the list. -/
def wakeupAllWaitingThreads (σ : System) (o : WaitObject) : System :=
  wakeupLoop o (σ.waitingThreads o).length σ

/-! ## System calls -/

/-- What the destructor of the client end does. -/
def destroyClient (σ : System) (s : Nat) : System :=
  if (σ.sessions s).server then
    let lost := (σ.sessions s).pendingRequestingThreads ++ (σ.sessions s).currentlyHandling.toList
    let σ₁ := σ.modifySession s fun ss =>
      { ss with client := false, pendingRequestingThreads := [], currentlyHandling := none }
    let σ₂ := { σ₁ with trace := σ₁.trace ++ lost.map (Event.dropped · s) }
    σ₂.wakeupAllWaitingThreads (.serverSession s)
  else σ.modifySession s fun ss => { ss with client := false }

def createPort (σ : System) (maxSessions : Nat) : System :=
  { σ with
    ports := Function.update σ.ports σ.portCount ⟨maxSessions, 0, []⟩
    portCount := σ.portCount + 1 }

/-- `CreateSessionPair` with one handle for the client end. -/
def createSessionPair (σ : System) (port : Option Nat) (serverHandles : Nat) : System :=
  { σ with
    sessions := Function.update σ.sessions σ.sessionCount
      ⟨true, true, port, 1, serverHandles, [], none⟩
    sessionCount := σ.sessionCount + 1 }

/-- A new session, whose server end the port keeps. -/
def addPending (σ : System) (p : Nat) : System :=
  (σ.createSessionPair (some p) 0).modifyPort p fun port => { port with
    activeSessions := port.activeSessions + 1
    pendingSessions := port.pendingSessions ++ [σ.sessionCount] }

/-- `ClientPort::Connect`. -/
def connect (σ : System) (t p : Nat) : System :=
  if (σ.ports p).activeSessions < (σ.ports p).maxSessions then
    ((σ.addPending p).setResult t .success σ.sessionCount).wakeupAllWaitingThreads (.serverPort p)
  else σ.setResult t .maxConnectionsReached 0

/-- The last server end that the port keeps leaves its list for a handle. -/
def takePending (σ : System) (p s : Nat) : System :=
  (σ.modifyPort p fun port => { port with pendingSessions := port.pendingSessions.dropLast })
    |>.modifySession s fun ss => { ss with serverHandles := ss.serverHandles + 1 }

/-- `ServerPort::Accept`. -/
def accept (σ : System) (t p : Nat) : System :=
  match (σ.ports p).pendingSessions.getLast? with
  | none => σ.setResult t .noPendingSessions 0
  | some s => (σ.takePending p s).setResult t .success s

/-- `ClientSession::SendSyncRequest` and `ServerSession::HandleSyncRequest`. -/
def sendSyncRequest (σ : System) (t s : Nat) : System :=
  if (σ.sessions s).server then
    let σ₁ := (σ.setResult t .success 0).modifyThread t fun th => { th with status := .waitIPC }
    let σ₂ := (σ₁.modifySession s fun ss =>
      { ss with pendingRequestingThreads := ss.pendingRequestingThreads ++ [t] }).emit (.sent t s)
    σ₂.wakeupAllWaitingThreads (.serverSession s)
  else σ.setResult t .sessionClosed 0

/-- The status of a thread that waits for any of some objects. -/
def setWaiting (σ : System) (t : Nat) (objects : List WaitObject) (receives : Bool)
    (result : Result) : System :=
  σ.modifyThread t fun th => { th with
    status := .waitSynchAny
    waitObjects := objects
    receives := receives
    result := result
    output := -1 }

/-- The sleeping branch of the waiting system calls. -/
def sleep (σ : System) (t : Nat) (objects : List WaitObject) (receives : Bool) (result : Result) :
    System :=
  objects.foldl (fun σ o => σ.addWaitingThread t o) (σ.setWaiting t objects receives result)

/-- Takes the first object that is ready. -/
def takeReady (σ : System) (t : Nat) (objects : List WaitObject) (receives : Bool)
    (o : WaitObject) : System :=
  let σ₁ := σ.acquire o
  σ₁.setResult t (if receives then σ₁.receiveResult o else .success) (objects.idxOf o)

/-- `WaitSynchronizationN` for any of the objects; `poll` is a timeout of zero. -/
def waitSynchronization (σ : System) (t : Nat) (objects : List WaitObject) (poll : Bool) : System :=
  match objects.find? fun o => !σ.shouldWait o with
  | some o => σ.takeReady t objects false o
  | none => if poll then σ.setResult t .timeout 0 else σ.sleep t objects false .timeout

/-- The second half of `ReplyAndReceive`. -/
def receive (σ : System) (t : Nat) (objects : List WaitObject) (replied : Bool) : System :=
  if objects = [] then σ.setResult t (if replied then .success else .noReply) 0
  else
    match objects.find? fun o => !σ.shouldWait o with
    | some o => σ.takeReady t objects true o
    | none => σ.sleep t objects true .success

/-- The request that a session handles ends with `e`. -/
@[simps!]
def finish (σ : System) (s : Nat) (e : Event) : System :=
  (σ.modifySession s fun ss => { ss with currentlyHandling := none }).emit e

/-- `ReplyAndReceive`; no reply stands for a null handle or the command 0xFFFF. -/
def replyAndReceive (σ : System) (t : Nat) (reply : Option Nat) (objects : List WaitObject) :
    System :=
  match reply with
  | none => σ.receive t objects false
  | some s =>
    match (σ.sessions s).currentlyHandling with
    | none => σ.setResult t .sessionClosed (-1)
    | some u =>
      if (σ.sessions s).client then
        ((σ.finish s (.replied u s)).resumeFromWait u).receive t objects true
      else (σ.finish s (.dropped u s)).setResult t .sessionClosed (-1)

/-- `ThreadWakeupCallback`, for a thread that `WaitSynchronizationN` put to sleep. -/
def wakeupTimeout (σ : System) (t : Nat) : System :=
  ((σ.modifyThread t fun th => { th with result := .timeout }).clearWaitObjects t).resumeFromWait t

/-- `Thread::Stop`. -/
def stop (σ : System) (t : Nat) : System :=
  (σ.modifyThread t fun th => { th with status := .dead }).clearWaitObjects t

/-- Closes a handle of the client end. -/
def closeClient (σ : System) (s : Nat) : System :=
  let σ₁ := σ.modifySession s fun ss => { ss with clientHandles := ss.clientHandles - 1 }
  if (σ₁.sessions s).clientHandles = 0 then σ₁.destroyClient s else σ₁

/-- Closes a handle of the server end. -/
def closeServer (σ : System) (s : Nat) : System :=
  (σ.modifySession s fun ss => { ss with serverHandles := ss.serverHandles - 1 }).releaseServer s

end System

/-! ## Runs -/

inductive Op where
  | createPort (maxSessions : Nat)
  | createSession
  | connect (t p : Nat)
  | accept (t p : Nat)
  | sendSyncRequest (t s : Nat)
  | replyAndReceive (t : Nat) (reply : Option Nat) (objects : List WaitObject)
  | waitSynchronization (t : Nat) (objects : List WaitObject) (poll : Bool)
  | wakeupTimeout (t : Nat)
  | setPriority (t : Nat) (priority : Fin (threadPrioLowest + 1))
  | stop (t : Nat)
  | duplicateClient (s : Nat)
  | duplicateServer (s : Nat)
  | closeClient (s : Nat)
  | closeServer (s : Nat)
  deriving Repr

namespace System

/-- Some process has a handle of the object. -/
def hasHandle (σ : System) : WaitObject → Prop
  | .serverPort p => p < σ.portCount
  | .serverSession s => 0 < (σ.sessions s).serverHandles

instance (σ : System) : DecidablePred σ.hasHandle
  | .serverPort _ | .serverSession _ => Nat.decLt _ _

/-- When an operation can come: its thread can run, and its handles are valid. -/
def Possible (σ : System) : Op → Prop
  | .createPort _ | .createSession | .setPriority _ _ => True
  | .connect t p | .accept t p => (σ.threads t).status = .ready ∧ p < σ.portCount
  | .sendSyncRequest t s => (σ.threads t).status = .ready ∧ 0 < (σ.sessions s).clientHandles
  | .replyAndReceive t reply objects => (σ.threads t).status = .ready ∧
      (∀ s ∈ reply, σ.hasHandle (.serverSession s)) ∧ ∀ o ∈ objects, σ.hasHandle o
  | .waitSynchronization t objects _ =>
      (σ.threads t).status = .ready ∧ ∀ o ∈ objects, σ.hasHandle o
  | .wakeupTimeout t => (σ.threads t).status = .waitSynchAny ∧ (σ.threads t).receives = false
  | .stop t => (σ.threads t).status ≠ .dead
  | .duplicateClient s | .closeClient s => 0 < (σ.sessions s).clientHandles
  | .duplicateServer s | .closeServer s => 0 < (σ.sessions s).serverHandles

instance (σ : System) : DecidablePred σ.Possible
  | .createPort _ | .createSession | .setPriority _ _ => instDecidableTrue
  | .connect _ _ | .accept _ _ | .sendSyncRequest _ _ | .replyAndReceive _ _ _
  | .waitSynchronization _ _ _ | .wakeupTimeout _ => instDecidableAnd
  | .stop _ => instDecidableNot
  | .duplicateClient _ | .closeClient _ | .duplicateServer _ | .closeServer _ => Nat.decLt _ _

def apply (σ : System) : Op → System
  | .createPort maxSessions => σ.createPort maxSessions
  | .createSession => σ.createSessionPair none 1
  | .connect t p => σ.connect t p
  | .accept t p => σ.accept t p
  | .sendSyncRequest t s => σ.sendSyncRequest t s
  | .replyAndReceive t reply objects => σ.replyAndReceive t reply objects
  | .waitSynchronization t objects poll => σ.waitSynchronization t objects poll
  | .wakeupTimeout t => σ.wakeupTimeout t
  | .setPriority t priority => σ.modifyThread t fun th => { th with priority := priority }
  | .stop t => σ.stop t
  | .duplicateClient s =>
    σ.modifySession s fun ss => { ss with clientHandles := ss.clientHandles + 1 }
  | .duplicateServer s =>
    σ.modifySession s fun ss => { ss with serverHandles := ss.serverHandles + 1 }
  | .closeClient s => σ.closeClient s
  | .closeServer s => σ.closeServer s

/-- Operations that cannot come are passed over. -/
def step (σ : System) (op : Op) : System :=
  if σ.Possible op then σ.apply op else σ

/-- A run from the start. -/
def run (priority : Nat → Fin (threadPrioLowest + 1)) (ops : List Op) : System :=
  ops.foldl step (initial priority)

end System

end AzaharPlus.Kernel.Sessions
