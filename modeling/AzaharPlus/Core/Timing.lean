import Mathlib.Data.Prod.Lex
import Mathlib.Data.Int.Order.Basic
import AzaharPlus.Lib.Heap

/-!
# Event timing

The model of `Core::Timing` (`core/core_timing.cpp`): every emulated core has a timer with a
heap of events, and events for another core wait in a second queue until its timer advances.

Tick counts are integers.  `s64` values overflow only where the source says so: a tick count
is computed as a `u64` and converted to an `s64` (`toS64`), or compared as a `u64` (`toU64`), and
the lateness of an event is converted to an `int` (`toInt32`).

A timing carries its `History`, which no function of the source has: what became of every
event that was scheduled, and the events that fired.  No definition reads it to decide
anything.
-/

namespace AzaharPlus.Core

/-- The value of an `s64` after a conversion from an integer. -/
def toS64 (x : Int) : Int := x.bmod (2 ^ 64)

/-- The value of a `u64` after a conversion from an `s64`. -/
def toU64 (x : Int) : Int := if x < 0 then x + 2 ^ 64 else x

theorem toU64_of_nonneg {x : Int} (h : 0 ≤ x) : toU64 x = x := if_neg (Int.not_lt.2 h)

/-- The value of an `int` after a conversion from an integer. -/
def toInt32 (x : Int) : Int := x.bmod (2 ^ 32)

/-- `BASE_CLOCK_RATE_ARM11`. -/
def baseClockRateArm11 : Int := 268111856

/-- `Timing::MAX_SLICE_LENGTH`. -/
def maxSliceLength : Int := baseClockRateArm11 / 234

/-- A `TimingEventType*`, which is only compared. -/
abbrev EventType := Nat

/-- `Timing::Event`, with the number of the call that scheduled it. -/
structure Event where
  time : Int
  fifoOrder : Nat
  userData : UInt64
  type : EventType
  id : Nat
  deriving DecidableEq, Repr

/-- What events are sorted by. -/
def Event.key (e : Event) : Int ×ₗ Nat := toLex (e.time, e.fifoOrder)

/-- `Timing::Timer`, without the scale of the clock speed. -/
structure Timer where
  eventQueue : List Event
  eventFifoId : Nat
  tsQueue : List Event
  isTimerSane : Bool
  sliceLength : Int
  downcount : Int
  executedTicks : Int
  idledCycles : Int

namespace Timer

/-- `Timer::Timer`. -/
def init (baseTicks : Int) : Timer where
  eventQueue := []
  eventFifoId := 0
  tsQueue := []
  isTimerSane := true
  sliceLength := maxSliceLength
  downcount := maxSliceLength
  executedTicks := baseTicks
  idledCycles := 0

/-- `Timer::GetTicks`, as the `s64` that `Timing::GetTicks` makes of the `u64`. -/
def getTicks (t : Timer) : Int :=
  if t.isTimerSane then t.executedTicks else t.executedTicks + (t.sliceLength - t.downcount)

/-- `Timer::AddTicks`; the ticks are already scaled. -/
def addTicks (t : Timer) (ticks : UInt64) : Timer :=
  { t with downcount := toS64 (t.downcount - ticks.toNat) }

/-- `Timer::ForceExceptionCheck`. -/
def forceExceptionCheck (t : Timer) (cycles : Int) : Timer :=
  let cycles := max 0 cycles
  if t.downcount > cycles then
    { t with sliceLength := t.sliceLength - (t.downcount - cycles), downcount := cycles }
  else t

/-- Adds an event to the heap, with the next number of `event_fifo_id`. -/
def emplace (t : Timer) (e : Event) : Timer :=
  { t with
    eventQueue := Heap.pushHeap Event.key (t.eventQueue ++ [{ e with fifoOrder := t.eventFifoId }])
    eventFifoId := (t.eventFifoId + 1) % 2 ^ 64 }

/-- `Timer::MoveEvents`. -/
def moveEvents (t : Timer) : Timer := { t.tsQueue.foldl emplace t with tsQueue := [] }

/-- `Timer::GetMaxSliceLength`; `none` is its failed assertion. -/
def getMaxSliceLength (t : Timer) : Option Int :=
  match t.eventQueue with
  | [] => some maxSliceLength
  | nextEvent :: _ =>
      if nextEvent.time - t.executedTicks > 0 then some (nextEvent.time - t.executedTicks)
      else none

/-- The start of `Timer::Advance`, up to the loop. -/
def beginAdvance (t : Timer) : Timer :=
  let t := t.moveEvents
  { t with
    idledCycles := 0
    executedTicks := t.executedTicks + (t.sliceLength - t.downcount)
    sliceLength := 0
    downcount := 0
    isTimerSane := true }

/-- Takes the first event out of the heap: `pop_heap` and `pop_back`. -/
def popEvent (t : Timer) : Timer :=
  { t with eventQueue := (Heap.popHeap Event.key t.eventQueue).dropLast }

/-- `Timer::SetNextSlice`. -/
def setNextSlice (t : Timer) (maxSlice : Int) : Timer :=
  let sliceLength :=
    match t.eventQueue with
    | [] => maxSlice
    | nextEvent :: _ => toInt32 (min (nextEvent.time - t.executedTicks) maxSlice)
  { t with sliceLength := sliceLength, downcount := sliceLength }

/-- `Timer::Idle`. -/
def idle (t : Timer) : Timer :=
  { t with idledCycles := (t.idledCycles + t.downcount) % 2 ^ 64, downcount := 0 }

/-- `remove_if` and `erase` on the heap, which is made again if something was removed. -/
def removeIf (t : Timer) (p : Event → Bool) : Timer :=
  if t.eventQueue.any p then
    { t with eventQueue := Heap.makeHeap Event.key (t.eventQueue.filter fun e => !p e) }
  else t

end Timer

/-! ## The history of a timing -/

/-- What an event was scheduled with. -/
structure Request where
  time : Int
  userData : UInt64
  type : EventType
  deriving DecidableEq

/-- The request an event comes from. -/
def Event.request (e : Event) : Request := ⟨e.time, e.userData, e.type⟩

/-- What became of a request: the timer it was made on, whether its event is still in the
`ts_queue`, whether an Unschedule or Remove that matches it has returned since, and whether
the event was in the `ts_queue` at such a time. -/
structure Fate (n : Nat) where
  timer : Fin n
  request : Request
  waiting : Bool
  cancelled : Bool
  missed : Bool

/-- The fate of a request after an Unschedule or Remove. -/
def Fate.cancel {n : Nat} (p : Request → Bool) (f : Fate n) : Fate n :=
  if p f.request then { f with cancelled := true, missed := f.missed || f.waiting } else f

/-- The fate of a request after the `ts_queue` of timer `i` was emptied. -/
def Fate.move {n : Nat} (i : Fin n) (f : Fate n) : Fate n :=
  if f.timer = i then { f with waiting := false } else f

/-- An event that fired: where, when, how late, and after which of these cancellations. -/
structure Firing (n : Nat) where
  timer : Fin n
  event : Event
  executedTicks : Int
  lateness : Int
  cancelled : Bool
  missed : Bool

/-- All requests, by their numbers, and all firings, the oldest first. -/
structure History (n : Nat) where
  fates : List (Fate n)
  firings : List (Firing n)

namespace History

variable {n : Nat}

/-- A request was made. -/
def schedule (h : History n) (i : Fin n) (request : Request) (waiting : Bool) : History n :=
  { h with fates := h.fates ++ [⟨i, request, waiting, false, false⟩] }

/-- An Unschedule or Remove returned. -/
def cancel (h : History n) (p : Request → Bool) : History n :=
  { h with fates := h.fates.map (Fate.cancel p) }

/-- The `ts_queue` of a timer was emptied. -/
def move (h : History n) (i : Fin n) : History n := { h with fates := h.fates.map (Fate.move i) }

/-- An event fires on timer `i`. -/
def fire (h : History n) (i : Fin n) (event : Event) (executedTicks : Int) : History n :=
  { h with firings := h.firings ++ [{
      timer := i
      event := event
      executedTicks := executedTicks
      lateness := toInt32 (executedTicks - event.time)
      cancelled := (h.fates[event.id]?).any (·.cancelled)
      missed := (h.fates[event.id]?).any (·.missed) }] }

end History

/-- `Core::Timing`; `current_timer` is the index of a timer. -/
structure Timing (n : Nat) where
  timers : Fin n → Timer
  currentTimer : Fin n
  eventQueueLocked : Bool
  history : History n

/-- What callbacks and emulated code do with the queues.  Without a core id an event is for
the current timer. -/
inductive Action (n : Nat)
  | schedule (cyclesIntoFuture : Int) (type : EventType) (userData : UInt64)
      (coreId : Option (Fin n)) (threadSafeMode : Bool)
  | unschedule (type : EventType) (userData : UInt64)
  | remove (type : EventType)

namespace Timing

variable {n : Nat}

/-- `Timing::Timing`. -/
def init (n : Nat) [NeZero n] (baseTicks : Int) : Timing n where
  timers := fun _ => Timer.init baseTicks
  currentTimer := 0
  eventQueueLocked := false
  history := ⟨[], []⟩

/-- Replaces one timer. -/
def setTimer (s : Timing n) (i : Fin n) (t : Timer) : Timing n :=
  { s with timers := Function.update s.timers i t }

/-- `Timing::SetCurrentTimer`. -/
def setCurrentTimer (s : Timing n) (coreId : Fin n) : Timing n := { s with currentTimer := coreId }

/-- `Timing::GetGlobalTicks`: the largest tick count, and the first timer's to start with.  The
counts are compared as they are returned, as `u64`. -/
def getGlobalTicks [NeZero n] (s : Timing n) : Int :=
  (List.ofFn fun i => (s.timers i).getTicks).foldl
    (fun largest ticks => if toU64 largest < toU64 ticks then ticks else largest)
    (s.timers 0).getTicks

/-- The event of the next request. -/
def nextEvent (s : Timing n) (time : Int) (userData : UInt64) (type : EventType) : Event :=
  ⟨time, 0, userData, type, s.history.fates.length⟩

/-- `ts_queue.Push` of a new event. -/
def pushWaiting (s : Timing n) (i : Fin n) (time : Int) (userData : UInt64) (type : EventType) :
    Timing n :=
  let event := s.nextEvent time userData type
  { s.setTimer i { s.timers i with tsQueue := (s.timers i).tsQueue ++ [event] } with
    history := s.history.schedule i event.request true }

/-- `event_queue.emplace_back` of a new event, and the check before it. -/
def emplaceEvent (s : Timing n) (i : Fin n) (cyclesIntoFuture time : Int) (userData : UInt64)
    (type : EventType) : Timing n :=
  let event := s.nextEvent time userData type
  let timer := if (s.timers i).isTimerSane then s.timers i
    else (s.timers i).forceExceptionCheck cyclesIntoFuture
  { s.setTimer i (timer.emplace event) with history := s.history.schedule i event.request false }

/-- `Timing::ScheduleEvent`. -/
def scheduleEvent (s : Timing n) (cyclesIntoFuture : Int) (type : EventType) (userData : UInt64)
    (coreId : Option (Fin n)) (threadSafeMode : Bool) : Timing n :=
  if s.eventQueueLocked then s
  else
    let i := coreId.getD s.currentTimer
    if threadSafeMode then
      let cyclesIntoFuture := max (maxSliceLength * 2) cyclesIntoFuture
      s.pushWaiting i (toS64 ((s.timers i).getTicks + cyclesIntoFuture)) userData type
    else
      let timeout := toS64 ((s.timers i).getTicks + cyclesIntoFuture)
      if s.currentTimer = i then s.emplaceEvent i cyclesIntoFuture timeout userData type
      else s.pushWaiting i timeout userData type

/-- The loop over the timers that both functions below have. -/
def cancelEvents (s : Timing n) (p : Request → Bool) : Timing n :=
  if s.eventQueueLocked then s
  else
    { s with
      timers := fun i => (s.timers i).removeIf fun e => p e.request
      history := s.history.cancel p }

/-- `Timing::UnscheduleEvent`. -/
def unscheduleEvent (s : Timing n) (type : EventType) (userData : UInt64) : Timing n :=
  s.cancelEvents fun r => r.type = type ∧ r.userData = userData

/-- `Timing::RemoveEvent`. -/
def removeEvent (s : Timing n) (type : EventType) : Timing n :=
  s.cancelEvents fun r => r.type = type

/-- One call of a callback or of emulated code. -/
def act (s : Timing n) : Action n → Timing n
  | .schedule cyclesIntoFuture type userData coreId threadSafeMode =>
      s.scheduleEvent cyclesIntoFuture type userData coreId threadSafeMode
  | .unschedule type userData => s.unscheduleEvent type userData
  | .remove type => s.removeEvent type

/-- Takes an event out of the heap of timer `i` and calls its callback. -/
def fire (s : Timing n) (i : Fin n) (event : Event) (callback : List (Action n)) : Timing n :=
  callback.foldl act { s.setTimer i (s.timers i).popEvent with
    history := s.history.fire i event (s.timers i).executedTicks }

/-- The start of `Timer::Advance` of timer `i`, up to the loop. -/
def beginAdvance (s : Timing n) (i : Fin n) : Timing n :=
  { s.setTimer i (s.timers i).beginAdvance with history := s.history.move i }

/-- The loop of `Timer::Advance`.  What the callbacks do is given as a list, which is used up
from call to call; those behind its end do nothing. -/
def fireDue (i : Fin n) : Nat → List (List (Action n)) → Timing n → Timing n
  | 0, _, s => s
  | fuel + 1, callbacks, s =>
      match (s.timers i).eventQueue with
      | [] => s
      | event :: _ =>
          if event.time ≤ (s.timers i).executedTicks then
            fireDue i fuel callbacks.tail (s.fire i event (callbacks.headD []))
          else s

/-- `Timer::Advance` of timer `i`.  Each turn of its loop takes an event out of the heap, and
each event in the heap was there before or comes from a callback, so there is fuel enough. -/
def advance (s : Timing n) (i : Fin n) (callbacks : List (List (Action n))) : Timing n :=
  let s := s.beginAdvance i
  let s := fireDue i ((s.timers i).eventQueue.length + (callbacks.map List.length).sum) callbacks s
  s.setTimer i { s.timers i with isTimerSane := false }

end Timing

/-! ## Runs -/

/-- A call from outside. -/
inductive Op (n : Nat)
  | act (action : Action n)
  | setCurrentTimer (coreId : Fin n)
  | addTicks (coreId : Fin n) (ticks : UInt64)
  | idle (coreId : Fin n)
  | advance (coreId : Fin n) (callbacks : List (List (Action n)))
  | setNextSlice (coreId : Fin n) (maxSlice : Int)

namespace Timing

variable {n : Nat}

/-- One call. -/
def step (s : Timing n) : Op n → Timing n
  | .act action => s.act action
  | .setCurrentTimer coreId => s.setCurrentTimer coreId
  | .addTicks coreId ticks => s.setTimer coreId ((s.timers coreId).addTicks ticks)
  | .idle coreId => s.setTimer coreId (s.timers coreId).idle
  | .advance coreId callbacks => s.advance coreId callbacks
  | .setNextSlice coreId maxSlice => s.setTimer coreId ((s.timers coreId).setNextSlice maxSlice)

/-- A sequence of calls on a new timing. -/
def run [NeZero n] (baseTicks : Int) (ops : List (Op n)) : Timing n :=
  ops.foldl step (init n baseTicks)

end Timing

end AzaharPlus.Core
