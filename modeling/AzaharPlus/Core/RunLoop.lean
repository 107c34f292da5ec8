import AzaharPlus.Core.TimingRuns

/-!
# The loop over the cores

The model of `System::RunLoop` (`core/core.cpp`) without debugger and savestates.  Cores
that are behind the global time are advanced first, and the one that is furthest behind runs
alone; when all cores are together they run one after the other, each for what the one
before it used.

What the cores, the callbacks and the rescheduling do is the `Environment` of a call.  The
loop keeps the states it passed through, so that `cores_stay_together` speaks about all of
them: from base ticks that are not negative, the tick counts never decrease and stay together,
and the assertion in `GetMaxSliceLength` holds.
-/

namespace AzaharPlus.Core

/-- What emulated code does: it uses up ticks, and it schedules and cancels events. -/
inductive CoreStep (n : Nat)
  | consume (ticks : Nat)
  | act (action : Action n)

/-- The rest of the system in one call of the loop: what happens before it, what the
callbacks and the rescheduling do after the first and the second `Advance` of each core,
which cores have no thread, what the others run, and what is unscheduled at the end. -/
structure Environment (n : Nat) where
  before : List (Action n)
  delayedCallbacks : Fin n → List (List (Action n))
  delayedUnschedules : Fin n → List (EventType × UInt64)
  callbacks : Fin n → List (List (Action n))
  unschedules : Fin n → List (EventType × UInt64)
  isIdle : Fin n → Bool
  code : Fin n → List (CoreStep n)
  lastUnschedules : List (EventType × UInt64)

/-- A timing and the states before it, the oldest first. -/
structure Machine (n : Nat) where
  now : Timing n
  past : List (Timing n)

/-- What a call of the loop leaves: the global time it started from, and the core that it ran
alone. -/
structure LoopResult (n : Nat) where
  machine : Machine n
  globalTicks : Int
  delayedCore : Option (Fin n)

namespace Machine

variable {n : Nat}

/-- One call to the timing. -/
def exec (m : Machine n) (op : Op n) : Machine n := ⟨m.now.step op, m.past ++ [m.now]⟩

/-- The calls of `Reschedule` to the timing. -/
def reschedule (m : Machine n) (unschedules : List (EventType × UInt64)) : Machine n :=
  unschedules.foldl (fun m u => m.exec (.act (.unschedule u.1 u.2))) m

/-- `Run` or `Step` of a core that may still use `left` ticks. -/
def runCode (i : Fin n) : List (CoreStep n) → Nat → Machine n → Machine n
  | [], _, m => m
  | .consume ticks :: code, left, m =>
      runCode i code (left - min ticks left) (m.exec (.addTicks i (UInt64.ofNat (min ticks left))))
  | .act action :: code, left, m => runCode i code left (m.exec (.act action))

/-- A core runs, or idles if it has no thread. -/
def runCore (env : Environment n) (i : Fin n) (m : Machine n) : Machine n :=
  if env.isIdle i then m.exec (.idle i)
  else runCode i (env.code i) (m.now.timers i).downcount.toNat m

/-- The first loop: a core that is behind is advanced and gets a slice up to the global time.
Both times are `u64`, so that a negative tick count is far ahead.  The two other values are
`max_delay` and `current_core_to_execute`. -/
def advanceDelayed (env : Environment n) (globalTicks : Int) :
    List (Fin n) → Machine n × Int × Option (Fin n) → Machine n × Int × Option (Fin n)
  | [], x => x
  | i :: cores, (m, maxDelay, core) =>
      if toU64 (m.now.timers i).getTicks < toU64 globalTicks then
        let delay := toS64 (globalTicks - (m.now.timers i).getTicks)
        let m := (m.exec (.setCurrentTimer i)).exec (.advance i (env.delayedCallbacks i))
        let m := (m.reschedule (env.delayedUnschedules i)).exec (.setNextSlice i delay)
        advanceDelayed env globalTicks cores
          (if maxDelay < delay then (m, delay, some i) else (m, maxDelay, core))
      else advanceDelayed env globalTicks cores (m, maxDelay, core)

/-- The loop that advances all cores and takes the smallest of their slices; `none` is a
failed assertion. -/
def advanceAll (env : Environment n) : List (Fin n) → Machine n → Int → Option (Machine n × Int)
  | [], m, maxSlice => some (m, maxSlice)
  | i :: cores, m, maxSlice =>
      let m := (m.exec (.setCurrentTimer i)).exec (.advance i (env.callbacks i))
      let m := m.reschedule (env.unschedules i)
      (m.now.timers i).getMaxSliceLength.bind fun length =>
        advanceAll env cores m (min maxSlice length)

/-- The loop that runs all cores, each for what the one before it used. -/
def runAll (env : Environment n) : List (Fin n) → Machine n → Int → Machine n
  | [], m, _ => m
  | i :: cores, m, maxSlice =>
      let m := m.exec (.setNextSlice i maxSlice)
      let startTicks := (m.now.timers i).getTicks
      let m := runCore env i (m.exec (.setCurrentTimer i))
      runAll env cores m ((m.now.timers i).getTicks - startTicks)

/-- The delay below which the cores are not synchronised. -/
def minDelay : Int := 100

/-- `System::RunLoop`. -/
def runLoop [NeZero n] (env : Environment n) (m : Machine n) : Option (LoopResult n) :=
  let m := env.before.foldl (fun m a => m.exec (.act a)) m
  let globalTicks := m.now.getGlobalTicks
  match advanceDelayed env globalTicks (List.finRange n) (m, 0, none) with
  | (m, maxDelay, core) =>
      if maxDelay > minDelay then
        core.map fun i =>
          let m := runCore env i (m.exec (.setCurrentTimer i))
          ⟨m.reschedule env.lastUnschedules, globalTicks, some i⟩
      else
        (advanceAll env (List.finRange n) m maxSliceLength).map fun (m, maxSlice) =>
          let m := runAll env (List.finRange n) m maxSlice
          ⟨m.reschedule env.lastUnschedules, globalTicks, none⟩

/-- One call of the loop after the other. -/
def runLoops [NeZero n] (envs : List (Environment n)) (m : Machine n) : Option (Machine n) :=
  envs.foldlM (fun m env => (runLoop env m).map (·.machine)) m

end Machine

end AzaharPlus.Core
