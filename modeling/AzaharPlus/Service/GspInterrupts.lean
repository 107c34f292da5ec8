import AzaharPlus.Lib.RingQueue

/-!
# The interrupts of the GSP

`hle/service/gsp/gsp_gpu.cpp`: the GPU's interrupts are put into a ring in the shared memory, one ring
for each GSP thread, and the application takes them out.  Host and application take turns in any order.

* `signalInterrupt_queue` — what a signal does to the queue of a thread.
* `kept_runFrom` — the invariant of runs.
* `in_order` — with at most 0x34 interrupts pending none is lost or overtaken.
* `signal_full` — a full queue loses its oldest interrupt.
-/

namespace AzaharPlus.Service

open RingQueue

local instance screens : NeZero 2 := ⟨Nat.succ_ne_zero 1⟩

/-! ## The shared memory -/

/-- `InterruptId`. -/
inductive InterruptId
  | psc0 | psc1 | pdc0 | pdc1 | ppf | p3d | dma
  deriving DecidableEq, Repr

/-- The number of interrupt slots. -/
abbrev interruptSlots : Nat := 0x34

/-- `InterruptRelayQueue`, as a new shared memory holds it. -/
structure InterruptRelayQueue where
  index : UInt8 := 0
  numberInterrupts : UInt8 := 0
  errorCode : UInt8 := 0
  slot : Nat → InterruptId := fun _ => .psc0

/-- `FrameBufferUpdate`; `φ` is the type of `FrameBufferInfo`. -/
structure FrameBufferUpdate (φ : Type) where
  index : Fin 2
  isDirty : Bool
  framebufferInfo : Fin 2 → φ

/-- `SessionData`: the event is given by its number. -/
structure SessionData where
  threadId : UInt32
  registered : Bool
  interruptEvent : Option Nat

/-- `GSP_GPU`, with the buffer swaps the GPU was given and the events that were signalled. -/
structure GspGpu (φ : Type) where
  interruptRelayQueue : UInt32 → InterruptRelayQueue := fun _ => {}
  frameBufferInfo : UInt32 → Fin 2 → FrameBufferUpdate φ
  connectedSessions : List SessionData := []
  /-- `active_thread_id`; the largest number is no thread. -/
  activeThreadId : UInt32 := 0xFFFFFFFF
  bufferSwaps : List (Fin 2 × φ) := []
  signalledEvents : List Nat := []

/-! ## Signals -/

section

variable {φ : Type}

/-- `FindRegisteredThreadData`. -/
def GspGpu.findRegisteredThreadData (gsp : GspGpu φ) (threadId : UInt32) : Option SessionData :=
  gsp.connectedSessions.find? fun data => data.registered && data.threadId == threadId

/-- The slot `SignalInterruptForThread` writes: an eight bit sum, then the remainder. -/
def InterruptRelayQueue.next (queue : InterruptRelayQueue) : UInt8 :=
  (queue.index + queue.numberInterrupts) % 0x34

/-- What `SignalInterruptForThread` writes into the queue. -/
def InterruptRelayQueue.signal (queue : InterruptRelayQueue) (interruptId : InterruptId) :
    InterruptRelayQueue :=
  { queue with
    numberInterrupts := queue.numberInterrupts + 1
    slot := Function.update queue.slot queue.next.toNat interruptId
    errorCode := 0 }

/-- `screen_id`. -/
def screenId : InterruptId → Option (Fin 2)
  | .pdc0 => some 0
  | .pdc1 => some 1
  | _ => none

/-- The part of `SignalInterruptForThread` for the framebuffer information. -/
def GspGpu.updateFrameBuffer (gsp : GspGpu φ) (interruptId : InterruptId) (threadId : UInt32) :
    GspGpu φ :=
  match screenId interruptId with
  | none => gsp
  | some screen =>
      let info := gsp.frameBufferInfo threadId screen
      if info.isDirty then
        { gsp with
          bufferSwaps := gsp.bufferSwaps ++ [(screen, info.framebufferInfo info.index)]
          frameBufferInfo := Function.update gsp.frameBufferInfo threadId
            (Function.update (gsp.frameBufferInfo threadId) screen { info with isDirty := false }) }
      else gsp

/-- `SignalInterruptForThread`. -/
def GspGpu.signalInterruptForThread (gsp : GspGpu φ) (interruptId : InterruptId) (threadId : UInt32) :
    GspGpu φ :=
  match gsp.findRegisteredThreadData threadId with
  | none => gsp
  | some sessionData =>
      match sessionData.interruptEvent with
      | none => gsp
      | some event =>
          let gsp := { gsp with
            interruptRelayQueue := Function.update gsp.interruptRelayQueue threadId
              ((gsp.interruptRelayQueue threadId).signal interruptId) }
          let gsp := gsp.updateFrameBuffer interruptId threadId
          { gsp with signalledEvents := gsp.signalledEvents ++ [event] }

/-- The threads below `MaxGSPThreads`. -/
def gspThreads : List UInt32 := [0, 1, 2, 3]

/-- `SignalInterrupt`; the shared memory is there from the constructor on. -/
def GspGpu.signalInterrupt (gsp : GspGpu φ) (interruptId : InterruptId) : GspGpu φ :=
  if interruptId = .pdc0 ∨ interruptId = .pdc1 then
    gspThreads.foldl (fun gsp threadId => gsp.signalInterruptForThread interruptId threadId) gsp
  else if gsp.activeThreadId = 0xFFFFFFFF then gsp
  else gsp.signalInterruptForThread interruptId gsp.activeThreadId

/-! ## The application -/

/-- The interrupt the application takes next. -/
def InterruptRelayQueue.oldest (queue : InterruptRelayQueue) : InterruptId :=
  queue.slot queue.index.toNat

/-- The application takes an interrupt. -/
def InterruptRelayQueue.take (queue : InterruptRelayQueue) : InterruptRelayQueue :=
  { queue with
    index := (queue.index + 1) % 0x34
    numberInterrupts := queue.numberInterrupts - 1 }

/-- What the application finds if it takes all interrupts. -/
def InterruptRelayQueue.pending (queue : InterruptRelayQueue) : List InterruptId :=
  contents interruptSlots queue.slot queue.index.toNat queue.numberInterrupts.toNat

/-- The turns of host and applications. -/
inductive Turn (φ : Type)
  | signalInterrupt (interruptId : InterruptId)
  | signalInterruptForThread (interruptId : InterruptId) (threadId : UInt32)
  /-- The application of a thread takes an interrupt if there is one. -/
  | take (threadId : UInt32)
  /-- Sessions connect, register, unregister and disconnect, and the right to the GPU is passed. -/
  | sessions (connectedSessions : List SessionData) (activeThreadId : UInt32)
  /-- The application of a thread writes framebuffer information. -/
  | frameBuffer (threadId : UInt32) (screen : Fin 2) (info : FrameBufferUpdate φ)

/-- The GSP behind a turn. -/
def GspGpu.turn (gsp : GspGpu φ) : Turn φ → GspGpu φ
  | .signalInterrupt interruptId => gsp.signalInterrupt interruptId
  | .signalInterruptForThread interruptId threadId => gsp.signalInterruptForThread interruptId threadId
  | .take threadId =>
      if (gsp.interruptRelayQueue threadId).numberInterrupts = 0 then gsp
      else
        { gsp with
          interruptRelayQueue := Function.update gsp.interruptRelayQueue threadId
            (gsp.interruptRelayQueue threadId).take }
  | .sessions connectedSessions activeThreadId =>
      { gsp with connectedSessions := connectedSessions, activeThreadId := activeThreadId }
  | .frameBuffer threadId screen info =>
      { gsp with
        frameBufferInfo := Function.update gsp.frameBufferInfo threadId
          (Function.update (gsp.frameBufferInfo threadId) screen info) }

/-! ## What was signalled and what was taken -/

/-- A thread is registered and has an event. -/
def GspGpu.listens (gsp : GspGpu φ) (threadId : UInt32) : Bool :=
  ((gsp.findRegisteredThreadData threadId).bind SessionData.interruptEvent).isSome

/-- An interrupt is for a thread: those of the displays are for all of them, the others for the one
with the right to the GPU. -/
def GspGpu.isTarget (gsp : GspGpu φ) (interruptId : InterruptId) (threadId : UInt32) : Bool :=
  if interruptId = .pdc0 ∨ interruptId = .pdc1 then decide (threadId ∈ gspThreads)
  else decide (gsp.activeThreadId ≠ 0xFFFFFFFF ∧ gsp.activeThreadId = threadId)

/-- The interrupts that a turn signals to a thread. -/
def GspGpu.signalled (gsp : GspGpu φ) (threadId : UInt32) : Turn φ → List InterruptId
  | .signalInterrupt interruptId =>
      if gsp.listens threadId ∧ gsp.isTarget interruptId threadId then [interruptId] else []
  | .signalInterruptForThread interruptId thread =>
      if gsp.listens threadId ∧ thread = threadId then [interruptId] else []
  | _ => []

/-- The interrupt that the application of a thread takes in a turn. -/
def GspGpu.taken (gsp : GspGpu φ) (threadId : UInt32) : Turn φ → List InterruptId
  | .take thread =>
      if thread = threadId ∧ (gsp.interruptRelayQueue threadId).numberInterrupts ≠ 0 then
        [(gsp.interruptRelayQueue threadId).oldest]
      else []
  | _ => []

/-- A run: the GSP and, for each thread, what was signalled and taken so far. -/
structure Run (φ : Type) where
  gsp : GspGpu φ
  signalled : UInt32 → List InterruptId := fun _ => []
  taken : UInt32 → List InterruptId := fun _ => []

/-- A turn of a run. -/
def Run.turn (run : Run φ) (t : Turn φ) : Run φ where
  gsp := run.gsp.turn t
  signalled threadId := run.signalled threadId ++ run.gsp.signalled threadId t
  taken threadId := run.taken threadId ++ run.gsp.taken threadId t

/-- The turns of a run one after the other. -/
def runFrom (run : Run φ) (turns : List (Turn φ)) : Run φ := turns.foldl Run.turn run

/-- The number of interrupts that were signalled to a thread and not taken yet. -/
def Run.pendingCount (run : Run φ) (threadId : UInt32) : Nat :=
  (run.signalled threadId).length - (run.taken threadId).length

/-- At no time more interrupts are pending than there are slots. -/
def NeverOverfull (run : Run φ) : List (Turn φ) → Prop
  | [] => True
  | t :: turns =>
      (∀ threadId, (run.turn t).pendingCount threadId ≤ interruptSlots) ∧
        NeverOverfull (run.turn t) turns

/-- A run that begins: the queues are empty. -/
def startRun (frameBufferInfo : UInt32 → Fin 2 → FrameBufferUpdate φ) : Run φ :=
  { gsp := { frameBufferInfo := frameBufferInfo } }

/-! ## A signal -/

theorem updateFrameBuffer_kept (gsp : GspGpu φ) (interruptId : InterruptId) (threadId : UInt32) :
    (gsp.updateFrameBuffer interruptId threadId).interruptRelayQueue = gsp.interruptRelayQueue ∧
      (gsp.updateFrameBuffer interruptId threadId).connectedSessions = gsp.connectedSessions ∧
      (gsp.updateFrameBuffer interruptId threadId).activeThreadId = gsp.activeThreadId := by
  unfold GspGpu.updateFrameBuffer
  split
  · exact ⟨rfl, rfl, rfl⟩
  · simp only
    split <;> exact ⟨rfl, rfl, rfl⟩

theorem signalInterruptForThread_sessions (gsp : GspGpu φ) (interruptId : InterruptId)
    (threadId : UInt32) :
    (gsp.signalInterruptForThread interruptId threadId).connectedSessions = gsp.connectedSessions := by
  unfold GspGpu.signalInterruptForThread
  split
  · rfl
  · split
    · rfl
    · exact (updateFrameBuffer_kept _ _ _).2.1

theorem listens_signalInterruptForThread (gsp : GspGpu φ) (interruptId : InterruptId)
    (threadId thread : UInt32) :
    (gsp.signalInterruptForThread interruptId threadId).listens thread = gsp.listens thread := by
  unfold GspGpu.listens GspGpu.findRegisteredThreadData
  rw [signalInterruptForThread_sessions]

/-- A signal to a thread that listens is put into the thread's queue, and into no other. -/
theorem signalInterruptForThread_queue (gsp : GspGpu φ) (interruptId : InterruptId)
    (threadId thread : UInt32) :
    (gsp.signalInterruptForThread interruptId threadId).interruptRelayQueue thread =
      if gsp.listens thread ∧ threadId = thread then
        (gsp.interruptRelayQueue thread).signal interruptId
      else gsp.interruptRelayQueue thread := by
  by_cases hthread : threadId = thread
  · subst hthread
    unfold GspGpu.signalInterruptForThread GspGpu.listens
    cases hdata : gsp.findRegisteredThreadData threadId with
    | none => simp
    | some sessionData =>
      cases hevent : sessionData.interruptEvent with
      | none => simp [hevent]
      | some event =>
        simp only [(updateFrameBuffer_kept _ _ _).1, Function.update_self, Option.bind_some,
          hevent, Option.isSome_some, and_self, if_true]
  · rw [if_neg (fun h => hthread h.2)]
    unfold GspGpu.signalInterruptForThread
    split
    · rfl
    · split
      · rfl
      · rw [(updateFrameBuffer_kept _ _ _).1]
        exact Function.update_of_ne (Ne.symm hthread) _ _

theorem foldl_signal_queue (interruptId : InterruptId) (thread : UInt32) (threads : List UInt32)
    (hnodup : threads.Nodup) (gsp : GspGpu φ) :
    (threads.foldl (fun gsp threadId => gsp.signalInterruptForThread interruptId threadId)
        gsp).interruptRelayQueue thread =
      if gsp.listens thread ∧ thread ∈ threads then
        (gsp.interruptRelayQueue thread).signal interruptId
      else gsp.interruptRelayQueue thread := by
  induction threads generalizing gsp with
  | nil => simp
  | cons threadId threads ih =>
    obtain ⟨hnot, hrest⟩ := List.nodup_cons.1 hnodup
    rw [List.foldl_cons, ih hrest, listens_signalInterruptForThread,
      signalInterruptForThread_queue]
    by_cases hlistens : gsp.listens thread
    · by_cases heq : threadId = thread
      · subst heq
        simp [hlistens, hnot]
      · simp [hlistens, heq, Ne.symm heq]
    · simp [hlistens]

/-- A turn puts into a queue what it signals to the thread. -/
theorem signalInterrupt_queue (gsp : GspGpu φ) (interruptId : InterruptId) (thread : UInt32) :
    (gsp.signalInterrupt interruptId).interruptRelayQueue thread =
      if gsp.listens thread ∧ gsp.isTarget interruptId thread then
        (gsp.interruptRelayQueue thread).signal interruptId
      else gsp.interruptRelayQueue thread := by
  unfold GspGpu.signalInterrupt GspGpu.isTarget
  by_cases hpdc : interruptId = .pdc0 ∨ interruptId = .pdc1
  · simp only [if_pos hpdc, decide_eq_true_eq]
    exact foldl_signal_queue interruptId thread gspThreads (by decide) gsp
  · simp only [if_neg hpdc, decide_eq_true_eq]
    by_cases hnone : gsp.activeThreadId = 0xFFFFFFFF
    · rw [if_pos hnone, if_neg (fun h => h.2.1 hnone)]
    · rw [if_neg hnone, signalInterruptForThread_queue]
      simp only [ne_eq, hnone, not_false_eq_true, true_and]

/-! ## Queues -/

/-- The slot that is written, when the eight bit sum does not wrap. -/
theorem next_toNat (queue : InterruptRelayQueue)
    (hsum : queue.index.toNat + queue.numberInterrupts.toNat < 256) :
    queue.next.toNat = (queue.index.toNat + queue.numberInterrupts.toNat) % interruptSlots := by
  unfold InterruptRelayQueue.next
  rw [UInt8.toNat_mod, UInt8.toNat_add,
    show (queue.index.toNat + queue.numberInterrupts.toNat) % 2 ^ 8 = _ from Nat.mod_eq_of_lt hsum]
  rfl

theorem numberInterrupts_signal (queue : InterruptRelayQueue) (interruptId : InterruptId)
    (hlt : queue.numberInterrupts.toNat < 255) :
    (queue.signal interruptId).numberInterrupts.toNat = queue.numberInterrupts.toNat + 1 := by
  unfold InterruptRelayQueue.signal
  rw [UInt8.toNat_add]
  exact Nat.mod_eq_of_lt (Nat.succ_lt_succ hlt)

/-- With a free slot, a signal is behind the pending ones. -/
theorem pending_signal (queue : InterruptRelayQueue) (interruptId : InterruptId)
    (hindex : queue.index.toNat < interruptSlots)
    (hnumber : queue.numberInterrupts.toNat < interruptSlots) :
    (queue.signal interruptId).pending = queue.pending ++ [interruptId] := by
  have hnext := next_toNat queue (by
    have : interruptSlots + interruptSlots ≤ 256 := by decide
    omega)
  unfold InterruptRelayQueue.pending
  rw [numberInterrupts_signal queue interruptId (Nat.lt_trans hnumber (by decide))]
  unfold InterruptRelayQueue.signal
  rw [hnext]
  exact contents_push queue.slot queue.index.toNat hnumber interruptId

/-- A full queue loses its oldest interrupt, and counts one more than it has slots. -/
theorem signal_full (queue : InterruptRelayQueue) (interruptId : InterruptId)
    (hindex : queue.index.toNat < interruptSlots)
    (hnumber : queue.numberInterrupts.toNat = interruptSlots) :
    contents interruptSlots (queue.signal interruptId).slot queue.index.toNat interruptSlots =
        interruptId :: queue.pending.tail ∧
      (queue.signal interruptId).numberInterrupts.toNat = interruptSlots + 1 := by
  have hnext := next_toNat queue (by
    have : interruptSlots + interruptSlots ≤ 256 := by decide
    omega)
  constructor
  · unfold InterruptRelayQueue.pending InterruptRelayQueue.signal
    rw [hnext, hnumber]
    exact contents_push_full queue.slot (by decide) interruptId
  · rw [numberInterrupts_signal queue interruptId (by rw [hnumber]; decide), hnumber]

/-- Taking an interrupt leaves those behind it. -/
theorem pending_take (queue : InterruptRelayQueue) (hindex : queue.index.toNat < interruptSlots)
    (hnumber : queue.numberInterrupts ≠ 0) :
    queue.pending = queue.oldest :: queue.take.pending ∧
      queue.take.index.toNat < interruptSlots ∧
      queue.take.numberInterrupts.toNat + 1 = queue.numberInterrupts.toNat := by
  have hpos : 0 < queue.numberInterrupts.toNat := by
    refine Nat.pos_of_ne_zero fun h => hnumber (UInt8.toNat_inj.1 ?_)
    rw [h]
    rfl
  have hcount : queue.take.numberInterrupts.toNat + 1 = queue.numberInterrupts.toNat := by
    unfold InterruptRelayQueue.take
    have hone : (1 : UInt8) ≤ queue.numberInterrupts := UInt8.le_iff_toNat_le.2 hpos
    rw [UInt8.toNat_sub_of_le _ _ hone]
    exact Nat.sub_add_cancel hpos
  have hnext : queue.take.index.toNat = (queue.index.toNat + 1) % interruptSlots := by
    unfold InterruptRelayQueue.take
    rw [UInt8.toNat_mod, UInt8.toNat_add]
    have hsum : (queue.index.toNat + (1 : UInt8).toNat) % 2 ^ 8 = queue.index.toNat + 1 :=
      Nat.mod_eq_of_lt (Nat.lt_of_le_of_lt (Nat.succ_le_of_lt hindex) (by decide))
    rw [hsum]
    rfl
  refine ⟨?_, hnext ▸ Nat.mod_lt _ (by decide), hcount⟩
  unfold InterruptRelayQueue.pending
  rw [← hcount, contents_pop, Nat.mod_eq_of_lt hindex, hnext]
  rfl

/-! ## Runs -/

/-- The invariant of a run for a thread: the interrupts that were signalled are those taken and those
in the queue. -/
structure Kept (run : Run φ) (threadId : UInt32) : Prop where
  index : (run.gsp.interruptRelayQueue threadId).index.toNat < interruptSlots
  number : (run.gsp.interruptRelayQueue threadId).numberInterrupts.toNat ≤ interruptSlots
  order : run.signalled threadId =
    run.taken threadId ++ (run.gsp.interruptRelayQueue threadId).pending

/-- The interrupts in the queue are counted. -/
theorem Kept.count {run : Run φ} {threadId : UInt32} (h : Kept run threadId) :
    (run.gsp.interruptRelayQueue threadId).numberInterrupts.toNat = run.pendingCount threadId := by
  unfold Run.pendingCount
  rw [h.order, List.length_append, Nat.add_sub_cancel_left]
  exact (length_contents _ _ _ _).symm

/-- The queue of a thread behind a turn. -/
theorem turn_queue (gsp : GspGpu φ) (t : Turn φ) (threadId : UInt32) :
    (∃ interruptId, gsp.signalled threadId t = [interruptId] ∧ gsp.taken threadId t = [] ∧
        (gsp.turn t).interruptRelayQueue threadId =
          (gsp.interruptRelayQueue threadId).signal interruptId) ∨
      ((gsp.interruptRelayQueue threadId).numberInterrupts ≠ 0 ∧ gsp.signalled threadId t = [] ∧
        gsp.taken threadId t = [(gsp.interruptRelayQueue threadId).oldest] ∧
        (gsp.turn t).interruptRelayQueue threadId = (gsp.interruptRelayQueue threadId).take) ∨
      (gsp.signalled threadId t = [] ∧ gsp.taken threadId t = [] ∧
        (gsp.turn t).interruptRelayQueue threadId = gsp.interruptRelayQueue threadId) := by
  cases t with
  | signalInterrupt interruptId =>
    have hqueue := signalInterrupt_queue gsp interruptId threadId
    split at hqueue
    · next hto => exact Or.inl ⟨interruptId, if_pos hto, rfl, hqueue⟩
    · next hto => exact Or.inr (Or.inr ⟨if_neg hto, rfl, hqueue⟩)
  | signalInterruptForThread interruptId thread =>
    have hqueue := signalInterruptForThread_queue gsp interruptId thread threadId
    split at hqueue
    · next hto => exact Or.inl ⟨interruptId, if_pos hto, rfl, hqueue⟩
    · next hto => exact Or.inr (Or.inr ⟨if_neg hto, rfl, hqueue⟩)
  | take thread =>
    by_cases hnumber : (gsp.interruptRelayQueue thread).numberInterrupts = 0
    · have hsame : gsp.turn (.take thread) = gsp := if_pos hnumber
      refine Or.inr (Or.inr ⟨rfl, if_neg ?_, by rw [hsame]⟩)
      rintro ⟨rfl, hne⟩
      exact hne hnumber
    · have hturn : gsp.turn (.take thread) = { gsp with
          interruptRelayQueue := Function.update gsp.interruptRelayQueue thread
            (gsp.interruptRelayQueue thread).take } := if_neg hnumber
      rw [hturn]
      by_cases hthread : thread = threadId
      · subst hthread
        exact Or.inr (Or.inl ⟨hnumber, rfl, if_pos ⟨rfl, hnumber⟩, Function.update_self _ _ _⟩)
      · exact Or.inr (Or.inr ⟨rfl, if_neg fun h => hthread h.1,
          Function.update_of_ne (Ne.symm hthread) _ _⟩)
  | sessions connectedSessions activeThreadId => exact Or.inr (Or.inr ⟨rfl, rfl, rfl⟩)
  | frameBuffer thread screen info => exact Or.inr (Or.inr ⟨rfl, rfl, rfl⟩)

theorem kept_turn {run : Run φ} {threadId : UInt32} (h : Kept run threadId) (t : Turn φ)
    (hroom : (run.turn t).pendingCount threadId ≤ interruptSlots) : Kept (run.turn t) threadId := by
  rcases turn_queue run.gsp t threadId with ⟨interruptId, hsignalled, htaken, hqueue⟩ |
    ⟨hnumber, hsignalled, htaken, hqueue⟩ | ⟨hsignalled, htaken, hqueue⟩
  · have hfree : (run.gsp.interruptRelayQueue threadId).numberInterrupts.toNat < interruptSlots := by
      have hcount := h.count
      unfold Run.pendingCount at hroom hcount
      simp only [Run.turn, hsignalled, htaken, List.append_nil, List.length_append,
        List.length_singleton] at hroom
      have hle : (run.taken threadId).length ≤ (run.signalled threadId).length := by
        rw [h.order, List.length_append]
        exact Nat.le_add_right _ _
      omega
    have hturn : (run.turn t).gsp.interruptRelayQueue threadId =
        (run.gsp.interruptRelayQueue threadId).signal interruptId := hqueue
    refine ⟨by rw [hturn]; exact h.index, ?_, ?_⟩
    · rw [hturn, numberInterrupts_signal _ _ (Nat.lt_trans hfree (by decide))]
      exact hfree
    · rw [hturn, pending_signal _ _ h.index hfree, ← List.append_assoc]
      simp only [Run.turn, hsignalled, htaken, List.append_nil, h.order]
  · obtain ⟨hpending, hindex, hcount⟩ := pending_take _ h.index hnumber
    have hturn : (run.turn t).gsp.interruptRelayQueue threadId =
        (run.gsp.interruptRelayQueue threadId).take := hqueue
    refine ⟨by rw [hturn]; exact hindex, ?_, ?_⟩
    · rw [hturn]
      have hnumber := h.number
      omega
    · rw [hturn]
      simp only [Run.turn, hsignalled, htaken, List.append_nil, List.append_assoc,
        List.singleton_append, ← hpending, h.order]
  · have hturn : (run.turn t).gsp.interruptRelayQueue threadId =
        run.gsp.interruptRelayQueue threadId := hqueue
    refine ⟨by rw [hturn]; exact h.index, by rw [hturn]; exact h.number, ?_⟩
    rw [hturn]
    simp only [Run.turn, hsignalled, htaken, List.append_nil, h.order]

theorem kept_runFrom (turns : List (Turn φ)) {run : Run φ} (h : ∀ threadId, Kept run threadId)
    (hroom : NeverOverfull run turns) : ∀ threadId, Kept (runFrom run turns) threadId := by
  induction turns generalizing run with
  | nil => exact h
  | cons t turns ih => exact ih (fun threadId => kept_turn (h threadId) t (hroom.1 threadId)) hroom.2

theorem kept_startRun (frameBufferInfo : UInt32 → Fin 2 → FrameBufferUpdate φ) (threadId : UInt32) :
    Kept (startRun frameBufferInfo) threadId :=
  ⟨show 0 < interruptSlots by decide, Nat.zero_le _, rfl⟩

/-- A turn signals at most one interrupt to a thread. -/
theorem length_signalled_turn (run : Run φ) (t : Turn φ) (threadId : UInt32) :
    ((run.turn t).signalled threadId).length ≤ (run.signalled threadId).length + 1 := by
  simp only [Run.turn, List.length_append]
  rcases turn_queue run.gsp t threadId with ⟨interruptId, hsignalled, -⟩ | ⟨-, hsignalled, -⟩ |
    ⟨hsignalled, -⟩ <;> rw [hsignalled] <;> simp

/-- Short runs do not fill a queue. -/
theorem neverOverfull_of_length (turns : List (Turn φ)) {run : Run φ}
    (h : ∀ threadId, (run.signalled threadId).length + turns.length ≤ interruptSlots) :
    NeverOverfull run turns := by
  induction turns generalizing run with
  | nil => trivial
  | cons t turns ih =>
    have hstep : ∀ threadId,
        ((run.turn t).signalled threadId).length + turns.length ≤ interruptSlots := by
      intro threadId
      have hle := length_signalled_turn run t threadId
      have hroom := h threadId
      rw [List.length_cons] at hroom
      omega
    refine ⟨fun threadId => ?_, ih hstep⟩
    exact Nat.le_trans (Nat.sub_le _ _) (Nat.le_trans (Nat.le_add_right _ _) (hstep threadId))

end

/-- With at most 0x34 interrupts pending, an application gets the interrupts in the order in which they
are signalled, and the queue holds and counts the others.  An interrupt that is signalled to a full
queue leaves the pending ones only if it is the same as the oldest. -/
theorem in_order {φ : Type} (frameBufferInfo : UInt32 → Fin 2 → FrameBufferUpdate φ)
    (turns : List (Turn φ)) (hroom : NeverOverfull (startRun frameBufferInfo) turns)
    (threadId : UInt32) :
    let run := runFrom (startRun frameBufferInfo) turns
    let queue := run.gsp.interruptRelayQueue threadId
    run.signalled threadId = run.taken threadId ++ queue.pending ∧
      queue.numberInterrupts.toNat = run.pendingCount threadId ∧
      run.pendingCount threadId ≤ interruptSlots ∧
      (run.pendingCount threadId = interruptSlots → ∀ interruptId,
        (contents interruptSlots (queue.signal interruptId).slot queue.index.toNat interruptSlots =
          queue.pending ↔ interruptId = queue.oldest)) := by
  intro run queue
  have hkept : Kept run threadId := kept_runFrom turns (kept_startRun frameBufferInfo) hroom threadId
  refine ⟨hkept.order, hkept.count, hkept.count ▸ hkept.number, fun hfull interruptId => ?_⟩
  have hnumber : queue.numberInterrupts.toNat = interruptSlots := hkept.count.trans hfull
  have hne : queue.numberInterrupts ≠ 0 := by
    intro hzero
    rw [hzero] at hnumber
    exact absurd hnumber (by decide)
  rw [(signal_full queue interruptId hkept.index hnumber).1, (pending_take queue hkept.index hne).1,
    List.tail_cons, List.cons.injEq, and_iff_left rfl]

/-- A framebuffer that is not to be updated. -/
def cleanInfo : UInt32 → Fin 2 → FrameBufferUpdate Unit := fun _ _ => ⟨0, false, fun _ => ()⟩

/-- One registered session. -/
def oneSession : Turn Unit := .sessions [⟨0, true, some 7⟩] 0

theorem in_order_two :
    (runFrom (startRun cleanInfo)
      [oneSession, .signalInterrupt .ppf, .signalInterrupt .pdc0, .take 0]).signalled 0 =
        [.ppf, .pdc0] ∧
      (runFrom (startRun cleanInfo)
        [oneSession, .signalInterrupt .ppf, .signalInterrupt .pdc0, .take 0]).signalled 0 =
        (runFrom (startRun cleanInfo)
          [oneSession, .signalInterrupt .ppf, .signalInterrupt .pdc0, .take 0]).taken 0 ++
        ((runFrom (startRun cleanInfo)
          [oneSession, .signalInterrupt .ppf, .signalInterrupt .pdc0,
            .take 0]).gsp.interruptRelayQueue 0).pending :=
  ⟨by decide +kernel, (in_order cleanInfo
    [oneSession, .signalInterrupt .ppf, .signalInterrupt .pdc0, .take 0]
    (neverOverfull_of_length _ fun _ => by exact (by decide : 0 + 4 ≤ interruptSlots)) 0).1⟩

/-- A session and a number of interrupts for it. -/
def burst (count : Nat) : List (Turn Unit) :=
  oneSession :: List.replicate count (.signalInterruptForThread .ppf 0)

/-- The interrupt after 0x34 pending ones is taken in the place of the oldest, and after 256 the queue
counts none. -/
theorem burst_overwrites :
    (runFrom (startRun cleanInfo) (burst 0x34)).pendingCount 0 = interruptSlots ∧
      ((runFrom (startRun cleanInfo) (burst 0x34)).gsp.interruptRelayQueue 0).oldest = .ppf ∧
      ((runFrom (startRun cleanInfo)
        (burst 0x34 ++ [.signalInterrupt .p3d])).gsp.interruptRelayQueue 0).oldest = .p3d ∧
      ((runFrom (startRun cleanInfo) (burst 256)).gsp.interruptRelayQueue 0).numberInterrupts = 0 := by
  decide +kernel

end AzaharPlus.Service
