import AzaharPlus.Kernel.Sessions
import Mathlib.Data.List.Induction

/-!
# Invariants of the session protocol

What holds of ports, sessions and requests between two system calls, and what the parts of a call
do to it.

* `Waits` — the lists of waiting threads are those of the objects that the threads wait for.
* `Requests` — where the request of each thread stands, by what has happened to it so far.
* `Ends` — the two ends of a session, and what keeps them.
* `SleepersBut` — nobody sleeps on something that is ready, but for one object that a call is
  about to wake the threads of.
* `SoundBut` — all of them together.
-/

namespace AzaharPlus.Kernel.Sessions

namespace System

variable {σ σ' : System}

/-- One value changes, in a way that none need change. -/
theorem update_ind {β : Type} {P : β → β → Prop} {f : Nat → β} {i : Nat} {b : β}
    (hrefl : ∀ b, P b b) (h : P (f i) b) (j : Nat) : P (f j) (Function.update f i b j) := by
  by_cases hj : j = i
  · subst hj
    simpa using h
  · simpa [hj] using hrefl _

/-! ## The lists of waiting threads -/

/-- Threads are on the lists of exactly the objects they wait for. -/
structure Listed (σ : System) : Prop where
  mem_iff : ∀ o t, t ∈ σ.waitingThreads o ↔ o ∈ (σ.threads t).waitObjects
  nodup : ∀ o, (σ.waitingThreads o).Nodup

/-- Whoever waits for objects sleeps. -/
def Asleep (σ : System) (t : Nat) : Prop :=
  (σ.threads t).waitObjects ≠ [] → (σ.threads t).status = .waitSynchAny

structure Waits (σ : System) : Prop extends Listed σ where
  asleep : ∀ t, σ.Asleep t

theorem Listed.congr (h : σ.Listed) (hw : σ'.waitingThreads = σ.waitingThreads)
    (ho : ∀ t, (σ'.threads t).waitObjects = (σ.threads t).waitObjects) : σ'.Listed where
  mem_iff o t := by rw [hw, ho]; exact h.mem_iff o t
  nodup o := by rw [hw]; exact h.nodup o

theorem Waits.congr (h : σ.Waits) (hw : σ'.waitingThreads = σ.waitingThreads)
    (ho : ∀ t, (σ'.threads t).waitObjects = (σ.threads t).waitObjects)
    (hs : ∀ t, (σ.threads t).status = .waitSynchAny → (σ'.threads t).status = .waitSynchAny) :
    σ'.Waits where
  toListed := h.toListed.congr hw ho
  asleep t hne := hs t (h.asleep t (by rwa [ho] at hne))

/-- The lists and the threads are the same. -/
theorem Waits.of_eq (h : σ.Waits) (hw : σ'.waitingThreads = σ.waitingThreads)
    (ht : σ'.threads = σ.threads) : σ'.Waits :=
  h.congr hw (fun t => by rw [ht]) fun t hs => by rwa [ht]

theorem setResult_threads (t : Nat) (r : Result) (i : Int) (u : Nat) :
    ((σ.setResult t r i).threads u).status = (σ.threads u).status ∧
      ((σ.setResult t r i).threads u).waitObjects = (σ.threads u).waitObjects :=
  update_ind (P := fun th th' : Thread => th'.status = th.status ∧ th'.waitObjects = th.waitObjects)
    (fun _ => ⟨rfl, rfl⟩) (by exact ⟨rfl, rfl⟩) u

/-- Taking a thread off the lists of some objects. -/
theorem removeWaitingThreads_eq (t : Nat) (objects : List WaitObject) (σ : System)
    (h : ∀ o, (σ.waitingThreads o).Nodup) :
    objects.foldl (fun σ o => σ.removeWaitingThread t o) σ =
      { σ with waitingThreads := fun o =>
          if o ∈ objects then (σ.waitingThreads o).erase t else σ.waitingThreads o } := by
  induction objects generalizing σ with
  | nil => simp
  | cons o objects ih =>
    have hnodup : ∀ o', ((σ.removeWaitingThread t o).waitingThreads o').Nodup := by
      intro o'
      by_cases ho : o' = o
      · subst ho
        simpa [removeWaitingThread] using (h o').erase t
      · simpa [removeWaitingThread, ho] using h o'
    rw [List.foldl_cons, ih _ hnodup]
    simp only [removeWaitingThread, setWaitingThreads, System.mk.injEq, true_and, and_true]
    funext o'
    by_cases ho : o' = o
    · subst ho
      have hgone : t ∉ (σ.waitingThreads o').erase t := (h o').not_mem_erase
      simp [List.erase_of_not_mem hgone]
    · simp [ho]

theorem addWaitingThread_spec (σ : System) (t : Nat) (o : WaitObject)
    (h : ∀ o, (σ.waitingThreads o).Nodup) :
    σ.addWaitingThread t o = { σ with waitingThreads := (σ.addWaitingThread t o).waitingThreads } ∧
      (∀ o', ((σ.addWaitingThread t o).waitingThreads o').Nodup) ∧
      ∀ o' u, u ∈ (σ.addWaitingThread t o).waitingThreads o' ↔
        u ∈ σ.waitingThreads o' ∨ u = t ∧ o' = o := by
  unfold addWaitingThread
  split
  · rename_i hin
    refine ⟨rfl, h, fun o' u => ⟨Or.inl, ?_⟩⟩
    rintro (hu | ⟨rfl, rfl⟩)
    · exact hu
    · exact hin
  · rename_i hnot
    refine ⟨rfl, fun o' => ?_, fun o' u => ?_⟩
    · by_cases ho : o' = o
      · subst ho
        simpa using List.Nodup.concat hnot (h o')
      · simpa [ho] using h o'
    · by_cases ho : o' = o
      · subst ho
        simp
      · simp [ho]

/-- Putting a thread on the lists of some objects. -/
theorem addWaitingThreads_spec (t : Nat) (objects : List WaitObject) (σ : System)
    (h : ∀ o, (σ.waitingThreads o).Nodup) :
    let σ' := objects.foldl (fun σ o => σ.addWaitingThread t o) σ
    σ' = { σ with waitingThreads := σ'.waitingThreads } ∧ (∀ o, (σ'.waitingThreads o).Nodup) ∧
      ∀ o u, u ∈ σ'.waitingThreads o ↔ u ∈ σ.waitingThreads o ∨ u = t ∧ o ∈ objects := by
  induction objects generalizing σ with
  | nil => simp [h]
  | cons o objects ih =>
    obtain ⟨hframe, hnodup, hmem⟩ := addWaitingThread_spec σ t o h
    obtain ⟨hrest, hnodup', hmem'⟩ := ih (σ.addWaitingThread t o) hnodup
    refine ⟨?_, hnodup', fun o' u => ?_⟩
    · rw [List.foldl_cons]
      generalize objects.foldl (fun σ o => σ.addWaitingThread t o) (σ.addWaitingThread t o) = τ
        at hrest ⊢
      rw [hrest, hframe]
    · rw [List.foldl_cons, hmem', hmem, List.mem_cons]
      tauto

/-! ## Server ends that go away -/

/-- What the loss of server ends leaves as it is. -/
structure Kept (σ σ' : System) : Prop where
  threads : σ'.threads = σ.threads
  waitingThreads : σ'.waitingThreads = σ.waitingThreads
  sessionCount : σ'.sessionCount = σ.sessionCount
  pendingSessions : ∀ p, (σ'.ports p).pendingSessions = (σ.ports p).pendingSessions
  client : ∀ s, (σ'.sessions s).client = (σ.sessions s).client
  port : ∀ s, (σ'.sessions s).port = (σ.sessions s).port
  clientHandles : ∀ s, (σ'.sessions s).clientHandles = (σ.sessions s).clientHandles
  serverHandles : ∀ s, (σ'.sessions s).serverHandles = (σ.sessions s).serverHandles

theorem Kept.refl (σ : System) : Kept σ σ := by
  constructor <;> simp

theorem Kept.trans {σ'' : System} (h : Kept σ σ') (h' : Kept σ' σ'') : Kept σ σ'' where
  threads := h'.threads.trans h.threads
  waitingThreads := h'.waitingThreads.trans h.waitingThreads
  sessionCount := h'.sessionCount.trans h.sessionCount
  pendingSessions p := (h'.pendingSessions p).trans (h.pendingSessions p)
  client s := (h'.client s).trans (h.client s)
  port s := (h'.port s).trans (h.port s)
  clientHandles s := (h'.clientHandles s).trans (h.clientHandles s)
  serverHandles s := (h'.serverHandles s).trans (h.serverHandles s)

theorem kept_destroyServer (σ : System) (s : Nat) : Kept σ (σ.destroyServer s) := by
  unfold destroyServer
  cases (σ.sessions s).port <;> constructor <;> first
    | rfl
    | intro u
      simp +contextual [Function.update_apply, apply_ite]

theorem kept_releaseServer (σ : System) (s : Nat) : Kept σ (σ.releaseServer s) := by
  unfold releaseServer
  split
  · exact kept_destroyServer σ s
  · exact .refl σ

/-- What the release of every server end keeps. -/
theorem releaseObjects_induction {P : System → Prop} (hP : ∀ σ s, P σ → P (σ.releaseServer s))
    (objects : List WaitObject) (h : P σ) : P (objects.foldl releaseObject σ) := by
  refine List.foldlRecOn objects releaseObject h fun τ hτ o _ => ?_
  cases o with
  | serverPort p => exact hτ
  | serverSession s => exact hP τ s hτ

theorem kept_releaseObjects (objects : List WaitObject) (σ : System) :
    Kept σ (objects.foldl releaseObject σ) :=
  releaseObjects_induction (P := Kept σ) (fun τ s hτ => hτ.trans (kept_releaseServer τ s)) objects
    (.refl σ)

/-- The state in which the references of a thread that stops waiting are dropped. -/
def unlisted (σ : System) (t : Nat) : System :=
  { σ with
    waitingThreads := fun o => (σ.waitingThreads o).erase t
    threads := Function.update σ.threads t { σ.threads t with waitObjects := [] } }

theorem clearWaitObjects_eq (h : σ.Listed) (t : Nat) :
    σ.clearWaitObjects t = (σ.threads t).waitObjects.foldl releaseObject (σ.unlisted t) := by
  have hlists : (fun o => if o ∈ (σ.threads t).waitObjects then (σ.waitingThreads o).erase t
      else σ.waitingThreads o) = fun o => (σ.waitingThreads o).erase t := by
    funext o
    split
    · rfl
    · rename_i hnot
      rw [List.erase_of_not_mem fun hin => hnot ((h.mem_iff o t).mp hin)]
  rw [clearWaitObjects, removeWaitingThreads_eq t _ σ h.nodup, hlists]
  rfl

/-- Taken off its lists, a thread waits for nothing. -/
theorem Listed.unlisted (h : σ.Listed) (t : Nat) : (σ.unlisted t).Listed where
  mem_iff o u := by
    by_cases hu : u = t
    · subst hu
      simp [System.unlisted, (h.nodup o).not_mem_erase]
    · simp [System.unlisted, hu, List.mem_erase_of_ne, h.mem_iff]
  nodup o := (h.nodup o).erase t

theorem Listed.clearWaitObjects (h : σ.Listed) (t : Nat) : (σ.clearWaitObjects t).Listed := by
  rw [clearWaitObjects_eq h]
  have hkept := kept_releaseObjects (σ.threads t).waitObjects (σ.unlisted t)
  exact (h.unlisted t).congr hkept.waitingThreads fun u => by rw [hkept.threads]

theorem clearWaitObjects_threads (h : σ.Listed) (t : Nat) :
    (σ.clearWaitObjects t).threads =
      Function.update σ.threads t { σ.threads t with waitObjects := [] } := by
  rw [clearWaitObjects_eq h, (kept_releaseObjects _ _).threads]
  rfl

theorem clearWaitObjects_waitingThreads (h : σ.Listed) (t : Nat) :
    (σ.clearWaitObjects t).waitingThreads = fun o => (σ.waitingThreads o).erase t := by
  rw [clearWaitObjects_eq h, (kept_releaseObjects _ _).waitingThreads]
  rfl

/-- A thread that stops waiting need not sleep any more. -/
theorem Waits.clearWaitObjects (h : σ.Listed) (t : Nat) (hs : ∀ u, u ≠ t → σ.Asleep u) :
    (σ.clearWaitObjects t).Waits where
  toListed := h.clearWaitObjects t
  asleep u := by
    unfold Asleep
    rw [clearWaitObjects_threads h]
    by_cases hu : u = t
    · subst hu
      simp
    · simpa [hu, Asleep] using hs u hu

theorem resumeFromWait_cases (σ : System) (t : Nat) :
    σ.resumeFromWait t = σ ∨ (σ.threads t).status ≠ .dead ∧
      σ.resumeFromWait t = σ.modifyThread t fun th => { th with status := .ready } := by
  unfold resumeFromWait
  split
  · exact .inl rfl
  · exact .inl rfl
  · exact .inl rfl
  · rename_i hdead
    exact .inr ⟨hdead, rfl⟩

/-- A thread that waits for nothing may go on. -/
theorem Waits.resumeFromWait (h : σ.Waits) {t : Nat} (ht : (σ.threads t).waitObjects = []) :
    (σ.resumeFromWait t).Waits := by
  rcases resumeFromWait_cases σ t with heq | ⟨-, heq⟩ <;> rw [heq]
  · exact h
  refine ⟨h.toListed.congr rfl (update_ind (P := fun th th' : Thread =>
    th'.waitObjects = th.waitObjects) (fun _ => rfl) rfl), fun u => ?_⟩
  by_cases hu : u = t
  · subst hu
    simp [Asleep, ht]
  · simpa [Asleep, hu] using h.asleep u

/-! ## Waking up -/

/-- The fields of a session that concern its ends. -/
def SameEnds (ss ss' : Session) : Prop :=
  ss'.client = ss.client ∧ ss'.server = ss.server ∧ ss'.port = ss.port ∧
    ss'.clientHandles = ss.clientHandles ∧ ss'.serverHandles = ss.serverHandles

theorem SameEnds.refl (ss : Session) : SameEnds ss ss := ⟨rfl, rfl, rfl, rfl, rfl⟩

theorem acquire_frame (σ : System) (o : WaitObject) :
    (σ.acquire o).threads = σ.threads ∧ (σ.acquire o).waitingThreads = σ.waitingThreads ∧
      (σ.acquire o).ports = σ.ports ∧ (σ.acquire o).sessionCount = σ.sessionCount ∧
      ∀ u, SameEnds (σ.sessions u) ((σ.acquire o).sessions u) := by
  unfold acquire
  split
  · exact ⟨rfl, rfl, rfl, rfl, fun _ => .refl _⟩
  · split
    · split
      · exact ⟨rfl, rfl, rfl, rfl, fun _ => .refl _⟩
      · exact ⟨rfl, rfl, rfl, rfl, update_ind SameEnds.refl ⟨rfl, rfl, rfl, rfl, rfl⟩⟩
    · exact ⟨rfl, rfl, rfl, rfl, fun _ => .refl _⟩

/-- The thread that is woken is on the list, and the object is ready. -/
theorem getHighestPriorityReadyThread_some {o : WaitObject} {t : Nat}
    (h : σ.getHighestPriorityReadyThread o = some t) :
    t ∈ σ.waitingThreads o ∧ σ.shouldWait o = false := by
  unfold getHighestPriorityReadyThread at h
  refine List.foldlRecOn (motive := fun c => c = some t → t ∈ σ.waitingThreads o ∧
    σ.shouldWait o = false) (σ.waitingThreads o) _ (fun hnone => by cases hnone) ?_ h
  intro c ih u hu hc
  split at hc
  · exact ih hc
  · split at hc
    · exact ih hc
    · rename_i hready
      cases hc
      exact ⟨hu, by simpa using hready⟩

/-- If nobody is woken, the object is not ready or nobody waits for it. -/
theorem getHighestPriorityReadyThread_none {o : WaitObject}
    (h : σ.getHighestPriorityReadyThread o = none) (hready : σ.shouldWait o = false) :
    σ.waitingThreads o = [] := by
  unfold getHighestPriorityReadyThread at h
  cases hl : σ.waitingThreads o with
  | nil => rfl
  | cons t l =>
    exfalso
    rw [hl, List.foldl_cons] at h
    have hfirst : ¬ threadPrioLowest + 1 ≤ ((σ.threads t).priority : Nat) := by
      have := (σ.threads t).priority.isLt
      omega
    simp only [hfirst, if_false, hready, Bool.false_eq_true] at h
    -- once there is a candidate, there always is one
    refine absurd h (List.foldlRecOn (motive := fun c => c ≠ none) l _ (by simp) ?_)
    intro c ih u _
    cases c with
    | none => exact absurd rfl ih
    | some v =>
      simp only [ne_eq]
      split <;> simp

/-- The state in which a woken thread is taken off its lists. -/
def woken (σ : System) (o : WaitObject) (t : Nat) : System :=
  (σ.acquire o).wakeupCallback t o

theorem wakeup_eq (o : WaitObject) (t : Nat) :
    σ.wakeup o t = ((σ.woken o t).clearWaitObjects t).resumeFromWait t := rfl

theorem woken_frame (σ : System) (o : WaitObject) (t : Nat) :
    (σ.woken o t).waitingThreads = σ.waitingThreads ∧ (σ.woken o t).ports = σ.ports ∧
      (σ.woken o t).sessionCount = σ.sessionCount ∧
      (σ.woken o t).sessions = (σ.acquire o).sessions ∧ (σ.woken o t).trace = (σ.acquire o).trace ∧
      ∀ u, ((σ.woken o t).threads u).status = (σ.threads u).status ∧
        ((σ.woken o t).threads u).waitObjects = (σ.threads u).waitObjects := by
  obtain ⟨hthreads, hwaiting, hports, hsessionCount, -⟩ := acquire_frame σ o
  refine ⟨hwaiting, hports, hsessionCount, rfl, rfl, fun u => ?_⟩
  obtain ⟨hstatus, hobjects⟩ := @setResult_threads (σ.acquire o) t
    (if ((σ.acquire o).threads t).receives then (σ.acquire o).receiveResult o else .success)
    ((σ.acquire o).waitObjectIndex t o) u
  exact ⟨hstatus.trans (by rw [hthreads]), hobjects.trans (by rw [hthreads])⟩

theorem Waits.woken (h : σ.Waits) (o : WaitObject) (t : Nat) : (σ.woken o t).Waits := by
  obtain ⟨hwaiting, -, -, -, -, hthreads⟩ := woken_frame σ o t
  exact h.congr hwaiting (fun u => (hthreads u).2) fun u hu => (hthreads u).1.trans hu

theorem Waits.wakeup (h : σ.Waits) (o : WaitObject) (t : Nat) : (σ.wakeup o t).Waits := by
  rw [wakeup_eq]
  have hw := h.woken o t
  refine (Waits.clearWaitObjects hw.toListed t fun u _ => hw.asleep u).resumeFromWait ?_
  simp [clearWaitObjects_threads hw.toListed]

theorem resumeFromWait_frame (σ : System) (t : Nat) :
    (σ.resumeFromWait t).waitingThreads = σ.waitingThreads ∧
      (σ.resumeFromWait t).ports = σ.ports ∧ (σ.resumeFromWait t).sessions = σ.sessions ∧
      (σ.resumeFromWait t).portCount = σ.portCount ∧
      (σ.resumeFromWait t).sessionCount = σ.sessionCount ∧
      (σ.resumeFromWait t).trace = σ.trace := by
  rcases resumeFromWait_cases σ t with heq | ⟨-, heq⟩ <;> rw [heq] <;>
    exact ⟨rfl, rfl, rfl, rfl, rfl, rfl⟩

theorem wakeup_waitingThreads (h : σ.Waits) (o : WaitObject) (t : Nat) (o' : WaitObject) :
    (σ.wakeup o t).waitingThreads o' = (σ.waitingThreads o').erase t := by
  rw [wakeup_eq, (resumeFromWait_frame _ t).1,
    clearWaitObjects_waitingThreads (h.woken o t).toListed, (woken_frame σ o t).1]

/-- What every turn of the loop keeps, the loop keeps. -/
theorem wakeupLoop_induction {P : System → Prop} {o : WaitObject}
    (hstep : ∀ σ t, P σ → σ.getHighestPriorityReadyThread o = some t → P (σ.wakeup o t))
    (n : Nat) (h : P σ) : P (wakeupLoop o n σ) := by
  induction n generalizing σ with
  | zero => exact h
  | succ n ih =>
    unfold wakeupLoop
    split
    · exact h
    · rename_i t ht
      exact ih (hstep σ t h ht)

/-- The loop ends when there is nobody left to wake. -/
theorem wakeupLoop_none (h : σ.Waits) (o : WaitObject) (n : Nat)
    (hn : (σ.waitingThreads o).length ≤ n) :
    (wakeupLoop o n σ).getHighestPriorityReadyThread o = none := by
  induction n generalizing σ with
  | zero =>
    have hnil : σ.waitingThreads o = [] := List.eq_nil_of_length_eq_zero (by omega)
    simp [wakeupLoop, getHighestPriorityReadyThread, hnil]
  | succ n ih =>
    unfold wakeupLoop
    split
    · assumption
    · rename_i t ht
      refine ih (h.wakeup o t) ?_
      have hin := (getHighestPriorityReadyThread_some ht).1
      rw [wakeup_waitingThreads h, List.length_erase_of_mem hin]
      omega

theorem sleep_spec (h : σ.Listed) (t : Nat) (objects : List WaitObject) (receives : Bool)
    (result : Result) :
    σ.sleep t objects receives result = { σ.setWaiting t objects receives result with
        waitingThreads := (σ.sleep t objects receives result).waitingThreads } ∧
      (∀ o, ((σ.sleep t objects receives result).waitingThreads o).Nodup) ∧
      ∀ o u, u ∈ (σ.sleep t objects receives result).waitingThreads o ↔
        u ∈ σ.waitingThreads o ∨ u = t ∧ o ∈ objects :=
  addWaitingThreads_spec t objects (σ.setWaiting t objects receives result) h.nodup

/-- A thread that can run and goes to sleep. -/
theorem Waits.sleep (h : σ.Waits) {t : Nat} (ht : (σ.threads t).status = .ready)
    (objects : List WaitObject) (receives : Bool) (result : Result) :
    (σ.sleep t objects receives result).Waits := by
  have hfree : (σ.threads t).waitObjects = [] := by
    by_contra hne
    exact absurd ((h.asleep t hne).symm.trans ht) (by decide)
  obtain ⟨hframe, hnodup, hmem⟩ := sleep_spec h.toListed t objects receives result
  refine ⟨⟨fun o u => ?_, hnodup⟩, fun u => ?_⟩
  · rw [hmem, hframe]
    by_cases hu : u = t
    · subst hu
      simp [setWaiting, h.mem_iff, hfree]
    · simp [setWaiting, h.mem_iff, hu]
  · rw [hframe]
    by_cases hu : u = t
    · subst hu
      simp [Asleep, setWaiting]
    · simpa [hu, Asleep, setWaiting] using h.asleep u

/-! ## What happens to a request -/

/-- How far the request of a client thread is. -/
inductive Phase where
  | idle
  | pending (s : Nat)
  | handled (s : Nat)
  | stranded (s : Nat)
  deriving DecidableEq, Repr

/-- The session that a thread waits for. -/
def Phase.session : Phase → Option Nat
  | .idle => none
  | .pending s | .handled s | .stranded s => some s

/-- What may happen next. -/
def Phase.next : Phase → Event → Option Phase
  | .idle, .sent _ s => some (.pending s)
  | .pending s, .taken _ s' => if s' = s then some (.handled s) else none
  | .handled s, .replied _ s' => if s' = s then some .idle else none
  | .pending s, .dropped _ s' => if s' = s then some (.stranded s) else none
  | .handled s, .dropped _ s' => if s' = s then some (.stranded s) else none
  | _, _ => none

/-- The phases of all threads after a trace. -/
def phasesAfter (trace : List Event) : Option (Nat → Phase) :=
  Parties.run Event.client Phase.next (fun _ => .idle) trace

/-- The lists and the ends of a session agree with the phases. -/
structure Agrees (φ : Nat → Phase) (s : Nat) (ss : Session) : Prop where
  pending : ∀ t, t ∈ ss.pendingRequestingThreads ↔ φ t = .pending s
  nodup : ss.pendingRequestingThreads.Nodup
  handled : ∀ t, ss.currentlyHandling = some t ↔ φ t = .handled s
  ends : ∀ t, φ t = .pending s ∨ φ t = .handled s → ss.client = true ∧ ss.server = true
  stranded : ∀ t, φ t = .stranded s → ¬(ss.client = true ∧ ss.server = true)

/-- A thread sleeps in a request exactly while there is one, unless it is dead. -/
def Phase.Fits (status : ThreadStatus) (p : Phase) : Prop :=
  status = .dead ∨ (status = .waitIPC ↔ p ≠ .idle)

/-- All sessions and threads agree with the phases. -/
structure Requests (φ : Nat → Phase) (σ : System) : Prop where
  sessions : ∀ s, Agrees φ s (σ.sessions s)
  lt : ∀ t s, (φ t).session = some s → s < σ.sessionCount
  threads : ∀ t, (φ t).Fits (σ.threads t).status

/-- The trace is allowed, and the state agrees with it. -/
def Followed (σ : System) : Prop :=
  ∃ φ, phasesAfter σ.trace = some φ ∧ Requests φ σ

theorem Requests.busy {φ : Nat → Phase} (h : Requests φ σ) {t : Nat} (ht : φ t ≠ .idle) :
    (σ.threads t).status = .waitIPC ∨ (σ.threads t).status = .dead :=
  (h.threads t).symm.imp_left fun hiff => hiff.mpr ht

theorem Requests.idle {φ : Nat → Phase} (h : Requests φ σ) {t : Nat} (ht : φ t = .idle) :
    (σ.threads t).status ≠ .waitIPC := by
  intro hw
  rcases h.threads t with hdead | hiff
  · exact absurd (hw.symm.trans hdead) (by decide)
  · exact hiff.mp hw ht

/-- Threads whose requests have nothing to do with a session may change their phases. -/
theorem Agrees.elsewhere {φ φ' : Nat → Phase} {s : Nat} {ss : Session} (h : Agrees φ s ss)
    (hφ : ∀ t, φ' t = φ t ∨ (φ t).session ≠ some s ∧ (φ' t).session ≠ some s) :
    Agrees φ' s ss := by
  have hiff : ∀ t (p : Phase), p.session = some s → (φ t = p ↔ φ' t = p) := by
    intro t p hp
    rcases hφ t with heq | ⟨hold, hnew⟩
    · rw [heq]
    · exact iff_of_false (fun ht => hold (ht ▸ hp)) fun ht => hnew (ht ▸ hp)
  exact ⟨fun t => (h.pending t).trans (hiff t _ rfl), h.nodup,
    fun t => (h.handled t).trans (hiff t _ rfl),
    fun t ht => h.ends t (ht.imp (hiff t _ rfl).mpr (hiff t _ rfl).mpr),
    fun t ht => h.stranded t ((hiff t _ rfl).mpr ht)⟩

/-- The requests of one session go on. -/
theorem Requests.change {φ φ' : Nat → Phase} {s : Nat} (h : Requests φ σ)
    (hφ : ∀ t, φ' t = φ t ∨ s < σ.sessionCount ∧
      ((φ t).session = none ∨ (φ t).session = some s) ∧ (φ' t = .idle ∨ (φ' t).session = some s))
    (hother : ∀ s', s' ≠ s → σ'.sessions s' = σ.sessions s') (hs : Agrees φ' s (σ'.sessions s))
    (hcount : σ'.sessionCount = σ.sessionCount)
    (hthreads : ∀ t, (φ' t).Fits (σ'.threads t).status) : Requests φ' σ' where
  sessions s' := by
    by_cases hne : s' = s
    · rw [hne]
      exact hs
    rw [hother s' hne]
    refine (h.sessions s').elsewhere fun t => (hφ t).imp_right fun ⟨_, hold, hnew⟩ => ⟨?_, ?_⟩
    · rcases hold with hold | hold <;> simp [hold, Ne.symm hne]
    · rcases hnew with hnew | hnew
      · simp [hnew, Phase.session]
      · simp [hnew, Ne.symm hne]
  lt t s' ht := by
    rw [hcount]
    rcases hφ t with heq | ⟨hlt, -, hidle | hnew⟩
    · exact h.lt t s' (by rwa [heq] at ht)
    · rw [hidle] at ht
      cases ht
    · cases hnew.symm.trans ht
      exact hlt
  threads := hthreads

/-- The lists of requests and the ends of all sessions are the same. -/
def SameRequests (σ σ' : System) : Prop :=
  ∀ s, (σ'.sessions s).pendingRequestingThreads = (σ.sessions s).pendingRequestingThreads ∧
    (σ'.sessions s).currentlyHandling = (σ.sessions s).currentlyHandling ∧
    (σ'.sessions s).client = (σ.sessions s).client ∧ (σ'.sessions s).server = (σ.sessions s).server

theorem SameRequests.of_eq (h : σ'.sessions = σ.sessions) : SameRequests σ σ' := fun s => by
  rw [h]
  exact ⟨rfl, rfl, rfl, rfl⟩

/-- No thread falls asleep in a request or wakes up from one, except that threads die. -/
def SameSleepers (σ σ' : System) : Prop :=
  ∀ t, (σ'.threads t).status = .dead ∨
    ((σ'.threads t).status = .waitIPC ↔ (σ.threads t).status = .waitIPC) ∧
      (σ.threads t).status ≠ .dead

theorem SameSleepers.of_eq
    (h : ∀ t, (σ'.threads t).status = (σ.threads t).status) : SameSleepers σ σ' := by
  intro t
  rw [h]
  tauto

theorem Requests.congr {φ : Nat → Phase} (h : Requests φ σ)
    (hcount : σ'.sessionCount = σ.sessionCount) (hr : SameRequests σ σ')
    (hs : SameSleepers σ σ') : Requests φ σ' where
  sessions s := by
    obtain ⟨hpending, hhandling, hclient, hserver⟩ := hr s
    have hagrees := h.sessions s
    constructor <;> simp only [hpending, hhandling, hclient, hserver]
    exacts [hagrees.pending, hagrees.nodup, hagrees.handled, hagrees.ends, hagrees.stranded]
  lt t s hφ := by rw [hcount]; exact h.lt t s hφ
  threads t := (hs t).imp_right fun ⟨hiff, hlive⟩ =>
    hiff.trans ((h.threads t).resolve_left hlive)

theorem Followed.congr (h : σ.Followed) (htrace : σ'.trace = σ.trace)
    (hcount : σ'.sessionCount = σ.sessionCount) (hr : SameRequests σ σ')
    (hs : SameSleepers σ σ') : σ'.Followed := by
  obtain ⟨φ, hφ, hreq⟩ := h
  exact ⟨φ, by rw [htrace]; exact hφ, hreq.congr hcount hr hs⟩

theorem phasesAfter_concat {trace : List Event} {φ φ' : Nat → Phase} {e : Event}
    (h : phasesAfter trace = some φ) (hnext : (φ e.client).next e = some (φ' e.client))
    (hother : ∀ t, t ≠ e.client → φ' t = φ t) : phasesAfter (trace ++ [e]) = some φ' := by
  have hrun : Parties.run Event.client Phase.next (fun _ => .idle) trace = some φ := h
  rw [phasesAfter, Parties.run_concat, hrun]
  exact Parties.advance_eq_some_iff.mpr ⟨hnext, hother⟩

/-- Requests that are dropped one after the other. -/
theorem phasesAfter_dropped {trace : List Event} {φ : Nat → Phase} {s : Nat} {lost : List Nat}
    (h : phasesAfter trace = some φ) (hnodup : lost.Nodup)
    (hlost : ∀ t ∈ lost, φ t = .pending s ∨ φ t = .handled s) :
    phasesAfter (trace ++ lost.map (Event.dropped · s)) =
      some fun t => if t ∈ lost then .stranded s else φ t := by
  induction lost using List.reverseRecOn with
  | nil => simpa using h
  | append_singleton lost u ih =>
    have hnot : u ∉ lost := by
      intro hin
      exact (List.nodup_append.mp hnodup).2.2 u hin u (by simp) rfl
    have hprefix := ih hnodup.of_append_left fun t ht => hlost t (by simp [ht])
    rw [List.map_append, ← List.append_assoc]
    refine phasesAfter_concat hprefix ?_ fun t ht => ?_
    · rcases hlost u (by simp) with hu | hu
      · simp [Event.client, hnot, hu, Phase.next]
      · simp [Event.client, hnot, hu, Phase.next]
    · have hne : t ≠ u := ht
      simp [hne]

/-- The requests of a session, wherever they are. -/
def requestsOf (σ : System) (s : Nat) : List Nat :=
  (σ.sessions s).pendingRequestingThreads ++ (σ.sessions s).currentlyHandling.toList

/-- A session loses one of its ends, and its requests with it. -/
structure Loses (s : Nat) (σ σ' : System) : Prop where
  other : ∀ s', s' ≠ s → σ'.sessions s' = σ.sessions s'
  pending : (σ'.sessions s).pendingRequestingThreads = []
  handling : (σ'.sessions s).currentlyHandling = none
  ends : ¬((σ'.sessions s).client = true ∧ (σ'.sessions s).server = true)
  trace : σ'.trace = σ.trace ++ (σ.requestsOf s).map (Event.dropped · s)
  sessionCount : σ'.sessionCount = σ.sessionCount
  status : ∀ t, (σ'.threads t).status = (σ.threads t).status

theorem Requests.mem_requestsOf {φ : Nat → Phase} (h : Requests φ σ) {s t : Nat} :
    t ∈ σ.requestsOf s ↔ φ t = .pending s ∨ φ t = .handled s := by
  simp [requestsOf, ← (h.sessions s).pending, ← (h.sessions s).handled]

theorem Requests.nodup_requestsOf {φ : Nat → Phase} (h : Requests φ σ) (s : Nat) :
    (σ.requestsOf s).Nodup := by
  refine List.nodup_append.mpr ⟨(h.sessions s).nodup, ?_, ?_⟩
  · cases (σ.sessions s).currentlyHandling <;> simp
  · rintro t ht u hu rfl
    have hpending := ((h.sessions s).pending t).mp ht
    have hhandled := ((h.sessions s).handled t).mp (by simpa using hu)
    exact absurd (hpending.symm.trans hhandled) (by simp)

theorem Followed.loses (h : σ.Followed) {s : Nat} (hl : Loses s σ σ') : σ'.Followed := by
  obtain ⟨φ, hφ, hreq⟩ := h
  have hmem := fun t => hreq.mem_requestsOf (s := s) (t := t)
  have hkept : ∀ t p, (p = .pending s ∨ p = .handled s) →
      (if t ∈ σ.requestsOf s then Phase.stranded s else φ t) ≠ p := by
    intro t p hp
    split
    · rcases hp with rfl | rfl <;> simp
    · rename_i hnot
      rintro rfl
      exact hnot ((hmem t).mpr hp)
  refine ⟨fun t => if t ∈ σ.requestsOf s then .stranded s else φ t, ?_, hreq.change (s := s)
    (fun t => ?_) hl.other ⟨fun t => ?_, by simp [hl.pending], fun t => ?_, fun t ht => ?_,
      fun t _ => hl.ends⟩ hl.sessionCount fun t => ?_⟩
  · rw [hl.trace]
    exact phasesAfter_dropped hφ (hreq.nodup_requestsOf s) fun t ht => (hmem t).mp ht
  · split
    · rename_i ht
      have hs : (φ t).session = some s := by
        rcases (hmem t).mp ht with hp | hp <;> rw [hp] <;> rfl
      exact .inr ⟨hreq.lt t s hs, .inr hs, .inr rfl⟩
    · exact .inl rfl
  · simp [hl.pending, hkept t _ (.inl rfl)]
  · simp [hl.handling, hkept t _ (.inr rfl)]
  · rcases ht with ht | ht
    · exact absurd ht (hkept t _ (.inl rfl))
    · exact absurd ht (hkept t _ (.inr rfl))
  · rw [hl.status]
    split
    · rename_i ht
      have hbusy : φ t ≠ .idle := by
        rcases (hmem t).mp ht with hp | hp <;> simp [hp]
      exact (hreq.threads t).imp_right fun hiff => hiff.trans (by simp [hbusy])
    · exact hreq.threads t

theorem Followed.destroyServer (h : σ.Followed) (s : Nat) : (σ.destroyServer s).Followed := by
  have hport : ∀ τ : System, τ.sessions = σ.sessions → τ.threads = σ.threads → τ.trace = σ.trace →
      τ.sessionCount = σ.sessionCount → Loses s σ { (τ.modifySession s fun ss =>
        { ss with server := false, pendingRequestingThreads := [], currentlyHandling := none }) with
        trace := τ.trace ++ (σ.requestsOf s).map (Event.dropped · s) } := by
    intro τ hsessions hthreads htrace hcount
    constructor
    · intro s' hs'
      simp [hs', hsessions]
    · simp
    · simp
    · simp
    · simp [htrace]
    · simp [hcount]
    · simp [hthreads]
  refine h.loses (s := s) ?_
  unfold System.destroyServer
  cases (σ.sessions s).port with
  | none => exact hport σ rfl rfl rfl rfl
  | some p => exact hport (σ.modifyPort p _) rfl rfl rfl rfl

theorem Followed.releaseServer (h : σ.Followed) (s : Nat) : (σ.releaseServer s).Followed := by
  unfold System.releaseServer
  split
  · exact h.destroyServer s
  · exact h

theorem Followed.clearWaitObjects (h : σ.Followed) (hl : σ.Listed) (t : Nat) :
    (σ.clearWaitObjects t).Followed := by
  rw [clearWaitObjects_eq hl]
  refine releaseObjects_induction (P := Followed) (fun _ s h => h.releaseServer s) _ ?_
  refine h.congr rfl rfl (.of_eq rfl) (.of_eq fun u => ?_)
  by_cases hu : u = t
  · subst hu
    simp [unlisted]
  · simp [unlisted, hu]

/-- The request of one thread goes on to another phase, within one session. -/
structure Moves (t s : Nat) (p : Phase) (σ σ' : System) : Prop where
  other : ∀ s', s' ≠ s → σ'.sessions s' = σ.sessions s'
  pending : ∀ u, u ∈ (σ'.sessions s).pendingRequestingThreads ↔
    if u = t then p = .pending s else u ∈ (σ.sessions s).pendingRequestingThreads
  nodup : (σ'.sessions s).pendingRequestingThreads.Nodup
  handled : ∀ u, (σ'.sessions s).currentlyHandling = some u ↔
    if u = t then p = .handled s else (σ.sessions s).currentlyHandling = some u
  ends : (σ'.sessions s).client = (σ.sessions s).client ∧
    (σ'.sessions s).server = (σ.sessions s).server
  live : (σ.sessions s).client = true ∧ (σ.sessions s).server = true
  lt : s < σ.sessionCount
  sessionCount : σ'.sessionCount = σ.sessionCount
  status : ∀ u, u ≠ t → (σ'.threads u).status = (σ.threads u).status
  thread : p.Fits (σ'.threads t).status

/-- An event is about one session, before and after it. -/
theorem Phase.next_session {q p : Phase} {e : Event} (h : q.next e = some p) :
    (q.session = none ∨ q.session = some e.session) ∧
      (p = .idle ∨ p.session = some e.session) := by
  cases q <;> cases e <;> simp only [Phase.next, reduceCtorEq, Option.ite_none_right_eq_some,
    Option.some.injEq] at h <;> simp [Phase.session, Event.session, ← h]

theorem Followed.moves (h : σ.Followed) {e : Event} {p : Phase}
    (hm : Moves e.client e.session p σ σ') (htrace : σ'.trace = σ.trace ++ [e])
    (hnext : ∀ φ, Requests φ σ → (φ e.client).next e = some p) (hlive : ∀ s, p ≠ .stranded s) :
    σ'.Followed := by
  obtain ⟨φ, hφ, hreq⟩ := h
  have hself : Function.update φ e.client p e.client = p := Function.update_self ..
  have hother : ∀ u, u ≠ e.client → Function.update φ e.client p u = φ u := fun u hu =>
    Function.update_of_ne hu ..
  have hold := hreq.sessions e.session
  refine ⟨Function.update φ e.client p, ?_, hreq.change (s := e.session) (fun u => ?_) hm.other
    ⟨fun u => ?_, hm.nodup, fun u => ?_, fun _ _ => ?_, fun u hu => ?_⟩ hm.sessionCount fun u => ?_⟩
  · rw [htrace]
    exact phasesAfter_concat hφ (by rw [hself]; exact hnext φ hreq) hother
  · by_cases hu : u = e.client
    · subst hu
      rw [hself]
      exact .inr ⟨hm.lt, Phase.next_session (hnext φ hreq)⟩
    · exact .inl (hother u hu)
  · rw [hm.pending]
    by_cases hu : u = e.client <;> simp [hu, hold.pending]
  · rw [hm.handled]
    by_cases hu : u = e.client <;> simp [hu, hold.handled]
  · rw [hm.ends.1, hm.ends.2]
    exact hm.live
  · by_cases hue : u = e.client
    · rw [hue, hself] at hu
      exact absurd hu (hlive _)
    · rw [hother u hue] at hu
      exact absurd hm.live (hold.stranded u hu)
  · by_cases hu : u = e.client
    · rw [hu, hself]
      exact hm.thread
    · rw [hother u hu, hm.status u hu]
      exact hreq.threads u

/-- The last pending request is taken up, when none is being handled. -/
theorem Followed.acquire (h : σ.Followed) {o : WaitObject} (hready : σ.shouldWait o = false) :
    (σ.acquire o).Followed := by
  cases o with
  | serverPort p => exact h
  | serverSession s =>
    simp only [System.acquire]
    split
    case isFalse => exact h
    case isTrue hclient =>
    split
    · exact h
    · rename_i t ht
      have hnone : (σ.sessions s).currentlyHandling = none := by
        simp only [shouldWait, hclient, Bool.true_and, Bool.or_eq_false_iff] at hready
        simpa using hready.2
      obtain ⟨rest, hlist⟩ : ∃ rest, (σ.sessions s).pendingRequestingThreads = rest ++ [t] :=
        List.getLast?_eq_some_iff.mp ht
      have hfollowed := h
      obtain ⟨φ₀, -, hreq₀⟩ := hfollowed
      have hnodup := (hreq₀.sessions s).nodup
      rw [hlist] at hnodup
      have hnot : t ∉ rest := fun hin => (List.nodup_append.mp hnodup).2.2 t hin t (by simp) rfl
      have hφt : ∀ φ, Requests φ σ → φ t = .pending s := fun φ hreq =>
        ((hreq.sessions s).pending t).mp (by rw [hlist]; simp)
      have hpending := hφt φ₀ hreq₀
      refine h.moves (e := .taken t s) (p := .handled s) ?_ rfl
        (fun φ hreq => by simp [Event.client, hφt φ hreq, Phase.next]) (by simp)
      refine ⟨fun s' hs => by simp [show s' ≠ s from hs], fun u => ?_, ?_, fun u => ?_,
        by simp [Event.session], (hreq₀.sessions s).ends t (.inl hpending),
        hreq₀.lt t s (by rw [hpending]; rfl), rfl, by simp,
        (hreq₀.threads t).imp_right fun hiff => hiff.trans (by simp [hpending])⟩
      · by_cases hu : u = t
        · subst hu
          simp [hlist, hnot, Event.client, Event.session]
        · simp [hlist, hu, Event.client, Event.session]
      · simpa [hlist, Event.session] using hnodup.of_append_left
      · by_cases hu : u = t
        · simp [hu, Event.client, Event.session]
        · simp [hu, Ne.symm hu, hnone, Event.client, Event.session]

theorem SameSleepers.resumeFromWait {t : Nat} (ht : (σ.threads t).status ≠ .waitIPC) :
    SameSleepers σ (σ.resumeFromWait t) := by
  rcases resumeFromWait_cases σ t with heq | ⟨hdead, heq⟩ <;> rw [heq]
  · exact .of_eq fun _ => rfl
  intro u
  by_cases hu : u = t
  · subst hu
    simp [ht, hdead]
  · by_cases hd : (σ.threads u).status = .dead <;> simp [hu, hd]

theorem Followed.resumeFromWait (h : σ.Followed) {t : Nat} (ht : (σ.threads t).status ≠ .waitIPC) :
    (σ.resumeFromWait t).Followed := by
  obtain ⟨-, -, hsessions, -, hcount, htrace⟩ := resumeFromWait_frame σ t
  exact h.congr htrace hcount (.of_eq hsessions) (.resumeFromWait ht)

/-- A turn of the wakeup loop moves no request but the one that is taken up. -/
theorem Followed.wakeup (h : σ.Followed) (hw : σ.Waits) {o : WaitObject} {t : Nat}
    (ht : σ.getHighestPriorityReadyThread o = some t) : (σ.wakeup o t).Followed := by
  obtain ⟨hin, hready⟩ := getHighestPriorityReadyThread_some ht
  obtain ⟨-, -, hcount, hsessions, htrace, hthreads⟩ := woken_frame σ o t
  have hwoken : (σ.woken o t).Followed :=
    (h.acquire hready).congr htrace (hcount.trans (acquire_frame σ o).2.2.2.1.symm)
      (.of_eq hsessions) (.of_eq fun u => by rw [(hthreads u).1, (acquire_frame σ o).1])
  have hlisted := (hw.woken o t).toListed
  rw [wakeup_eq]
  refine (hwoken.clearWaitObjects hlisted t).resumeFromWait ?_
  have hasleep : (σ.threads t).status = .waitSynchAny :=
    hw.asleep t (List.ne_nil_of_mem ((hw.mem_iff o t).mp hin))
  rw [clearWaitObjects_threads hlisted, Function.update_self]
  change ((σ.woken o t).threads t).status ≠ .waitIPC
  rw [(hthreads t).1, hasleep]
  decide

/-! ## The two ends -/

/-- Handles and waiting threads keep the ends they refer to, and ports keep theirs. -/
structure Ends (σ : System) : Prop where
  pending : ∀ p, ∀ s ∈ (σ.ports p).pendingSessions,
    (σ.sessions s).server = true ∧ (σ.sessions s).port = some p
  unused : ∀ s, (σ.sessions s).server = true → s < σ.sessionCount
  client : ∀ s, 0 < (σ.sessions s).clientHandles → (σ.sessions s).client = true
  server : ∀ s, 0 < (σ.sessions s).serverHandles ∨ σ.waitingThreads (.serverSession s) ≠ [] →
    (σ.sessions s).server = true

/-- A session keeps its server end, and its client end as long as that has handles. -/
def KeepsEnds (ss ss' : Session) : Prop :=
  ss'.server = ss.server ∧ ss'.port = ss.port ∧
    (0 < ss'.clientHandles → 0 < ss.clientHandles ∧ ss'.client = ss.client)

theorem KeepsEnds.refl (ss : Session) : KeepsEnds ss ss := ⟨rfl, rfl, fun h => ⟨h, rfl⟩⟩

/-- A change that makes nothing new: the same server ends, and no more of the rest. -/
theorem Ends.change (h : σ.Ends) (hcount : σ'.sessionCount = σ.sessionCount)
    (hpending : ∀ p, ∀ s ∈ (σ'.ports p).pendingSessions, s ∈ (σ.ports p).pendingSessions)
    (hsessions : ∀ s, KeepsEnds (σ.sessions s) (σ'.sessions s))
    (hserver : ∀ s, 0 < (σ'.sessions s).serverHandles ∨ σ'.waitingThreads (.serverSession s) ≠ [] →
      (0 < (σ.sessions s).serverHandles ∨ σ.waitingThreads (.serverSession s) ≠ []) ∨
        (σ.sessions s).server = true) : σ'.Ends where
  pending p s hs := by
    rw [(hsessions s).1, (hsessions s).2.1]
    exact h.pending p s (hpending p s hs)
  unused s hs := by
    rw [hcount]
    exact h.unused s ((hsessions s).1.symm.trans hs)
  client s hs := ((hsessions s).2.2 hs).2.trans (h.client s ((hsessions s).2.2 hs).1)
  server s hs := (hsessions s).1.trans ((hserver s hs).elim (h.server s) id)

theorem Ends.congr (h : σ.Ends) (hports : σ'.ports = σ.ports)
    (hcount : σ'.sessionCount = σ.sessionCount)
    (hsessions : ∀ s, SameEnds (σ.sessions s) (σ'.sessions s))
    (hwaiting : ∀ s, σ'.waitingThreads (.serverSession s) ≠ [] →
      σ.waitingThreads (.serverSession s) ≠ [] ∨ (σ.sessions s).server = true) : σ'.Ends := by
  refine h.change hcount (fun p s hs => by rwa [hports] at hs) (fun s => ?_) fun s hs => ?_
  · obtain ⟨hclient, hserver, hport, hhandles, -⟩ := hsessions s
    exact ⟨hserver, hport, fun hs => ⟨hhandles ▸ hs, hclient⟩⟩
  · rw [(hsessions s).2.2.2.2] at hs
    rcases hs with hh | hw
    · exact .inl (.inl hh)
    · exact (hwaiting s hw).imp_left .inr

/-- A server end goes away only without a reference to it. -/
theorem Ends.releaseServer (h : σ.Ends) (s : Nat) : (σ.releaseServer s).Ends := by
  unfold System.releaseServer
  split
  case isFalse => exact h
  case isTrue hgone =>
  obtain ⟨-, hhandles, hpending, hwaiting⟩ := hgone
  have hkept := kept_destroyServer σ s
  have hsame : ∀ u, u ≠ s → ((σ.destroyServer s).sessions u).server = (σ.sessions u).server := by
    intro u hu
    unfold System.destroyServer
    cases (σ.sessions s).port <;> simp [hu]
  constructor
  case pending =>
    intro p u hu
    rw [hkept.pendingSessions] at hu
    have hold := h.pending p u hu
    have hne : u ≠ s := by
      rintro rfl
      simp [isPending, hold.2, hu] at hpending
    rw [hkept.port, hsame u hne]
    exact hold
  case unused =>
    intro u hu
    rw [hkept.sessionCount]
    refine h.unused u ?_
    rwa [hsame u] at hu
    rintro rfl
    simp [System.destroyServer] at hu
  case client =>
    intro u hu
    rw [hkept.client]
    exact h.client u (by rwa [hkept.clientHandles] at hu)
  case server =>
    intro u hu
    rw [hkept.serverHandles, hkept.waitingThreads] at hu
    have hne : u ≠ s := by
      rintro rfl
      rcases hu with hu | hu
      · omega
      · exact hu hwaiting
    rw [hsame u hne]
    exact h.server u hu

theorem Ends.clearWaitObjects (h : σ.Ends) (hl : σ.Listed) (t : Nat) :
    (σ.clearWaitObjects t).Ends := by
  rw [clearWaitObjects_eq hl]
  refine releaseObjects_induction (P := Ends) (fun _ s h => h.releaseServer s) _ ?_
  refine h.congr rfl rfl (fun _ => .refl _) fun s hs => .inl fun hnil => hs ?_
  simp [unlisted, hnil]

theorem Ends.acquire (h : σ.Ends) (o : WaitObject) : (σ.acquire o).Ends := by
  obtain ⟨-, hwaiting, hports, hsessionCount, hsame⟩ := acquire_frame σ o
  exact h.congr hports hsessionCount hsame fun u hu => .inl (by rwa [hwaiting] at hu)

theorem Ends.resumeFromWait (h : σ.Ends) (t : Nat) : (σ.resumeFromWait t).Ends := by
  obtain ⟨hwaiting, hports, hsessions, -, hsessionCount, -⟩ := resumeFromWait_frame σ t
  exact h.congr hports hsessionCount
    (fun u => hsessions ▸ .refl _)
    fun u hu => .inl (by rwa [hwaiting] at hu)

theorem Ends.wakeup (h : σ.Ends) (hw : σ.Waits) (o : WaitObject) (t : Nat) :
    (σ.wakeup o t).Ends := by
  obtain ⟨hwaiting, hports, hsessionCount, hsessions, -, -⟩ := woken_frame σ o t
  obtain ⟨-, hwaiting', hports', hsessionCount', -⟩ := acquire_frame σ o
  rw [wakeup_eq]
  refine Ends.resumeFromWait (Ends.clearWaitObjects ?_ (hw.woken o t).toListed t) t
  refine (h.acquire o).congr (hports.trans hports'.symm) (hsessionCount.trans hsessionCount'.symm)
    (fun u => hsessions ▸ .refl _) fun u hu => .inl ?_
  rwa [hwaiting, ← hwaiting'] at hu

/-! ## All invariants together -/

/-- An object that a thread may sleep on: a port with nothing to accept, a session with a client. -/
def Worth (σ : System) : WaitObject → Prop
  | .serverPort p => (σ.ports p).pendingSessions = []
  | .serverSession s => (σ.sessions s).client = true

/-- Threads sleep only on objects that are worth it, `o` aside. -/
def SleepersBut (o : Option WaitObject) (σ : System) : Prop :=
  ∀ o', some o' ≠ o → σ.waitingThreads o' ≠ [] → σ.Worth o'

structure SoundBut (o : Option WaitObject) (σ : System) : Prop where
  followed : σ.Followed
  waits : σ.Waits
  ends : σ.Ends
  sleepers : SleepersBut o σ

/-- What holds between two operations. -/
abbrev Sound (σ : System) : Prop := SoundBut none σ

/-- Ports and clients are the same. -/
def SameWorth (σ σ' : System) : Prop :=
  (∀ p, (σ'.ports p).pendingSessions = (σ.ports p).pendingSessions) ∧
    ∀ s, (σ'.sessions s).client = (σ.sessions s).client

theorem SameWorth.iff (h : SameWorth σ σ') (o : WaitObject) : σ'.Worth o ↔ σ.Worth o := by
  cases o with
  | serverPort p => simp only [Worth, h.1]
  | serverSession s => simp only [Worth, h.2]

/-- Fewer waiting threads, on objects that stay as they are. -/
theorem SleepersBut.congr {o : Option WaitObject} (h : SleepersBut o σ) (hworth : SameWorth σ σ')
    (hwaiting : ∀ o', σ'.waitingThreads o' ≠ [] → σ.waitingThreads o' ≠ []) :
    SleepersBut o σ' :=
  fun o' ho' hne => (hworth.iff o').mpr (h o' ho' (hwaiting o' hne))

theorem sameWorth_clearWaitObjects (hl : σ.Listed) (t : Nat) :
    SameWorth σ (σ.clearWaitObjects t) := by
  have hkept := kept_releaseObjects (σ.threads t).waitObjects (σ.unlisted t)
  rw [← clearWaitObjects_eq hl] at hkept
  exact ⟨hkept.pendingSessions, hkept.client⟩

theorem sameWorth_wakeup (hw : σ.Waits) (o : WaitObject) (t : Nat) :
    SameWorth σ (σ.wakeup o t) := by
  obtain ⟨-, hports, -, hsessions, -, -⟩ := woken_frame σ o t
  obtain ⟨hpending, hclient⟩ := sameWorth_clearWaitObjects (hw.woken o t).toListed t
  obtain ⟨-, hports', hsessions', -⟩ := resumeFromWait_frame ((σ.woken o t).clearWaitObjects t) t
  rw [wakeup_eq]
  refine ⟨fun p => ?_, fun s => ?_⟩
  · rw [hports', hpending, hports]
  · rw [hsessions', hclient, hsessions]
    exact ((acquire_frame σ o).2.2.2.2 s).1

theorem SleepersBut.clearWaitObjects {o : Option WaitObject} (h : SleepersBut o σ)
    (hl : σ.Listed) (t : Nat) : SleepersBut o (σ.clearWaitObjects t) := by
  refine h.congr (sameWorth_clearWaitObjects hl t) fun o' hne hnil => hne ?_
  rw [clearWaitObjects_waitingThreads hl]
  simp [hnil]

theorem SleepersBut.resumeFromWait {o : Option WaitObject} (h : SleepersBut o σ) (t : Nat) :
    SleepersBut o (σ.resumeFromWait t) := by
  obtain ⟨hwaiting, hports, hsessions, -⟩ := resumeFromWait_frame σ t
  refine h.congr ⟨fun p => by rw [hports], fun s => by rw [hsessions]⟩ fun o' ho' => ?_
  rwa [hwaiting] at ho'

theorem SoundBut.wakeup {o' : Option WaitObject} (h : SoundBut o' σ) {o : WaitObject} {t : Nat}
    (ht : σ.getHighestPriorityReadyThread o = some t) : SoundBut o' (σ.wakeup o t) where
  followed := h.followed.wakeup h.waits ht
  waits := h.waits.wakeup o t
  ends := h.ends.wakeup h.waits o t
  sleepers := h.sleepers.congr (sameWorth_wakeup h.waits o t) fun o'' hne hnil => hne (by
    rw [wakeup_waitingThreads h.waits, hnil]
    rfl)

theorem SoundBut.wakeupAll {o' : Option WaitObject} (h : SoundBut o' σ) (o : WaitObject) :
    SoundBut o' (σ.wakeupAllWaitingThreads o) :=
  wakeupLoop_induction (fun _ _ h ht => h.wakeup ht) _ h

/-- Nobody sleeps any more on an object that stopped being worth it. -/
theorem SoundBut.wakeupAll_of_not_worth {o : WaitObject} (h : SoundBut (some o) σ)
    (hnot : ¬σ.Worth o) : (σ.wakeupAllWaitingThreads o).Sound := by
  have hall := h.wakeupAll o
  refine ⟨hall.followed, hall.waits, hall.ends, fun o' _ hne => ?_⟩
  by_cases ho : o' = o
  · subst ho
    refine absurd (getHighestPriorityReadyThread_none
      (wakeupLoop_none h.waits o' _ (Nat.le_refl _)) ?_) hne
    have hnot' : ¬(σ.wakeupAllWaitingThreads o').Worth o' :=
      (wakeupLoop_induction (P := fun σ => σ.Waits ∧ ¬σ.Worth o')
        (fun _ t hP _ => ⟨hP.1.wakeup o' t, fun hworth =>
          hP.2 (((sameWorth_wakeup hP.1 o' t).iff o').mp hworth)⟩) _ ⟨h.waits, hnot⟩).2
    change (σ.wakeupAllWaitingThreads o').shouldWait o' = false
    cases o' with
    | serverPort p => simpa [shouldWait, Worth] using hnot'
    | serverSession s =>
      have hclosed : ((σ.wakeupAllWaitingThreads (.serverSession s)).sessions s).client = false := by
        simpa [Worth] using hnot'
      simp [shouldWait, hclosed]
  · exact hall.sleepers o' (by simpa using ho) hne

end System

end AzaharPlus.Kernel.Sessions
