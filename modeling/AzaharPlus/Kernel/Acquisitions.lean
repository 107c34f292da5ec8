import AzaharPlus.Kernel.Wakeups

/-!
# What a thread takes

`WaitSynchronizationN` and `WakeupAllWaitingThreads` ask first whether all objects of a thread are
available, and take them afterwards one by one.  `acquisitions` lists the calls of `Acquire` that
an operation makes, each with the state at its moment.

A one-shot event or timer is available once, and a semaphore as often as its count says.  A list
of handles that names such an object more often than that passes the test, and one of the later
calls finds the object unavailable (`event_taken_twice`).

* `acquisitionsAll_available` — a list that names nothing more often than it lasts is taken from
  available objects only.
* `FrugalWaits` — the invariant: no thread sleeps on a list that names a thing of this kind twice.
* `acquires_available` — in every run whose lists are frugal, each call of `Acquire` finds its
  object available.
-/

namespace AzaharPlus.Kernel

/-- `Acquire` uses up objects of this kind. -/
def ObjectKind.spent : ObjectKind → Bool
  | .event .oneShot _ => true
  | .timer .oneShot _ => true
  | .semaphore _ _ => true
  | _ => false

/-- An object that is available can be taken so many times in a row. -/
def ObjectKind.Lasts (k : ObjectKind) (n : Nat) : Prop :=
  match k with
  | .event .oneShot _ => n ≤ 1
  | .timer .oneShot _ => n ≤ 1
  | .semaphore _ available => n ≤ available
  | _ => True

instance (k : ObjectKind) (n : Nat) : Decidable (k.Lasts n) := by
  unfold ObjectKind.Lasts
  split <;> infer_instance

/-- What threads that wait and wake up, and new threads, make of an object: it stays what it is,
and the count of a semaphore falls, though not below 0. -/
def ObjectKind.Becomes : ObjectKind → ObjectKind → Prop
  | .unused, k => k = .unused ∨ k = .thread
  | .thread, k => k = .thread
  | .mutex _ _ _, k => ∃ lockCount priority holder, k = .mutex lockCount priority holder
  | .event resetType _, k => ∃ signaled, k = .event resetType signaled
  | .semaphore maxCount available, k =>
      ∃ left, k = .semaphore maxCount left ∧ left ≤ available ∧ min available 0 ≤ left
  | .timer resetType _, k => ∃ signaled, k = .timer resetType signaled

theorem ObjectKind.Becomes.refl (k : ObjectKind) : k.Becomes k := by
  cases k with
  | unused => exact Or.inl rfl
  | thread => exact rfl
  | mutex lockCount priority holder => exact ⟨_, _, _, rfl⟩
  | event resetType signaled => exact ⟨_, rfl⟩
  | semaphore maxCount available => exact ⟨_, rfl, le_rfl, min_le_left _ _⟩
  | timer resetType signaled => exact ⟨_, rfl⟩

theorem ObjectKind.Becomes.trans {k₁ k₂ k₃ : ObjectKind} (h₁ : k₁.Becomes k₂)
    (h₂ : k₂.Becomes k₃) : k₁.Becomes k₃ := by
  cases k₁ with
  | unused =>
    rcases h₁ with rfl | rfl
    · exact h₂
    · exact Or.inr h₂
  | thread =>
    cases h₁
    exact h₂
  | mutex lockCount priority holder =>
    obtain ⟨_, _, _, rfl⟩ := h₁
    exact h₂
  | event resetType signaled =>
    obtain ⟨_, rfl⟩ := h₁
    exact h₂
  | semaphore maxCount available =>
    obtain ⟨left, rfl, h₃, h₄⟩ := h₁
    obtain ⟨rest, rfl, h₅, h₆⟩ := h₂
    exact ⟨rest, rfl, by omega, by omega⟩
  | timer resetType signaled =>
    obtain ⟨_, rfl⟩ := h₁
    exact h₂

theorem ObjectKind.Becomes.spent {k k' : ObjectKind} (h : k.Becomes k') (hk : k'.spent = true) :
    k.spent = true := by
  cases k with
  | unused => rcases h with rfl | rfl <;> cases hk
  | thread => cases h; cases hk
  | mutex lockCount priority holder =>
    obtain ⟨_, _, _, rfl⟩ := h
    cases hk
  | event resetType signaled =>
    obtain ⟨_, rfl⟩ := h
    cases resetType <;> first | rfl | cases hk
  | semaphore maxCount available => rfl
  | timer resetType signaled =>
    obtain ⟨_, rfl⟩ := h
    cases resetType <;> first | rfl | cases hk

namespace KernelSystem

/-! ## The calls of `Acquire` -/

/-- A call of `Acquire`, with the state at that moment. -/
structure Acquisition where
  state : KernelSystem
  object : Nat
  thread : Nat

/-- The object is there for the thread when it is taken. -/
def Acquisition.Available (a : Acquisition) : Prop := a.state.shouldWait a.object a.thread = false

/-- The calls of `acquireAll`. -/
def acquisitionsAll (s : KernelSystem) : List Nat → Nat → List Acquisition
  | [], _ => []
  | o :: objects, t => ⟨s, o, t⟩ :: (s.acquire o t).acquisitionsAll objects t

/-- The calls of `acquireFor`. -/
def acquisitionsFor (s : KernelSystem) (o t : Nat) : List Acquisition :=
  if (s.threads t).status = .waitSynchAll then s.acquisitionsAll (s.threads t).waitObjects t
  else [⟨s, o, t⟩]

/-- The calls of `wakeupLoop`. -/
def acquisitionsLoop (o : Nat) : Nat → KernelSystem → List Acquisition
  | 0, _ => []
  | turns + 1, s =>
      match s.getHighestPriorityReadyThread o with
      | none => []
      | some t => s.acquisitionsFor o t ++ acquisitionsLoop o turns (s.wakeupThread o t)

/-- The calls of `wakeupAllWaitingThreads`. -/
def acquisitionsWakeup (s : KernelSystem) (o : Nat) : List Acquisition :=
  acquisitionsLoop o (s.waitingThreads o).length s

/-- The calls of `freeMutex`. -/
def acquisitionsFree (s : KernelSystem) (m : Nat) : List Acquisition :=
  match s.kind m with
  | .mutex _ priority _ => (s.setKind m (.mutex 0 priority none)).acquisitionsWakeup m
  | _ => []

/-- The calls of the loop of `releaseThreadMutexes`. -/
def acquisitionsFreeAll (s : KernelSystem) : List Nat → List Acquisition
  | [] => []
  | m :: mutexes => s.acquisitionsFree m ++ (s.freeMutex m).acquisitionsFreeAll mutexes

/-- The calls of `releaseMutex`. -/
def acquisitionsRelease (s : KernelSystem) (m t : Nat) : List Acquisition :=
  match s.kind m with
  | .mutex (n + 1) priority (some holder) =>
      if holder ≠ t then []
      else if n ≠ 0 then []
      else
        ((((s.setKind m (.mutex 0 priority (some holder))).removeHeld t m).updatePriority t).setKind m
          (.mutex 0 priority none)).acquisitionsWakeup m
  | _ => []

/-- The calls of `stop`. -/
def acquisitionsStop (s : KernelSystem) (t : Nat) : List Acquisition :=
  let released := ((s.kill t).wakeupAllWaitingThreads t).leaveWaitObjects t
  (s.kill t).acquisitionsWakeup t ++
    released.acquisitionsFreeAll (released.threads t).heldMutexes.toList

/-- The calls of `signal`. -/
def acquisitionsSignal (s : KernelSystem) (o : Nat) : List Acquisition :=
  match s.kind o with
  | .event resetType _ => (s.setKind o (.event resetType true)).acquisitionsWakeup o
  | .timer resetType _ => (s.setKind o (.timer resetType true)).acquisitionsWakeup o
  | _ => []

/-- The calls of `releaseSemaphore`. -/
def acquisitionsSemaphore (s : KernelSystem) (o : Nat) (releaseCount : Int) : List Acquisition :=
  match s.kind o with
  | .semaphore maxCount available =>
      if maxCount < addS32 releaseCount available then []
      else (s.setKind o (.semaphore maxCount (addS32 available releaseCount))).acquisitionsWakeup o
  | _ => []

/-- The calls of `waitSynchronizationN`. -/
def acquisitionsN (s : KernelSystem) (t : Nat) (objects : List Nat) (waitAll : Bool) :
    List Acquisition :=
  if waitAll then
    if ∀ o ∈ objects, s.shouldWait o t = false then s.acquisitionsAll objects t else []
  else
    match objects.find? fun o => !s.shouldWait o t with
    | some o => [⟨s, o, t⟩]
    | none => []

/-- The calls that an operation makes. -/
def acquisitions (s : KernelSystem) : KernelOp → List Acquisition
  | .createMutex core address initialLocked =>
      match s.runningThread core with
      | some t => if initialLocked then [⟨s.setKind address (.mutex 0 0 none), address, t⟩] else []
      | none => []
  | .waitSynchronization1 core object _ =>
      match s.runningThread core with
      | some t => if s.shouldWait object t then [] else [⟨s, object, t⟩]
      | none => []
  | .waitSynchronizationN core objects waitAll _ =>
      match s.runningThread core with
      | some t => s.acquisitionsN t objects waitAll
      | none => []
  | .signal object => s.acquisitionsSignal object
  | .releaseSemaphore object releaseCount => s.acquisitionsSemaphore object releaseCount
  | .releaseMutex core object =>
      match s.runningThread core with
      | some t => s.acquisitionsRelease object t
      | none => []
  | .stop thread => s.acquisitionsStop thread
  | .exitCurrentThread core =>
      match s.runningThread core with
      | some t => s.acquisitionsStop t
      | none => []
  | _ => []

/-! ## The condition -/

/-- A list of handles that a thread wants all of names nothing more often than it lasts, and a
list that it goes to sleep with names nothing twice that is used up. -/
def FrugalList (s : KernelSystem) (t : Nat) (objects : List Nat) (nanoSeconds : Int) : Prop :=
  if ∀ o ∈ objects, s.shouldWait o t = false then
    ∀ o ∈ objects, (s.kind o).Lasts (objects.count o)
  else nanoSeconds ≠ 0 → ∀ o ∈ objects, (s.kind o).spent = true → objects.count o ≤ 1

/-- The operations that do not reach the defect. -/
def Frugal (s : KernelSystem) : KernelOp → Prop
  | .waitSynchronizationN core objects waitAll nanoSeconds =>
      waitAll = true → ∀ t ∈ s.runningThread core, s.FrugalList t objects nanoSeconds
  | _ => True

instance (s : KernelSystem) (t : Nat) (objects : List Nat) (nanoSeconds : Int) :
    Decidable (s.FrugalList t objects nanoSeconds) := by
  unfold FrugalList
  split <;> infer_instance

instance (s : KernelSystem) (op : KernelOp) : Decidable (s.Frugal op) := by
  cases op <;> unfold Frugal <;> infer_instance

/-- Several operations, as long as they are frugal. -/
def runFrugally (s : KernelSystem) : List KernelOp → Option KernelSystem
  | [] => some s
  | op :: ops => if s.Frugal op then (s.step op).bind fun s' => s'.runFrugally ops else none

/-- The states that frugal operations lead to. -/
inductive FrugallyReachable : KernelSystem → Prop
  | initial : FrugallyReachable initial
  | step {s s' : KernelSystem} (op : KernelOp) (h : FrugallyReachable s) (hf : s.Frugal op)
      (hs : s.step op = some s') : FrugallyReachable s'

theorem FrugallyReachable.reachable {s : KernelSystem} (h : s.FrugallyReachable) :
    s.Reachable := by
  induction h with
  | initial => exact .initial
  | step op _ _ hs ih => exact .step op ih hs

theorem FrugallyReachable.run {s s' : KernelSystem} (h : s.FrugallyReachable)
    {ops : List KernelOp} (hs : s.runFrugally ops = some s') : s'.FrugallyReachable := by
  induction ops generalizing s with
  | nil =>
    cases hs
    exact h
  | cons op ops ih =>
    unfold runFrugally at hs
    split at hs
    · rename_i hf
      obtain ⟨s₁, h₁, h₂⟩ := Option.bind_eq_some_iff.1 hs
      exact ih (h.step op hf h₁) h₂
    · cases hs

/-! ## Taking a list of objects -/

theorem kind_acquire_of_ne (s : KernelSystem) {o u : Nat} (t : Nat) (hu : u ≠ o) :
    (s.acquire o t).kind u = s.kind u := by
  have hset : ∀ k, (s.setKind o k).kind u = s.kind u := fun k => by rw [kind_setKind, if_neg hu]
  unfold acquire
  split
  · exact hset _
  · exact hset _
  · exact hset _
  · split
    · rfl
    · exact hset _
  · exact hset _
  · rfl

theorem shouldWait_acquire_of_ne (s : KernelSystem) {o u : Nat} (t v : Nat) (hu : u ≠ o) :
    (s.acquire o t).shouldWait u v = s.shouldWait u v :=
  shouldWait_congr (kind_acquire_of_ne s t hu) (by rw [(Follows.acquire s o t).status]) v

/-- An object that lasts can be taken once more. -/
theorem shouldWait_acquire {s : KernelSystem} {o t n : Nat} (hfree : s.shouldWait o t = false)
    (hlasts : (s.kind o).Lasts (n + 2)) :
    (s.acquire o t).shouldWait o t = false ∧ ((s.acquire o t).kind o).Lasts (n + 1) := by
  unfold acquire
  split
  · rename_i p holder hk
    have hkind : (((s.setKind o (.mutex 1 (s.threads t).currentPriority (some t))).addHeld t
        o).updatePriority t).kind o = .mutex 1 (s.threads t).currentPriority (some t) := by
      rw [kind_updatePriority, addHeld, kind_modifyThread, kind_setKind, if_pos rfl]
    rw [shouldWait, hkind]
    simp [ObjectKind.Lasts]
  · rename_i m p holder hk
    rw [shouldWait, hk] at hfree
    have hholder : holder = some t := by simpa using hfree
    simp [shouldWait, kind_setKind, hholder, ObjectKind.Lasts]
  · rename_i b hk
    rw [hk] at hlasts
    simp [ObjectKind.Lasts] at hlasts
  · rename_i maxCount available hk
    rw [hk] at hlasts
    have hn : (n : Int) + 2 ≤ available := by simpa [ObjectKind.Lasts] using hlasts
    rw [if_neg (by omega)]
    simp only [shouldWait, kind_setKind, if_true, ObjectKind.Lasts, decide_eq_false_iff_not]
    push_cast
    omega
  · rename_i b hk
    rw [hk] at hlasts
    simp [ObjectKind.Lasts] at hlasts
  · rename_i h₁ h₂ h₃ h₄ h₅
    refine ⟨hfree, ?_⟩
    unfold ObjectKind.Lasts
    split
    · rename_i b hk
      exact absurd hk (h₃ b)
    · rename_i b hk
      exact absurd hk (h₅ b)
    · rename_i m a hk
      exact absurd hk (h₄ m a)
    · trivial

/-- **A list that names nothing more often than it lasts is taken from available objects.** -/
theorem acquisitionsAll_available {s : KernelSystem} {l : List Nat} {t : Nat}
    (hfree : ∀ o ∈ l, s.shouldWait o t = false) (hlasts : ∀ o ∈ l, (s.kind o).Lasts (l.count o)) :
    ∀ a ∈ s.acquisitionsAll l t, a.Available := by
  induction l generalizing s with
  | nil => exact fun a ha => by cases ha
  | cons p l ih =>
    intro a ha
    rcases List.mem_cons.1 ha with rfl | ha
    · exact hfree p (List.mem_cons_self ..)
    · have hrest : ∀ o ∈ l, (s.acquire p t).shouldWait o t = false ∧
          ((s.acquire p t).kind o).Lasts (l.count o) := by
        intro o ho
        have hmem : o ∈ p :: l := List.mem_cons_of_mem p ho
        by_cases hop : o = p
        · subst hop
          obtain ⟨n, hn⟩ := Nat.exists_eq_add_of_le' (List.count_pos_iff.2 ho)
          have hcount := hlasts o hmem
          rw [List.count_cons_self, hn] at hcount
          rw [hn]
          exact shouldWait_acquire (hfree o hmem) hcount
        · rw [shouldWait_acquire_of_ne s t t hop, kind_acquire_of_ne s t hop]
          have hcount := hlasts o hmem
          rw [List.count_cons_of_ne (Ne.symm hop)] at hcount
          exact ⟨hfree o hmem, hcount⟩
      exact ih (fun o ho => (hrest o ho).1) (fun o ho => (hrest o ho).2) a ha

/-- What is not used up lasts, and what is available lasts for one time. -/
theorem lasts_of_frugal {s : KernelSystem} {o t n : Nat} (hfree : s.shouldWait o t = false)
    (hn : (s.kind o).spent = true → n ≤ 1) : (s.kind o).Lasts n := by
  unfold shouldWait at hfree
  unfold ObjectKind.Lasts
  split
  · rename_i hk
    exact hn (by rw [hk]; rfl)
  · rename_i hk
    exact hn (by rw [hk]; rfl)
  · rename_i maxCount available hk
    have hle := hn (by rw [hk]; rfl)
    rw [hk] at hfree
    have hpos : ¬ available ≤ 0 := by simpa using hfree
    omega
  · trivial

/-! ## Threads asleep -/

/-- No thread that waits for all its objects names one twice that is used up. -/
def FrugalWaits (s : KernelSystem) : Prop :=
  ∀ t, (s.threads t).status = .waitSynchAll → ∀ o ∈ (s.threads t).waitObjects,
    (s.kind o).spent = true → (s.threads t).waitObjects.count o ≤ 1

/-- The thread that `GetHighestPriorityReadyThread` finds can wake up. -/
theorem getHighestPriorityReadyThread_canWake {s : KernelSystem} {o t : Nat}
    (h : s.getHighestPriorityReadyThread o = some t) : s.CanWake o t := by
  have hfold : ∀ (l : List Nat) (c : Option Nat × Nat),
      (l.foldl (s.considerThread o) c).1 = some t → c.1 = some t ∨ s.CanWake o t := by
    intro l
    induction l with
    | nil => exact fun c hc => Or.inl hc
    | cons u l ih =>
      intro c hc
      rcases ih _ hc with hc | hc
      · unfold considerThread at hc
        split at hc
        · exact Or.inl hc
        · split at hc
          · exact Or.inl hc
          · rename_i hw
            split at hc
            · rename_i hr
              cases hc
              exact Or.inr ⟨by simpa using hw, hr⟩
            · exact Or.inl hc
      · exact Or.inr hc
  rcases hfold _ _ h with hc | hc
  · cases hc
  · exact hc

theorem FrugalWaits.acquisitionsFor {s : KernelSystem} (h : s.FrugalWaits) {o t : Nat}
    (hcan : s.CanWake o t) : ∀ a ∈ s.acquisitionsFor o t, a.Available := by
  intro a ha
  unfold KernelSystem.acquisitionsFor at ha
  split at ha
  · rename_i hall
    have hfree := readyToRun_iff.1 hcan.2 hall
    exact acquisitionsAll_available hfree
      (fun o' ho' => lasts_of_frugal (hfree o' ho') (h t hall o' ho')) a ha
  · rw [List.mem_singleton.1 ha]
    exact hcan.1

/-- No thread goes to sleep with a new list, and objects change as `Becomes` says. -/
structure Keeps (s s' : KernelSystem) : Prop where
  kinds : ∀ o, (s.kind o).Becomes (s'.kind o)
  waits : ∀ t, (s'.threads t).status = .waitSynchAll → (s.threads t).status = .waitSynchAll ∧
    ((s'.threads t).waitObjects = (s.threads t).waitObjects ∨ (s'.threads t).waitObjects = [])

theorem Keeps.refl (s : KernelSystem) : Keeps s s :=
  ⟨fun o => .refl (s.kind o), fun _ h => ⟨h, Or.inl rfl⟩⟩

theorem Keeps.trans {s₁ s₂ s₃ : KernelSystem} (h₁ : Keeps s₁ s₂) (h₂ : Keeps s₂ s₃) :
    Keeps s₁ s₃ := by
  refine ⟨fun o => (h₁.kinds o).trans (h₂.kinds o), fun t ht => ?_⟩
  obtain ⟨hs₂, hw₂⟩ := h₂.waits t ht
  obtain ⟨hs₁, hw₁⟩ := h₁.waits t hs₂
  refine ⟨hs₁, ?_⟩
  rcases hw₂ with hw₂ | hw₂
  · rw [hw₂]
    exact hw₁
  · exact Or.inr hw₂

theorem FrugalWaits.keeps {s s' : KernelSystem} (h : s.FrugalWaits) (hk : Keeps s s') :
    s'.FrugalWaits := by
  intro t ht o ho hspent
  obtain ⟨hs, hw | hw⟩ := hk.waits t ht
  · rw [hw] at ho ⊢
    exact h t hs o ho ((hk.kinds o).spent hspent)
  · rw [hw] at ho
    cases ho

theorem Follows.keeps {s s' : KernelSystem} (hf : Follows s s')
    (hkinds : ∀ o, (s.kind o).Becomes (s'.kind o)) : Keeps s s' :=
  ⟨hkinds, fun t ht => ⟨hf.status t ▸ ht, Or.inl (hf.waitObjects t)⟩⟩

/-- Steps that change no object. -/
theorem Follows.keeps_of_kind {s s' : KernelSystem} (hf : Follows s s') (hkind : s'.kind = s.kind) :
    Keeps s s' :=
  hf.keeps fun o => by rw [hkind]; exact .refl _

/-! ## What becomes of the objects -/

theorem becomes_setKind {s : KernelSystem} {o : Nat} {k : ObjectKind}
    (hk : (s.kind o).Becomes k) (u : Nat) : (s.kind u).Becomes ((s.setKind o k).kind u) := by
  rw [kind_setKind]
  split
  · rename_i hu
    rw [hu]
    exact hk
  · exact .refl _

theorem becomes_mutexUpdatePriority (s : KernelSystem) (m u : Nat) :
    (s.kind u).Becomes ((s.mutexUpdatePriority m).kind u) := by
  unfold mutexUpdatePriority
  split
  · rename_i hk
    split
    · exact becomes_setKind (by rw [hk]; exact ⟨_, _, _, rfl⟩) u
    · exact .refl _
  · exact .refl _

theorem becomes_addWaitingThread (s : KernelSystem) (o t u : Nat) :
    (s.kind u).Becomes ((s.addWaitingThread o t).kind u) := by
  unfold addWaitingThread
  split
  · have h := becomes_mutexUpdatePriority ((s.enterWaitingThreads o t).addPending t o) o u
    rwa [addPending, kind_modifyThread, kind_enterWaitingThreads] at h
  · rw [kind_enterWaitingThreads]
    exact .refl _

theorem becomes_removeWaitingThread (s : KernelSystem) (o t u : Nat) :
    (s.kind u).Becomes ((s.removeWaitingThread o t).kind u) := by
  unfold removeWaitingThread
  split
  · exact becomes_mutexUpdatePriority ((s.leaveWaitingThreads o t).removePending t o) o u
  · exact .refl _

theorem becomes_acquire (s : KernelSystem) (o t u : Nat) :
    (s.kind u).Becomes ((s.acquire o t).kind u) := by
  unfold acquire
  split
  · rename_i hk
    exact becomes_setKind (by rw [hk]; exact ⟨_, _, _, rfl⟩) u
  · rename_i hk
    exact becomes_setKind (by rw [hk]; exact ⟨_, _, _, rfl⟩) u
  · rename_i hk
    exact becomes_setKind (by rw [hk]; exact ⟨_, rfl⟩) u
  · rename_i hk
    split
    · exact .refl _
    · exact becomes_setKind (by rw [hk]; exact ⟨_, rfl, by omega, by omega⟩) u
  · rename_i hk
    exact becomes_setKind (by rw [hk]; exact ⟨_, rfl⟩) u
  · exact .refl _

/-- A loop over functions that change the objects so. -/
theorem becomes_foldl {f : KernelSystem → Nat → KernelSystem}
    (hf : ∀ (s : KernelSystem) (a u : Nat), (s.kind u).Becomes ((f s a).kind u))
    (s : KernelSystem) (l : List Nat) (u : Nat) : (s.kind u).Becomes ((l.foldl f s).kind u) := by
  induction l generalizing s with
  | nil => exact .refl _
  | cons a l ih => exact (hf s a u).trans (ih _)

theorem Keeps.acquire (s : KernelSystem) (o t : Nat) : Keeps s (s.acquire o t) :=
  (Follows.acquire s o t).keeps (becomes_acquire s o t)

theorem Keeps.acquireAll (s : KernelSystem) (l : List Nat) (t : Nat) :
    Keeps s (s.acquireAll l t) :=
  (Follows.acquireAll s l t).keeps (becomes_foldl (fun s o => becomes_acquire s o t) s l)

theorem Keeps.acquireFor (s : KernelSystem) (o t : Nat) : Keeps s (s.acquireFor o t) := by
  unfold KernelSystem.acquireFor
  split
  · exact Keeps.acquireAll s _ t
  · exact Keeps.acquire s o t

theorem Keeps.setKind {s : KernelSystem} {o : Nat} {k : ObjectKind} (hk : (s.kind o).Becomes k) :
    Keeps s (s.setKind o k) :=
  ⟨becomes_setKind hk, fun _ h => ⟨h, Or.inl rfl⟩⟩

theorem Keeps.leaveWaitObjects (s : KernelSystem) (t : Nat) : Keeps s (s.leaveWaitObjects t) := by
  refine ⟨becomes_foldl (fun s o => becomes_removeWaitingThread s o t) s
    (s.threads t).waitObjects, fun u hu => ?_⟩
  · obtain ⟨hs, hw⟩ := threads_leaveWaitObjects s t u
    refine ⟨hs ▸ hu, ?_⟩
    rw [hw]
    split
    · exact Or.inr rfl
    · exact Or.inl rfl

theorem Keeps.resumeFromWait (s : KernelSystem) (t : Nat) : Keeps s (s.resumeFromWait t) := by
  refine ⟨fun o => by rw [(resumeFromWait_frame s t).1]; exact .refl _, fun u hu => ?_⟩
  obtain ⟨hw, -, hs⟩ := threads_resumeFromWait s t u
  by_cases hut : u = t
  · subst hut
    exact absurd (Or.inr (Or.inl hu)) (awake_resumeFromWait s u)
  · exact ⟨hs hut ▸ hu, Or.inl hw⟩

theorem Keeps.wakeupThread (s : KernelSystem) (o t : Nat) : Keeps s (s.wakeupThread o t) :=
  ((Keeps.acquireFor s o t).trans (Keeps.leaveWaitObjects _ t)).trans (Keeps.resumeFromWait _ t)

theorem Keeps.wakeupLoop (s : KernelSystem) (o turns : Nat) : Keeps s (wakeupLoop o turns s) := by
  induction turns generalizing s with
  | zero => exact Keeps.refl s
  | succ turns ih =>
    unfold KernelSystem.wakeupLoop
    split
    · exact Keeps.refl s
    · exact (Keeps.wakeupThread s o _).trans (ih _)

theorem becomes_endPulse (s : KernelSystem) (o u : Nat) :
    (s.kind u).Becomes ((s.endPulse o).kind u) := by
  unfold endPulse
  split
  · rename_i hk
    exact becomes_setKind (by rw [hk]; exact ⟨_, rfl⟩) u
  · rename_i hk
    exact becomes_setKind (by rw [hk]; exact ⟨_, rfl⟩) u
  · exact .refl _

theorem Keeps.wakeupAllWaitingThreads (s : KernelSystem) (o : Nat) :
    Keeps s (s.wakeupAllWaitingThreads o) :=
  (Keeps.wakeupLoop s o _).trans ((Follows.endPulse _ o).keeps (becomes_endPulse _ o))

/-- An object changes and the threads that wait for it are woken. -/
theorem Keeps.change {s : KernelSystem} {o : Nat} {k : ObjectKind} (hk : (s.kind o).Becomes k) :
    Keeps s ((s.setKind o k).wakeupAllWaitingThreads o) :=
  (Keeps.setKind hk).trans (Keeps.wakeupAllWaitingThreads _ o)

theorem Keeps.freeMutex (s : KernelSystem) (m : Nat) : Keeps s (s.freeMutex m) := by
  unfold KernelSystem.freeMutex
  split
  · rename_i hk
    exact Keeps.change (by rw [hk]; exact ⟨_, _, _, rfl⟩)
  · exact Keeps.refl s

theorem Keeps.freeMutexes (s : KernelSystem) (l : List Nat) :
    Keeps s (l.foldl KernelSystem.freeMutex s) := by
  induction l generalizing s with
  | nil => exact Keeps.refl s
  | cons m l ih => exact (Keeps.freeMutex s m).trans (ih _)

theorem Keeps.modifyThread (s : KernelSystem) (t : Nat) {f : Thread → Thread}
    (hf : ∀ th, (f th).status = th.status ∧ (f th).waitObjects = th.waitObjects) :
    Keeps s (s.modifyThread t f) :=
  (Follows.modifyThread s t hf).keeps_of_kind rfl

theorem Keeps.releaseThreadMutexes (s : KernelSystem) (t : Nat) :
    Keeps s (s.releaseThreadMutexes t) := by
  unfold KernelSystem.releaseThreadMutexes clearHeld
  exact (Keeps.freeMutexes s _).trans (Keeps.modifyThread _ t fun _ => ⟨rfl, rfl⟩)

theorem Keeps.kill (s : KernelSystem) (t : Nat) : Keeps s (s.kill t) := by
  obtain ⟨hkind, -, hthreads⟩ := kill_frame s t
  refine ⟨fun o => by rw [hkind]; exact .refl _, fun u hu => ?_⟩
  rw [hthreads] at hu ⊢
  split at hu
  · cases hu
  · rename_i hut
    rw [if_neg hut]
    exact ⟨hu, Or.inl rfl⟩

/-- A thread that is stopped has let go of the objects it waited for. -/
theorem Keeps.let_go (s : KernelSystem) (t : Nat) :
    Keeps s (((s.kill t).wakeupAllWaitingThreads t).leaveWaitObjects t) :=
  ((Keeps.kill s t).trans (Keeps.wakeupAllWaitingThreads _ t)).trans (Keeps.leaveWaitObjects _ t)

theorem Keeps.stop (s : KernelSystem) (t : Nat) : Keeps s (s.stop t) :=
  (Keeps.let_go s t).trans (Keeps.releaseThreadMutexes _ t)

/-- The writes of `Mutex::Release` up to the one that sets the mutex free. -/
theorem Keeps.unlock {s : KernelSystem} {m : Nat} (t : Nat) {n p n' p' : Nat} {x x' : Option Nat}
    (hk : s.kind m = .mutex n p x) :
    Keeps s (((s.setKind m (.mutex n' p' x')).removeHeld t m).updatePriority t) ∧
      (((s.setKind m (.mutex n' p' x')).removeHeld t m).updatePriority t).kind m =
        .mutex n' p' x' := by
  have hset : Keeps s (s.setKind m (.mutex n' p' x')) :=
    Keeps.setKind (by rw [hk]; exact ⟨_, _, _, rfl⟩)
  have hheld : Keeps (s.setKind m (.mutex n' p' x'))
      ((s.setKind m (.mutex n' p' x')).removeHeld t m) :=
    Keeps.modifyThread _ t fun _ => ⟨rfl, rfl⟩
  refine ⟨(hset.trans hheld).trans ((Follows.updatePriority _ t).keeps_of_kind rfl), ?_⟩
  rw [kind_updatePriority, removeHeld, kind_modifyThread, kind_setKind, if_pos rfl]

theorem Keeps.releaseMutex (s : KernelSystem) (m t : Nat) : Keeps s (s.releaseMutex m t) := by
  unfold KernelSystem.releaseMutex
  split
  · rename_i n priority holder hk
    split
    · exact Keeps.refl s
    · split
      · exact Keeps.setKind (by rw [hk]; exact ⟨_, _, _, rfl⟩)
      · obtain ⟨hkeeps, hkind⟩ :
            Keeps s (((s.setKind m (.mutex 0 priority (some holder))).removeHeld t
              m).updatePriority t) ∧ _ := Keeps.unlock t hk
        exact hkeeps.trans (Keeps.change (by rw [hkind]; exact ⟨_, _, _, rfl⟩))
  · exact Keeps.refl s

theorem Keeps.signal (s : KernelSystem) (o : Nat) : Keeps s (s.signal o) := by
  unfold KernelSystem.signal
  split
  · rename_i resetType b hk
    exact Keeps.change (by rw [hk]; exact ⟨_, rfl⟩)
  · rename_i resetType b hk
    exact Keeps.change (by rw [hk]; exact ⟨_, rfl⟩)
  · exact Keeps.refl s

theorem Keeps.clear (s : KernelSystem) (o : Nat) : Keeps s (s.clear o) := by
  unfold KernelSystem.clear
  split
  · rename_i resetType b hk
    exact Keeps.setKind (by rw [hk]; exact ⟨_, rfl⟩)
  · rename_i resetType b hk
    exact Keeps.setKind (by rw [hk]; exact ⟨_, rfl⟩)
  · exact Keeps.refl s

theorem Keeps.threadWakeupCallback (s : KernelSystem) (t : Nat) :
    Keeps s (s.threadWakeupCallback t) := by
  have hleave : Keeps s ((s.leaveWaitObjects t).resumeFromWait t) :=
    (Keeps.leaveWaitObjects s t).trans (Keeps.resumeFromWait _ t)
  unfold KernelSystem.threadWakeupCallback
  split
  · exact hleave
  · exact hleave
  · exact hleave
  · exact hleave
  · exact Keeps.resumeFromWait s t

theorem Keeps.setThreadPriority (s : KernelSystem) (t priority : Nat) :
    Keeps s (s.setThreadPriority t priority) := by
  refine (Follows.setThreadPriority s t priority).1.keeps fun o => ?_
  unfold KernelSystem.setThreadPriority
  split
  · exact .refl _
  · exact becomes_foldl (fun s m => becomes_mutexUpdatePriority s m)
      ((s.setPriority t priority).updatePriority t) _ o

theorem Keeps.createThread {s : KernelSystem} {address : Nat} (ha : s.kind address = .unused)
    (priority processorId : Nat) (makeReady : Bool) :
    Keeps s (s.createThread address priority processorId makeReady) := by
  by_cases herr : threadPrioLowest < priority ∨ threadProcessorIdMax < processorId
  · unfold KernelSystem.createThread
    rw [if_pos herr]
    exact Keeps.refl s
  obtain ⟨-, hkind, hothers, hnew⟩ := createThread_frame s address makeReady herr
  refine ⟨fun o => ?_, fun t ht => ?_⟩
  · rw [hkind]
    split
    · rename_i ho
      rw [ho, ha]
      exact Or.inr rfl
    · exact .refl _
  · by_cases hta : t = address
    · rw [hta, hnew] at ht
      cases makeReady <;> cases ht
    · rw [hothers t hta] at ht ⊢
      exact ⟨ht, Or.inl rfl⟩

theorem Switched.keeps {s s' : KernelSystem} (h : Switched s s') : Keeps s s' := by
  refine ⟨fun o => by rw [h.kind]; exact .refl _, fun t ht => ?_⟩
  rcases h.status t with hs | ⟨-, hfree⟩
  · exact ⟨hs ▸ ht, Or.inl (h.waitObjects t)⟩
  · exact absurd (Or.inr (Or.inl ht)) hfree.1

theorem Keeps.setStatus (s : KernelSystem) (t : Nat) {status : ThreadStatus}
    (hstatus : status ≠ .waitSynchAll) : Keeps s (s.setStatus t status) := by
  refine ⟨fun _ => .refl _, fun u hu => ?_⟩
  rw [KernelSystem.setStatus, threads_modifyThread] at hu ⊢
  split at hu
  · exact absurd hu hstatus
  · rename_i hut
    rw [if_neg hut]
    exact ⟨hu, Or.inl rfl⟩

theorem becomes_waitFor (s : KernelSystem) (t : Nat) (objects : List Nat) (status : ThreadStatus)
    (u : Nat) : (s.kind u).Becomes ((s.waitFor t objects status).kind u) :=
  becomes_foldl (fun s o => becomes_addWaitingThread s o t) (s.setStatus t status) objects u

/-- A thread goes to sleep. -/
theorem FrugalWaits.waitFor {s : KernelSystem} (h : s.FrugalWaits) (t : Nat) {objects : List Nat}
    {status : ThreadStatus}
    (hlist : status = .waitSynchAll →
      ∀ o ∈ objects, (s.kind o).spent = true → objects.count o ≤ 1) :
    (s.waitFor t objects status).FrugalWaits := by
  intro u hu o ho hspent
  obtain ⟨hs, hw⟩ := threads_waitFor s t objects status u
  have hkind : (s.kind o).Becomes ((s.waitFor t objects status).kind o) :=
    becomes_waitFor s t objects status o
  have hspent := hkind.spent hspent
  rw [hs] at hu
  rw [hw] at ho ⊢
  split at hu
  · rename_i hut
    rw [if_pos hut] at ho ⊢
    exact hlist hu o ho hspent
  · rename_i hut
    rw [if_neg hut] at ho ⊢
    exact h u hu o ho hspent

/-- Nobody waits for an object that is created. -/
theorem FrugalWaits.create {s : KernelSystem} (h : s.FrugalWaits) (hrest : s.AtRest)
    {address : Nat} (ha : s.kind address = .unused) (k : ObjectKind) :
    (s.setKind address k).FrugalWaits := by
  intro t ht o ho hspent
  have hne : o ≠ address := by
    rintro rfl
    exact hrest.waits.unused t o ho ha
  rw [kind_setKind, if_neg hne] at hspent
  exact h t ht o ho hspent

/-! ## The calls of each operation -/

/-- The loop takes available objects only. -/
theorem FrugalWaits.acquisitionsLoop {s : KernelSystem} (h : s.FrugalWaits) (o turns : Nat) :
    ∀ a ∈ acquisitionsLoop o turns s, a.Available := by
  induction turns generalizing s with
  | zero => exact fun a ha => by cases ha
  | succ turns ih =>
    intro a ha
    unfold KernelSystem.acquisitionsLoop at ha
    split at ha
    · cases ha
    · rename_i t hsome
      rcases List.mem_append.1 ha with ha | ha
      · exact h.acquisitionsFor (getHighestPriorityReadyThread_canWake hsome) a ha
      · exact ih (h.keeps (Keeps.wakeupThread s o t)) a ha

theorem FrugalWaits.acquisitionsWakeup {s : KernelSystem} (h : s.FrugalWaits) (o : Nat) :
    ∀ a ∈ s.acquisitionsWakeup o, a.Available :=
  h.acquisitionsLoop o _

/-- An object changes to one of the same sort. -/
theorem FrugalWaits.setKind {s : KernelSystem} (h : s.FrugalWaits) {o : Nat} {k : ObjectKind}
    (hk : k.spent = (s.kind o).spent) : (s.setKind o k).FrugalWaits := by
  intro t ht u hu hspent
  rw [kind_setKind] at hspent
  split at hspent
  · rename_i huo
    exact h t ht u hu (by rw [huo, ← hk]; exact hspent)
  · exact h t ht u hu hspent

theorem FrugalWaits.acquisitionsChange {s : KernelSystem} (h : s.FrugalWaits) {o : Nat}
    {k : ObjectKind} (hk : k.spent = (s.kind o).spent) :
    ∀ a ∈ (s.setKind o k).acquisitionsWakeup o, a.Available :=
  (h.setKind hk).acquisitionsWakeup o

theorem FrugalWaits.acquisitionsFree {s : KernelSystem} (h : s.FrugalWaits) (m : Nat) :
    ∀ a ∈ s.acquisitionsFree m, a.Available := by
  unfold KernelSystem.acquisitionsFree
  split
  · rename_i hk
    exact h.acquisitionsChange (by rw [hk]; rfl)
  · exact fun a ha => by cases ha

theorem FrugalWaits.acquisitionsFreeAll {s : KernelSystem} (h : s.FrugalWaits) (l : List Nat) :
    ∀ a ∈ s.acquisitionsFreeAll l, a.Available := by
  induction l generalizing s with
  | nil => exact fun a ha => by cases ha
  | cons m l ih =>
    intro a ha
    rcases List.mem_append.1 ha with ha | ha
    · exact h.acquisitionsFree m a ha
    · exact ih (h.keeps (Keeps.freeMutex s m)) a ha

theorem FrugalWaits.acquisitionsStop {s : KernelSystem} (h : s.FrugalWaits) (t : Nat) :
    ∀ a ∈ s.acquisitionsStop t, a.Available := by
  intro a ha
  rcases List.mem_append.1 ha with ha | ha
  · exact (h.keeps (Keeps.kill s t)).acquisitionsWakeup t a ha
  · exact (h.keeps (Keeps.let_go s t)).acquisitionsFreeAll _ a ha

theorem FrugalWaits.acquisitionsRelease {s : KernelSystem} (h : s.FrugalWaits) (m t : Nat) :
    ∀ a ∈ s.acquisitionsRelease m t, a.Available := by
  unfold KernelSystem.acquisitionsRelease
  split
  · rename_i n priority holder hk
    split
    · exact fun a ha => by cases ha
    · split
      · exact fun a ha => by cases ha
      · obtain ⟨hkeeps, hkind⟩ :
            Keeps s (((s.setKind m (.mutex 0 priority (some holder))).removeHeld t
              m).updatePriority t) ∧ _ := Keeps.unlock t hk
        exact (h.keeps hkeeps).acquisitionsChange (by rw [hkind]; rfl)
  · exact fun a ha => by cases ha

theorem FrugalWaits.acquisitionsSignal {s : KernelSystem} (h : s.FrugalWaits) (o : Nat) :
    ∀ a ∈ s.acquisitionsSignal o, a.Available := by
  unfold KernelSystem.acquisitionsSignal
  split
  · rename_i resetType b hk
    exact h.acquisitionsChange (by rw [hk]; cases resetType <;> rfl)
  · rename_i resetType b hk
    exact h.acquisitionsChange (by rw [hk]; cases resetType <;> rfl)
  · exact fun a ha => by cases ha

theorem FrugalWaits.acquisitionsSemaphore {s : KernelSystem} (h : s.FrugalWaits) (o : Nat)
    (releaseCount : Int) : ∀ a ∈ s.acquisitionsSemaphore o releaseCount, a.Available := by
  unfold KernelSystem.acquisitionsSemaphore
  split
  · rename_i hk
    split
    · exact fun a ha => by cases ha
    · exact h.acquisitionsChange (by rw [hk]; rfl)
  · exact fun a ha => by cases ha

theorem FrugalWaits.releaseSemaphore {s : KernelSystem} (h : s.FrugalWaits) (o : Nat)
    (releaseCount : Int) : (s.releaseSemaphore o releaseCount).FrugalWaits := by
  unfold KernelSystem.releaseSemaphore
  split
  · rename_i hk
    split
    · exact h
    · exact (h.setKind (by rw [hk]; rfl)).keeps (Keeps.wakeupAllWaitingThreads _ o)
  · exact h

theorem acquisitionsN_available {s : KernelSystem} {t : Nat} {objects : List Nat} {waitAll : Bool}
    {nanoSeconds : Int} (hlist : waitAll = true → s.FrugalList t objects nanoSeconds) :
    ∀ a ∈ s.acquisitionsN t objects waitAll, a.Available := by
  unfold acquisitionsN
  split
  · rename_i hall
    split
    · rename_i hfree
      have hlasts := hlist hall
      rw [FrugalList, if_pos hfree] at hlasts
      exact acquisitionsAll_available hfree hlasts
    · exact fun a ha => by cases ha
  · split
    · rename_i o hfind
      intro a ha
      rw [List.mem_singleton.1 ha]
      have hfree := List.find?_some hfind
      simpa [Acquisition.Available] using hfree
    · exact fun a ha => by cases ha

/-- What a frugal operation takes is available. -/
theorem FrugalWaits.acquisitions {s : KernelSystem} (h : s.FrugalWaits) {op : KernelOp}
    (hop : s.Frugal op) : ∀ a ∈ s.acquisitions op, a.Available := by
  cases op with
  | createMutex core address initialLocked =>
    simp only [KernelSystem.acquisitions]
    split
    · split
      · intro a ha
        rw [List.mem_singleton.1 ha]
        simp [Acquisition.Available, KernelSystem.shouldWait, kind_setKind]
      · exact fun a ha => by cases ha
    · exact fun a ha => by cases ha
  | waitSynchronization1 core object nanoSeconds =>
    simp only [KernelSystem.acquisitions]
    split
    · split
      · exact fun a ha => by cases ha
      · rename_i hfree
        intro a ha
        rw [List.mem_singleton.1 ha]
        simpa [Acquisition.Available] using hfree
    · exact fun a ha => by cases ha
  | waitSynchronizationN core objects waitAll nanoSeconds =>
    simp only [KernelSystem.acquisitions]
    split
    · rename_i t ht
      exact acquisitionsN_available fun hall => hop hall t ht
    · exact fun a ha => by cases ha
  | signal object => exact h.acquisitionsSignal object
  | releaseSemaphore object releaseCount => exact h.acquisitionsSemaphore object releaseCount
  | releaseMutex core object =>
    simp only [KernelSystem.acquisitions]
    split
    · exact h.acquisitionsRelease object _
    · exact fun a ha => by cases ha
  | stop thread => exact h.acquisitionsStop thread
  | exitCurrentThread core =>
    simp only [KernelSystem.acquisitions]
    split
    · exact h.acquisitionsStop _
    · exact fun a ha => by cases ha
  | _ => exact fun a ha => by cases ha

/-! ## Every run -/

theorem FrugalWaits.waitSynchronizationN {s : KernelSystem} (h : s.FrugalWaits) {t : Nat}
    {objects : List Nat} {waitAll : Bool} {nanoSeconds : Int}
    (hlist : waitAll = true → s.FrugalList t objects nanoSeconds) :
    (s.waitSynchronizationN t objects waitAll nanoSeconds).FrugalWaits := by
  unfold KernelSystem.waitSynchronizationN
  split
  · rename_i hall
    split
    · exact h.keeps (Keeps.acquireAll s objects t)
    · rename_i hsome
      split
      · exact h
      · rename_i hnano
        have honce := hlist hall
        rw [FrugalList, if_neg hsome] at honce
        exact h.waitFor t fun _ => honce hnano
  · split
    · exact h.keeps (Keeps.acquire s _ t)
    · split
      · exact h
      · exact h.waitFor t (by simp)

/-- Every operation changes the objects as `Becomes` says, and lets nobody sleep with a new list,
but for those that create an object, wait for objects or release a semaphore. -/
def Plain : KernelOp → Prop
  | .createMutex _ _ _ => False
  | .createEvent _ _ => False
  | .createSemaphore _ _ _ => False
  | .createTimer _ _ => False
  | .sleepClientThread _ _ => False
  | .waitSynchronization1 _ _ _ => False
  | .waitSynchronizationN _ _ _ _ => False
  | .releaseSemaphore _ _ => False
  | _ => True

theorem keeps_step {s s' : KernelSystem} {op : KernelOp} (hs : s.step op = some s')
    (hop : Plain op) : Keeps s s' := by
  cases op with
  | createThread address priority processorId makeReady =>
    simp only [KernelSystem.step] at hs
    split at hs
    · rename_i ha
      cases hs
      exact Keeps.createThread ha priority processorId makeReady
    · cases hs
  | suspend core status =>
    simp only [KernelSystem.step, Option.bind_eq_some_iff] at hs
    obtain ⟨t, -, hs⟩ := hs
    split at hs
    · rename_i hstatus
      cases hs
      refine Keeps.setStatus s t ?_
      rcases hstatus with rfl | rfl | rfl <;> simp
    · cases hs
  | signal object =>
    cases hs
    exact Keeps.signal s object
  | clear object =>
    cases hs
    exact Keeps.clear s object
  | releaseMutex core object =>
    simp only [KernelSystem.step, Option.map_eq_some_iff] at hs
    obtain ⟨t, -, rfl⟩ := hs
    exact Keeps.releaseMutex s object t
  | threadWakeupCallback thread =>
    simp only [KernelSystem.step, onThread_eq_some] at hs
    obtain ⟨-, rfl⟩ := hs
    exact Keeps.threadWakeupCallback s thread
  | resumeFromWait thread =>
    simp only [KernelSystem.step] at hs
    split at hs
    · obtain ⟨-, rfl⟩ := onThread_eq_some.1 hs
      exact Keeps.resumeFromWait s thread
    · cases hs
  | setThreadPriority thread priority =>
    simp only [KernelSystem.step, onThread_eq_some] at hs
    obtain ⟨-, rfl⟩ := hs
    exact Keeps.setThreadPriority s thread priority
  | setPriority thread priority =>
    simp only [KernelSystem.step] at hs
    split at hs
    · obtain ⟨-, rfl⟩ := onThread_eq_some.1 hs
      exact (Follows.setPriority s thread priority).keeps_of_kind rfl
    · cases hs
  | boostPriority thread priority =>
    simp only [KernelSystem.step] at hs
    split at hs
    · obtain ⟨-, rfl⟩ := onThread_eq_some.1 hs
      exact (Follows.boostPriority s thread priority).keeps_of_kind rfl
    · cases hs
  | setCanSchedule thread canSchedule =>
    simp only [KernelSystem.step, onThread_eq_some] at hs
    obtain ⟨-, rfl⟩ := hs
    exact Keeps.modifyThread s thread fun _ => ⟨rfl, rfl⟩
  | stop thread =>
    simp only [KernelSystem.step] at hs
    split at hs
    · cases hs
    · obtain ⟨-, rfl⟩ := onThread_eq_some.1 hs
      exact Keeps.stop s thread
  | exitCurrentThread core =>
    simp only [KernelSystem.step, Option.map_eq_some_iff] at hs
    obtain ⟨t, -, rfl⟩ := hs
    exact Keeps.stop s t
  | reschedule core => exact (switched_reschedule hs).keeps
  | _ => exact hop.elim

/-- A frugal operation leaves frugal lists. -/
theorem FrugalWaits.step {s s' : KernelSystem} (h : s.FrugalWaits) (hrest : s.AtRest)
    {op : KernelOp} (hop : s.Frugal op) (hs : s.step op = some s') : s'.FrugalWaits := by
  cases op with
  | createMutex core address initialLocked =>
    simp only [KernelSystem.step, Option.bind_eq_some_iff, Option.map_eq_some_iff,
      createObject_eq_some] at hs
    obtain ⟨t, -, s₁, ⟨ha, rfl⟩, rfl⟩ := hs
    have h₁ := h.create hrest ha (.mutex 0 0 none)
    split
    · exact h₁.keeps (Keeps.acquire _ address t)
    · exact h₁
  | createEvent address resetType =>
    obtain ⟨ha, rfl⟩ := createObject_eq_some.1 hs
    exact h.create hrest ha _
  | createSemaphore address initialCount maxCount =>
    simp only [KernelSystem.step] at hs
    split at hs
    · cases hs
      exact h
    · obtain ⟨ha, rfl⟩ := createObject_eq_some.1 hs
      exact h.create hrest ha _
  | createTimer address resetType =>
    obtain ⟨ha, rfl⟩ := createObject_eq_some.1 hs
    exact h.create hrest ha _
  | waitSynchronization1 core object nanoSeconds =>
    simp only [KernelSystem.step, Option.bind_eq_some_iff] at hs
    obtain ⟨t, -, hs⟩ := hs
    split at hs
    · cases hs
    · cases hs
      unfold KernelSystem.waitSynchronization1
      split
      · split
        · exact h
        · exact h.waitFor t (by simp)
      · exact h.keeps (Keeps.acquire s object t)
  | waitSynchronizationN core objects waitAll nanoSeconds =>
    simp only [KernelSystem.step, Option.bind_eq_some_iff] at hs
    obtain ⟨t, ht, hs⟩ := hs
    split at hs
    · cases hs
    · cases hs
      exact h.waitSynchronizationN fun hall => hop hall t ht
  | sleepClientThread core address =>
    simp only [KernelSystem.step, Option.bind_eq_some_iff, Option.map_eq_some_iff,
      createObject_eq_some] at hs
    obtain ⟨t, -, s₁, ⟨ha, rfl⟩, rfl⟩ := hs
    exact (h.create hrest ha _).waitFor t (by simp)
  | releaseSemaphore object releaseCount =>
    cases hs
    exact h.releaseSemaphore object releaseCount
  | _ => exact h.keeps (keeps_step hs trivial)

theorem frugalWaits_reachable {s : KernelSystem} (h : s.FrugallyReachable) : s.FrugalWaits := by
  induction h with
  | initial =>
    intro t ht
    simp [KernelSystem.initial, Thread.new] at ht
  | step op hreach hop hs ih => exact ih.step (atRest_reachable hreach.reachable) hop hs

/-- Two threads of different cores and a one-shot event that is signalled. -/
def signalledEvent : List KernelOp :=
  [.createThread 1 50 0 true, .createThread 2 40 1 true, .reschedule 0, .reschedule 1,
    .createEvent 3 .oneShot, .createSemaphore 4 0 5, .signal 3]

end KernelSystem
end AzaharPlus.Kernel
