import AzaharPlus.Kernel.ReadyQueues

/-!
# No wakeup is lost

A thread that waits is in the list of each object it waits for, and each of these objects is among
its wait objects (`Waits`).  A thread could wake up for an object when that is available to it and,
if it waits for all its objects, the others are too (`CanWake`).  Between two operations there is
no such thread (`Settled`).

Waking a thread takes objects, so nothing becomes available to the others by it (`Follows`), and
the thread leaves all lists (`Woke`).  When an operation makes one object available, every thread
that can wake up then can do so for that object (`OnlyFor`), and the loop over its waiting list
wakes them all (`settled_wakeupAllWaitingThreads`).

* `no_wakeup_lost` — the result for every state that can be reached.
-/

namespace AzaharPlus.Kernel

open Common

namespace KernelSystem

/-! ## Steps that take objects -/

/-- Statuses and wait objects stay, and no object becomes available. -/
structure Follows (s s' : KernelSystem) : Prop where
  status : ∀ t, (s'.threads t).status = (s.threads t).status
  waitObjects : ∀ t, (s'.threads t).waitObjects = (s.threads t).waitObjects
  unused : ∀ o, s'.kind o = .unused ↔ s.kind o = .unused
  shouldWait : ∀ o t, s.shouldWait o t = true → s'.shouldWait o t = true

theorem Follows.refl (s : KernelSystem) : Follows s s :=
  ⟨fun _ => rfl, fun _ => rfl, fun _ => Iff.rfl, fun _ _ h => h⟩

theorem Follows.trans {s₁ s₂ s₃ : KernelSystem} (h₁ : Follows s₁ s₂) (h₂ : Follows s₂ s₃) :
    Follows s₁ s₃ where
  status t := (h₂.status t).trans (h₁.status t)
  waitObjects t := (h₂.waitObjects t).trans (h₁.waitObjects t)
  unused o := (h₂.unused o).trans (h₁.unused o)
  shouldWait o t h := h₂.shouldWait o t (h₁.shouldWait o t h)

/-- `ShouldWait` reads the kind of the object and whether a thread is dead. -/
theorem shouldWait_congr {s s' : KernelSystem} {o : Nat} (hkind : s'.kind o = s.kind o)
    (hstatus : (s'.threads o).status = .dead ↔ (s.threads o).status = .dead) (t : Nat) :
    s'.shouldWait o t = s.shouldWait o t := by
  unfold shouldWait
  rw [hkind]
  cases s.kind o with
  | thread => simp [hstatus]
  | _ => rfl

theorem Follows.modifyThread (s : KernelSystem) (t : Nat) {f : Thread → Thread}
    (hf : ∀ th, (f th).status = th.status ∧ (f th).waitObjects = th.waitObjects) :
    Follows s (s.modifyThread t f) := by
  have hsame : ∀ u, ((s.modifyThread t f).threads u).status = (s.threads u).status ∧
      ((s.modifyThread t f).threads u).waitObjects = (s.threads u).waitObjects := by
    intro u
    rw [threads_modifyThread]
    split
    · exact hf _
    · exact ⟨rfl, rfl⟩
  refine ⟨fun u => (hsame u).1, fun u => (hsame u).2, fun _ => Iff.rfl, fun o u h => ?_⟩
  have hdead : ((s.modifyThread t f).threads o).status = .dead ↔ (s.threads o).status = .dead := by
    rw [(hsame o).1]
  rwa [@shouldWait_congr s (s.modifyThread t f) o rfl hdead u]

theorem Follows.setKind {s : KernelSystem} {o : Nat} {k : ObjectKind} (hk : k ≠ .unused)
    (ho : s.kind o ≠ .unused)
    (hwait : ∀ t, s.shouldWait o t = true → (s.setKind o k).shouldWait o t = true) :
    Follows s (s.setKind o k) := by
  refine ⟨fun _ => rfl, fun _ => rfl, fun u => ?_, fun u t h => ?_⟩
  · rw [kind_setKind]
    split
    · rename_i hu
      simp [hu, hk, ho]
    · exact Iff.rfl
  · by_cases hu : u = o
    · subst hu
      exact hwait t h
    · have hkind : (s.setKind o k).kind u = s.kind u := by rw [kind_setKind, if_neg hu]
      rwa [shouldWait_congr hkind Iff.rfl]

theorem Follows.modifyQueue (s : KernelSystem) (core : Nat) (f : ReadyQueue → ReadyQueue) :
    Follows s (s.modifyQueue core f) :=
  ⟨fun _ => rfl, fun _ => rfl, fun _ => Iff.rfl, fun _ _ h => h⟩

theorem Follows.setWaitingThreads (s : KernelSystem) (o : Nat) (l : List Nat) :
    Follows s (s.setWaitingThreads o l) :=
  ⟨fun _ => rfl, fun _ => rfl, fun _ => Iff.rfl, fun _ _ h => h⟩

theorem Follows.boostPriority (s : KernelSystem) (t p : Nat) : Follows s (s.boostPriority t p) :=
  (Follows.modifyQueue s _ _).trans (Follows.modifyThread _ t fun _ => ⟨rfl, rfl⟩)

theorem Follows.setPriority (s : KernelSystem) (t p : Nat) : Follows s (s.setPriority t p) :=
  (Follows.modifyQueue s _ _).trans (Follows.modifyThread _ t fun _ => ⟨rfl, rfl⟩)

theorem Follows.updatePriority (s : KernelSystem) (t : Nat) : Follows s (s.updatePriority t) :=
  Follows.boostPriority s t _

theorem Follows.mutexUpdatePriority (s : KernelSystem) (m : Nat) :
    Follows s (s.mutexUpdatePriority m) := by
  unfold KernelSystem.mutexUpdatePriority
  split
  · rename_i n p holder hm
    split
    · refine (Follows.setKind (by simp) (by simp [hm]) fun t h => ?_).trans
        (Follows.updatePriority _ holder)
      simpa [KernelSystem.shouldWait, hm, kind_setKind] using h
    · exact Follows.refl s
  · exact Follows.refl s

theorem Follows.addWaitingThread (s : KernelSystem) (o t : Nat) :
    Follows s (s.addWaitingThread o t) := by
  have henter : Follows s (s.enterWaitingThreads o t) := by
    unfold KernelSystem.enterWaitingThreads
    split
    · exact Follows.refl s
    · exact Follows.setWaitingThreads s o _
  unfold KernelSystem.addWaitingThread
  split
  · have hpending : Follows (s.enterWaitingThreads o t)
        ((s.enterWaitingThreads o t).addPending t o) :=
      Follows.modifyThread _ t fun _ => ⟨rfl, rfl⟩
    exact (henter.trans hpending).trans (Follows.mutexUpdatePriority _ o)
  · exact henter

theorem Follows.removeWaitingThread (s : KernelSystem) (o t : Nat) :
    Follows s (s.removeWaitingThread o t) := by
  have hleave : Follows s (s.leaveWaitingThreads o t) := Follows.setWaitingThreads s o _
  unfold KernelSystem.removeWaitingThread
  split
  · have hpending : Follows (s.leaveWaitingThreads o t)
        ((s.leaveWaitingThreads o t).removePending t o) :=
      Follows.modifyThread _ t fun _ => ⟨rfl, rfl⟩
    exact (hleave.trans hpending).trans (Follows.mutexUpdatePriority _ o)
  · exact hleave

/-- An object that is taken is not available to more threads than before. -/
theorem Follows.acquire (s : KernelSystem) (o t : Nat) : Follows s (s.acquire o t) := by
  unfold KernelSystem.acquire
  split
  · rename_i p holder hk
    have hset : Follows s (s.setKind o (.mutex 1 (s.threads t).currentPriority (some t))) :=
      Follows.setKind (by simp) (by simp [hk]) fun u h => by
        simp [KernelSystem.shouldWait, hk] at h
    have hheld : Follows (s.setKind o (.mutex 1 (s.threads t).currentPriority (some t)))
        ((s.setKind o (.mutex 1 (s.threads t).currentPriority (some t))).addHeld t o) :=
      Follows.modifyThread _ t fun _ => ⟨rfl, rfl⟩
    exact (hset.trans hheld).trans (Follows.updatePriority _ t)
  · rename_i hk
    refine Follows.setKind (by simp) (by simp [hk]) fun u h => ?_
    simpa [KernelSystem.shouldWait, hk, kind_setKind] using h
  · rename_i hk
    refine Follows.setKind (by simp) (by simp [hk]) fun u _ => ?_
    simp [KernelSystem.shouldWait, kind_setKind]
  · rename_i maxCount available hk
    split
    · exact Follows.refl s
    · rename_i hpos
      refine Follows.setKind (by simp) (by simp [hk]) fun u h => ?_
      simp [KernelSystem.shouldWait, hk] at h
      exact absurd h hpos
  · rename_i hk
    refine Follows.setKind (by simp) (by simp [hk]) fun u _ => ?_
    simp [KernelSystem.shouldWait, kind_setKind]
  · exact Follows.refl s

theorem Follows.acquireAll (s : KernelSystem) (l : List Nat) (t : Nat) :
    Follows s (s.acquireAll l t) := by
  induction l generalizing s with
  | nil => exact Follows.refl s
  | cons o l ih => exact (Follows.acquire s o t).trans (ih _)

theorem Follows.acquireFor (s : KernelSystem) (o t : Nat) : Follows s (s.acquireFor o t) := by
  unfold KernelSystem.acquireFor
  split
  · exact Follows.acquireAll s _ t
  · exact Follows.acquire s o t

theorem Follows.endPulse (s : KernelSystem) (o : Nat) : Follows s (s.endPulse o) := by
  unfold KernelSystem.endPulse
  split
  · rename_i hk
    refine Follows.setKind (by simp) (by simp [hk]) fun u _ => ?_
    simp [KernelSystem.shouldWait, kind_setKind]
  · rename_i hk
    refine Follows.setKind (by simp) (by simp [hk]) fun u _ => ?_
    simp [KernelSystem.shouldWait, kind_setKind]
  · exact Follows.refl s

/-! ## The waiting lists -/

theorem waitingThreads_mutexUpdatePriority (s : KernelSystem) (m : Nat) :
    (s.mutexUpdatePriority m).waitingThreads = s.waitingThreads := by
  unfold mutexUpdatePriority
  split
  · split <;> rfl
  · rfl

theorem waitingThreads_acquire (s : KernelSystem) (o t : Nat) :
    (s.acquire o t).waitingThreads = s.waitingThreads := by
  unfold acquire
  split
  · rfl
  · rfl
  · rfl
  · split <;> rfl
  · rfl
  · rfl

theorem waitingThreads_acquireAll (s : KernelSystem) (l : List Nat) (t : Nat) :
    (s.acquireAll l t).waitingThreads = s.waitingThreads := by
  induction l generalizing s with
  | nil => rfl
  | cons o l ih => exact (ih _).trans (waitingThreads_acquire s o t)

theorem waitingThreads_acquireFor (s : KernelSystem) (o t : Nat) :
    (s.acquireFor o t).waitingThreads = s.waitingThreads := by
  unfold acquireFor
  split
  · exact waitingThreads_acquireAll s _ t
  · exact waitingThreads_acquire s o t

theorem waitingThreads_addWaitingThread (s : KernelSystem) (o t u : Nat) :
    (s.addWaitingThread o t).waitingThreads u =
      if u = o ∧ t ∉ s.waitingThreads o then s.waitingThreads u ++ [t]
      else s.waitingThreads u := by
  have henter : (s.enterWaitingThreads o t).waitingThreads u =
      if u = o ∧ t ∉ s.waitingThreads o then s.waitingThreads u ++ [t]
      else s.waitingThreads u := by
    unfold enterWaitingThreads
    split
    · rename_i ht
      simp [ht]
    · rename_i ht
      rw [waitingThreads_setWaitingThreads]
      by_cases hu : u = o
      · simp [hu, ht]
      · simp [hu]
  unfold addWaitingThread
  split
  · rw [waitingThreads_mutexUpdatePriority, addPending, waitingThreads_modifyThread, henter]
  · exact henter

theorem waitingThreads_removeWaitingThread (s : KernelSystem) (o t u : Nat) :
    (s.removeWaitingThread o t).waitingThreads u =
      if u = o then (s.waitingThreads u).erase t else s.waitingThreads u := by
  have hleave : (s.leaveWaitingThreads o t).waitingThreads u =
      if u = o then (s.waitingThreads u).erase t else s.waitingThreads u := by
    rw [leaveWaitingThreads, waitingThreads_setWaitingThreads]
    split
    · rename_i hu
      rw [hu]
    · rfl
  unfold removeWaitingThread
  split
  · rw [waitingThreads_mutexUpdatePriority, removePending, waitingThreads_modifyThread, hleave]
  · exact hleave

/-! ## A thread leaves its wait objects -/

/-- The statuses of a thread that waits for objects. -/
def WaitsForObjects (status : ThreadStatus) : Prop :=
  status = .waitSynchAny ∨ status = .waitSynchAll ∨ status = .waitHleEvent

/-- A thread has left the lists it was in, and is awake or dead. -/
structure Woke (s s' : KernelSystem) (t : Nat) : Prop where
  status : ∀ u, u ≠ t → (s'.threads u).status = (s.threads u).status
  waitObjects : ∀ u, u ≠ t → (s'.threads u).waitObjects = (s.threads u).waitObjects
  awake : ¬ WaitsForObjects (s'.threads t).status
  gone : (s'.threads t).waitObjects = []
  dead : (s.threads t).status = .dead → (s'.threads t).status = .dead
  unused : ∀ o, s'.kind o = .unused ↔ s.kind o = .unused
  shouldWait : ∀ o u, s.shouldWait o u = true → s'.shouldWait o u = true
  waiting : ∀ o u, u ≠ t → (u ∈ s'.waitingThreads o ↔ u ∈ s.waitingThreads o)
  not_waiting : ∀ o, t ∉ s'.waitingThreads o
  sublist : ∀ o, (s'.waitingThreads o).Sublist (s.waitingThreads o)

theorem Follows.leaveLists (s : KernelSystem) (l : List Nat) (t : Nat) :
    Follows s (l.foldl (fun s o => s.removeWaitingThread o t) s) := by
  induction l generalizing s with
  | nil => exact Follows.refl s
  | cons o l ih => exact (Follows.removeWaitingThread s o t).trans (ih _)

/-- The lists after a thread was removed from some of them. -/
theorem waitingThreads_leaveLists (s : KernelSystem) (l : List Nat) (t : Nat) :
    (∀ o, ((l.foldl (fun s o => s.removeWaitingThread o t) s).waitingThreads o).Sublist
      (s.waitingThreads o)) ∧
    (∀ o u, u ≠ t → (u ∈ (l.foldl (fun s o => s.removeWaitingThread o t) s).waitingThreads o ↔
      u ∈ s.waitingThreads o)) ∧
    ((∀ o, (s.waitingThreads o).Nodup) → ∀ o ∈ l,
      t ∉ (l.foldl (fun s o => s.removeWaitingThread o t) s).waitingThreads o) := by
  induction l generalizing s with
  | nil => exact ⟨fun o => List.Sublist.refl _, fun o u _ => Iff.rfl, fun _ o h => by simp at h⟩
  | cons p l ih =>
    obtain ⟨h₁, h₂, h₃⟩ := ih (s.removeWaitingThread p t)
    have hw := waitingThreads_removeWaitingThread s p t
    have hsub : ∀ o, ((s.removeWaitingThread p t).waitingThreads o).Sublist
        (s.waitingThreads o) := by
      intro o
      rw [hw]
      split
      · exact List.erase_sublist
      · exact List.Sublist.refl _
    refine ⟨fun o => (h₁ o).trans (hsub o), fun o u hu => ?_, fun hnodup o ho => ?_⟩
    · rw [List.foldl_cons, h₂ o u hu, hw]
      split
      · exact List.mem_erase_of_ne hu
      · exact Iff.rfl
    · rcases List.mem_cons.1 ho with rfl | ho
      · intro ht
        have ht' := (h₁ o).subset ht
        rw [hw, if_pos rfl] at ht'
        exact ((hnodup o).mem_erase_iff.1 ht').1 rfl
      · exact h₃ (fun o => (hnodup o).sublist (hsub o)) o ho

/-- What the lists and the wait objects say about each other; the threads in `x` are on their way
out. -/
structure Waits (s : KernelSystem) (x : Nat → Prop) : Prop where
  mem : ∀ o t, t ∈ s.waitingThreads o ↔ o ∈ (s.threads t).waitObjects
  nodup : ∀ o, (s.waitingThreads o).Nodup
  status : ∀ t, ¬ x t → (s.threads t).waitObjects ≠ [] → WaitsForObjects (s.threads t).status
  all : ∀ t, ¬ x t → (s.threads t).status = .waitSynchAll → (s.threads t).waitObjects ≠ []
  unused : ∀ t, ∀ o ∈ (s.threads t).waitObjects, s.kind o ≠ .unused

/-- The threads after one left its wait objects. -/
theorem threads_leaveWaitObjects (s : KernelSystem) (t u : Nat) :
    ((s.leaveWaitObjects t).threads u).status = (s.threads u).status ∧
      ((s.leaveWaitObjects t).threads u).waitObjects =
        if u = t then [] else (s.threads u).waitObjects := by
  have hf := Follows.leaveLists s (s.threads t).waitObjects t
  unfold leaveWaitObjects setWaitObjects
  rw [threads_modifyThread]
  by_cases hu : u = t
  · rw [if_pos hu, if_pos hu]
    exact ⟨hf.status u, rfl⟩
  · rw [if_neg hu, if_neg hu]
    exact ⟨hf.status u, hf.waitObjects u⟩

theorem shouldWait_leaveWaitObjects (s : KernelSystem) (t o u : Nat)
    (h : s.shouldWait o u = true) : (s.leaveWaitObjects t).shouldWait o u = true := by
  have hf := (Follows.leaveLists s (s.threads t).waitObjects t).shouldWait o u h
  have hdead : ((s.leaveWaitObjects t).threads o).status = .dead ↔
      (((s.threads t).waitObjects.foldl (fun s o => s.removeWaitingThread o t) s).threads
        o).status = .dead := by
    rw [(threads_leaveWaitObjects s t o).1,
      (Follows.leaveLists s (s.threads t).waitObjects t).status o]
  have hkind : (s.leaveWaitObjects t).kind o =
      ((s.threads t).waitObjects.foldl (fun s o => s.removeWaitingThread o t) s).kind o := rfl
  rwa [shouldWait_congr hkind hdead]

theorem threads_resumeFromWait (s : KernelSystem) (t u : Nat) :
    ((s.resumeFromWait t).threads u).waitObjects = (s.threads u).waitObjects ∧
      (((s.resumeFromWait t).threads u).status = .dead ↔ (s.threads u).status = .dead) ∧
      (u ≠ t → ((s.resumeFromWait t).threads u).status = (s.threads u).status) := by
  unfold resumeFromWait
  split
  · exact ⟨rfl, Iff.rfl, fun _ => rfl⟩
  · exact ⟨rfl, Iff.rfl, fun _ => rfl⟩
  · exact ⟨rfl, Iff.rfl, fun _ => rfl⟩
  · rename_i hdead
    rw [setStatus, threads_modifyThread, threads_modifyQueue]
    by_cases hu : u = t
    · subst hu
      rw [if_pos rfl]
      exact ⟨rfl, by simpa using hdead, fun h => absurd rfl h⟩
    · rw [if_neg hu]
      exact ⟨rfl, Iff.rfl, fun _ => rfl⟩

theorem awake_resumeFromWait (s : KernelSystem) (t : Nat) :
    ¬ WaitsForObjects ((s.resumeFromWait t).threads t).status := by
  unfold resumeFromWait
  split
  · rename_i h
    simp [h, WaitsForObjects]
  · rename_i h
    simp [h, WaitsForObjects]
  · rename_i h
    simp [h, WaitsForObjects]
  · rw [setStatus, threads_modifyThread, if_pos rfl]
    simp [WaitsForObjects]

theorem resumeFromWait_frame (s : KernelSystem) (t : Nat) :
    (s.resumeFromWait t).kind = s.kind ∧ (s.resumeFromWait t).waitingThreads = s.waitingThreads := by
  unfold resumeFromWait
  split <;> exact ⟨rfl, rfl⟩

/-- A thread that took some objects leaves the lists and goes on. -/
theorem Waits.woke {s s₁ : KernelSystem} {x : Nat → Prop} (h : s.Waits x) (hf : Follows s s₁)
    (hw : s₁.waitingThreads = s.waitingThreads) (t : Nat) :
    Woke s ((s₁.leaveWaitObjects t).resumeFromWait t) t := by
  obtain ⟨hsub, hne, hgone⟩ := waitingThreads_leaveLists s₁ (s₁.threads t).waitObjects t
  have hth := threads_leaveWaitObjects s₁ t
  have hres := threads_resumeFromWait (s₁.leaveWaitObjects t) t
  obtain ⟨hkind, hwait⟩ := resumeFromWait_frame (s₁.leaveWaitObjects t) t
  have hlists : ((s₁.leaveWaitObjects t).resumeFromWait t).waitingThreads =
      ((s₁.threads t).waitObjects.foldl (fun s o => s.removeWaitingThread o t)
        s₁).waitingThreads := hwait
  refine ⟨fun u hu => ?_, fun u hu => ?_, awake_resumeFromWait _ t, ?_, fun hd => ?_, fun o => ?_,
    fun o u hu => ?_, fun o u hu => ?_, fun o ho => ?_, fun o => ?_⟩
  · rw [(hres u).2.2 hu, (hth u).1, hf.status]
  · rw [(hres u).1, (hth u).2, if_neg hu, hf.waitObjects]
  · rw [(hres t).1, (hth t).2, if_pos rfl]
  · rw [(hres t).2.1, (hth t).1, hf.status]
    exact hd
  · rw [hkind, ← hf.unused o]
    exact (Follows.leaveLists s₁ _ t).unused o
  · rw [shouldWait_congr (by rw [hkind]) (hres o).2.1]
    exact shouldWait_leaveWaitObjects s₁ t o u (hf.shouldWait o u hu)
  · rw [hlists, hne o u hu, hw]
  · rw [hlists] at ho
    have ho' : o ∈ (s₁.threads t).waitObjects := by
      rw [hf.waitObjects, ← h.mem, ← hw]
      exact (hsub o).subset ho
    exact hgone (fun o => by rw [hw]; exact h.nodup o) o ho' ho
  · rw [hlists, ← hw]
    exact hsub o

theorem Woke.waits {s s' : KernelSystem} {x : Nat → Prop} {t : Nat} (hw : Woke s s' t)
    (h : s.Waits x) : s'.Waits x := by
  refine ⟨fun o u => ?_, fun o => (h.nodup o).sublist (hw.sublist o), fun u hx hu => ?_,
    fun u hx hu => ?_, fun u o ho => ?_⟩
  · by_cases hut : u = t
    · subst hut
      rw [hw.gone]
      simp [hw.not_waiting o]
    · rw [hw.waiting o u hut, hw.waitObjects u hut]
      exact h.mem o u
  · have hut : u ≠ t := by
      rintro rfl
      exact hu hw.gone
    rw [hw.status u hut]
    rw [hw.waitObjects u hut] at hu
    exact h.status u hx hu
  · have hut : u ≠ t := by
      rintro rfl
      exact hw.awake (Or.inr (Or.inl hu))
    rw [hw.waitObjects u hut]
    rw [hw.status u hut] at hu
    exact h.all u hx hu
  · have hut : u ≠ t := by
      rintro rfl
      rw [hw.gone] at ho
      cases ho
    rw [hw.waitObjects u hut] at ho
    exact fun hcon => h.unused u o ho ((hw.unused o).1 hcon)

/-! ## Threads that could wake up -/

/-- The thread would be a candidate of `GetHighestPriorityReadyThread` of the object. -/
def CanWake (s : KernelSystem) (o t : Nat) : Prop :=
  s.shouldWait o t = false ∧ s.readyToRun t = true

/-- No thread apart from those in `x` waits for an object for which it could wake up. -/
def Settled (s : KernelSystem) (x : Nat → Prop) : Prop :=
  ∀ o t, t ∈ s.waitingThreads o → ¬ x t → ¬ s.CanWake o t

/-- The threads that could wake up could do so for the object `o`. -/
def OnlyFor (s : KernelSystem) (x : Nat → Prop) (o : Nat) : Prop :=
  ∀ o' t, t ∈ s.waitingThreads o' → ¬ x t → s.CanWake o' t →
    o' = o ∨ ((s.threads t).status = .waitSynchAll ∧ o ∈ (s.threads t).waitObjects)

theorem readyToRun_iff {s : KernelSystem} {t : Nat} :
    s.readyToRun t = true ↔ ((s.threads t).status = .waitSynchAll →
      ∀ o ∈ (s.threads t).waitObjects, s.shouldWait o t = false) := by
  rw [readyToRun, decide_eq_true_iff]
  tauto

/-- Where nothing became available, nobody can wake up who could not before. -/
theorem CanWake.before {s s' : KernelSystem} {o t : Nat}
    (hstatus : (s'.threads t).status = (s.threads t).status)
    (hobjects : (s'.threads t).waitObjects = (s.threads t).waitObjects)
    (hwait : ∀ o, s.shouldWait o t = true → s'.shouldWait o t = true) (h : s'.CanWake o t) :
    s.CanWake o t := by
  have hfree : ∀ o, s'.shouldWait o t = false → s.shouldWait o t = false := by
    intro o ho
    by_contra hcon
    rw [hwait o (by simpa using hcon)] at ho
    cases ho
  refine ⟨hfree o h.1, readyToRun_iff.2 fun hall o' ho' => hfree o' ?_⟩
  exact readyToRun_iff.1 h.2 (hstatus.trans hall) o' (hobjects ▸ ho')

theorem Woke.canWake {s s' : KernelSystem} {t o u : Nat} (hw : Woke s s' t) (hu : u ≠ t)
    (h : s'.CanWake o u) : s.CanWake o u :=
  h.before (hw.status u hu) (hw.waitObjects u hu) fun o => hw.shouldWait o u

theorem Woke.onlyFor {s s' : KernelSystem} {x : Nat → Prop} {t o : Nat} (hw : Woke s s' t)
    (h : s.OnlyFor x o) : s'.OnlyFor x o := by
  intro o' u hu hx hcan
  have hut : u ≠ t := by
    rintro rfl
    exact hw.not_waiting o' hu
  rw [hw.status u hut, hw.waitObjects u hut]
  exact h o' u ((hw.waiting o' u hut).1 hu) hx (hw.canWake hut hcan)

theorem Woke.settled {s s' : KernelSystem} {x : Nat → Prop} {t : Nat} (hw : Woke s s' t)
    (h : s.Settled x) : s'.Settled x := by
  intro o u hu hx hcan
  have hut : u ≠ t := by
    rintro rfl
    exact hw.not_waiting o hu
  exact h o u ((hw.waiting o u hut).1 hu) hx (hw.canWake hut hcan)

/-- A state in which some objects were taken, or got other priorities. -/
theorem Follows.settled {s s' : KernelSystem} {x : Nat → Prop} (hf : Follows s s')
    (hw : s'.waitingThreads = s.waitingThreads) (h : s.Settled x) : s'.Settled x := by
  intro o u hu hx hcan
  rw [hw] at hu
  exact h o u hu hx (hcan.before (hf.status u) (hf.waitObjects u) fun o => hf.shouldWait o u)

theorem Follows.waits {s s' : KernelSystem} {x : Nat → Prop} (hf : Follows s s')
    (hw : s'.waitingThreads = s.waitingThreads) (h : s.Waits x) : s'.Waits x := by
  refine ⟨fun o t => ?_, fun o => ?_, fun t hx ht => ?_, fun t hx ht => ?_, fun t o ho => ?_⟩
  · rw [hw, hf.waitObjects]
    exact h.mem o t
  · rw [hw]
    exact h.nodup o
  · rw [hf.status]
    rw [hf.waitObjects] at ht
    exact h.status t hx ht
  · rw [hf.waitObjects]
    rw [hf.status] at ht
    exact h.all t hx ht
  · rw [hf.waitObjects] at ho
    exact fun hcon => h.unused t o ho ((hf.unused o).1 hcon)

/-- When only one object became available, the threads that can wake up can do so for it. -/
theorem Settled.onlyFor {s s' : KernelSystem} {x : Nat → Prop} {o : Nat} (h : s.Settled x)
    (hw : s'.waitingThreads = s.waitingThreads)
    (hstatus : ∀ t, ¬ x t → (s'.threads t).status = (s.threads t).status)
    (hobjects : ∀ t, (s'.threads t).waitObjects = (s.threads t).waitObjects)
    (hwait : ∀ o', o' ≠ o → ∀ t, s.shouldWait o' t = true → s'.shouldWait o' t = true) :
    s'.OnlyFor x o := by
  intro o' t ht hx hcan
  by_cases ho : o' = o
  · exact Or.inl ho
  by_cases hmem : (s'.threads t).status = .waitSynchAll ∧ o ∈ (s'.threads t).waitObjects
  · exact Or.inr hmem
  -- the thread does not look at `o`, so it could wake up before
  rw [hw] at ht
  refine absurd ⟨?_, readyToRun_iff.2 fun hall o'' ho'' => ?_⟩ (h o' t ht hx)
  · by_contra hcon
    have := hcan.1
    rw [hwait o' ho t (by simpa using hcon)] at this
    cases this
  · rw [← hstatus t hx] at hall
    rw [← hobjects t] at ho''
    have hne : o'' ≠ o := fun hcon => hmem ⟨hall, hcon ▸ ho''⟩
    have hfree := readyToRun_iff.1 hcan.2 hall o'' ho''
    by_contra hcon
    rw [hwait o'' hne t (by simpa using hcon)] at hfree
    cases hfree

/-! ## Waking all threads of an object -/

/-- The loop of `GetHighestPriorityReadyThread` passes over no thread that could wake up. -/
theorem considerThread_none {s : KernelSystem} {o : Nat} (l : List Nat) (c : Option Nat × Nat)
    (h : (l.foldl (s.considerThread o) c).1 = none) :
    c.1 = none ∧ ∀ t ∈ l, (s.threads t).currentPriority < c.2 → ¬ s.CanWake o t := by
  induction l generalizing c with
  | nil => exact ⟨h, fun t ht => by simp at ht⟩
  | cons t l ih =>
    obtain ⟨h₁, h₂⟩ := ih _ h
    unfold considerThread at h₁ h₂
    by_cases hp : c.2 ≤ (s.threads t).currentPriority
    · rw [if_pos hp] at h₁ h₂
      refine ⟨h₁, fun u hu => ?_⟩
      rcases List.mem_cons.1 hu with rfl | hu
      · exact fun hlt => absurd hlt (by omega)
      · exact h₂ u hu
    · rw [if_neg hp] at h₁ h₂
      by_cases hw : s.shouldWait o t = true
      · rw [if_pos hw] at h₁ h₂
        refine ⟨h₁, fun u hu => ?_⟩
        rcases List.mem_cons.1 hu with rfl | hu
        · rintro - ⟨hfree, -⟩
          rw [hw] at hfree
          cases hfree
        · exact h₂ u hu
      · rw [if_neg hw] at h₁ h₂
        by_cases hr : s.readyToRun t = true
        · rw [if_pos hr] at h₁
          cases h₁
        · rw [if_neg hr] at h₁ h₂
          refine ⟨h₁, fun u hu => ?_⟩
          rcases List.mem_cons.1 hu with rfl | hu
          · rintro - ⟨-, hrun⟩
            exact hr hrun
          · exact h₂ u hu

theorem Queued.priority_le {s : KernelSystem} (h : s.Queued) {t : Nat} (ht : s.kind t = .thread) :
    (s.threads t).currentPriority < threadPrioLowest + 1 :=
  (h.sound _).bound _ (h.linked t ht)

theorem no_canWake_of_none {s : KernelSystem} (hq : s.Queued) {o : Nat}
    (h : s.getHighestPriorityReadyThread o = none) {t : Nat} (ht : t ∈ s.waitingThreads o) :
    ¬ s.CanWake o t :=
  (considerThread_none _ _ h).2 t ht (hq.priority_le (hq.waiters o t ht))

theorem Waits.wakeupThread {s : KernelSystem} {x : Nat → Prop} (h : s.Waits x) (o t : Nat) :
    Woke s (s.wakeupThread o t) t :=
  h.woke (Follows.acquireFor s o t) (waitingThreads_acquireFor s o t) t

theorem Woke.length_lt {s s' : KernelSystem} {t o : Nat} (hw : Woke s s' t)
    (ht : t ∈ s.waitingThreads o) : (s'.waitingThreads o).length < (s.waitingThreads o).length := by
  refine lt_of_le_of_ne (hw.sublist o).length_le fun hcon => hw.not_waiting o ?_
  rwa [(hw.sublist o).eq_of_length hcon]

/-- What the loop over a waiting list leaves behind. -/
theorem wakeupLoop_spec {s : KernelSystem} {x : Nat → Prop} (hq : s.Queued) (h : s.Waits x)
    {o : Nat} (ho : s.OnlyFor x o) (turns : Nat) (hturns : (s.waitingThreads o).length ≤ turns) :
    (wakeupLoop o turns s).Waits x ∧ (wakeupLoop o turns s).Settled x ∧
      ∀ t, (s.threads t).status = .dead → ((wakeupLoop o turns s).threads t).status = .dead := by
  -- nobody can wake up for `o` any more, hence for no other object
  have hend : ∀ s' : KernelSystem, s'.Waits x → s'.OnlyFor x o →
      (∀ t ∈ s'.waitingThreads o, ¬ s'.CanWake o t) → s'.Settled x := by
    intro s' hw' ho' hnone o' t ht hx hcan
    rcases ho' o' t ht hx hcan with rfl | ⟨hall, hmem⟩
    · exact hnone t ht hcan
    · refine hnone t ((hw'.mem o t).2 hmem) ⟨?_, hcan.2⟩
      exact readyToRun_iff.1 hcan.2 hall o hmem
  induction turns generalizing s with
  | zero =>
    have hnil : s.waitingThreads o = [] := List.length_eq_zero_iff.1 (by omega)
    refine ⟨h, hend s h ho fun t ht => ?_, fun t ht => ht⟩
    rw [hnil] at ht
    cases ht
  | succ turns ih =>
    unfold wakeupLoop
    split
    · rename_i hnone
      exact ⟨h, hend s h ho fun t ht => no_canWake_of_none hq hnone ht, fun t ht => ht⟩
    · rename_i t hsome
      have ht := getHighestPriorityReadyThread_mem hsome
      have hw := h.wakeupThread o t
      have hlt := hw.length_lt ht
      obtain ⟨h₁, h₂, h₃⟩ := ih (hq.wakeupThread o (hq.waiters o t ht)) (hw.waits h)
        (hw.onlyFor ho) (by omega)
      refine ⟨h₁, h₂, fun u hu => h₃ u ?_⟩
      by_cases hut : u = t
      · subst hut
        exact hw.dead hu
      · rw [hw.status u hut, hu]

theorem waitingThreads_endPulse (s : KernelSystem) (o : Nat) :
    (s.endPulse o).waitingThreads = s.waitingThreads := by
  unfold endPulse
  split <;> rfl

/-- Waking the threads of the one object that became available settles all threads. -/
theorem settled_wakeupAllWaitingThreads {s : KernelSystem} {x : Nat → Prop} (hq : s.Queued)
    (h : s.Waits x) {o : Nat} (ho : s.OnlyFor x o) :
    (s.wakeupAllWaitingThreads o).Waits x ∧ (s.wakeupAllWaitingThreads o).Settled x ∧
      ∀ t, (s.threads t).status = .dead →
        ((s.wakeupAllWaitingThreads o).threads t).status = .dead := by
  obtain ⟨h₁, h₂, h₃⟩ := wakeupLoop_spec hq h ho (s.waitingThreads o).length le_rfl
  have hf := Follows.endPulse (wakeupLoop o (s.waitingThreads o).length s) o
  have hw := waitingThreads_endPulse (wakeupLoop o (s.waitingThreads o).length s) o
  exact ⟨hf.waits hw h₁, hf.settled hw h₂, fun t ht => (hf.status t).trans (h₃ t ht)⟩

/-! ## Between two operations -/

/-- What holds between two operations. -/
structure AtRest (s : KernelSystem) : Prop where
  queued : s.Queued
  waits : s.Waits fun _ => False
  settled : s.Settled fun _ => False

theorem AtRest.follows {s s' : KernelSystem} (h : s.AtRest) (hq : s'.Queued) (hf : Follows s s')
    (hw : s'.waitingThreads = s.waitingThreads) : s'.AtRest :=
  ⟨hq, hf.waits hw h.waits, hf.settled hw h.settled⟩

theorem AtRest.woke {s s' : KernelSystem} {t : Nat} (h : s.AtRest) (hq : s'.Queued)
    (hw : Woke s s' t) : s'.AtRest :=
  ⟨hq, hw.waits h.waits, hw.settled h.settled⟩

theorem Waits.setKind {s : KernelSystem} {x : Nat → Prop} (h : s.Waits x) (o : Nat)
    {k : ObjectKind} (hk : k ≠ .unused) : (s.setKind o k).Waits x := by
  refine ⟨h.mem, h.nodup, h.status, h.all, fun t o' ho' => ?_⟩
  rw [kind_setKind]
  split
  · exact hk
  · exact h.unused t o' ho'

theorem Settled.onlyFor_setKind {s : KernelSystem} {x : Nat → Prop} (h : s.Settled x) (o : Nat)
    (k : ObjectKind) : (s.setKind o k).OnlyFor x o := by
  refine h.onlyFor rfl (fun t _ => rfl) (fun t => rfl) fun o' ho' t ht => ?_
  have hkind : (s.setKind o k).kind o' = s.kind o' := by rw [kind_setKind, if_neg ho']
  rwa [shouldWait_congr hkind Iff.rfl]

/-- An object changes and the threads that wait for it are woken. -/
theorem AtRest.change {s : KernelSystem} (h : s.AtRest) {o : Nat} {k : ObjectKind}
    (hu : k ≠ .unused) (ht : k ≠ .thread) (ho : s.kind o ≠ .thread) :
    ((s.setKind o k).wakeupAllWaitingThreads o).AtRest := by
  have hq := h.queued.setKind o ht ho
  obtain ⟨h₁, h₂, -⟩ := settled_wakeupAllWaitingThreads hq (h.waits.setKind o hu)
    (h.settled.onlyFor_setKind o k)
  exact ⟨hq.wakeupAllWaitingThreads o, h₁, h₂⟩

theorem AtRest.acquire {s : KernelSystem} (h : s.AtRest) (o t : Nat) : (s.acquire o t).AtRest :=
  h.follows (h.queued.acquire o t) (Follows.acquire s o t) (waitingThreads_acquire s o t)

theorem AtRest.acquireAll {s : KernelSystem} (h : s.AtRest) (l : List Nat) (t : Nat) :
    (s.acquireAll l t).AtRest :=
  h.follows (h.queued.acquireAll l t) (Follows.acquireAll s l t) (waitingThreads_acquireAll s l t)

/-- A new object is not waited for by anybody yet. -/
theorem AtRest.create {s : KernelSystem} (h : s.AtRest) {o : Nat} {k : ObjectKind}
    (ho : s.kind o = .unused) (hu : k ≠ .unused) (ht : k ≠ .thread) : (s.setKind o k).AtRest := by
  refine ⟨h.queued.setKind o ht (by simp [ho]), h.waits.setKind o hu, fun o' t ht' hx hcan => ?_⟩
  have hnot : ∀ p u, u ∈ s.waitingThreads p → p ≠ o := by
    intro p u hu hpo
    exact h.waits.unused u p ((h.waits.mem p u).1 hu) (hpo ▸ ho)
  rcases h.settled.onlyFor_setKind o k o' t ht' hx hcan with rfl | ⟨-, hmem⟩
  · exact hnot o' t ht' rfl
  · exact hnot o t ((h.waits.mem o t).2 hmem) rfl

/-! ## Threads that start to wait -/

theorem Follows.enterLists (s : KernelSystem) (l : List Nat) (t : Nat) :
    Follows s (l.foldl (fun s o => s.addWaitingThread o t) s) := by
  induction l generalizing s with
  | nil => exact Follows.refl s
  | cons o l ih => exact (Follows.addWaitingThread s o t).trans (ih _)

/-- The lists after a thread was added to some of them. -/
theorem mem_enterLists (s : KernelSystem) (l : List Nat) (t o u : Nat) :
    u ∈ (l.foldl (fun s o => s.addWaitingThread o t) s).waitingThreads o ↔
      u ∈ s.waitingThreads o ∨ (u = t ∧ o ∈ l) := by
  induction l generalizing s with
  | nil => simp
  | cons p l ih =>
    rw [List.foldl_cons, ih, waitingThreads_addWaitingThread]
    by_cases hp : o = p ∧ t ∉ s.waitingThreads p
    · rw [if_pos hp]
      simp [hp.1]
      tauto
    · rw [if_neg hp]
      by_cases ho : o = p
      · have ht : t ∈ s.waitingThreads p := by
          by_contra hcon
          exact hp ⟨ho, hcon⟩
        constructor
        · rintro (hu | ⟨rfl, hu⟩)
          · exact Or.inl hu
          · exact Or.inr ⟨rfl, List.mem_cons_of_mem p hu⟩
        · rintro (hu | ⟨rfl, -⟩)
          · exact Or.inl hu
          · exact Or.inl (ho ▸ ht)
      · simp [ho]

theorem nodup_enterLists (s : KernelSystem) (l : List Nat) (t : Nat)
    (h : ∀ o, (s.waitingThreads o).Nodup) (o : Nat) :
    ((l.foldl (fun s o => s.addWaitingThread o t) s).waitingThreads o).Nodup := by
  induction l generalizing s with
  | nil => exact h o
  | cons p l ih =>
    refine ih _ fun o => ?_
    rw [waitingThreads_addWaitingThread]
    split
    · rename_i hp
      refine List.nodup_append.2 ⟨h o, List.nodup_singleton t, fun a ha b hb => ?_⟩
      rw [List.mem_singleton.1 hb]
      rintro rfl
      exact hp.2 (hp.1 ▸ ha)
    · exact h o

/-- The threads after one started to wait. -/
theorem threads_waitFor (s : KernelSystem) (t : Nat) (objects : List Nat) (status : ThreadStatus)
    (u : Nat) :
    ((s.waitFor t objects status).threads u).status =
        (if u = t then status else (s.threads u).status) ∧
      ((s.waitFor t objects status).threads u).waitObjects =
        if u = t then objects else (s.threads u).waitObjects := by
  have hf := Follows.enterLists (s.setStatus t status) objects t
  have h₁ := hf.status u
  have h₂ := hf.waitObjects u
  rw [setStatus, threads_modifyThread] at h₁ h₂
  unfold KernelSystem.waitFor setWaitObjects
  rw [threads_modifyThread]
  by_cases hu : u = t
  · rw [if_pos hu, if_pos hu, if_pos hu]
    rw [if_pos hu] at h₁
    exact ⟨h₁, rfl⟩
  · rw [if_neg hu, if_neg hu, if_neg hu]
    rw [if_neg hu] at h₁ h₂
    exact ⟨h₁, h₂⟩

/-- A running thread starts to wait for objects, which it cannot have now. -/
theorem AtRest.waitFor {s : KernelSystem} (h : s.AtRest) {t : Nat} {status : ThreadStatus}
    {objects : List Nat} (ht : s.kind t = .thread) (hrun : (s.threads t).status = .running)
    (hstatus : WaitsForObjects status) (hused : ∀ o ∈ objects, s.kind o ≠ .unused)
    (hany : status ≠ .waitSynchAll → ∀ o ∈ objects, s.shouldWait o t = true)
    (hall : status = .waitSynchAll → ∃ o ∈ objects, s.shouldWait o t = true) :
    (s.waitFor t objects status).AtRest := by
  have hidle : (s.threads t).waitObjects = [] := by
    by_contra hcon
    have := h.waits.status t not_false hcon
    simp [WaitsForObjects, hrun] at this
  have hq : (s.waitFor t objects status).Queued := by
    refine h.queued.waitFor ht (by simp [hrun]) ?_ objects
    rcases hstatus with rfl | rfl | rfl <;> simp
  have hdead : status ≠ .dead := by
    rcases hstatus with rfl | rfl | rfl <;> simp
  have hf := Follows.enterLists (s.setStatus t status) objects t
  have hmem : ∀ o u, u ∈ (s.waitFor t objects status).waitingThreads o ↔
      u ∈ s.waitingThreads o ∨ (u = t ∧ o ∈ objects) :=
    fun o u => mem_enterLists (s.setStatus t status) objects t o u
  have hthreads := threads_waitFor s t objects status
  have hwait : ∀ o u, s.shouldWait o u = true →
      (s.waitFor t objects status).shouldWait o u = true := by
    intro o u hw
    have hs : (s.setStatus t status).shouldWait o u = true := by
      have hd : ((s.setStatus t status).threads o).status = .dead ↔
          (s.threads o).status = .dead := by
        rw [setStatus, threads_modifyThread]
        by_cases hot : o = t
        · rw [if_pos hot, hot, hrun]
          simp [hdead]
        · rw [if_neg hot]
      rwa [@shouldWait_congr s (s.setStatus t status) o rfl hd u]
    have hd : ((s.waitFor t objects status).threads o).status = .dead ↔
        ((objects.foldl (fun s o => s.addWaitingThread o t) (s.setStatus t status)).threads
          o).status = .dead := by
      rw [(hthreads o).1, hf.status o, setStatus, threads_modifyThread]
      split <;> rfl
    have hk : (s.waitFor t objects status).kind o =
        (objects.foldl (fun s o => s.addWaitingThread o t) (s.setStatus t status)).kind o := rfl
    rw [shouldWait_congr hk hd]
    exact hf.shouldWait o u hs
  refine ⟨hq, ⟨fun o u => ?_, fun o => ?_, fun u _ hu => ?_, fun u _ hu => ?_, fun u o ho => ?_⟩,
    fun o u hu _ hcan => ?_⟩
  · rw [hmem, (hthreads u).2, h.waits.mem]
    by_cases hut : u = t
    · simp [hut, hidle]
    · simp [hut]
  · exact nodup_enterLists (s.setStatus t status) objects t h.waits.nodup o
  · rw [(hthreads u).1]
    rw [(hthreads u).2] at hu
    split
    · exact hstatus
    · rename_i hut
      rw [if_neg hut] at hu
      exact h.waits.status u not_false hu
  · rw [(hthreads u).2]
    rw [(hthreads u).1] at hu
    split
    · rename_i hut
      rw [if_pos hut] at hu
      obtain ⟨o, ho, -⟩ := hall hu
      exact List.ne_nil_of_mem ho
    · rename_i hut
      rw [if_neg hut] at hu
      exact h.waits.all u not_false hu
  · rw [(hthreads u).2] at ho
    have hkind : (s.waitFor t objects status).kind o = .unused ↔ s.kind o = .unused := hf.unused o
    rw [ne_eq, hkind]
    split at ho
    · exact hused o ho
    · exact h.waits.unused u o ho
  · have hblocked : ∀ o, s.shouldWait o u = true →
        ¬ (s.waitFor t objects status).shouldWait o u = false := by
      intro o hw hfree
      rw [hwait o u hw] at hfree
      cases hfree
    by_cases hut : u = t
    · subst hut
      by_cases hs : status = .waitSynchAll
      · obtain ⟨o', ho', hw⟩ := hall hs
        refine hblocked o' hw (readyToRun_iff.1 hcan.2 ?_ o' ?_)
        · rw [(hthreads u).1, if_pos rfl, hs]
        · rwa [(hthreads u).2, if_pos rfl]
      · have ho : o ∈ objects := by
          rcases (hmem o u).1 hu with hu | ⟨-, ho⟩
          · rw [h.waits.mem, hidle] at hu
            cases hu
          · exact ho
        exact hblocked o (hany hs o ho) hcan.1
    · have hu' : u ∈ s.waitingThreads o := by
        rcases (hmem o u).1 hu with hu | ⟨hcon, -⟩
        · exact hu
        · exact absurd hcon hut
      refine h.settled o u hu' not_false (hcan.before ?_ ?_ fun o => hwait o u)
      · rw [(hthreads u).1, if_neg hut]
      · rw [(hthreads u).2, if_neg hut]

theorem AtRest.waitSynchronization1 {s : KernelSystem} (h : s.AtRest) {t object : Nat}
    (ht : s.kind t = .thread) (hrun : (s.threads t).status = .running)
    (hused : s.kind object ≠ .unused) (nanoSeconds : Int) :
    (s.waitSynchronization1 t object nanoSeconds).AtRest := by
  unfold KernelSystem.waitSynchronization1
  split
  · rename_i hw
    split
    · exact h
    · exact h.waitFor ht hrun (Or.inl rfl) (by simpa using hused) (fun _ => by simpa using hw)
        (by simp)
  · exact h.acquire object t

theorem AtRest.waitSynchronizationN {s : KernelSystem} (h : s.AtRest) {t : Nat}
    {objects : List Nat} (ht : s.kind t = .thread) (hrun : (s.threads t).status = .running)
    (hused : ∀ o ∈ objects, s.kind o ≠ .unused) (waitAll : Bool) (nanoSeconds : Int) :
    (s.waitSynchronizationN t objects waitAll nanoSeconds).AtRest := by
  unfold KernelSystem.waitSynchronizationN
  split
  · split
    · exact h.acquireAll objects t
    · rename_i hsome
      split
      · exact h
      · refine h.waitFor ht hrun (Or.inr (Or.inl rfl)) hused (by simp) fun _ => ?_
        simpa using hsome
  · split
    · exact h.acquire _ t
    · rename_i hnone
      split
      · exact h
      · refine h.waitFor ht hrun (Or.inl rfl) hused (fun _ o ho => ?_) (by simp)
        simpa using List.find?_eq_none.1 hnone o ho

/-! ## The other operations -/

theorem AtRest.resumeFromWait {s : KernelSystem} (h : s.AtRest) {t : Nat}
    (ht : s.kind t = .thread) (hidle : (s.threads t).waitObjects = []) :
    (s.resumeFromWait t).AtRest := by
  have hthreads := threads_resumeFromWait s t
  obtain ⟨hkind, hwait⟩ := resumeFromWait_frame s t
  refine h.woke (h.queued.resumeFromWait ht) ⟨fun u => (hthreads u).2.2, fun u _ => (hthreads u).1,
    awake_resumeFromWait s t, (hthreads t).1.trans hidle, (hthreads t).2.1.2,
    fun o => by rw [hkind], fun o u hw => ?_, fun o u _ => by rw [hwait], fun o ho => ?_,
    fun o => by rw [hwait]⟩
  · rwa [shouldWait_congr (by rw [hkind]) (hthreads o).2.1]
  · rw [hwait, h.waits.mem, hidle] at ho
    cases ho

theorem AtRest.threadWakeupCallback {s : KernelSystem} (h : s.AtRest) {t : Nat}
    (ht : s.kind t = .thread) : (s.threadWakeupCallback t).AtRest := by
  have hq := h.queued.threadWakeupCallback ht
  have hleave : ((s.leaveWaitObjects t).resumeFromWait t).AtRest :=
    h.woke ((h.queued.leaveWaitObjects t).resumeFromWait ((kind_leaveWaitObjects s t t).2 ht))
      (h.waits.woke (Follows.refl s) rfl t)
  unfold KernelSystem.threadWakeupCallback
  split
  · exact hleave
  · exact hleave
  · exact hleave
  · exact hleave
  · rename_i h₁ h₂ h₃ h₄
    refine h.resumeFromWait ht ?_
    by_contra hcon
    rcases h.waits.status t not_false hcon with hs | hs | hs
    · exact h₁ hs
    · exact h₂ hs
    · exact h₄ hs

theorem Follows.setThreadPriority (s : KernelSystem) (t priority : Nat) :
    Follows s (s.setThreadPriority t priority) ∧
      (s.setThreadPriority t priority).waitingThreads = s.waitingThreads := by
  have hfold : ∀ (l : List Nat) (s : KernelSystem),
      Follows s (l.foldl KernelSystem.mutexUpdatePriority s) ∧
        (l.foldl KernelSystem.mutexUpdatePriority s).waitingThreads = s.waitingThreads := by
    intro l
    induction l with
    | nil => exact fun s => ⟨Follows.refl s, rfl⟩
    | cons m l ih =>
      intro s
      obtain ⟨h₁, h₂⟩ := ih (s.mutexUpdatePriority m)
      exact ⟨(Follows.mutexUpdatePriority s m).trans h₁,
        h₂.trans (waitingThreads_mutexUpdatePriority s m)⟩
  unfold KernelSystem.setThreadPriority
  split
  · exact ⟨Follows.refl s, rfl⟩
  · obtain ⟨h₁, h₂⟩ := hfold
      (((s.setPriority t priority).updatePriority t).threads t).pendingMutexes.toList
      ((s.setPriority t priority).updatePriority t)
    exact ⟨((Follows.setPriority s t priority).trans (Follows.updatePriority _ t)).trans h₁, h₂⟩

theorem AtRest.setThreadPriority {s : KernelSystem} (h : s.AtRest) (t priority : Nat) :
    (s.setThreadPriority t priority).AtRest := by
  obtain ⟨hf, hw⟩ := Follows.setThreadPriority s t priority
  exact h.follows (h.queued.setThreadPriority t priority) hf hw

theorem AtRest.signal {s : KernelSystem} (h : s.AtRest) (o : Nat) : (s.signal o).AtRest := by
  unfold KernelSystem.signal
  split
  · rename_i hk
    exact h.change (by simp) (by simp) (by simp [hk])
  · rename_i hk
    exact h.change (by simp) (by simp) (by simp [hk])
  · exact h

theorem AtRest.clear {s : KernelSystem} (h : s.AtRest) (o : Nat) : (s.clear o).AtRest := by
  have hq := h.queued.clear o
  unfold KernelSystem.clear at hq ⊢
  split at hq
  · rename_i hk
    refine h.follows hq (Follows.setKind (by simp) (by simp [hk]) fun u _ => ?_) rfl
    simp [KernelSystem.shouldWait, kind_setKind]
  · rename_i hk
    refine h.follows hq (Follows.setKind (by simp) (by simp [hk]) fun u _ => ?_) rfl
    simp [KernelSystem.shouldWait, kind_setKind]
  · exact h

theorem AtRest.releaseSemaphore {s : KernelSystem} (h : s.AtRest) (o : Nat) (releaseCount : Int) :
    (s.releaseSemaphore o releaseCount).AtRest := by
  unfold KernelSystem.releaseSemaphore
  split
  · rename_i hk
    split
    · exact h
    · exact h.change (by simp) (by simp) (by simp [hk])
  · exact h

theorem AtRest.freeMutex {s : KernelSystem} (h : s.AtRest) (m : Nat) : (s.freeMutex m).AtRest := by
  unfold KernelSystem.freeMutex
  split
  · rename_i hk
    exact h.change (by simp) (by simp) (by simp [hk])
  · exact h

theorem AtRest.releaseThreadMutexes {s : KernelSystem} (h : s.AtRest) (t : Nat) :
    (s.releaseThreadMutexes t).AtRest := by
  have hfold : ∀ (l : List Nat) (s : KernelSystem), s.AtRest →
      (l.foldl KernelSystem.freeMutex s).AtRest := by
    intro l
    induction l with
    | nil => exact fun s h => h
    | cons m l ih => exact fun s h => ih _ (h.freeMutex m)
  have h₁ := hfold (s.threads t).heldMutexes.toList s h
  have hf : Follows ((s.threads t).heldMutexes.toList.foldl KernelSystem.freeMutex s)
      (((s.threads t).heldMutexes.toList.foldl KernelSystem.freeMutex s).clearHeld t) :=
    Follows.modifyThread _ t fun _ => ⟨rfl, rfl⟩
  exact h₁.follows (h.queued.releaseThreadMutexes t) hf rfl

/-- An object is set free in two writes, with other changes between them. -/
theorem AtRest.release {s s₁ : KernelSystem} (h : s.AtRest) {m : Nat} {k k' : ObjectKind}
    (hk : k ≠ .unused ∧ k ≠ .thread ∧ k' ≠ .unused ∧ k' ≠ .thread)
    (hf : Follows (s.setKind m k) s₁) (hw : s₁.waitingThreads = s.waitingThreads)
    (hq : s₁.Queued) (hm : s₁.kind m ≠ .thread) :
    ((s₁.setKind m k').wakeupAllWaitingThreads m).AtRest := by
  have hwaits : s₁.Waits fun _ => False := hf.waits hw (h.waits.setKind m hk.1)
  have honly : (s₁.setKind m k').OnlyFor (fun _ => False) m := by
    refine h.settled.onlyFor hw (fun t _ => hf.status t) (fun t => hf.waitObjects t)
      fun o ho t ht => ?_
    have hkind : (s.setKind m k).kind o = s.kind o := by rw [kind_setKind, if_neg ho]
    have hkind' : (s₁.setKind m k').kind o = s₁.kind o := by rw [kind_setKind, if_neg ho]
    rw [shouldWait_congr hkind' Iff.rfl]
    refine hf.shouldWait o t ?_
    rwa [shouldWait_congr hkind Iff.rfl]
  obtain ⟨h₁, h₂, -⟩ := settled_wakeupAllWaitingThreads (hq.setKind m hk.2.2.2 hm)
    (hwaits.setKind m hk.2.2.1) honly
  exact ⟨(hq.setKind m hk.2.2.2 hm).wakeupAllWaitingThreads m, h₁, h₂⟩

theorem AtRest.releaseMutex {s : KernelSystem} (h : s.AtRest) (m t : Nat) :
    (s.releaseMutex m t).AtRest := by
  unfold KernelSystem.releaseMutex
  split
  · rename_i n priority holder hk
    split
    · exact h
    · split
      · rename_i hn
        refine h.follows (h.queued.setKind m (by simp) (by simp [hk]))
          (Follows.setKind (by simp) (by simp [hk]) fun u hu => ?_) rfl
        have hpos : 0 < n := by omega
        simpa [KernelSystem.shouldWait, hk, kind_setKind, hpos] using hu
      · have hf : Follows (s.setKind m (.mutex 0 priority (some holder)))
            (((s.setKind m (.mutex 0 priority (some holder))).removeHeld t m).updatePriority t) := by
          have hheld : Follows (s.setKind m (.mutex 0 priority (some holder)))
              ((s.setKind m (.mutex 0 priority (some holder))).removeHeld t m) :=
            Follows.modifyThread _ t fun _ => ⟨rfl, rfl⟩
          exact hheld.trans (Follows.updatePriority _ t)
        have hq : (((s.setKind m (.mutex 0 priority (some holder))).removeHeld t m).updatePriority
            t).Queued := by
          have h₁ : (s.setKind m (.mutex 0 priority (some holder))).Queued :=
            h.queued.setKind m (by simp) (by simp [hk])
          have h₂ : ((s.setKind m (.mutex 0 priority (some holder))).removeHeld t m).Queued :=
            h₁.modifyThread t fun _ => ⟨rfl, rfl, rfl, rfl⟩
          exact h₂.updatePriority t
        have hkind : (((s.setKind m (.mutex 0 priority (some holder))).removeHeld t
            m).updatePriority t).kind m ≠ .thread := by
          rw [kind_updatePriority, removeHeld, kind_modifyThread, kind_setKind, if_pos rfl]
          simp
        exact h.release (by simp) hf rfl hq hkind
  · exact h

/-- A thread that is killed is marked as dead, and nothing else changes but its ready queue. -/
theorem kill_frame (s : KernelSystem) (t : Nat) :
    (s.kill t).kind = s.kind ∧ (s.kill t).waitingThreads = s.waitingThreads ∧
      ∀ u, (s.kill t).threads u =
        if u = t then { s.threads u with status := .dead } else s.threads u := by
  unfold kill
  split
  · exact ⟨rfl, rfl, fun u => threads_modifyThread _ t _ u⟩
  · exact ⟨rfl, rfl, fun u => threads_modifyThread _ t _ u⟩

/-- The state after a thread was declared dead: only the thread itself became available, and it
is on its way out. -/
theorem AtRest.kill {s : KernelSystem} (h : s.AtRest) {t : Nat} (ht : s.kind t = .thread) :
    (s.kill t).Queued ∧ (s.kill t).Waits (· = t) ∧ (s.kill t).OnlyFor (· = t) t ∧
      ((s.kill t).threads t).status = .dead := by
  obtain ⟨hkind, hwait, hthreads⟩ := kill_frame s t
  have hstatus : ∀ u, u ≠ t → ((s.kill t).threads u).status = (s.threads u).status := by
    intro u hu
    rw [hthreads, if_neg hu]
  have hobjects : ∀ u, ((s.kill t).threads u).waitObjects = (s.threads u).waitObjects := by
    intro u
    rw [hthreads]
    split <;> rfl
  refine ⟨h.queued.kill ht, ⟨fun o u => ?_, fun o => ?_, fun u hx hu => ?_, fun u hx hu => ?_,
    fun u o ho => ?_⟩, ?_, ?_⟩
  · rw [hwait, hobjects]
    exact h.waits.mem o u
  · rw [hwait]
    exact h.waits.nodup o
  · rw [hstatus u hx]
    rw [hobjects] at hu
    exact h.waits.status u not_false hu
  · rw [hobjects]
    rw [hstatus u hx] at hu
    exact h.waits.all u not_false hu
  · rw [hkind]
    rw [hobjects] at ho
    exact h.waits.unused u o ho
  · have hsettled : s.Settled (· = t) := fun o u hu _ => h.settled o u hu not_false
    refine hsettled.onlyFor hwait hstatus hobjects fun o ho u hu => ?_
    rwa [@shouldWait_congr s (s.kill t) o (by rw [hkind]) (by rw [hstatus o ho])]
  · rw [hthreads, if_pos rfl]

theorem Waits.leaveWaitObjects_dead {s : KernelSystem} {x : Nat → Prop} (h : s.Waits x) {t : Nat}
    (hdead : (s.threads t).status = .dead) : Woke s (s.leaveWaitObjects t) t := by
  have hw := h.woke (Follows.refl s) rfl t
  have hresume : (s.leaveWaitObjects t).resumeFromWait t = s.leaveWaitObjects t := by
    unfold KernelSystem.resumeFromWait
    rw [(threads_leaveWaitObjects s t t).1, hdead]
  rwa [hresume] at hw

/-- A dead thread leaves the lists it is still in. -/
theorem atRest_leaveWaitObjects {s : KernelSystem} {t : Nat} (hq : s.Queued) (h : s.Waits (· = t))
    (hs : s.Settled (· = t)) (hdead : (s.threads t).status = .dead) :
    (s.leaveWaitObjects t).AtRest := by
  have hw := h.leaveWaitObjects_dead hdead
  have hwaits := hw.waits h
  have hsettled := hw.settled hs
  have hstatus : ((s.leaveWaitObjects t).threads t).status = .dead := hw.dead hdead
  refine ⟨hq.leaveWaitObjects t, ⟨hwaits.mem, hwaits.nodup, fun u _ hu => ?_, fun u _ hu => ?_,
    hwaits.unused⟩, fun o u hu _ => ?_⟩
  · refine hwaits.status u ?_ hu
    rintro rfl
    exact hu hw.gone
  · refine hwaits.all u ?_ hu
    rintro rfl
    rw [hstatus] at hu
    cases hu
  · refine hsettled o u hu ?_
    rintro rfl
    exact hw.not_waiting o hu

theorem AtRest.stop {s : KernelSystem} (h : s.AtRest) {t : Nat} (ht : s.kind t = .thread) :
    (s.stop t).AtRest := by
  obtain ⟨hq, hwaits, honly, hdead⟩ := h.kill ht
  obtain ⟨h₁, h₂, h₃⟩ := settled_wakeupAllWaitingThreads hq hwaits honly
  exact (atRest_leaveWaitObjects (hq.wakeupAllWaitingThreads t) h₁ h₂
    (h₃ t hdead)).releaseThreadMutexes t

/-- What a successful `CreateThread` changes outside the ready queues. -/
theorem createThread_frame (s : KernelSystem) (address : Nat) {priority processorId : Nat}
    (makeReady : Bool)
    (hok : ¬ (threadPrioLowest < priority ∨ threadProcessorIdMax < processorId)) :
    (s.createThread address priority processorId makeReady).waitingThreads = s.waitingThreads ∧
    (∀ o, (s.createThread address priority processorId makeReady).kind o =
      if o = address then .thread else s.kind o) ∧
    (∀ u, u ≠ address →
      (s.createThread address priority processorId makeReady).threads u = s.threads u) ∧
    (s.createThread address priority processorId makeReady).threads address =
      { Thread.new processorId priority with
        status := if makeReady then .ready else .dormant } := by
  have hthreads : ∀ u, (s.enrolThread address priority processorId).threads u =
      if u = address then Thread.new processorId priority else s.threads u :=
    fun u => threads_modifyThread _ _ _ u
  unfold createThread
  rw [if_neg hok]
  cases makeReady with
  | true =>
    simp only [if_true]
    refine ⟨rfl, fun o => kind_setKind _ _ _ o, fun u hu => ?_, ?_⟩
    · rw [setStatus, threads_modifyThread, if_neg hu, threads_modifyQueue, hthreads, if_neg hu]
    · rw [setStatus, threads_modifyThread, if_pos rfl, threads_modifyQueue, hthreads, if_pos rfl]
  | false =>
    simp only [Bool.false_eq_true, if_false]
    refine ⟨rfl, fun o => kind_setKind _ _ _ o, fun u hu => ?_, ?_⟩
    · rw [hthreads, if_neg hu]
    · rw [hthreads, if_pos rfl]
      rfl

/-- A new thread waits for nothing, and nobody waits for it. -/
theorem AtRest.createThread {s : KernelSystem} (h : s.AtRest) {address : Nat}
    (ha : s.kind address = .unused) (priority processorId : Nat) (makeReady : Bool) :
    (s.createThread address priority processorId makeReady).AtRest := by
  have hq := h.queued.createThread ha priority processorId makeReady
  have hidle : (s.threads address).waitObjects = [] := by
    by_contra hcon
    have hs := h.waits.status address not_false hcon
    rw [h.queued.blank address (by simp [ha])] at hs
    simp [WaitsForObjects] at hs
  have hnot : ∀ o u, u ∈ s.waitingThreads o → o ≠ address := by
    intro o u hu ho
    exact h.waits.unused u o ((h.waits.mem o u).1 hu) (ho ▸ ha)
  by_cases herr : threadPrioLowest < priority ∨ threadProcessorIdMax < processorId
  · unfold KernelSystem.createThread
    rw [if_pos herr]
    exact h
  obtain ⟨hwait, hkind, hothers, hnew⟩ := createThread_frame s address makeReady herr
  have hempty : ((s.createThread address priority processorId makeReady).threads
      address).waitObjects = [] := by
    rw [hnew]
    rfl
  have hstatus : ((s.createThread address priority processorId makeReady).threads
      address).status ≠ .waitSynchAll := by
    rw [hnew]
    cases makeReady <;> simp
  have hobjects : ∀ u, ((s.createThread address priority processorId makeReady).threads
      u).waitObjects = (s.threads u).waitObjects := by
    intro u
    by_cases hu : u = address
    · rw [hu, hempty, hidle]
    · rw [hothers u hu]
  refine ⟨hq, ⟨fun o u => ?_, fun o => ?_, fun u _ hu => ?_, fun u _ hu => ?_, fun u o ho => ?_⟩,
    fun o u hu _ hcan => ?_⟩
  · rw [hwait, hobjects]
    exact h.waits.mem o u
  · rw [hwait]
    exact h.waits.nodup o
  · have hua : u ≠ address := by
      rintro rfl
      exact hu hempty
    rw [hothers u hua] at hu ⊢
    exact h.waits.status u not_false hu
  · have hua : u ≠ address := by
      rintro rfl
      exact hstatus hu
    rw [hothers u hua] at hu ⊢
    exact h.waits.all u not_false hu
  · rw [hkind]
    rw [hobjects] at ho
    split
    · simp
    · exact h.waits.unused u o ho
  · rw [hwait] at hu
    have hua : u ≠ address := by
      rintro rfl
      rw [h.waits.mem, hidle] at hu
      cases hu
    have honly : (s.createThread address priority processorId makeReady).OnlyFor
        (· = address) address := by
      have hsettled : s.Settled (· = address) := fun o u hu _ => h.settled o u hu not_false
      refine hsettled.onlyFor hwait (fun u hu => by rw [hothers u hu]) hobjects fun o ho t ht => ?_
      rwa [@shouldWait_congr s _ o (by rw [hkind, if_neg ho]) (by rw [hothers o ho])]
    rcases honly o u (by rwa [hwait]) hua hcan with rfl | ⟨-, hmem⟩
    · exact hnot o u hu rfl
    · rw [hobjects] at hmem
      exact hnot address u ((h.waits.mem address u).2 hmem) rfl

/-! ## The scheduler -/

/-- The statuses of a thread that lives and waits for no object. -/
def IsFree (status : ThreadStatus) : Prop := ¬ WaitsForObjects status ∧ status ≠ .dead

/-- All that the scheduler changes outside the ready queues: threads that wait for no object
change their status. -/
structure Switched (s s' : KernelSystem) : Prop where
  kind : s'.kind = s.kind
  waitingThreads : s'.waitingThreads = s.waitingThreads
  record : ∀ t, s'.threads t = { s.threads t with status := (s'.threads t).status }
  status : ∀ t, (s'.threads t).status = (s.threads t).status ∨
    (IsFree (s.threads t).status ∧ IsFree (s'.threads t).status)

theorem Switched.waitObjects {s s' : KernelSystem} (h : Switched s s') (t : Nat) :
    (s'.threads t).waitObjects = (s.threads t).waitObjects := by
  rw [h.record t]

theorem Switched.trans {s₁ s₂ s₃ : KernelSystem} (h₁ : Switched s₁ s₂) (h₂ : Switched s₂ s₃) :
    Switched s₁ s₃ := by
  refine ⟨h₂.kind.trans h₁.kind, h₂.waitingThreads.trans h₁.waitingThreads,
    fun t => (h₂.record t).trans (by rw [h₁.record t]), fun t => ?_⟩
  rcases h₁.status t with h | ⟨ha, hb⟩
  · rcases h₂.status t with h' | ⟨ha', hb'⟩
    · exact Or.inl (h'.trans h)
    · exact Or.inr ⟨h ▸ ha', hb'⟩
  · rcases h₂.status t with h' | ⟨-, hb'⟩
    · exact Or.inr ⟨ha, h' ▸ hb⟩
    · exact Or.inr ⟨ha, hb'⟩

theorem switched_setStatus {s : KernelSystem} {t : Nat} {status : ThreadStatus}
    (hold : IsFree (s.threads t).status) (hnew : IsFree status) : Switched s (s.setStatus t status) := by
  refine ⟨rfl, rfl, fun u => ?_, fun u => ?_⟩
  · rw [setStatus, threads_modifyThread]
    split <;> rfl
  · rw [setStatus, threads_modifyThread]
    split
    · rename_i hu
      exact Or.inr ⟨hu ▸ hold, hnew⟩
    · exact Or.inl rfl

theorem switched_suspendPrevious (s : KernelSystem) (core : Nat) :
    Switched s (s.suspendPrevious core) := by
  refine ⟨kind_suspendPrevious s core, waitingThreads_suspendPrevious s core, fun t => ?_,
    fun t => ?_⟩
  · rw [threads_suspendPrevious]
    split <;> rfl
  · rw [threads_suspendPrevious]
    split
    · rename_i hrun
      have hs : (s.threads t).status = .running := by
        unfold runningThread at hrun
        split at hrun
        · split at hrun
          · cases hrun
            assumption
          · cases hrun
        · cases hrun
      refine Or.inr ⟨?_, ?_⟩
      · rw [hs]
        simp [IsFree, WaitsForObjects]
      · simp [IsFree, WaitsForObjects]
    · exact Or.inl rfl

theorem switched_loadContext {s s' : KernelSystem} {core : Nat} {next : Option Nat}
    (h : s.loadContext core next = some s') : Switched s s' := by
  unfold loadContext at h
  split at h
  · split at h
    · rename_i t hready
      cases h
      refine ⟨rfl, rfl, fun u => ?_, fun u => ?_⟩
      · rw [setStatus, threads_modifyThread, threads_modifyManager]
        split <;> rfl
      · rw [setStatus, threads_modifyThread, threads_modifyManager]
        split
        · rename_i hu
          refine Or.inr ⟨?_, ?_⟩
          · rw [hu, hready]
            simp [IsFree, WaitsForObjects]
          · simp [IsFree, WaitsForObjects]
        · exact Or.inl rfl
    · cases h
  · cases h
    exact ⟨rfl, rfl, fun _ => rfl, fun _ => Or.inl rfl⟩

theorem switched_reschedule {s s' : KernelSystem} {core : Nat} (h : s.reschedule core = some s') :
    Switched s s' := by
  have hqueue : ∀ q, Switched s (s.modifyQueue core fun _ => q) :=
    fun q => ⟨rfl, rfl, fun _ => rfl, fun _ => Or.inl rfl⟩
  unfold reschedule at h
  split at h
  · cases h
  · rename_i next q _
    split at h
    · cases h
      exact hqueue q
    · exact ((hqueue q).trans (switched_suspendPrevious _ core)).trans (switched_loadContext h)

theorem Switched.atRest {s s' : KernelSystem} (hw : Switched s s') (h : s.AtRest)
    (hq : s'.Queued) : s'.AtRest := by
  have hdead : ∀ t, (s'.threads t).status = .dead ↔ (s.threads t).status = .dead := by
    intro t
    rcases hw.status t with hs | ⟨ha, hb⟩
    · rw [hs]
    · simp [ha.2, hb.2]
  have hwait : ∀ o t, s'.shouldWait o t = s.shouldWait o t :=
    fun o t => shouldWait_congr (by rw [hw.kind]) (hdead o) t
  have hstatus : ∀ t, (s.threads t).waitObjects ≠ [] →
      (s'.threads t).status = (s.threads t).status := by
    intro t ht
    refine (hw.status t).resolve_right ?_
    rintro ⟨ha, -⟩
    exact ha.1 (h.waits.status t not_false ht)
  refine ⟨hq, ⟨fun o t => ?_, fun o => ?_, fun t _ ht => ?_, fun t _ ht => ?_, fun t o ho => ?_⟩,
    fun o t ht _ hcan => ?_⟩
  · rw [hw.waitingThreads, hw.waitObjects]
    exact h.waits.mem o t
  · rw [hw.waitingThreads]
    exact h.waits.nodup o
  · rw [hw.waitObjects] at ht
    rw [hstatus t ht]
    exact h.waits.status t not_false ht
  · rw [hw.waitObjects]
    rcases hw.status t with hs | ⟨-, hb⟩
    · exact h.waits.all t not_false (hs ▸ ht)
    · exact absurd (Or.inr (Or.inl ht)) hb.1
  · rw [hw.kind]
    rw [hw.waitObjects] at ho
    exact h.waits.unused t o ho
  · rw [hw.waitingThreads] at ht
    have hne : (s.threads t).waitObjects ≠ [] := List.ne_nil_of_mem ((h.waits.mem o t).1 ht)
    refine h.settled o t ht not_false
      (hcan.before (hstatus t hne) (hw.waitObjects t) fun o hso => ?_)
    rwa [hwait]

/-! ## Every run -/

theorem atRest_initial : initial.AtRest where
  queued := queued_initial
  waits := by
    refine ⟨fun o t => ?_, fun o => List.nodup_nil, fun t _ ht => absurd rfl ht, fun t _ ht => ?_,
      fun t o ho => ?_⟩
    · simp [initial, Thread.new]
    · simp [initial, Thread.new] at ht
    · simp [initial, Thread.new] at ho
  settled o t ht := by simp [initial] at ht

/-- Every operation leaves the kernel at rest. -/
theorem atRest_step {s s' : KernelSystem} (h : s.AtRest) (op : KernelOp)
    (hs : s.step op = some s') : s'.AtRest := by
  have hq := queued_step h.queued op hs
  cases op with
  | createThread address priority processorId makeReady =>
    simp only [step] at hs
    split at hs
    · rename_i ha
      cases hs
      exact h.createThread ha priority processorId makeReady
    · cases hs
  | createMutex core address initialLocked =>
    simp only [step, Option.bind_eq_some_iff, Option.map_eq_some_iff, createObject_eq_some] at hs
    obtain ⟨t, -, s₁, ⟨ha, rfl⟩, rfl⟩ := hs
    have h₁ := @AtRest.create s h address (.mutex 0 0 none) ha (by simp) (by simp)
    split
    · exact h₁.acquire address t
    · exact h₁
  | createEvent address resetType =>
    obtain ⟨ha, rfl⟩ := createObject_eq_some.1 hs
    exact h.create ha (by simp) (by simp)
  | createSemaphore address initialCount maxCount =>
    simp only [step] at hs
    split at hs
    · cases hs
      exact h
    · obtain ⟨ha, rfl⟩ := createObject_eq_some.1 hs
      exact h.create ha (by simp) (by simp)
  | createTimer address resetType =>
    obtain ⟨ha, rfl⟩ := createObject_eq_some.1 hs
    exact h.create ha (by simp) (by simp)
  | waitSynchronization1 core object nanoSeconds =>
    simp only [step, Option.bind_eq_some_iff] at hs
    obtain ⟨t, ht, hs⟩ := hs
    obtain ⟨hk, -, hrun, -⟩ := h.queued.runningThread ht
    split at hs
    · cases hs
    · rename_i hused
      cases hs
      exact h.waitSynchronization1 hk hrun hused nanoSeconds
  | waitSynchronizationN core objects waitAll nanoSeconds =>
    simp only [step, Option.bind_eq_some_iff] at hs
    obtain ⟨t, ht, hs⟩ := hs
    obtain ⟨hk, -, hrun, -⟩ := h.queued.runningThread ht
    split at hs
    · cases hs
    · rename_i hused
      cases hs
      refine h.waitSynchronizationN hk hrun (fun o ho hcon => hused ⟨o, ho, hcon⟩) waitAll
        nanoSeconds
  | suspend core status =>
    simp only [step, Option.bind_eq_some_iff] at hs
    obtain ⟨t, ht, hs⟩ := hs
    obtain ⟨hk, -, hrun, -⟩ := h.queued.runningThread ht
    split at hs
    · rename_i hstatus
      cases hs
      refine (switched_setStatus ?_ ?_).atRest h hq
      · rw [hrun]
        simp [IsFree, WaitsForObjects]
      · rcases hstatus with rfl | rfl | rfl <;> simp [IsFree, WaitsForObjects]
    · cases hs
  | sleepClientThread core address =>
    simp only [step, Option.bind_eq_some_iff, Option.map_eq_some_iff, createObject_eq_some] at hs
    obtain ⟨t, ht, s₁, ⟨ha, rfl⟩, rfl⟩ := hs
    obtain ⟨hk, -, hrun, -⟩ := h.queued.runningThread ht
    have h₁ := @AtRest.create s h address (.event .oneShot false) ha (by simp) (by simp)
    refine h₁.waitFor ?_ hrun (Or.inr (Or.inr rfl)) ?_ (fun _ => ?_) (by simp)
    · rw [kind_setKind, if_neg]
      · exact hk
      · rintro rfl
        rw [ha] at hk
        cases hk
    · simp [kind_setKind]
    · simp [KernelSystem.shouldWait, kind_setKind]
  | signal object =>
    cases hs
    exact h.signal object
  | clear object =>
    cases hs
    exact h.clear object
  | releaseSemaphore object releaseCount =>
    cases hs
    exact h.releaseSemaphore object releaseCount
  | releaseMutex core object =>
    simp only [step, Option.map_eq_some_iff] at hs
    obtain ⟨t, -, rfl⟩ := hs
    exact h.releaseMutex object t
  | threadWakeupCallback thread =>
    simp only [step, onThread_eq_some] at hs
    obtain ⟨ht, rfl⟩ := hs
    exact h.threadWakeupCallback ht
  | resumeFromWait thread =>
    simp only [step] at hs
    split at hs
    · rename_i hidle
      obtain ⟨ht, rfl⟩ := onThread_eq_some.1 hs
      exact h.resumeFromWait ht hidle
    · cases hs
  | setThreadPriority thread priority =>
    simp only [step, onThread_eq_some] at hs
    obtain ⟨-, rfl⟩ := hs
    exact h.setThreadPriority thread priority
  | setPriority thread priority =>
    simp only [step] at hs
    split at hs
    · obtain ⟨-, rfl⟩ := onThread_eq_some.1 hs
      exact h.follows hq (Follows.setPriority s thread priority) rfl
    · cases hs
  | boostPriority thread priority =>
    simp only [step] at hs
    split at hs
    · obtain ⟨-, rfl⟩ := onThread_eq_some.1 hs
      exact h.follows hq (Follows.boostPriority s thread priority) rfl
    · cases hs
  | setCanSchedule thread canSchedule =>
    simp only [step, onThread_eq_some] at hs
    obtain ⟨-, rfl⟩ := hs
    exact h.follows hq (Follows.modifyThread s thread fun _ => ⟨rfl, rfl⟩) rfl
  | stop thread =>
    simp only [step] at hs
    split at hs
    · cases hs
    · obtain ⟨ht, rfl⟩ := onThread_eq_some.1 hs
      exact h.stop ht
  | exitCurrentThread core =>
    simp only [step, Option.map_eq_some_iff] at hs
    obtain ⟨t, ht, rfl⟩ := hs
    exact h.stop (h.queued.runningThread ht).1
  | reschedule core => exact (switched_reschedule hs).atRest h hq

theorem atRest_reachable {s : KernelSystem} (h : s.Reachable) : s.AtRest := by
  induction h with
  | initial => exact atRest_initial
  | step op _ hs ih => exact atRest_step ih op hs

/-- **No lost wakeup.**  In every state between two operations, a thread that waits for any of its
objects has none that is available to it, a thread that waits for all of them has one that is not,
and a thread is in the list of an object exactly when it waits for the object. -/
theorem no_wakeup_lost {s : KernelSystem} (h : s.Reachable) :
    (∀ t, (s.threads t).status = .waitSynchAny →
      ∀ o ∈ (s.threads t).waitObjects, s.shouldWait o t = true) ∧
    (∀ t, (s.threads t).status = .waitSynchAll →
      ∃ o ∈ (s.threads t).waitObjects, s.shouldWait o t = true) ∧
    ∀ o t, t ∈ s.waitingThreads o ↔ o ∈ (s.threads t).waitObjects := by
  have hrest := atRest_reachable h
  refine ⟨fun t ht o ho => ?_, fun t ht => ?_, hrest.waits.mem⟩
  · by_contra hcon
    refine hrest.settled o t ((hrest.waits.mem o t).2 ho) not_false ⟨by simpa using hcon, ?_⟩
    exact readyToRun_iff.2 fun hall => by simp [ht] at hall
  · by_contra hcon
    have hfree : ∀ o ∈ (s.threads t).waitObjects, s.shouldWait o t = false := by
      intro o ho
      by_contra hw
      exact hcon ⟨o, ho, by simpa using hw⟩
    obtain ⟨o, ho⟩ := List.exists_mem_of_ne_nil _ (hrest.waits.all t not_false ht)
    exact hrest.settled o t ((hrest.waits.mem o t).2 ho) not_false
      ⟨hfree o ho, readyToRun_iff.2 fun _ => hfree⟩

/-- A thread waits for a mutex and an event at once; the holder of the mutex signals the event. -/
def waitForBoth : List KernelOp :=
  [.createThread 1 50 0 true, .createThread 2 40 1 true, .reschedule 0, .reschedule 1,
    .createMutex 0 3 true, .createEvent 4 .oneShot, .waitSynchronizationN 1 [3, 4] true 1000,
    .signal 4]

theorem no_wakeup_lost_waitForBoth :
    ∃ s, initial.run waitForBoth = some s ∧ (s.threads 2).status = .waitSynchAll ∧
      s.shouldWait 4 2 = false ∧ ∃ o ∈ (s.threads 2).waitObjects, s.shouldWait o 2 = true := by
  obtain ⟨s, hs⟩ := Option.isSome_iff_exists.1
    (show (initial.run waitForBoth).isSome = true by decide +kernel)
  have hcur : (initial.run waitForBoth).map (fun s => ((s.threads 2).status, s.shouldWait 4 2)) =
      some (.waitSynchAll, false) := by decide +kernel
  rw [hs] at hcur
  simp only [Option.map_some, Option.some.injEq, Prod.mk.injEq] at hcur
  exact ⟨s, hs, hcur.1, hcur.2, (no_wakeup_lost (Reachable.initial.run hs)).2.1 2 hcur.1⟩

end KernelSystem
end AzaharPlus.Kernel
