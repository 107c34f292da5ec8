import AzaharPlus.Kernel.Inheritance

/-!
# Priority inheritance along gentle runs

The invariant `Inherits` is kept by every gentle operation.  Waking threads leaves those that stay
asleep in peace (`Calm`): who waits for which mutex, and behind whom, only becomes simpler.

* `priority_inherited` — along every run of gentle operations each thread that lives has the best
  of its nominal priority and the current priorities of the threads that wait for its mutexes;
* `priority_not_inherited` — two runs of ordinary system calls after which a thread has not.
-/

namespace AzaharPlus.Kernel

open Common

namespace KernelSystem

/-! ## Waking all threads of an object -/

theorem held_mutexUpdatePriority (s : KernelSystem) (m u : Nat) :
    ((s.mutexUpdatePriority m).threads u).heldMutexes = (s.threads u).heldMutexes := by
  unfold mutexUpdatePriority
  split
  · split
    · rw [threads_updatePriority]
      split <;> rfl
    · rfl
  · rfl

theorem held_removeWaitingThread (s : KernelSystem) (o t u : Nat) :
    ((s.removeWaitingThread o t).threads u).heldMutexes = (s.threads u).heldMutexes := by
  unfold removeWaitingThread
  split
  · rw [held_mutexUpdatePriority, removePending, threads_modifyThread]
    split <;> rfl
  · rfl

theorem held_leaveWaitObjects (s : KernelSystem) (t u : Nat) :
    ((s.leaveWaitObjects t).threads u).heldMutexes = (s.threads u).heldMutexes := by
  have hfold : ∀ (l : List Nat) (s : KernelSystem),
      ((l.foldl (fun s o => s.removeWaitingThread o t) s).threads u).heldMutexes =
        (s.threads u).heldMutexes := by
    intro l
    induction l with
    | nil => exact fun s => rfl
    | cons o l ih => exact fun s => (ih _).trans (held_removeWaitingThread s o t u)
  unfold leaveWaitObjects setWaitObjects
  rw [threads_modifyThread]
  split
  · exact hfold _ s
  · exact hfold _ s

theorem held_resumeFromWait (s : KernelSystem) (t u : Nat) :
    ((s.resumeFromWait t).threads u).heldMutexes = (s.threads u).heldMutexes := by
  unfold resumeFromWait
  split
  · rfl
  · rfl
  · rfl
  · rw [setStatus, threads_modifyThread]
    split <;> rfl

theorem held_acquire (s : KernelSystem) (o : Nat) {t u : Nat} (hu : u ≠ t) :
    ((s.acquire o t).threads u).heldMutexes = (s.threads u).heldMutexes := by
  unfold acquire
  split
  · rw [threads_updatePriority, if_neg hu, addHeld, threads_modifyThread, if_neg hu]
    rfl
  · rfl
  · rfl
  · split <;> rfl
  · rfl
  · rfl

theorem held_acquireFor (s : KernelSystem) (o : Nat) {t u : Nat} (hu : u ≠ t) :
    ((s.acquireFor o t).threads u).heldMutexes = (s.threads u).heldMutexes := by
  have hall : ∀ (l : List Nat) (s : KernelSystem),
      ((s.acquireAll l t).threads u).heldMutexes = (s.threads u).heldMutexes := by
    intro l
    induction l with
    | nil => exact fun s => rfl
    | cons o l ih => exact fun s => (ih _).trans (held_acquire s o hu)
  unfold acquireFor
  split
  · exact hall _ s
  · exact held_acquire s o hu

/-- What waking threads does for those that are not woken. -/
structure Calm (s s' : KernelSystem) : Prop where
  loose : ∀ y w, s.Loose y w → s'.Loose y w
  kept : ∀ m h, s.holder m = some h → s'.holder m = some h
  waiting : ∀ m w, w ∈ s'.waitingThreads m → w ∈ s.waitingThreads m
  dead : ∀ u, (s.threads u).status = .dead → (s'.threads u).status = .dead ∧
    (s'.threads u).heldMutexes = (s.threads u).heldMutexes
  gone : ∀ u m, (s.threads u).status = .dead → s'.holder m = some u → s.holder m = some u

theorem Calm.refl (s : KernelSystem) : Calm s s :=
  ⟨fun _ _ h => h, fun _ _ h => h, fun _ _ h => h, fun _ h => ⟨h, rfl⟩, fun _ _ _ h => h⟩

theorem Calm.trans {s₁ s₂ s₃ : KernelSystem} (h₁ : Calm s₁ s₂) (h₂ : Calm s₂ s₃) : Calm s₁ s₃ := by
  refine ⟨fun y w h => h₂.loose y w (h₁.loose y w h), fun m h hm => h₂.kept m h (h₁.kept m h hm),
    fun m w hw => h₁.waiting m w (h₂.waiting m w hw), fun u hu => ?_, fun u m hu hm => ?_⟩
  · obtain ⟨h₃, h₄⟩ := h₁.dead u hu
    obtain ⟨h₅, h₆⟩ := h₂.dead u h₃
    exact ⟨h₅, h₆.trans h₄⟩
  · exact h₁.gone u m hu (h₂.gone u m (h₁.dead u hu).1 hm)

/-- A thread wakes up for an object.  A dead one may do so for itself, and takes nothing. -/
theorem Inherits.wakeupThread {s : KernelSystem} {y : Nat → Prop} (h : s.Inherits fun _ => False)
    (hwaits : s.Waits y) {o t : Nat} (hloose : s.Loose none t) (ht : s.kind t = .thread)
    (hlive : (s.threads t).status = .dead → s.kind o = .thread) (ho : t ∈ s.waitingThreads o) :
    (s.wakeupThread o t).Inherits (fun _ => False) ∧ Calm s (s.wakeupThread o t) := by
  have hdead : (s.threads t).status = .dead → s.acquireFor o t = s := by
    intro hd
    simp [acquireFor, hd, KernelSystem.acquire, hlive hd]
  have hfor : (s.acquireFor o t).Inherits (· ∈ (s.threads t).waitObjects) ∧
      Taken s (s.acquireFor o t) t := by
    by_cases hd : (s.threads t).status = .dead
    · rw [hdead hd]
      exact ⟨h.mono fun _ _ hx => hx.elim, Taken.refl s t⟩
    · unfold acquireFor
      split
      · obtain ⟨h₁, h₂⟩ := h.acquireAll ht hd (s.threads t).waitObjects
        exact ⟨h₁.mono fun k _ hx => hx.resolve_left not_false, h₂⟩
      · refine ⟨(h.acquire ht hd).mono fun k _ hx => ?_, h.taken_acquire o t⟩
        obtain ⟨rfl, -⟩ := hx.resolve_left not_false
        exact (hwaits.mem k t).1 ho
  obtain ⟨h₁, h₂⟩ := hfor.1.leaveWaitObjects hwaits hloose (Follows.acquireFor s o t)
    (waitingThreads_acquireFor s o t) hfor.2
  have htaken : Taken s (s.wakeupThread o t) t :=
    h₂.trans (Taken.of_kind (resumeFromWait_frame _ t).1 t)
  have hwoke := hwaits.wakeupThread o t
  refine ⟨h₁.resumeFromWait t, fun z w hw => hw.woke hwoke htaken, htaken.kept,
    fun m w hw => (hwoke.sublist m).subset hw, fun u hu => ?_, fun u m hu hm => ?_⟩
  · unfold KernelSystem.wakeupThread
    rw [held_resumeFromWait, held_leaveWaitObjects]
    by_cases hut : u = t
    · subst hut
      exact ⟨hwoke.dead hu, by rw [hdead hu]⟩
    · exact ⟨(hwoke.status u hut).trans hu, held_acquireFor s o hut⟩
  · rcases htaken.new m u hm with hm | rfl
    · exact hm
    · -- a dead thread takes nothing when it wakes up
      unfold KernelSystem.wakeupThread at hm
      rw [hdead hu, holder, (resumeFromWait_frame _ u).1] at hm
      have hlists := taken_leaveLists h.lock (s.threads u).waitObjects u (u + 1)
      exact (hlists.new m u hm).resolve_right (by omega)

theorem Inherits.wakeupLoop {s : KernelSystem} {y : Nat → Prop} (h : s.Inherits fun _ => False)
    (hq : s.Queued) (hwaits : s.Waits y) {o : Nat}
    (hloose : ∀ w ∈ s.waitingThreads o, s.Loose none w)
    (hy : ∀ t, y t → (s.threads t).status = .dead ∧ s.kind o = .thread) (turns : Nat) :
    (wakeupLoop o turns s).Inherits (fun _ => False) ∧ Calm s (wakeupLoop o turns s) := by
  induction turns generalizing s with
  | zero => exact ⟨h, Calm.refl s⟩
  | succ turns ih =>
    unfold KernelSystem.wakeupLoop
    split
    · exact ⟨h, Calm.refl s⟩
    · rename_i t hsome
      have ho := getHighestPriorityReadyThread_mem hsome
      have ht := hq.waiters o t ho
      have hlive : (s.threads t).status = .dead → s.kind o = .thread := by
        intro hd
        by_contra hcon
        have hnot : ¬ y t := fun hyt => hcon (hy t hyt).2
        have hobjects : (s.threads t).waitObjects ≠ [] :=
          List.ne_nil_of_mem ((hwaits.mem o t).1 ho)
        have hstatus := hwaits.status t hnot hobjects
        rw [hd] at hstatus
        simp [WaitsForObjects] at hstatus
      obtain ⟨h₁, h₂⟩ := h.wakeupThread hwaits (hloose t ho) ht hlive ho
      have hwoke := hwaits.wakeupThread o t
      have hkind : s.kind o = .thread → (s.wakeupThread o t).kind o = .thread := by
        intro hk
        unfold KernelSystem.wakeupThread
        rw [(resumeFromWait_frame _ t).1, kind_leaveWaitObjects, kind_acquireFor]
        exact hk
      obtain ⟨h₃, h₄⟩ := ih h₁ (hq.wakeupThread o ht) (hwoke.waits hwaits)
        (fun w hw => h₂.loose none w (hloose w (h₂.waiting o w hw)))
        (fun u hu => ⟨(h₂.dead u (hy u hu).1).1, hkind (hy u hu).2⟩)
      exact ⟨h₃, h₂.trans h₄⟩

theorem calm_setOther {s : KernelSystem} {o : Nat} {k : ObjectKind}
    (hk : ∀ n p e, k ≠ .mutex n p e) (ho : ∀ n p e, s.kind o ≠ .mutex n p e) :
    Calm s (s.setKind o k) := by
  have ht := taken_setKind_other hk ho 0
  have hsame := sameMutexes_setKind hk ho
  refine ⟨fun y w hw m e hm he => ?_, ht.kept, fun m w hw => hw, fun u hu => ⟨hu, rfl⟩,
    fun u m _ hm => by rwa [hsame.holder] at hm⟩
  rw [hsame.holder] at he
  exact (hw m e hm he).imp_right fun hnone k hk' => hnone k ((ht.mutex k).1 hk')

theorem Calm.endPulse {s : KernelSystem} (o : Nat) : Calm s (s.endPulse o) := by
  unfold KernelSystem.endPulse
  split
  · rename_i hk
    exact calm_setOther (by simp) (by simp [hk])
  · rename_i hk
    exact calm_setOther (by simp) (by simp [hk])
  · exact Calm.refl s

theorem Inherits.endPulse {s : KernelSystem} {x : Nat → Prop} (h : s.Inherits x) (o : Nat) :
    (s.endPulse o).Inherits x := by
  unfold KernelSystem.endPulse
  split
  · rename_i hk
    exact h.setOther (by simp) (by simp [hk]) (by simp [hk])
  · rename_i hk
    exact h.setOther (by simp) (by simp [hk]) (by simp [hk])
  · exact h

theorem Inherits.wakeupAllWaitingThreads {s : KernelSystem} {y : Nat → Prop}
    (h : s.Inherits fun _ => False) (hq : s.Queued) (hwaits : s.Waits y) {o : Nat}
    (hloose : ∀ w ∈ s.waitingThreads o, s.Loose none w)
    (hy : ∀ t, y t → (s.threads t).status = .dead ∧ s.kind o = .thread) :
    (s.wakeupAllWaitingThreads o).Inherits (fun _ => False) ∧
      Calm s (s.wakeupAllWaitingThreads o) := by
  obtain ⟨h₁, h₂⟩ := h.wakeupLoop hq hwaits hloose hy (s.waitingThreads o).length
  exact ⟨h₁.endPulse o, h₂.trans (Calm.endPulse o)⟩

/-! ## Objects taken without waiting -/

theorem Inherits.of_cacheOk {s : KernelSystem} {x y : Nat → Prop} (h : s.Inherits x)
    (hok : ∀ m t, s.holder m = some t → x m → ¬ y m → s.CacheOk m (s.threads t).nominalPriority) :
    s.Inherits y := by
  refine ⟨h.pending, h.lock, h.held, h.holds, h.cached, fun m t hm hy => ?_⟩
  by_cases hx : x m
  · exact hok m t hm hx hy
  · exact h.exact m t hm hx

/-- A thread that runs at its nominal priority takes an object. -/
theorem Inherits.acquireOk {s : KernelSystem} (h : s.Inherits fun _ => False) (hq : s.Queued)
    {o t : Nat} (ht : s.kind t = .thread) (hlive : (s.threads t).status ≠ .dead)
    (hok : s.AcquireOk t o) : (s.acquire o t).Inherits fun _ => False := by
  refine (h.acquire ht hlive).of_cacheOk fun m u hm hx _ => ?_
  obtain ⟨rfl, p, e, hk⟩ := hx.resolve_left not_false
  have hprio := h.priorities_acquire (o := m) ht hlive
  unfold AcquireOk at hok
  rw [hk] at hok
  obtain ⟨hnominal, hwaiters⟩ := hok
  have hnone : s.holder m = none := by
    rw [holder, hk, h.lock m p e hk]
    rfl
  have hut : u = t := by
    rcases (h.taken_acquire m t).new m u hm with hm | hm
    · rw [hnone] at hm
      cases hm
    · exact hm
  have hmp : (s.acquire m t).mutexPriority m = (s.threads t).currentPriority := by
    have hkind : (s.acquire m t).kind m =
        .mutex 1 (s.threads t).currentPriority (some t) := by
      unfold KernelSystem.acquire
      rw [hk]
      exact (kind_setKind s m _ m).trans (if_pos rfl)
    exact mutexPriority_of_kind hkind
  refine Or.inr ⟨?_, ?_⟩
  · rw [hmp, hut, (hprio t).2, hnominal]
  · rw [hut, (hprio t).2, le_bestWaitingPriority, waitingThreads_acquire]
    refine ⟨hq.nominal t, fun w hw => ?_⟩
    rw [(hprio w).1, ← hnominal]
    exact hwaiters w hw

theorem Inherits.acquireOk_acquire {s : KernelSystem} (h : s.Inherits fun _ => False) {o o' t : Nat}
    (ht : s.kind t = .thread) (hlive : (s.threads t).status ≠ .dead) (hok : s.AcquireOk t o') :
    (s.acquire o t).AcquireOk t o' := by
  have hprio := h.priorities_acquire (o := o) ht hlive
  unfold AcquireOk
  split
  · rename_i p e hk
    have hk' := (h.taken_acquire o t).free o' p e hk
    unfold AcquireOk at hok
    rw [hk'] at hok
    rw [(hprio t).1, (hprio t).2, waitingThreads_acquire]
    exact ⟨hok.1, fun w hw => by rw [(hprio w).1]; exact hok.2 w hw⟩
  · trivial

theorem Inherits.acquireAllOk {s : KernelSystem} (h : s.Inherits fun _ => False) (hq : s.Queued)
    {t : Nat} (ht : s.kind t = .thread) (hlive : (s.threads t).status ≠ .dead) (l : List Nat)
    (hok : ∀ o ∈ l, s.AcquireOk t o) : (s.acquireAll l t).Inherits fun _ => False := by
  induction l generalizing s with
  | nil => exact h
  | cons o l ih =>
    refine ih (h.acquireOk hq ht hlive (hok o List.mem_cons_self)) (hq.acquire o t)
      ((kind_acquire s o t t).2 ht) ?_ fun o' ho' => ?_
    · rwa [(Follows.acquire s o t).status]
    · exact h.acquireOk_acquire ht hlive (hok o' (List.mem_cons_of_mem o ho'))

/-! ## Threads that start to wait -/

theorem Inherits.setStatus {s : KernelSystem} {x : Nat → Prop} (h : s.Inherits x) {t : Nat}
    {status : ThreadStatus} (hlive : (s.threads t).status ≠ .dead ∨ status = .dead) :
    (s.setStatus t status).Inherits x := by
  unfold KernelSystem.setStatus
  refine h.modifyThread t ⟨rfl, rfl, rfl, rfl, fun hs => ?_⟩
  rcases hlive with hlive | rfl
  · exact hlive
  · exact absurd rfl hs

theorem Inherits.waitFor {s : KernelSystem} {x : Nat → Prop} (h : s.Inherits x) {t : Nat}
    {status : ThreadStatus} {objects : List Nat} (hlive : (s.threads t).status ≠ .dead)
    (hok : s.WaitOk t objects) : (s.waitFor t objects status).Inherits x := by
  have hfold : ∀ (l : List Nat) (s : KernelSystem), s.Inherits x → s.WaitOk t l →
      (l.foldl (fun s o => s.addWaitingThread o t) s).Inherits x := by
    intro l
    induction l with
    | nil => exact fun s h _ => h
    | cons o l ih =>
      intro s h hok
      obtain ⟨hholder, hpending⟩ := addWaitingThread_frame s o t
      refine ih _ (h.addWaitingThread fun u hu => hok o List.mem_cons_self u hu)
        fun m hm u hu => ?_
      rw [hholder] at hu
      obtain ⟨hut, hnone⟩ := hok m (List.mem_cons_of_mem o hm) u hu
      exact ⟨hut, by rwa [hpending u hut]⟩
  have hok' : (s.setStatus t status).WaitOk t objects := by
    intro m hm u hu
    obtain ⟨hut, hnone⟩ := hok m hm u hu
    refine ⟨hut, ?_⟩
    rwa [KernelSystem.setStatus, threads_modifyThread, if_neg hut]
  exact (hfold objects _ (h.setStatus (Or.inl hlive)) hok').setWaitObjects t objects

/-! ## The nominal priority -/

theorem threads_setPriority (s : KernelSystem) (t p u : Nat) :
    (s.setPriority t p).threads u =
      if u = t then { s.threads u with nominalPriority := p, currentPriority := p }
      else s.threads u := by
  rw [setPriority, threads_modifyThread]
  rfl

theorem Inherits.setThreadPriority {s : KernelSystem} (h : s.Inherits fun _ => False) {t p : Nat}
    (hun : s.Unchained none t) (hok : ∀ m ∈ (s.threads t).heldMutexes.toList, s.CacheOk m p) :
    (s.setThreadPriority t p).Inherits fun _ => False := by
  have hthreads := threads_setPriority s t p
  have hsame : ∀ u, ((s.setPriority t p).threads u).status = (s.threads u).status ∧
      ((s.setPriority t p).threads u).heldMutexes = (s.threads u).heldMutexes ∧
      ((s.setPriority t p).threads u).pendingMutexes = (s.threads u).pendingMutexes := by
    intro u
    rw [hthreads]
    split <;> exact ⟨rfl, rfl, rfl⟩
  have hnot : ∀ m, s.holder m ≠ none → t ∈ s.waitingThreads m →
      m ∈ (s.threads t).pendingMutexes.toList := by
    intro m hm hw
    obtain ⟨u, hu⟩ := Option.ne_none_iff_exists'.1 hm
    obtain ⟨n, q, hk⟩ := holder_eq_some.1 hu
    exact (h.pending t m).2 ⟨⟨n, q, some u, hk⟩, hw⟩
  -- the mutexes the thread waits for have the old priority until the loop comes to them
  have h₁ : ((s.setPriority t p).updatePriority t).Inherits
      (· ∈ (s.threads t).pendingMutexes.toList) := by
    refine Inherits.updatePriority (fun u m => ?_) h.lock (fun m u hm => ?_) (fun u m hu hm => ?_)
      (fun u hut hu => ?_) (fun m u hm hx => ?_) hnot
    · rw [(hsame u).2.2]
      exact h.pending u m
    · rw [(hsame u).2.1]
      exact h.held m u hm
    · rw [(hsame u).1] at hu
      rw [(hsame u).2.1] at hm
      exact h.holds u m hu hm
    · rw [(hsame u).1] at hu
      have hcached := h.cached u hu
      have hb : (s.setPriority t p).bestHeldPriority u = s.bestHeldPriority u := by
        refine bestHeldPriority_congr ?_ (hsame u).2.1 fun _ _ => rfl
        rw [hthreads, if_neg hut]
      rw [hb, ← hcached, hthreads, if_neg hut]
    · have hm' : s.holder m = some u := hm
      have hw : (s.setPriority t p).bestWaitingPriority m = s.bestWaitingPriority m := by
        refine bestWaitingPriority_congr rfl fun v hv => ?_
        rw [hthreads, if_neg]
        rintro rfl
        exact hx (hnot m (by rw [hm']; simp) hv)
      have hex : s.CacheOk m ((s.setPriority t p).threads u).nominalPriority := by
        rw [hthreads]
        split
        · rename_i hut
          exact hok m (h.held m t (hut ▸ hm')).1
        · exact h.exact m u hm' not_false
      unfold CacheOk at hex ⊢
      rw [hw]
      exact hex
  have hfold : ∀ (l : List Nat) (s : KernelSystem), s.Inherits (· ∈ l) →
      (∀ m ∈ l, ∀ u, s.holder m = some u → ∀ k, s.holder k ≠ none → u ∉ s.waitingThreads k) →
      (l.foldl KernelSystem.mutexUpdatePriority s).Inherits fun _ => False := by
    intro l
    induction l with
    | nil => exact fun s h _ => h.mono fun k _ hk => by simp at hk
    | cons m l ih =>
      intro s h hfree
      obtain ⟨hholder, -⟩ := mutexUpdatePriority_frame s m
      have h₂ := h.mutexUpdatePriority m fun u hu k hk hw =>
        absurd hw (hfree m List.mem_cons_self u hu k hk)
      refine ih _ (h₂.mono fun k _ hx => ?_) fun k hk u hu k' hk' => ?_
      · exact (List.mem_cons.1 hx.1).resolve_left hx.2
      · rw [hholder] at hu hk'
        rw [waitingThreads_mutexUpdatePriority]
        exact hfree k (List.mem_cons_of_mem m hk) u hu k' hk'
  have hpend : (((s.setPriority t p).updatePriority t).threads t).pendingMutexes =
      (s.threads t).pendingMutexes := by
    rw [pending_updatePriority, (hsame t).2.2]
  unfold KernelSystem.setThreadPriority
  split
  · exact h
  · unfold updatePendingMutexes
    rw [hpend]
    refine hfold _ _ h₁ fun m hm u hu k hk => ?_
    have hnone := (hun m hm u hu).resolve_left (by simp)
    exact h.not_waiting hnone hk

/-! ## Mutexes that become free -/

/-- The state in which a mutex has become free: its holder has lost it, or is dead. -/
theorem Inherits.dropMutex {s s' : KernelSystem} (h : s.Inherits fun _ => False) {m t n p : Nat}
    (hm : s.kind m = .mutex n p (some t))
    (hkind : ∀ k, s'.kind k = if k = m then .mutex 0 p none else s.kind k)
    (hwait : s'.waitingThreads = s.waitingThreads)
    (hothers : ∀ u, u ≠ t → s'.threads u = s.threads u)
    (ht : (s'.threads t).status = (s.threads t).status ∧
      (s'.threads t).nominalPriority = (s.threads t).nominalPriority ∧
      (s'.threads t).pendingMutexes = (s.threads t).pendingMutexes ∧
      ∀ k, k ≠ m → (k ∈ (s'.threads t).heldMutexes ↔ k ∈ (s.threads t).heldMutexes))
    (hlive : (s.threads t).status ≠ .dead → m ∉ (s'.threads t).heldMutexes ∧
      (s'.threads t).currentPriority = s'.bestHeldPriority t)
    (hprio : (s'.threads t).currentPriority = (s.threads t).currentPriority ∨
      ∀ k, s.holder k ≠ none → t ∉ s.waitingThreads k) : s'.Inherits fun _ => False := by
  have hmt : s.holder m = some t := holder_eq_some.2 ⟨n, p, hm⟩
  have hholder : ∀ k, s'.holder k = if k = m then none else s.holder k := by
    intro k
    rw [holder, hkind]
    split <;> rfl
  have hmp : ∀ k, s'.mutexPriority k = s.mutexPriority k := by
    intro k
    by_cases hk : k = m
    · rw [hk, mutexPriority_of_kind hm, mutexPriority_of_kind ((hkind m).trans (if_pos rfl))]
    · unfold mutexPriority
      rw [hkind, if_neg hk]
  have hsame : ∀ u, (s'.threads u).status = (s.threads u).status ∧
      (s'.threads u).nominalPriority = (s.threads u).nominalPriority ∧
      (s'.threads u).pendingMutexes = (s.threads u).pendingMutexes := by
    intro u
    by_cases hu : u = t
    · rw [hu]
      exact ⟨ht.1, ht.2.1, ht.2.2.1⟩
    · rw [hothers u hu]
      exact ⟨rfl, rfl, rfl⟩
  refine ⟨fun u k => ?_, fun k q e hk => ?_, fun k u hk => ?_, fun u k hu hk => ?_, fun u hu => ?_,
    fun k u hk _ => ?_⟩
  · rw [(hsame u).2.2, h.pending, hwait, hkind]
    refine and_congr_left fun _ => ?_
    by_cases hkm : k = m
    · simp [hkm, hm]
    · simp [hkm]
  · rw [hkind] at hk
    split at hk
    · cases hk
      rfl
    · exact h.lock k q e hk
  · rw [hholder] at hk
    split at hk
    · cases hk
    · rename_i hkm
      obtain ⟨h₁, h₂⟩ := h.held k u hk
      have hum : u ≠ m := by
        rintro rfl
        rw [hm] at h₂
        cases h₂
      rw [hkind, if_neg hum]
      refine ⟨?_, h₂⟩
      by_cases hu : u = t
      · subst hu
        exact (ht.2.2.2 k hkm).2 h₁
      · rw [hothers u hu]
        exact h₁
  · rw [(hsame u).1] at hu
    rw [hholder]
    by_cases hut : u = t
    · subst hut
      have hkm : k ≠ m := by
        rintro rfl
        exact (hlive hu).1 hk
      rw [if_neg hkm]
      exact h.holds u k hu ((ht.2.2.2 k hkm).1 hk)
    · rw [hothers u hut] at hk
      have hku := h.holds u k hu hk
      rw [if_neg]
      · exact hku
      · rintro rfl
        rw [hmt] at hku
        exact hut (Option.some.inj hku).symm
  · rw [(hsame u).1] at hu
    by_cases hut : u = t
    · subst hut
      exact (hlive hu).2
    · rw [hothers u hut, h.cached u hu]
      refine (bestHeldPriority_congr ?_ ?_ fun k _ => hmp k).symm
      · rw [hothers u hut]
      · rw [hothers u hut]
  · rw [hholder] at hk
    split at hk
    · cases hk
    · have hbest : s'.bestWaitingPriority k = s.bestWaitingPriority k := by
        refine bestWaitingPriority_congr (by rw [hwait]) fun v hv => ?_
        by_cases hvt : v = t
        · subst hvt
          rcases hprio with hprio | hprio
          · exact hprio
          · exact absurd hv (hprio k (by rw [hk]; simp))
        · rw [hothers v hvt]
      have hex := h.exact k u hk not_false
      unfold CacheOk at hex ⊢
      rw [hmp, hbest, (hsame u).2.1]
      exact hex

/-- Whoever was loose is so when fewer mutexes have holders. -/
theorem Loose.drop {s s' : KernelSystem} {y : Option Nat} {w : Nat} (h : s.Loose y w)
    (hwait : s'.waitingThreads = s.waitingThreads)
    (hholder : ∀ m u, s'.holder m = some u → s.holder m = some u)
    (hmutex : ∀ m, s'.IsMutex m → s.IsMutex m) : s'.Loose y w := by
  intro m e hm he
  rw [hwait] at hm ⊢
  exact (h m e hm (hholder m e he)).imp_right fun hnone k hk => hnone k (hmutex k hk)

theorem Inherits.releaseMutex {s : KernelSystem} (h : s.Inherits fun _ => False) (hrest : s.AtRest)
    {m t : Nat} (hrun : (s.threads t).status = .running) (hok : s.WakeOk none m) :
    (s.releaseMutex m t).Inherits fun _ => False := by
  unfold KernelSystem.releaseMutex
  split
  · rename_i n p e hk
    split
    · exact h
    · rename_i het
      split
      · rename_i hn
        exact h.relock hk hn
      · have hte : e = t := not_not.1 het
        subst hte
        -- the four writes of the release, put together
        have hidle : ∀ k, e ∉ s.waitingThreads k := by
          intro k hk'
          have hobjects := List.ne_nil_of_mem ((hrest.waits.mem k e).1 hk')
          have hstatus := hrest.waits.status e not_false hobjects
          rw [hrun] at hstatus
          simp [WaitsForObjects] at hstatus
        have hheld : ((s.setKind m (.mutex 0 p (some e))).removeHeld e m).threads e =
            { s.threads e with heldMutexes := (s.threads e).heldMutexes.erase m } := by
          rw [removeHeld, threads_modifyThread, if_pos rfl]
          rfl
        have hkind₁ : ∀ k, (((s.setKind m (.mutex 0 p (some e))).removeHeld e m).updatePriority
            e).kind k = if k = m then .mutex 0 p (some e) else s.kind k :=
          fun k => kind_setKind s m _ k
        have hkind : ∀ k, ((((s.setKind m (.mutex 0 p (some e))).removeHeld e m).updatePriority
            e).setKind m (.mutex 0 p none)).kind k = if k = m then .mutex 0 p none else s.kind k := by
          intro k
          rw [kind_setKind, hkind₁]
          split <;> rfl
        have hthread : ((((s.setKind m (.mutex 0 p (some e))).removeHeld e m).updatePriority
            e).setKind m (.mutex 0 p none)).threads e =
            { s.threads e with
              heldMutexes := (s.threads e).heldMutexes.erase m
              currentPriority := ((s.setKind m (.mutex 0 p (some e))).removeHeld e
                m).bestHeldPriority e } := by
          rw [threads_setKind, threads_updatePriority, if_pos rfl, hheld]
        have hothers : ∀ u, u ≠ e → ((((s.setKind m (.mutex 0 p (some e))).removeHeld e
            m).updatePriority e).setKind m (.mutex 0 p none)).threads u = s.threads u := by
          intro u hu
          rw [threads_setKind, threads_updatePriority, if_neg hu, removeHeld, threads_modifyThread,
            if_neg hu]
          rfl
        have hmp : ∀ k, ((s.setKind m (.mutex 0 p (some e))).removeHeld e m).mutexPriority k =
            ((((s.setKind m (.mutex 0 p (some e))).removeHeld e m).updatePriority e).setKind m
              (.mutex 0 p none)).mutexPriority k := by
          intro k
          by_cases hkm : k = m
          · have h₁ : ((s.setKind m (.mutex 0 p (some e))).removeHeld e m).kind m =
                .mutex 0 p (some e) := (hkind₁ m).trans (if_pos rfl)
            rw [hkm, mutexPriority_of_kind h₁, mutexPriority_of_kind ((hkind m).trans (if_pos rfl))]
          · rw [mutexPriority_setKind_of_ne _ _ hkm]
            rfl
        have hdrop : ((((s.setKind m (.mutex 0 p (some e))).removeHeld e m).updatePriority
            e).setKind m (.mutex 0 p none)).Inherits fun _ => False := by
          refine h.dropMutex hk hkind rfl hothers ?_ (fun _ => ?_) (Or.inr fun k _ => hidle k)
          · rw [hthread]
            refine ⟨rfl, rfl, rfl, fun k hkm => ?_⟩
            simp [hkm]
          · rw [hthread]
            refine ⟨by simp, ?_⟩
            refine (bestHeldPriority_congr ?_ ?_ fun k _ => (hmp k).symm).symm
            · rw [hthread, hheld]
            · rw [hthread, hheld]
        have hq : ((((s.setKind m (.mutex 0 p (some e))).removeHeld e m).updatePriority
            e).setKind m (.mutex 0 p none)).Queued := by
          have h₁ : (s.setKind m (.mutex 0 p (some e))).Queued :=
            hrest.queued.setKind m (by simp) (by simp [hk])
          have h₂ : ((s.setKind m (.mutex 0 p (some e))).removeHeld e m).Queued :=
            h₁.modifyThread e fun _ => ⟨rfl, rfl, rfl, rfl⟩
          refine (h₂.updatePriority e).setKind m (by simp) ?_
          rw [hkind₁, if_pos rfl]
          simp
        have hwaits : ((((s.setKind m (.mutex 0 p (some e))).removeHeld e m).updatePriority
            e).setKind m (.mutex 0 p none)).Waits fun _ => False := by
          have hf₁ : Follows (s.setKind m (.mutex 0 p (some e)))
              ((s.setKind m (.mutex 0 p (some e))).removeHeld e m) :=
            Follows.modifyThread _ e fun _ => ⟨rfl, rfl⟩
          have hf := hf₁.trans (Follows.updatePriority _ e)
          exact (hf.waits rfl (hrest.waits.setKind m (by simp))).setKind m (by simp)
        refine (hdrop.wakeupAllWaitingThreads hq hwaits (fun w hw => ?_)
          (fun u hu => hu.elim)).1
        refine ((h.loose.1 (hok w hw)).drop rfl (fun k u hku => ?_) fun k hk' => ?_)
        · rw [holder, hkind] at hku
          split at hku
          · cases hku
          · exact hku
        · obtain ⟨n', p', e', hk'⟩ := hk'
          rw [hkind] at hk'
          split at hk'
          · rename_i hkm
            exact ⟨_, _, _, hkm ▸ hk⟩
          · exact ⟨n', p', e', hk'⟩
  · exact h

/-! ## Threads that end -/

/-- A mutex of a dead thread is given up. -/
theorem Inherits.freeMutex {s : KernelSystem} (h : s.Inherits fun _ => False) (hrest : s.AtRest)
    {m t : Nat} (hm : s.holder m = some t) (hdead : (s.threads t).status = .dead)
    (hloose : ∀ w ∈ s.waitingThreads m, s.Loose none w) :
    (s.freeMutex m).Inherits (fun _ => False) ∧
      (∀ k, k ≠ m → (∀ w ∈ s.waitingThreads k, s.Loose none w) →
        ∀ w ∈ (s.freeMutex m).waitingThreads k, (s.freeMutex m).Loose none w) ∧
      (∀ k, k ≠ m → s.holder k = some t → (s.freeMutex m).holder k = some t) ∧
      (∀ k, (s.freeMutex m).holder k = some t → k ≠ m ∧ s.holder k = some t) ∧
      ((s.freeMutex m).threads t).status = .dead := by
  obtain ⟨n, p, hk⟩ := holder_eq_some.1 hm
  have hfree : s.freeMutex m = (s.setKind m (.mutex 0 p none)).wakeupAllWaitingThreads m := by
    unfold KernelSystem.freeMutex
    rw [hk]
  have hholder := holder_setKind s m (.mutex 0 p none)
  have hdrop : (s.setKind m (.mutex 0 p none)).Inherits fun _ => False :=
    h.dropMutex hk (kind_setKind s m _) rfl (fun _ _ => rfl) ⟨rfl, rfl, rfl, fun _ _ => Iff.rfl⟩
      (fun hlive => absurd hdead hlive) (Or.inl rfl)
  have hlost : ∀ w, s.Loose none w → (s.setKind m (.mutex 0 p none)).Loose none w := by
    intro w hw
    refine hw.drop rfl (fun k u hku => ?_) fun k ⟨n', p', e', hk'⟩ => ?_
    · rw [hholder] at hku
      split at hku
      · cases hku
      · exact hku
    · rw [kind_setKind] at hk'
      split at hk'
      · rename_i hkm
        exact ⟨n, p, some t, hkm ▸ hk⟩
      · exact ⟨n', p', e', hk'⟩
  obtain ⟨h₁, hcalm⟩ := hdrop.wakeupAllWaitingThreads
    (hrest.queued.setKind m (by simp) (by simp [hk])) (hrest.waits.setKind m (by simp))
    (fun w hw => hlost w (hloose w hw)) (fun u hu => hu.elim)
  rw [hfree]
  refine ⟨h₁, fun k _ hloose' w hw => ?_, fun k hkm hkt => ?_, fun k hkt => ?_, ?_⟩
  · exact hcalm.loose none w (hlost w (hloose' w (hcalm.waiting k w hw)))
  · refine hcalm.kept k t ?_
    rw [hholder, if_neg hkm]
    exact hkt
  · have hkt' := hcalm.gone t k hdead hkt
    rw [hholder] at hkt'
    split at hkt'
    · cases hkt'
    · rename_i hkm
      exact ⟨hkm, hkt'⟩
  · exact (hcalm.dead t hdead).1

/-- All mutexes of a dead thread are given up. -/
theorem Inherits.freeMutexes {s : KernelSystem} (h : s.Inherits fun _ => False) (hrest : s.AtRest)
    {t : Nat} (hdead : (s.threads t).status = .dead) {l : List Nat} (hl : l.Nodup)
    (hheld : ∀ m ∈ l, s.holder m = some t) (hall : ∀ m, s.holder m = some t → m ∈ l)
    (hloose : ∀ m ∈ l, ∀ w ∈ s.waitingThreads m, s.Loose none w) :
    (l.foldl KernelSystem.freeMutex s).Inherits (fun _ => False) ∧
      ((l.foldl KernelSystem.freeMutex s).threads t).status = .dead ∧
      ∀ m, (l.foldl KernelSystem.freeMutex s).holder m ≠ some t := by
  induction l generalizing s with
  | nil => exact ⟨h, hdead, fun m hm => by simpa using hall m hm⟩
  | cons m l ih =>
    obtain ⟨hml, hl⟩ := List.nodup_cons.1 hl
    have hne : ∀ k ∈ l, k ≠ m := by
      rintro k hk rfl
      exact hml hk
    obtain ⟨h₁, h₂, h₃, h₄, h₅⟩ := h.freeMutex hrest (hheld m List.mem_cons_self) hdead
      (hloose m List.mem_cons_self)
    refine ih h₁ (hrest.freeMutex m) h₅ hl (fun k hk => ?_) (fun k hk => ?_) (fun k hk => ?_)
    · exact h₃ k (hne k hk) (hheld k (List.mem_cons_of_mem m hk))
    · obtain ⟨hkm, hkt⟩ := h₄ k hk
      exact (List.mem_cons.1 (hall k hkt)).resolve_left hkm
    · exact h₂ k (hne k hk) (hloose k (List.mem_cons_of_mem m hk))

/-- A dead thread that holds nothing any more forgets what it held. -/
theorem Inherits.clearHeld {s : KernelSystem} {x : Nat → Prop} (h : s.Inherits x) {t : Nat}
    (hdead : (s.threads t).status = .dead) (hnone : ∀ m, s.holder m ≠ some t) :
    (s.clearHeld t).Inherits x := by
  have hthreads : ∀ u, (s.clearHeld t).threads u =
      if u = t then { s.threads u with heldMutexes := .empty } else s.threads u :=
    fun u => threads_modifyThread s t _ u
  have hsame : ∀ u, ((s.clearHeld t).threads u).status = (s.threads u).status ∧
      ((s.clearHeld t).threads u).pendingMutexes = (s.threads u).pendingMutexes ∧
      ((s.clearHeld t).threads u).currentPriority = (s.threads u).currentPriority ∧
      ((s.clearHeld t).threads u).nominalPriority = (s.threads u).nominalPriority := by
    intro u
    rw [hthreads]
    split <;> exact ⟨rfl, rfl, rfl, rfl⟩
  have hlive : ∀ u, ((s.clearHeld t).threads u).status ≠ .dead →
      u ≠ t ∧ (s.clearHeld t).threads u = s.threads u := by
    intro u hu
    rw [(hsame u).1] at hu
    have hut : u ≠ t := by
      rintro rfl
      exact hu hdead
    exact ⟨hut, by rw [hthreads, if_neg hut]⟩
  refine ⟨fun u m => ?_, h.lock, fun m u hm => ?_, fun u m hu hm => ?_, fun u hu => ?_,
    fun m u hm hx => ?_⟩
  · rw [(hsame u).2.1]
    exact h.pending u m
  · have hut : u ≠ t := by
      rintro rfl
      exact hnone m hm
    rw [hthreads, if_neg hut]
    exact h.held m u hm
  · obtain ⟨-, heq⟩ := hlive u hu
    rw [heq] at hu hm
    exact h.holds u m hu hm
  · obtain ⟨-, heq⟩ := hlive u hu
    have hcached := h.cached u (heq ▸ hu)
    rw [heq, hcached]
    refine (bestHeldPriority_congr ?_ ?_ fun k _ => ?_).symm
    · rw [heq]
    · rw [heq]
    · rfl
  · have hbest : (s.clearHeld t).bestWaitingPriority m = s.bestWaitingPriority m :=
      bestWaitingPriority_congr rfl fun u _ => (hsame u).2.2.1
    have hex := h.exact m u hm hx
    unfold CacheOk at hex ⊢
    rw [hbest, (hsame u).2.2.2]
    exact hex

theorem Inherits.kill {s : KernelSystem} {x : Nat → Prop} (h : s.Inherits x) (t : Nat) :
    (s.kill t).Inherits x := by
  obtain ⟨hkind, hwait, hthreads⟩ := kill_frame s t
  refine h.frame (fun _ _ _ _ => by rw [hkind]) (fun u hu => by rwa [hkind])
    (fun m _ => by rw [hwait]) fun u => ?_
  rw [hthreads]
  split
  · exact ⟨rfl, rfl, rfl, rfl, fun hu => absurd rfl hu⟩
  · exact ⟨rfl, rfl, rfl, rfl, fun hu => hu⟩

theorem Inherits.stop {s : KernelSystem} (h : s.Inherits fun _ => False) (hrest : s.AtRest)
    {t : Nat} (ht : s.kind t = .thread) (hlive : (s.threads t).status ≠ .dead) (hok : s.StopOk t) :
    (s.stop t).Inherits fun _ => False := by
  obtain ⟨hwake, hleave, hheld⟩ := hok
  obtain ⟨hkind, hwait, hthreads⟩ := kill_frame s t
  obtain ⟨hq, hwaits, honly, hdead⟩ := hrest.kill ht
  have hloose₁ : ∀ y w, s.Unchained y w → (s.kill t).Loose y w := by
    intro y w hw
    refine (h.loose.1 hw).drop hwait (fun m u hm => ?_) fun m hm => ?_
    · rwa [holder, hkind] at hm
    · rwa [IsMutex, hkind] at hm
  -- those who wait for the thread itself are woken
  obtain ⟨h₂, hcalm⟩ := (h.kill t).wakeupAllWaitingThreads hq hwaits
    (fun w hw => hloose₁ none w (hwake w (by rwa [hwait] at hw)))
    (fun u hu => ⟨hu ▸ hdead, by rw [hkind]; exact ht⟩)
  obtain ⟨hwaits₂, hsettled₂, hdead₂⟩ := settled_wakeupAllWaitingThreads hq hwaits honly
  have hdead₂ := hdead₂ t hdead
  -- the thread leaves the lists it waits in
  obtain ⟨h₃, htaken⟩ := (h₂.mono fun _ _ hx => hx.elim).leaveWaitObjects hwaits₂
    (hcalm.loose none t (hloose₁ none t hleave)) (Follows.refl _) rfl (Taken.refl _ t)
  have hwoke := hwaits₂.leaveWaitObjects_dead hdead₂
  have hrest₃ := atRest_leaveWaitObjects (hq.wakeupAllWaitingThreads t) hwaits₂ hsettled₂ hdead₂
  have hheld₃ : (((((s.kill t).wakeupAllWaitingThreads t).leaveWaitObjects t).threads
      t).heldMutexes) = (s.threads t).heldMutexes := by
    rw [held_leaveWaitObjects, (hcalm.dead t hdead).2, hthreads, if_pos rfl]
  -- it gives up its mutexes, one after the other
  have hkept : ∀ m ∈ (s.threads t).heldMutexes.toList,
      (((s.kill t).wakeupAllWaitingThreads t).leaveWaitObjects t).holder m = some t := by
    intro m hm
    refine htaken.kept m t (hcalm.kept m t ?_)
    rw [holder, hkind]
    exact h.holds t m hlive hm
  have hall : ∀ m, (((s.kill t).wakeupAllWaitingThreads t).leaveWaitObjects t).holder m = some t →
      m ∈ (s.threads t).heldMutexes.toList := by
    intro m hm
    have hmem := (h₃.held m t hm).1
    rwa [hheld₃] at hmem
  have hfree : ∀ m ∈ (s.threads t).heldMutexes.toList,
      ∀ w ∈ (((s.kill t).wakeupAllWaitingThreads t).leaveWaitObjects t).waitingThreads m,
        (((s.kill t).wakeupAllWaitingThreads t).leaveWaitObjects t).Loose none w := by
    intro m hm w hw k e hk he
    have hw₁ := hcalm.waiting m w ((hwoke.sublist m).subset hw)
    rw [hwait] at hw₁
    have hloose := (hcalm.loose _ w (hloose₁ _ w (hheld m hm w hw₁))).woke hwoke htaken
    rcases hloose k e hk he with hte | hfree
    · cases hte
      exact Or.inr fun k' _ => hwoke.not_waiting k'
    · exact Or.inr hfree
  obtain ⟨h₄, hdead₄, hnone⟩ := h₃.freeMutexes hrest₃ (hwoke.dead hdead₂)
    (s.threads t).heldMutexes.nodup hkept hall hfree
  unfold KernelSystem.stop releaseThreadMutexes
  rw [hheld₃]
  exact h₄.clearHeld hdead₄ hnone

/-! ## The other operations -/

theorem Inherits.threadWakeupCallback {s : KernelSystem} (h : s.Inherits fun _ => False)
    (hrest : s.AtRest) {t : Nat} (hok : s.Unchained none t) :
    (s.threadWakeupCallback t).Inherits fun _ => False := by
  have hleave := ((h.mono fun _ _ hx => hx.elim).leaveWaitObjects hrest.waits (h.loose.1 hok)
    (Follows.refl s) rfl (Taken.refl s t)).1
  unfold KernelSystem.threadWakeupCallback
  split
  · exact hleave.resumeFromWait t
  · exact hleave.resumeFromWait t
  · exact hleave.resumeFromWait t
  · exact hleave.resumeFromWait t
  · exact h.resumeFromWait t

/-- An object that is no mutex changes, and whoever waits for it is woken. -/
theorem Inherits.change {s : KernelSystem} (h : s.Inherits fun _ => False) (hrest : s.AtRest)
    {o : Nat} {k : ObjectKind} (hk : ∀ n p e, k ≠ .mutex n p e) (hu : k ≠ .unused)
    (ht : k ≠ .thread) (ho : ∀ n p e, s.kind o ≠ .mutex n p e) (ho' : s.kind o ≠ .thread)
    (hok : s.WakeOk none o) :
    ((s.setKind o k).wakeupAllWaitingThreads o).Inherits fun _ => False :=
  ((h.setOther hk ho ho').wakeupAllWaitingThreads (hrest.queued.setKind o ht ho')
    (hrest.waits.setKind o hu)
    (fun w hw => (calm_setOther hk ho).loose none w (h.loose.1 (hok w hw)))
    fun _ hx => hx.elim).1

theorem Inherits.signal {s : KernelSystem} (h : s.Inherits fun _ => False) (hrest : s.AtRest)
    {o : Nat} (hok : s.WakeOk none o) : (s.signal o).Inherits fun _ => False := by
  unfold KernelSystem.signal
  split
  · rename_i hk
    exact h.change hrest (by simp) (by simp) (by simp) (by simp [hk]) (by simp [hk]) hok
  · rename_i hk
    exact h.change hrest (by simp) (by simp) (by simp) (by simp [hk]) (by simp [hk]) hok
  · exact h

theorem Inherits.clear {s : KernelSystem} {x : Nat → Prop} (h : s.Inherits x) (o : Nat) :
    (s.clear o).Inherits x := by
  unfold KernelSystem.clear
  split
  · rename_i hk
    exact h.setOther (by simp) (by simp [hk]) (by simp [hk])
  · rename_i hk
    exact h.setOther (by simp) (by simp [hk]) (by simp [hk])
  · exact h

theorem Inherits.releaseSemaphore {s : KernelSystem} (h : s.Inherits fun _ => False)
    (hrest : s.AtRest) {o : Nat} (hok : s.WakeOk none o) (releaseCount : Int) :
    (s.releaseSemaphore o releaseCount).Inherits fun _ => False := by
  unfold KernelSystem.releaseSemaphore
  split
  · rename_i hk
    split
    · exact h
    · exact h.change hrest (by simp) (by simp) (by simp) (by simp [hk]) (by simp [hk]) hok
  · exact h

theorem Inherits.waitSynchronization1 {s : KernelSystem} (h : s.Inherits fun _ => False)
    (hq : s.Queued) {t object : Nat} {nanoSeconds : Int} (ht : s.kind t = .thread)
    (hrun : (s.threads t).status = .running)
    (hok : if s.shouldWait object t = true then nanoSeconds ≠ 0 → s.WaitOk t [object]
      else s.AcquireOk t object) :
    (s.waitSynchronization1 t object nanoSeconds).Inherits fun _ => False := by
  have hlive : (s.threads t).status ≠ .dead := by simp [hrun]
  unfold KernelSystem.waitSynchronization1
  split
  · rename_i hw
    rw [if_pos hw] at hok
    split
    · exact h
    · rename_i hn
      exact h.waitFor hlive (hok hn)
  · rename_i hw
    rw [if_neg hw] at hok
    exact h.acquireOk hq ht hlive hok

theorem Inherits.waitSynchronizationN {s : KernelSystem} (h : s.Inherits fun _ => False)
    (hq : s.Queued) {t : Nat} {objects : List Nat} {waitAll : Bool} {nanoSeconds : Int}
    (ht : s.kind t = .thread) (hrun : (s.threads t).status = .running)
    (hok : if waitAll = true then
        if ∀ o ∈ objects, s.shouldWait o t = false then ∀ o ∈ objects, s.AcquireOk t o
        else nanoSeconds ≠ 0 → s.WaitOk t objects
      else s.WaitAnyOk t objects nanoSeconds) :
    (s.waitSynchronizationN t objects waitAll nanoSeconds).Inherits fun _ => False := by
  have hlive : (s.threads t).status ≠ .dead := by simp [hrun]
  unfold KernelSystem.waitSynchronizationN
  split
  · rename_i hall
    rw [if_pos hall] at hok
    split
    · rename_i hfree
      rw [if_pos hfree] at hok
      exact h.acquireAllOk hq ht hlive objects hok
    · rename_i hfree
      rw [if_neg hfree] at hok
      split
      · exact h
      · rename_i hn
        exact h.waitFor hlive (hok hn)
  · rename_i hall
    rw [if_neg hall] at hok
    unfold WaitAnyOk at hok
    split
    · rename_i o ho
      rw [ho] at hok
      exact h.acquireOk hq ht hlive hok
    · rename_i ho
      rw [ho] at hok
      split
      · exact h
      · rename_i hn
        exact h.waitFor hlive (hok hn)

theorem Switched.inherits {s s' : KernelSystem} {x : Nat → Prop} (hw : Switched s s')
    (h : s.Inherits x) : s'.Inherits x := by
  refine h.frame (fun _ _ _ _ => by rw [hw.kind]) (fun u hu => by rwa [hw.kind])
    (fun m _ => by rw [hw.waitingThreads]) fun t => ?_
  refine ⟨by rw [hw.record t], by rw [hw.record t], by rw [hw.record t], by rw [hw.record t],
    fun ht => ?_⟩
  rcases hw.status t with hs | ⟨hs, -⟩
  · rwa [← hs]
  · exact hs.2

/-- A new thread waits for no mutex and holds none. -/
theorem Inherits.createThread {s : KernelSystem} (h : s.Inherits fun _ => False) (hrest : s.AtRest)
    {address : Nat} (ha : s.kind address = .unused) (priority processorId : Nat)
    (makeReady : Bool) :
    (s.createThread address priority processorId makeReady).Inherits fun _ => False := by
  by_cases herr : threadPrioLowest < priority ∨ threadProcessorIdMax < processorId
  · unfold KernelSystem.createThread
    rw [if_pos herr]
    exact h
  obtain ⟨hwait, hkind, hothers, hnew⟩ := createThread_frame s address makeReady herr
  generalize s.createThread address priority processorId makeReady = s' at *
  have hsame : SameMutexes s s' := by
    intro m n p e
    rw [hkind]
    split
    · rename_i hma
      simp [hma, ha]
    · rfl
  have hidle : ∀ m, address ∉ s.waitingThreads m := by
    intro m hm
    have hthread := hrest.queued.waiters m address hm
    rw [ha] at hthread
    cases hthread
  have hholds : ∀ m u, s.holder m = some u → u ≠ address := by
    rintro m u hm rfl
    have hthread := (h.held m u hm).2
    rw [ha] at hthread
    cases hthread
  have hmutex : ∀ m, (∃ n p e, s'.kind m = .mutex n p e) ↔ ∃ n p e, s.kind m = .mutex n p e :=
    fun m => exists₂_congr fun n p => exists_congr fun e => hsame m n p e
  refine ⟨fun u m => ?_, fun m p e hm => h.lock m p e ((hsame m 0 p e).1 hm), fun m u hm => ?_,
    fun u m hu hm => ?_, fun u hu => ?_, fun m u hm _ => ?_⟩
  · rw [hmutex, hwait]
    by_cases hu : u = address
    · subst hu
      rw [hnew]
      simp [Thread.new, hidle m]
    · rw [hothers u hu]
      exact h.pending u m
  · rw [hsame.holder] at hm
    have hua := hholds m u hm
    rw [hothers u hua, hkind, if_neg hua]
    exact h.held m u hm
  · by_cases hua : u = address
    · subst hua
      rw [hnew] at hm
      simp [Thread.new] at hm
    · rw [hothers u hua] at hu hm
      rw [hsame.holder]
      exact h.holds u m hu hm
  · by_cases hua : u = address
    · subst hua
      unfold bestHeldPriority
      rw [hnew]
      rfl
    · rw [hothers u hua] at hu
      rw [hothers u hua, h.cached u hu]
      refine (bestHeldPriority_congr ?_ ?_ fun k _ => hsame.mutexPriority k).symm
      · rw [hothers u hua]
      · rw [hothers u hua]
  · rw [hsame.holder] at hm
    have hbest : s'.bestWaitingPriority m = s.bestWaitingPriority m := by
      refine bestWaitingPriority_congr (by rw [hwait]) fun w hw => ?_
      rw [hothers]
      rintro rfl
      exact hidle m hw
    have hex := h.exact m u hm not_false
    unfold CacheOk at hex ⊢
    rw [hsame.mutexPriority, hbest, hothers u (hholds m u hm)]
    exact hex

/-- A new mutex has no holder, and nobody waits for it. -/
theorem Inherits.createMutex {s : KernelSystem} (h : s.Inherits fun _ => False) (hrest : s.AtRest)
    {address : Nat} (ha : s.kind address = .unused) :
    (s.setKind address (.mutex 0 0 none)).Inherits fun _ => False := by
  have hholder : ∀ m, (s.setKind address (.mutex 0 0 none)).holder m = s.holder m := by
    intro m
    rw [holder_setKind]
    split
    · rename_i hm
      rw [hm, holder, ha]
      rfl
    · rfl
  have hnobody : s.waitingThreads address = [] := by
    refine List.eq_nil_iff_forall_not_mem.2 fun t ht => ?_
    exact hrest.waits.unused t address ((hrest.waits.mem address t).1 ht) ha
  have hfree : ∀ m u, s.holder m = some u → m ≠ address := by
    rintro m u hm rfl
    rw [holder, ha] at hm
    cases hm
  have hmp : ∀ m u, s.holder m = some u →
      (s.setKind address (.mutex 0 0 none)).mutexPriority m = s.mutexPriority m :=
    fun m u hm => mutexPriority_setKind_of_ne s _ (hfree m u hm)
  refine ⟨fun t m => ?_, fun m p e hm => ?_, fun m t hm => ?_, fun t m ht hm => ?_, fun t ht => ?_,
    fun m t hm _ => ?_⟩
  · rw [threads_setKind, h.pending, waitingThreads_setKind, kind_setKind]
    by_cases hm : m = address
    · simp [hm, hnobody]
    · simp [hm]
  · rw [kind_setKind] at hm
    split at hm
    · cases hm
      rfl
    · exact h.lock m p e hm
  · rw [hholder] at hm
    obtain ⟨h₁, h₂⟩ := h.held m t hm
    refine ⟨h₁, ?_⟩
    rw [kind_setKind, if_neg]
    · exact h₂
    · rintro rfl
      rw [ha] at h₂
      cases h₂
  · rw [hholder]
    exact h.holds t m ht hm
  · rw [threads_setKind, h.cached t ht]
    symm
    refine @bestHeldPriority_congr s (s.setKind address (.mutex 0 0 none)) t rfl rfl fun m hm => ?_
    exact hmp m t (h.holds t m ht hm)
  · rw [hholder] at hm
    have hex := h.exact m t hm not_false
    unfold CacheOk at hex ⊢
    rw [hmp m t hm]
    exact hex

/-! ## Every gentle run -/

theorem inherits_initial : initial.Inherits fun _ => False := by
  have hno : ∀ m t, initial.holder m ≠ some t := by
    intro m t hm
    cases hm
  refine ⟨fun t m => ?_, fun m p e hm => ?_, fun m t hm => absurd hm (hno m t), fun t m _ hm => ?_,
    fun t _ => rfl, fun m t hm => absurd hm (hno m t)⟩
  · simp [initial, Thread.new]
  · cases hm
  · simp [initial, Thread.new] at hm

/-- A gentle operation keeps the caches right. -/
theorem inherits_step {s s' : KernelSystem} (h : s.Inherits fun _ => False) (hrest : s.AtRest)
    (op : KernelOp) (hg : s.Gentle op) (hs : s.step op = some s') :
    s'.Inherits fun _ => False := by
  have hq := hrest.queued
  cases op with
  | createThread address priority processorId makeReady =>
    simp only [step] at hs
    split at hs
    · rename_i ha
      cases hs
      exact h.createThread hrest ha priority processorId makeReady
    · cases hs
  | createMutex core address initialLocked =>
    simp only [step, Option.bind_eq_some_iff, Option.map_eq_some_iff, createObject_eq_some] at hs
    obtain ⟨t, ht, s₁, ⟨ha, rfl⟩, rfl⟩ := hs
    have h₁ := h.createMutex hrest ha
    split
    · rename_i hlocked
      obtain ⟨hk, -, hrun, -⟩ := hq.runningThread ht
      have hta : t ≠ address := by
        rintro rfl
        rw [ha] at hk
        cases hk
      refine h₁.acquireOk (hq.setKind address (by simp) (by simp [ha])) ?_ ?_ ?_
      · rwa [kind_setKind, if_neg hta]
      · simp [hrun]
      · unfold AcquireOk
        rw [kind_setKind, if_pos rfl]
        refine ⟨hg hlocked t ht, fun w hw => ?_⟩
        exact absurd ha (hrest.waits.unused w address ((hrest.waits.mem address w).1 hw))
    · exact h₁
  | createEvent address resetType =>
    obtain ⟨ha, rfl⟩ := createObject_eq_some.1 hs
    exact h.setOther (by simp) (by simp [ha]) (by simp [ha])
  | createSemaphore address initialCount maxCount =>
    simp only [step] at hs
    split at hs
    · cases hs
      exact h
    · obtain ⟨ha, rfl⟩ := createObject_eq_some.1 hs
      exact h.setOther (by simp) (by simp [ha]) (by simp [ha])
  | createTimer address resetType =>
    obtain ⟨ha, rfl⟩ := createObject_eq_some.1 hs
    exact h.setOther (by simp) (by simp [ha]) (by simp [ha])
  | waitSynchronization1 core object nanoSeconds =>
    simp only [step, Option.bind_eq_some_iff] at hs
    obtain ⟨t, ht, hs⟩ := hs
    obtain ⟨hk, -, hrun, -⟩ := hq.runningThread ht
    split at hs
    · cases hs
    · cases hs
      exact h.waitSynchronization1 hq hk hrun (hg t ht)
  | waitSynchronizationN core objects waitAll nanoSeconds =>
    simp only [step, Option.bind_eq_some_iff] at hs
    obtain ⟨t, ht, hs⟩ := hs
    obtain ⟨hk, -, hrun, -⟩ := hq.runningThread ht
    split at hs
    · cases hs
    · cases hs
      exact h.waitSynchronizationN hq hk hrun (hg t ht)
  | suspend core status =>
    simp only [step, Option.bind_eq_some_iff] at hs
    obtain ⟨t, ht, hs⟩ := hs
    obtain ⟨-, -, hrun, -⟩ := hq.runningThread ht
    split at hs
    · cases hs
      exact h.setStatus (Or.inl (by simp [hrun]))
    · cases hs
  | sleepClientThread core address =>
    simp only [step, Option.bind_eq_some_iff, Option.map_eq_some_iff, createObject_eq_some] at hs
    obtain ⟨t, ht, s₁, ⟨ha, rfl⟩, rfl⟩ := hs
    obtain ⟨-, -, hrun, -⟩ := hq.runningThread ht
    have h₁ : (s.setKind address (.event .oneShot false)).Inherits fun _ => False :=
      h.setOther (by simp) (by simp [ha]) (by simp [ha])
    refine h₁.waitFor (by simp [hrun]) fun m hm u hu => ?_
    -- the event has no holder
    rw [List.mem_singleton.1 hm, holder_setKind, if_pos rfl] at hu
    cases hu
  | signal object =>
    cases hs
    exact h.signal hrest hg
  | clear object =>
    cases hs
    exact h.clear object
  | releaseSemaphore object releaseCount =>
    cases hs
    exact h.releaseSemaphore hrest hg releaseCount
  | releaseMutex core object =>
    simp only [step, Option.map_eq_some_iff] at hs
    obtain ⟨t, ht, rfl⟩ := hs
    exact h.releaseMutex hrest (hq.runningThread ht).2.2.1 hg
  | threadWakeupCallback thread =>
    simp only [step, onThread_eq_some] at hs
    obtain ⟨-, rfl⟩ := hs
    exact h.threadWakeupCallback hrest hg
  | resumeFromWait thread =>
    simp only [step] at hs
    split at hs
    · obtain ⟨-, rfl⟩ := onThread_eq_some.1 hs
      exact h.resumeFromWait thread
    · cases hs
  | setThreadPriority thread priority =>
    simp only [step, onThread_eq_some] at hs
    obtain ⟨-, rfl⟩ := hs
    exact h.setThreadPriority hg.1 hg.2
  | setPriority thread priority => exact hg.elim
  | boostPriority thread priority => exact hg.elim
  | setCanSchedule thread canSchedule =>
    simp only [step, onThread_eq_some] at hs
    obtain ⟨-, rfl⟩ := hs
    exact h.modifyThread thread ⟨rfl, rfl, rfl, rfl, fun hlive => hlive⟩
  | stop thread =>
    simp only [step] at hs
    split at hs
    · cases hs
    · rename_i hlive
      obtain ⟨ht, rfl⟩ := onThread_eq_some.1 hs
      exact h.stop hrest ht hlive hg
  | exitCurrentThread core =>
    simp only [step, Option.map_eq_some_iff] at hs
    obtain ⟨t, ht, rfl⟩ := hs
    obtain ⟨hk, -, hrun, -⟩ := hq.runningThread ht
    exact h.stop hrest hk (by simp [hrun]) (hg t ht)
  | reschedule core => exact (switched_reschedule hs).inherits h

theorem inherits_gentlyReachable {s : KernelSystem} (h : s.GentlyReachable) :
    s.Inherits fun _ => False := by
  induction h with
  | initial => exact inherits_initial
  | step op h hg hs ih => exact inherits_step ih (atRest_reachable h.reachable) op hg hs

/-- **Priority inheritance.**  After any run of gentle operations, a thread that lives has the best
of its nominal priority and the current priorities of the threads that wait for its mutexes. -/
theorem priority_inherited {s : KernelSystem} (h : s.GentlyReachable) :
    ∀ t, s.kind t = .thread → (s.threads t).status ≠ .dead →
      (s.threads t).currentPriority = s.inheritedPriority t :=
  fun _ _ ht => (inherits_gentlyReachable h).inherited (queued_reachable h.reachable) ht

/-- A thread waits for a mutex of another one, which has a worse priority. -/
def waitForHolder : List KernelOp :=
  [.createThread 1 50 0 true, .createThread 2 40 1 true, .reschedule 0, .reschedule 1,
    .createMutex 0 3 true, .waitSynchronization1 1 3 1000]

theorem priority_inherited_waitForHolder :
    ∃ s, initial.runGently waitForHolder = some s ∧ (s.threads 1).nominalPriority = 50 ∧
      (s.threads 1).currentPriority = 40 ∧ s.inheritedPriority 1 = 40 := by
  obtain ⟨s, hs⟩ := Option.isSome_iff_exists.1
    (show (initial.runGently waitForHolder).isSome = true by decide +kernel)
  have hcur : (initial.runGently waitForHolder).map (fun s =>
      (s.kind 1, (s.threads 1).status, (s.threads 1).nominalPriority,
        (s.threads 1).currentPriority)) = some (.thread, .running, 50, 40) := by decide +kernel
  rw [hs] at hcur
  simp only [Option.map_some, Option.some.injEq, Prod.mk.injEq] at hcur
  obtain ⟨hkind, hstatus, hnominal, hcurrent⟩ := hcur
  refine ⟨s, hs, hnominal, hcurrent, ?_⟩
  rw [← priority_inherited (GentlyReachable.initial.run hs) 1 hkind (by simp [hstatus]), hcurrent]

/-- A thread takes a mutex, for which nobody waits, and then lowers its priority. -/
def lowerOwnPriority : List KernelOp :=
  [.createThread 1 30 0 true, .reschedule 0, .createMutex 0 2 true, .setThreadPriority 1 50]

/-- The holder of one mutex waits for another, and then a third thread waits for the first. -/
def chainOfHolders : List KernelOp :=
  [.createThread 1 60 0 true, .createThread 2 50 1 true, .createThread 3 40 2 true, .reschedule 0,
    .reschedule 1, .reschedule 2, .createMutex 0 4 true, .createMutex 1 5 true,
    .waitSynchronization1 1 4 1000, .waitSynchronization1 2 5 1000]

/-- The priority that a thread has cached, after a run, and the one it should have. -/
def prioritiesAfter (ops : List KernelOp) (t : Nat) : Option (Nat × Nat) :=
  (initial.run ops).map fun s => ((s.threads t).currentPriority, s.inheritedPriority t)

/-- A mutex keeps the priority that its holder had when it took it, and a boost ends at a holder
that waits itself. -/
theorem priority_not_inherited :
    prioritiesAfter lowerOwnPriority 1 = some (30, 50) ∧
    prioritiesAfter chainOfHolders 1 = some (50, 40) ∧
    ¬ ∀ s : KernelSystem, s.Reachable → ∀ t, s.kind t = .thread → (s.threads t).status ≠ .dead →
      (s.threads t).currentPriority = s.inheritedPriority t := by
  refine ⟨by decide +kernel, by decide +kernel, fun hall => ?_⟩
  obtain ⟨s, hs⟩ := Option.isSome_iff_exists.1
    (show (initial.run lowerOwnPriority).isSome = true by decide +kernel)
  have hcur : (initial.run lowerOwnPriority).map (fun s =>
      (s.kind 1, (s.threads 1).status, (s.threads 1).currentPriority, s.inheritedPriority 1)) =
      some (.thread, .running, 30, 50) := by decide +kernel
  rw [hs] at hcur
  simp only [Option.map_some, Option.some.injEq, Prod.mk.injEq] at hcur
  obtain ⟨hkind, hstatus, hcurrent, hinherited⟩ := hcur
  have heq := hall s (Reachable.initial.run hs) 1 hkind (by simp [hstatus])
  rw [hcurrent, hinherited] at heq
  cases heq

end KernelSystem
end AzaharPlus.Kernel
