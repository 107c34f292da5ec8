import AzaharPlus.Kernel.Acquisitions

/-!
# The count of a semaphore

`Semaphore::Release` of `semaphore.cpp` compares the sum of the released count and the available
one with the greatest count.  Both come from the guest and the sum is one of signed 32-bit numbers:
it wraps around, and then passes the comparison or fails it for the wrong value.

* `wakeupLoop_single` — of the threads that wait for the semaphore alone, as many are woken as
  the count allows.
* `semaphore_counts` — in every state that can be reached a count is at most the greatest one; and
  a call of `Release` does what it should exactly when the sum does not wrap, or wraps below and
  is refused.
-/

namespace AzaharPlus.Kernel

/-- The values of an `s32`. -/
def IsS32 (x : Int) : Prop := -2 ^ 31 ≤ x ∧ x < 2 ^ 31

instance (x : Int) : Decidable (IsS32 x) := inferInstanceAs (Decidable (_ ∧ _))

/-- The counts of a system call are signed 32-bit numbers. -/
def KernelOp.Typed : KernelOp → Prop
  | .createSemaphore _ initialCount maxCount => IsS32 initialCount ∧ IsS32 maxCount
  | .releaseSemaphore _ releaseCount => IsS32 releaseCount
  | _ => True

namespace KernelSystem

/-- The states that operations with counts of 32 bits lead to. -/
inductive TypedReachable : KernelSystem → Prop
  | initial : TypedReachable initial
  | step {s s' : KernelSystem} (op : KernelOp) (h : TypedReachable s) (ht : op.Typed)
      (hs : s.step op = some s') : TypedReachable s'

theorem TypedReachable.reachable {s : KernelSystem} (h : s.TypedReachable) : s.Reachable := by
  induction h with
  | initial => exact .initial
  | step op _ _ hs ih => exact .step op ih hs

theorem TypedReachable.run {s s' : KernelSystem} (h : s.TypedReachable) {ops : List KernelOp}
    (ht : ∀ op ∈ ops, op.Typed) (hs : s.run ops = some s') : s'.TypedReachable := by
  induction ops generalizing s with
  | nil =>
    cases hs
    exact h
  | cons op ops ih =>
    obtain ⟨s₁, h₁, h₂⟩ := Option.bind_eq_some_iff.1 hs
    exact ih (h.step op (ht op (List.mem_cons_self ..)) h₁)
      (fun op' hop' => ht op' (List.mem_cons_of_mem op hop')) h₂

/-- The `out_count` of `Semaphore::Release`; `none` is `ResultOutOfRangeKernel`. -/
def releaseOut (s : KernelSystem) (o : Nat) (releaseCount : Int) : Option Int :=
  match s.kind o with
  | .semaphore maxCount available =>
      if maxCount < addS32 releaseCount available then none else some available
  | _ => none

/-! ## Sums of 32 bits -/

theorem addS32_comm (a b : Int) : addS32 a b = addS32 b a := by
  unfold addS32
  rw [Int.add_comm]

theorem isS32_addS32 (a b : Int) : IsS32 (addS32 a b) := by
  have h₁ : -(((2 ^ 32 : Nat) : Int) / 2) ≤ (a + b).bmod (2 ^ 32) := Int.le_bmod (by decide)
  have h₂ : (a + b).bmod (2 ^ 32) < (((2 ^ 32 : Nat) : Int) + 1) / 2 := Int.bmod_lt (by decide)
  unfold addS32 IsS32
  omega

theorem addS32_of_isS32 {a b : Int} (h : IsS32 (a + b)) : addS32 a b = a + b := by
  unfold IsS32 at h
  unfold addS32
  rw [Int.bmod_eq_of_le] <;> omega

/-- What a sum is that wraps around. -/
theorem addS32_cases {a b : Int} (ha : IsS32 a) (hb : IsS32 b) :
    (2 ^ 31 ≤ a + b → addS32 a b = a + b - 2 ^ 32) ∧
      (a + b < -2 ^ 31 → addS32 a b = a + b + 2 ^ 32) := by
  unfold IsS32 at ha hb
  unfold addS32
  rw [Int.bmod_def]
  constructor
  · intro h
    split <;> omega
  · intro h
    split <;> omega

/-! ## Counts in every run -/

/-- A count is a number of 32 bits and at most the greatest one. -/
def CountsBounded (s : KernelSystem) : Prop :=
  ∀ o maxCount available, s.kind o = .semaphore maxCount available →
    IsS32 maxCount ∧ IsS32 available ∧ available ≤ maxCount

/-- Where a semaphore comes from that is still one. -/
theorem becomes_semaphore {k : ObjectKind} {maxCount left : Int}
    (h : k.Becomes (.semaphore maxCount left)) :
    ∃ available, k = .semaphore maxCount available ∧ left ≤ available ∧ min available 0 ≤ left := by
  cases k with
  | unused => rcases h with h | h <;> cases h
  | thread => cases h
  | mutex lockCount priority holder =>
    obtain ⟨_, _, _, h⟩ := h
    cases h
  | event resetType signaled =>
    obtain ⟨_, h⟩ := h
    cases h
  | semaphore m available =>
    obtain ⟨_, h, h₁, h₂⟩ := h
    cases h
    exact ⟨available, rfl, h₁, h₂⟩
  | timer resetType signaled =>
    obtain ⟨_, h⟩ := h
    cases h

theorem CountsBounded.becomes {s s' : KernelSystem} (h : s.CountsBounded)
    (hkinds : ∀ o, (s.kind o).Becomes (s'.kind o)) : s'.CountsBounded := by
  intro o maxCount left hk
  have hbecomes := hkinds o
  rw [hk] at hbecomes
  obtain ⟨available, hk', h₁, h₂⟩ := becomes_semaphore hbecomes
  obtain ⟨hmax, havailable, hle⟩ := h o maxCount available hk'
  unfold IsS32 at hmax havailable ⊢
  exact ⟨hmax, by omega, by omega⟩

/-- A new object, or a new count. -/
theorem CountsBounded.setKind {s : KernelSystem} (h : s.CountsBounded) {o : Nat} {k : ObjectKind}
    (hk : ∀ maxCount available, k = .semaphore maxCount available →
      IsS32 maxCount ∧ IsS32 available ∧ available ≤ maxCount) : (s.setKind o k).CountsBounded := by
  intro u maxCount available hu
  rw [kind_setKind] at hu
  split at hu
  · exact hk maxCount available hu
  · exact h u maxCount available hu

theorem CountsBounded.releaseSemaphore {s : KernelSystem} (h : s.CountsBounded) (o : Nat)
    (releaseCount : Int) : (s.releaseSemaphore o releaseCount).CountsBounded := by
  unfold KernelSystem.releaseSemaphore
  split
  · rename_i maxCount available hk
    split
    · exact h
    · rename_i hle
      refine (h.setKind fun m a hma => ?_).becomes (Keeps.wakeupAllWaitingThreads _ o).kinds
      cases hma
      rw [addS32_comm] at hle
      exact ⟨(h o maxCount available hk).1, isS32_addS32 _ _, by omega⟩
  · exact h

theorem CountsBounded.step {s s' : KernelSystem} (h : s.CountsBounded) {op : KernelOp}
    (ht : op.Typed) (hs : s.step op = some s') : s'.CountsBounded := by
  cases op with
  | createMutex core address initialLocked =>
    simp only [KernelSystem.step, Option.bind_eq_some_iff, Option.map_eq_some_iff,
      createObject_eq_some] at hs
    obtain ⟨t, -, s₁, ⟨-, rfl⟩, rfl⟩ := hs
    have h₁ : (s.setKind address (.mutex 0 0 none)).CountsBounded := h.setKind (by simp)
    split
    · exact h₁.becomes (becomes_acquire _ address t)
    · exact h₁
  | createEvent address resetType =>
    obtain ⟨-, rfl⟩ := createObject_eq_some.1 hs
    exact h.setKind (by simp)
  | createSemaphore address initialCount maxCount =>
    simp only [KernelSystem.step] at hs
    split at hs
    · cases hs
      exact h
    · rename_i hle
      obtain ⟨-, rfl⟩ := createObject_eq_some.1 hs
      refine h.setKind fun m a hma => ?_
      cases hma
      exact ⟨ht.2, ht.1, by omega⟩
  | createTimer address resetType =>
    obtain ⟨-, rfl⟩ := createObject_eq_some.1 hs
    exact h.setKind (by simp)
  | waitSynchronization1 core object nanoSeconds =>
    simp only [KernelSystem.step, Option.bind_eq_some_iff] at hs
    obtain ⟨t, -, hs⟩ := hs
    split at hs
    · cases hs
    · cases hs
      unfold KernelSystem.waitSynchronization1
      split
      · split
        · exact h
        · exact h.becomes (becomes_waitFor s t _ _)
      · exact h.becomes (becomes_acquire s object t)
  | waitSynchronizationN core objects waitAll nanoSeconds =>
    simp only [KernelSystem.step, Option.bind_eq_some_iff] at hs
    obtain ⟨t, -, hs⟩ := hs
    split at hs
    · cases hs
    · cases hs
      unfold KernelSystem.waitSynchronizationN
      split
      · split
        · exact h.becomes (Keeps.acquireAll s objects t).kinds
        · split
          · exact h
          · exact h.becomes (becomes_waitFor s t _ _)
      · split
        · exact h.becomes (becomes_acquire s _ t)
        · split
          · exact h
          · exact h.becomes (becomes_waitFor s t _ _)
  | sleepClientThread core address =>
    simp only [KernelSystem.step, Option.bind_eq_some_iff, Option.map_eq_some_iff,
      createObject_eq_some] at hs
    obtain ⟨t, -, s₁, ⟨-, rfl⟩, rfl⟩ := hs
    have h₁ : (s.setKind address (.event .oneShot false)).CountsBounded := h.setKind (by simp)
    exact h₁.becomes (becomes_waitFor _ t _ _)
  | releaseSemaphore object releaseCount =>
    cases hs
    exact h.releaseSemaphore object releaseCount
  | _ => exact h.becomes (keeps_step hs trivial).kinds

theorem countsBounded_reachable {s : KernelSystem} (h : s.TypedReachable) : s.CountsBounded := by
  induction h with
  | initial =>
    intro o maxCount available hk
    cases hk
  | step op _ ht hs ih => exact ih.step ht hs

/-! ## Threads that wait for the semaphore alone -/

/-- Every thread in the list waits for this object and no other. -/
def SingleWaiters (s : KernelSystem) (o : Nat) : Prop :=
  ∀ t ∈ s.waitingThreads o, (s.threads t).waitObjects = [o]

instance (s : KernelSystem) (o : Nat) : Decidable (s.SingleWaiters o) :=
  inferInstanceAs (Decidable (∀ t ∈ s.waitingThreads o, (s.threads t).waitObjects = [o]))

/-- One of them is woken. -/
theorem wakeupThread_single {s : KernelSystem} {x : Nat → Prop} (h : s.Waits x) {o t : Nat}
    {maxCount available : Int} (hk : s.kind o = .semaphore maxCount available)
    (hpos : 0 < available) (ht : (s.threads t).waitObjects = [o])
    (hx : ¬ x t) :
    (s.wakeupThread o t).kind o = .semaphore maxCount (available - 1) ∧
      (s.wakeupThread o t).waitingThreads o = (s.waitingThreads o).erase t ∧
      ((s.wakeupThread o t).threads t).status = .ready := by
  have hacquire : s.acquireFor o t = s.setKind o (.semaphore maxCount (available - 1)) := by
    have hone : s.acquire o t = s.setKind o (.semaphore maxCount (available - 1)) := by
      unfold acquire
      rw [hk]
      simp only
      rw [if_neg (by omega)]
    unfold acquireFor
    split
    · rw [ht]
      exact hone
    · exact hone
  have hkind : (s.setKind o (.semaphore maxCount (available - 1))).kind o =
      .semaphore maxCount (available - 1) := by rw [kind_setKind, if_pos rfl]
  have hleave : (s.setKind o (.semaphore maxCount (available - 1))).leaveWaitObjects t =
      ((s.setKind o (.semaphore maxCount (available - 1))).leaveWaitingThreads o
        t).setWaitObjects t [] := by
    unfold leaveWaitObjects
    rw [threads_setKind, ht, List.foldl_cons, List.foldl_nil, removeWaitingThread, hkind]
  obtain ⟨hframe, hlists⟩ := resumeFromWait_frame
    ((s.setKind o (.semaphore maxCount (available - 1))).leaveWaitObjects t) t
  unfold wakeupThread
  rw [hacquire]
  refine ⟨?_, ?_, ?_⟩
  · rw [hframe, hleave]
    exact hkind
  · rw [hlists, hleave]
    exact (waitingThreads_setWaitingThreads _ o _ o).trans (if_pos rfl)
  · have hstatus : (((s.setKind o (.semaphore maxCount (available - 1))).leaveWaitObjects t).threads
        t).status = (s.threads t).status :=
      (threads_leaveWaitObjects _ t t).1
    have hwaits := h.status t hx (by rw [ht]; simp)
    unfold resumeFromWait
    rw [hstatus]
    rcases hwaits with hw | hw | hw
    · rw [hw]
      simp [setStatus, threads_modifyThread]
    · rw [hw]
      simp [setStatus, threads_modifyThread]
    · rw [hw]
      simp [setStatus, threads_modifyThread]

/-- A thread that waits for a semaphore alone can wake up exactly when the count is positive. -/
theorem canWake_single {s : KernelSystem} {o t : Nat} {maxCount available : Int}
    (hk : s.kind o = .semaphore maxCount available) (ht : (s.threads t).waitObjects = [o]) :
    s.CanWake o t ↔ 0 < available := by
  have hwait : s.shouldWait o t = false ↔ 0 < available := by
    rw [shouldWait, hk]
    simp
  constructor
  · exact fun h => hwait.1 h.1
  · intro hpos
    refine ⟨hwait.2 hpos, readyToRun_iff.2 fun _ p hp => ?_⟩
    rw [ht, List.mem_singleton] at hp
    rw [hp]
    exact hwait.2 hpos

/-- What the loop over the waiting list leaves: the count and the list are shorter by the smaller
of the two, and the threads that left the list are ready. -/
structure Served (s s' : KernelSystem) (o : Nat) (maxCount available : Int) : Prop where
  count : s'.kind o =
    .semaphore maxCount (available - min (s.waitingThreads o).length available.toNat)
  sublist : (s'.waitingThreads o).Sublist (s.waitingThreads o)
  length : (s'.waitingThreads o).length + min (s.waitingThreads o).length available.toNat =
    (s.waitingThreads o).length
  ready : ∀ t ∈ s.waitingThreads o, t ∉ s'.waitingThreads o → (s'.threads t).status = .ready
  others : ∀ t, t ∉ s.waitingThreads o ∨ t ∈ s'.waitingThreads o →
    (s'.threads t).status = (s.threads t).status

theorem wakeupLoop_single {s : KernelSystem} (hq : s.Queued) (h : s.Waits fun _ => False)
    {o : Nat} {maxCount available : Int} (hk : s.kind o = .semaphore maxCount available)
    (hsingle : s.SingleWaiters o) (turns : Nat) (hturns : (s.waitingThreads o).length ≤ turns) :
    Served s (wakeupLoop o turns s) o maxCount available := by
  -- when nobody is woken, the list is empty or the count is used up
  have hstop : ∀ s : KernelSystem, ∀ available : Int,
      s.kind o = .semaphore maxCount available →
      (s.waitingThreads o = [] ∨ available ≤ 0) → Served s s o maxCount available := by
    intro s available hk hend
    have hzero : min (s.waitingThreads o).length available.toNat = 0 := by
      rcases hend with hnil | hle
      · rw [hnil]
        simp
      · omega
    refine ⟨?_, List.Sublist.refl _, by omega, fun t ht hn => absurd ht hn, fun t _ => rfl⟩
    rw [hk, hzero]
    simp
  induction turns generalizing s available with
  | zero => exact hstop s available hk (Or.inl (List.length_eq_zero_iff.1 (by omega)))
  | succ turns ih =>
    unfold wakeupLoop
    split
    · rename_i hnone
      refine hstop s available hk ?_
      by_contra hcon
      push Not at hcon
      obtain ⟨t, ht⟩ := List.exists_mem_of_ne_nil _ hcon.1
      exact no_canWake_of_none hq hnone ht ((canWake_single hk (hsingle t ht)).2 hcon.2)
    · rename_i t hsome
      have ht := getHighestPriorityReadyThread_mem hsome
      have hpos := (canWake_single hk (hsingle t ht)).1
        (getHighestPriorityReadyThread_canWake hsome)
      have hw := h.wakeupThread o t
      obtain ⟨hcount, hlist, hready⟩ := wakeupThread_single h hk hpos (hsingle t ht) not_false
      have hlength : ((s.wakeupThread o t).waitingThreads o).length + 1 =
          (s.waitingThreads o).length := by
        rw [hlist, List.length_erase_of_mem ht]
        have := List.length_pos_of_mem ht
        omega
      have hsingle' : (s.wakeupThread o t).SingleWaiters o := by
        intro u hu
        have hut : u ≠ t := by
          rintro rfl
          exact hw.not_waiting o hu
        rw [hw.waitObjects u hut]
        exact hsingle u ((hw.waiting o u hut).1 hu)
      obtain ⟨h₁, h₂, h₃, h₄, h₅⟩ := ih (hq.wakeupThread o (hq.waiters o t ht)) (hw.waits h)
        hcount hsingle' (by omega)
      have hgone := hw.not_waiting o
      refine ⟨?_, h₂.trans (hw.sublist o), by omega, fun u hu hu' => ?_, fun u hu => ?_⟩
      · rw [h₁]
        congr 1
        omega
      · by_cases hut : u = t
        · rw [hut, h₅ t (Or.inl hgone)]
          exact hready
        · exact h₄ u ((hw.waiting o u hut).2 hu) hu'
      · have hut : u ≠ t := by
          rintro rfl
          rcases hu with hu | hu
          · exact hu ht
          · exact hgone (h₂.subset hu)
        rw [h₅ u ?_, hw.status u hut]
        rcases hu with hu | hu
        · exact Or.inl fun hcon => hu ((hw.waiting o u hut).1 hcon)
        · exact Or.inr hu

/-- The threads of a list that a step made ready. -/
def woken (s s' : KernelSystem) (o : Nat) : List Nat :=
  (s.waitingThreads o).filter fun t => (s'.threads t).status = .ready

theorem Served.length_woken {s s' : KernelSystem} {o : Nat} {maxCount available : Int}
    (hs : Served s s' o maxCount available) (h : s.Waits fun _ => False) :
    (woken s s' o).length = min (s.waitingThreads o).length available.toNat := by
  have hwoken : ∀ t ∈ s.waitingThreads o,
      ((s'.threads t).status = .ready ↔ t ∉ s'.waitingThreads o) := by
    intro t ht
    constructor
    · intro hready hcon
      rw [hs.others t (Or.inr hcon)] at hready
      have hwaits := h.status t not_false (List.ne_nil_of_mem ((h.mem o t).1 ht))
      rw [hready] at hwaits
      simp [WaitsForObjects] at hwaits
    · exact hs.ready t ht
  have hleft : ((s.waitingThreads o).filter
      (fun t => !decide ((s'.threads t).status = .ready))).Perm (s'.waitingThreads o) := by
    refine (List.perm_ext_iff_of_nodup ((h.nodup o).filter _)
      ((h.nodup o).sublist hs.sublist)).2 fun t => ?_
    rw [List.mem_filter]
    constructor
    · rintro ⟨ht, hready⟩
      by_contra hcon
      simp [(hwoken t ht).2 hcon] at hready
    · intro ht
      have ht' := hs.sublist.subset ht
      refine ⟨ht', ?_⟩
      have : ¬ (s'.threads t).status = .ready := fun hcon => (hwoken t ht').1 hcon ht
      simpa using this
  have hsplit : (s.waitingThreads o).length = (woken s s' o).length + _ :=
    List.length_eq_length_filter_add fun t => decide ((s'.threads t).status = .ready)
  rw [hleft.length_eq] at hsplit
  have := hs.length
  omega

/-! ## What `Release` does -/

/-- A call of `Release` does what it should. -/
structure ReleasesExactly (s : KernelSystem) (o : Nat) (maxCount available releaseCount : Int) :
    Prop where
  /-- A sum that exceeds the greatest count is refused. -/
  exceeds : maxCount < available + releaseCount → s.releaseOut o releaseCount = none
  /-- A call that fails changes nothing. -/
  failed : s.releaseOut o releaseCount = none → s.releaseSemaphore o releaseCount = s
  /-- The sum does not wrap when the call succeeds. -/
  sum : s.releaseOut o releaseCount ≠ none →
    addS32 available releaseCount = available + releaseCount
  /-- Threads that wait for the semaphore alone are woken as far as the count goes, and each of
  them takes one. -/
  wakes : s.releaseOut o releaseCount ≠ none → s.SingleWaiters o →
    (woken s (s.releaseSemaphore o releaseCount) o).length =
        min (s.waitingThreads o).length (available + releaseCount).toNat ∧
      (s.releaseSemaphore o releaseCount).kind o = .semaphore maxCount (available + releaseCount -
        (woken s (s.releaseSemaphore o releaseCount) o).length)
  /-- Whoever else waits, no thread that waits for the semaphore alone is left while the count is
  positive. -/
  nobody : s.releaseOut o releaseCount ≠ none →
    ∀ t ∈ (s.releaseSemaphore o releaseCount).waitingThreads o,
      ((s.releaseSemaphore o releaseCount).threads t).waitObjects = [o] →
        (s.releaseSemaphore o releaseCount).shouldWait o t = true

/-- The sum of a call does not wrap, or wraps below and is refused. -/
def SumFits (maxCount available releaseCount : Int) : Prop :=
  IsS32 (available + releaseCount) ∨
    (available + releaseCount < -2 ^ 31 ∧ maxCount < available + releaseCount + 2 ^ 32)

theorem releaseOut_eq_none {s : KernelSystem} {o : Nat} {maxCount available : Int}
    (hk : s.kind o = .semaphore maxCount available) (releaseCount : Int) :
    s.releaseOut o releaseCount = none ↔ maxCount < addS32 available releaseCount := by
  unfold releaseOut
  rw [hk, addS32_comm]
  simp

theorem releaseSemaphore_of_none {s : KernelSystem} {o : Nat} {maxCount available : Int}
    (hk : s.kind o = .semaphore maxCount available) {releaseCount : Int}
    (h : s.releaseOut o releaseCount = none) : s.releaseSemaphore o releaseCount = s := by
  rw [releaseOut_eq_none hk, addS32_comm] at h
  unfold releaseSemaphore
  rw [hk]
  exact if_pos h

theorem releaseSemaphore_of_ne_none {s : KernelSystem} {o : Nat} {maxCount available : Int}
    (hk : s.kind o = .semaphore maxCount available) {releaseCount : Int}
    (h : s.releaseOut o releaseCount ≠ none) : s.releaseSemaphore o releaseCount =
      (s.setKind o (.semaphore maxCount (addS32 available
        releaseCount))).wakeupAllWaitingThreads o := by
  rw [ne_eq, releaseOut_eq_none hk, addS32_comm] at h
  unfold releaseSemaphore
  rw [hk]
  exact if_neg h

/-- The end of a pulse leaves a semaphore as it is. -/
theorem wakeupAllWaitingThreads_semaphore {s : KernelSystem} {o : Nat} {maxCount available : Int}
    (hk : s.kind o = .semaphore maxCount available) :
    s.wakeupAllWaitingThreads o = wakeupLoop o (s.waitingThreads o).length s := by
  have hbecomes := (Keeps.wakeupLoop s o (s.waitingThreads o).length).kinds o
  rw [hk] at hbecomes
  obtain ⟨left, hleft, -⟩ := hbecomes
  unfold wakeupAllWaitingThreads endPulse
  rw [hleft]

theorem releaseSemaphore_wakes {s : KernelSystem} (hrest : s.AtRest) {o : Nat}
    {maxCount available releaseCount : Int} (hk : s.kind o = .semaphore maxCount available)
    (hsum : addS32 available releaseCount = available + releaseCount)
    (hok : s.releaseOut o releaseCount ≠ none) (hsingle : s.SingleWaiters o) :
    Served s (s.releaseSemaphore o releaseCount) o maxCount (available + releaseCount) := by
  have hkind : (s.setKind o (.semaphore maxCount (available + releaseCount))).kind o =
      .semaphore maxCount (available + releaseCount) := by rw [kind_setKind, if_pos rfl]
  have hserved := wakeupLoop_single (hrest.queued.setKind o (by simp) (by simp [hk]))
    (hrest.waits.setKind o (by simp)) hkind hsingle _ le_rfl
  rw [releaseSemaphore_of_ne_none hk hok, hsum, wakeupAllWaitingThreads_semaphore hkind]
  exact ⟨hserved.count, hserved.sublist, hserved.length, hserved.ready, hserved.others⟩

theorem releasesExactly_of_fits {s : KernelSystem} (hrest : s.AtRest) {o : Nat}
    {maxCount available releaseCount : Int} (hk : s.kind o = .semaphore maxCount available)
    (ha : IsS32 available) (hr : IsS32 releaseCount)
    (hfits : SumFits maxCount available releaseCount) :
    s.ReleasesExactly o maxCount available releaseCount := by
  have hsum : s.releaseOut o releaseCount ≠ none →
      addS32 available releaseCount = available + releaseCount := by
    intro hok
    rcases hfits with hin | ⟨hbelow, hrefused⟩
    · exact addS32_of_isS32 hin
    · refine absurd ((releaseOut_eq_none hk releaseCount).2 ?_) hok
      rw [(addS32_cases ha hr).2 hbelow]
      exact hrefused
  refine ⟨fun hexceeds => ?_, releaseSemaphore_of_none hk, hsum, fun hok hsingle => ?_,
    fun hok t ht hone => ?_⟩
  · by_contra hok
    have hle := hsum hok
    rw [releaseOut_eq_none hk] at hok
    omega
  · have hserved := releaseSemaphore_wakes hrest hk (hsum hok) hok hsingle
    have hwoken := hserved.length_woken hrest.waits
    refine ⟨hwoken, ?_⟩
    rw [hwoken]
    exact hserved.count
  · have hrest' := hrest.releaseSemaphore o releaseCount
    by_contra hcon
    have hfree : (s.releaseSemaphore o releaseCount).shouldWait o t = false := by simpa using hcon
    refine hrest'.settled o t ht not_false ⟨hfree, readyToRun_iff.2 fun _ p hp => ?_⟩
    rw [hone, List.mem_singleton] at hp
    rw [hp]
    exact hfree

theorem fits_of_releasesExactly {s : KernelSystem} {o : Nat}
    {maxCount available releaseCount : Int} (hk : s.kind o = .semaphore maxCount available)
    (hmax : IsS32 maxCount) (ha : IsS32 available) (hle : available ≤ maxCount)
    (hr : IsS32 releaseCount) (h : s.ReleasesExactly o maxCount available releaseCount) :
    SumFits maxCount available releaseCount := by
  obtain ⟨habove, hbelow⟩ := addS32_cases ha hr
  have hnone := releaseOut_eq_none hk releaseCount
  by_contra hcon
  unfold SumFits at hcon
  unfold IsS32 at *
  by_cases hbig : 2 ^ 31 ≤ available + releaseCount
  · -- the sum wraps below the available count, and so it is not refused
    have hrefused := hnone.1 (h.exceeds (by omega))
    rw [habove hbig] at hrefused
    omega
  · have hsmall : available + releaseCount < -2 ^ 31 := by omega
    have hok : s.releaseOut o releaseCount ≠ none := by
      intro hrefused
      have := hnone.1 hrefused
      rw [hbelow hsmall] at this
      omega
    have := h.sum hok
    rw [hbelow hsmall] at this
    omega

/-- **The count of a semaphore.**  In every state that can be reached it is at most the greatest
one, and a call of `Release` does what it should exactly when the sum fits. -/
theorem semaphore_counts {s : KernelSystem} (h : s.TypedReachable) {o : Nat}
    {maxCount available : Int} (hk : s.kind o = .semaphore maxCount available) :
    available ≤ maxCount ∧ IsS32 available ∧ ∀ releaseCount, IsS32 releaseCount →
      (s.ReleasesExactly o maxCount available releaseCount ↔
        SumFits maxCount available releaseCount) := by
  obtain ⟨hmax, ha, hle⟩ := countsBounded_reachable h o maxCount available hk
  refine ⟨hle, ha, fun releaseCount hr => ⟨fits_of_releasesExactly hk hmax ha hle hr, ?_⟩⟩
  exact releasesExactly_of_fits (atRest_reachable h.reachable) hk ha hr

/-- Two threads wait for a semaphore, which has the greatest count that there is. -/
def twoWaiters : List KernelOp :=
  [.createThread 1 50 0 true, .createThread 2 40 1 true, .reschedule 0, .reschedule 1,
    .createSemaphore 3 0 2147483647, .waitSynchronization1 0 3 1000,
    .waitSynchronization1 1 3 1000]

/-- One is released and one of two threads is woken. -/
theorem semaphore_counts_one :
    ∃ s, initial.run twoWaiters = some s ∧ s.waitingThreads 3 = [1, 2] ∧
      (woken s (s.releaseSemaphore 3 1) 3).length = 1 := by
  obtain ⟨s, hs⟩ := Option.isSome_iff_exists.1
    (show (initial.run twoWaiters).isSome = true by decide +kernel)
  have hstate : (initial.run twoWaiters).map (fun s => (s.kind 3, s.waitingThreads 3,
      decide (s.SingleWaiters 3), s.releaseOut 3 1)) =
      some (.semaphore 2147483647 0, [1, 2], true, some 0) := by decide +kernel
  rw [hs] at hstate
  simp only [Option.map_some, Option.some.injEq, Prod.mk.injEq, decide_eq_true_eq] at hstate
  obtain ⟨hk, hlist, hsingle, hok⟩ := hstate
  have htyped : ∀ op ∈ twoWaiters, op.Typed := by
    simp [twoWaiters, KernelOp.Typed, IsS32]
  have hexact := ((semaphore_counts (TypedReachable.initial.run htyped hs) hk).2.2 1
    (by simp [IsS32])).2 (Or.inl (by simp [IsS32]))
  refine ⟨s, hs, hlist, ?_⟩
  rw [(hexact.wakes (by simp [hok]) hsingle).1, hlist]
  rfl

/-- A semaphore with one left and the greatest count that there is: to release as many again
makes the count negative. -/
def almostFull : List KernelOp := [.createSemaphore 3 1 2147483647]

theorem release_wraps_around :
    ¬ ∀ s : KernelSystem, s.TypedReachable → ∀ o maxCount available,
      s.kind o = .semaphore maxCount available → ∀ releaseCount, IsS32 releaseCount →
        s.ReleasesExactly o maxCount available releaseCount := by
  intro hall
  obtain ⟨s, hs⟩ := Option.isSome_iff_exists.1
    (show (initial.run almostFull).isSome = true by decide +kernel)
  have hstate : (initial.run almostFull).map (fun s => (s.kind 3, s.releaseOut 3 2147483647)) =
      some (.semaphore 2147483647 1, some 1) := by decide +kernel
  rw [hs] at hstate
  simp only [Option.map_some, Option.some.injEq, Prod.mk.injEq] at hstate
  have htyped : ∀ op ∈ almostFull, op.Typed := by
    simp [almostFull, KernelOp.Typed, IsS32]
  have hexact := hall s (TypedReachable.initial.run htyped hs) 3 2147483647 1 hstate.1 2147483647
    (by simp [IsS32])
  have hnone := hexact.exceeds (by decide)
  rw [hstate.2] at hnone
  cases hnone

end KernelSystem
end AzaharPlus.Kernel
