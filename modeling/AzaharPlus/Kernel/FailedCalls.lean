import AzaharPlus.Kernel.MemoryRuns

/-!
# Calls that fail

What is left of the memory of a process after `HeapAllocate`, `HeapFree`, `LinearAllocate`, `LinearFree`, `Map` or
`Unmap` has returned an error.  Each of them makes its checks before it changes anything, except for `Unmap`: it
unmaps the target and only then asks for the state of the source, without putting the target back.

* `failed_call_keeps_iff`: a call leaves everything as it was if it fails, unless it is an `Unmap` of a target that
  is mapped and a source that `Map` has not left in the state it expects;
* `failed_unmap_changes`: two pages are committed, and an `Unmap` of one with the other as its source fails and
  unmaps it.
-/

namespace AzaharPlus.Kernel

open Tiling

/-- The addresses and sizes are those of pages. -/
def MemoryCall.Aligned : MemoryCall → Prop
  | heapAllocate target size _ _ _ | heapFree target size | linearAllocate target size _
  | linearFree target size => target.toNat % citraPageSize = 0 ∧ size.toNat % citraPageSize = 0
  | map target source size _ _ | unmap target source size _ _ => target.toNat % citraPageSize = 0 ∧
      source.toNat % citraPageSize = 0 ∧ size.toNat % citraPageSize = 0

/-- A range is not all in a state: it begins behind the managed space, or one of its pages has another state. -/
def PageMap.NotAllIn (P : PageMap) (state : MemoryState) (source size : Nat) : Prop :=
  maxAddress ≤ source ∨ ∃ page a, InRange source size page ∧ P page = some a ∧ a.meminfoState ≠ state

/-- The call is an `Unmap` that passes the first checks, of a target that is mapped and a source that is not all in
the state `Map` leaves it in. -/
def MemoryCall.UnmapsHalf (p : ProcessMemory) : MemoryCall → Prop
  | unmap target source size _ privileged =>
      (privileged = false → ProcessMemory.outside heapVaddr heapVaddrEnd source.toNat size.toNat = false) ∧
      ProcessMemory.overlapping source.toNat target.toNat size.toNat = false ∧
      IsRange target.toNat size.toNat ∧
      p.vmManager.pageMap.All target.toNat size.toNat (·.type ≠ .free) ∧
      p.vmManager.pageMap.NotAllIn (if privileged then .locked else .aliased) source.toNat size.toNat
  | _ => False

variable {isCached : Nat → Bool} {p p' : ProcessMemory} {e : MemoryError}

/-! ## `Unmap` -/

theorem notAllIn_congr {P P' : PageMap} {state : MemoryState} {source size : Nat}
    (h : ∀ page, InRange source size page → P' page = P page) :
    P'.NotAllIn state source size ↔ P.NotAllIn state source size := by
  have hstep : ∀ {P P' : PageMap}, (∀ page, InRange source size page → P' page = P page) →
      P'.NotAllIn state source size → P.NotAllIn state source size := by
    intro P P' h hnot
    refine hnot.imp_right ?_
    rintro ⟨page, a, hpage, ha, hstate⟩
    exact ⟨page, a, hpage, by rw [← h page hpage, ha], hstate⟩
  exact ⟨hstep h, hstep fun page hpage => (h page hpage).symm⟩

/-- An area that meets a range and is in another state has a page of the range. -/
theorem notAllIn_of_areas {m : VMManager} {state : MemoryState} {source size : Nat} (hm : Consistent isCached m)
    (hsource : source % citraPageSize = 0) (hsize : 0 < size)
    (h : maxAddress ≤ source ∨
      ∃ v ∈ areasUpTo (findVMA m.vmaMap source) (source + size), v.val.meminfoState ≠ state) :
    m.pageMap.NotAllIn state source size := by
  by_cases hlt : source < maxAddress
  · obtain hle | ⟨v, hv, hstate⟩ := h
    · exact Or.inl hle
    obtain ⟨hmem, hbase, hstop⟩ := (mem_areasUpTo hm.tiles hlt v).1 hv
    have hpos := (hm.tiles.bounds hmem).2.2
    -- the first address they have in common
    have haligned : max source v.base % citraPageSize = 0 := by
      rcases max_choice source v.base with hmax | hmax <;> rw [hmax]
      · exact hsource
      · exact (hm.wellFormed v hmem).base
    have hpage : max source v.base / citraPageSize * citraPageSize = max source v.base :=
      Nat.div_mul_cancel (Nat.dvd_of_mod_eq_zero haligned)
    refine Or.inr ⟨max source v.base / citraPageSize, (max source v.base - v.base) +ᵥ v.val, ⟨?_, ?_⟩, ?_, ?_⟩
    · rw [hpage]
      exact le_max_left _ _
    · rw [hpage]
      rw [Tile.stop] at hstop
      omega
    · rw [VMManager.pageMap, hpage]
      refine hm.tiles.valueAt_of_mem hmem (le_max_right _ _) ?_
      rw [Tile.stop] at hstop ⊢
      omega
    · exact hstate
  · exact Or.inl (not_lt.1 hlt)

/-- A range that is not all in a state has an area in another one. -/
theorem NotAllIn.exists_area {m : VMManager} {state : MemoryState} {source size : Nat}
    (h : m.pageMap.NotAllIn state source size) (hm : Consistent isCached m) (hlt : source < maxAddress) :
    ∃ v ∈ areasUpTo (findVMA m.vmaMap source) (source + size), v.val.meminfoState ≠ state := by
  obtain hle | ⟨page, a, ⟨h₁, h₂⟩, ha, hstate⟩ := h
  · omega
  have hinside : page * citraPageSize < maxAddress := by
    by_contra hge
    rw [VMManager.pageMap, hm.tiles.valueAt_eq_none (Or.inr (not_lt.1 hge))] at ha
    cases ha
  obtain ⟨v, hv, hlo, hhi, hvalue⟩ := hm.tiles.exists_mem (Nat.zero_le _) hinside
  refine ⟨v, (mem_areasUpTo hm.tiles hlt v).2 ⟨hv, by omega, by omega⟩, ?_⟩
  rw [VMManager.pageMap, hvalue] at ha
  obtain rfl := Option.some.inj ha
  exact hstate

/-- A range is not all in a state exactly if `ChangeMemoryState` finds it so. -/
theorem notAllIn_iff_mismatch {m : VMManager} {state : MemoryState} {source size : Nat} (hm : Consistent isCached m)
    (hsource : source % citraPageSize = 0) (hpos : 0 < size) (hsize : size ≤ maxAddress) :
    m.pageMap.NotAllIn state source size ↔ m.Mismatch source size state permNone := by
  by_cases hlt : source < maxAddress
  · have hwrap : source + size < 2 ^ 32 := by
      have hmax : maxAddress + maxAddress < 2 ^ 32 := by decide
      omega
    rw [mismatch_iff_areas hm hlt hwrap]
    constructor
    · intro h
      obtain ⟨v, hv, hstate⟩ := NotAllIn.exists_area h hm hlt
      exact ⟨v, hv, Or.inl hstate⟩
    · rintro ⟨v, hv, hbad⟩
      refine notAllIn_of_areas hm hsource hpos (Or.inr ⟨v, hv, hbad.resolve_right ?_⟩)
      simp [permNone]
  · exact iff_of_true (Or.inl (not_lt.1 hlt)) (Or.inl (not_lt.1 hlt))

/-- The two ranges of an `Unmap` that passes its check lie apart. -/
theorem apart_of_not_overlapping {source target size : Nat} (hsource : source < 2 ^ 32) (htarget : target < 2 ^ 32)
    (h : ProcessMemory.overlapping source target size = false) :
    source + size ≤ target ∨ target + size ≤ source := by
  rw [ProcessMemory.overlapping, decide_eq_false_iff_not, not_or, not_lt, not_lt, sub32, sub32] at h
  omega

/-- Unmapping one of two ranges that lie apart leaves the pages of the other. -/
theorem Changed.pageMap_of_apart {m m' : VMManager} {change : Attributes → Attributes} {target source size : Nat}
    (h : Changed isCached m m' change target size) (hapart : source + size ≤ target ∨ target + size ≤ source)
    {page : Nat} (hpage : InRange source size page) : m'.pageMap page = m.pageMap page := by
  obtain ⟨h₁, h₂⟩ := hpage
  rw [VMManager.pageMap, h.values, changedOn, if_neg (by omega), VMManager.pageMap]

section

variable {target source size : Nat} {perms : VMAPermission} {state : MemoryState}

/-- `Unmap` that fails has changed nothing, or has unmapped the target and then found the source in another state. -/
theorem unmapChecked_error (hm : Consistent isCached p.vmManager) (hsource : source % citraPageSize = 0)
    (hapart : source + size ≤ target ∨ target + size ≤ source) (hstate : state ≠ .free)
    (h : p.unmapChecked isCached target source size perms state = some (.error e, p')) :
    p' = p ∨ (IsRange target size ∧ p.vmManager.pageMap.All target size (·.type ≠ .free) ∧
      p.vmManager.pageMap.NotAllIn state source size) := by
  obtain ⟨e', -, rfl⟩ | ⟨m, hunmap, hrest⟩ := ProcessMemory.unmapChecked_cases hm h
  · exact Or.inl rfl
  obtain ⟨hne, -⟩ | ⟨-, hchanged⟩ := unmapRange_changes hm hunmap
  · exact absurd rfl hne
  obtain ⟨e', e'', -, hchange, rfl⟩ | ⟨m', hok, -⟩ := hrest
  · have hnot := (changeMemoryState_error_iff hchanged.consistent hstate).1 ⟨_, _, hchange⟩
    rw [← notAllIn_iff_mismatch hchanged.consistent hsource hchanged.range.pos
      (le_of_add_le_right hchanged.range.stop_le), notAllIn_congr fun page hpage => hchanged.pageMap_of_apart hapart hpage] at hnot
    exact Or.inr ⟨hchanged.range,
      (all_iff_areas hm.tiles hm.wellFormed hchanged.range (fun _ _ => Iff.rfl)).2 hchanged.mapped, hnot⟩
  · cases hok

/-- `Unmap` of a target that is mapped and a source in another state fails, and the target is gone. -/
theorem unmapChecked_half (hm : Consistent isCached p.vmManager) (hfree : FreeMerged p.vmManager.vmaMap)
    (hsource : source % citraPageSize = 0) (hstate : state ≠ .free)
    (hapart : source + size ≤ target ∨ target + size ≤ source) (hr : IsRange target size)
    (hmapped : p.vmManager.pageMap.All target size (·.type ≠ .free))
    (hnot : p.vmManager.pageMap.NotAllIn state source size) :
    ∃ e p', p.unmapChecked isCached target source size perms state = some (.error e, p') ∧ p' ≠ p := by
  obtain ⟨m, hunmap, hchanged⟩ := unmapRange_ok hm hfree hr
    ((all_iff_areas hm.tiles hm.wellFormed hr (fun _ _ => Iff.rfl)).1 hmapped)
  have hm' := hchanged.consistent
  rw [← notAllIn_congr fun page hpage => hchanged.pageMap_of_apart hapart hpage] at hnot
  rw [notAllIn_iff_mismatch hm' hsource hr.pos (le_of_add_le_right hr.stop_le)] at hnot
  obtain ⟨e, m', hfails⟩ : ∃ e m', m.changeMemoryState isCached source size state permNone .private_ perms =
      some (.error e, m') := (changeMemoryState_error_iff hm' hstate).2 hnot
  obtain rfl : m = m' := by
    obtain ⟨-, hkeeps⟩ | ⟨hok, -⟩ := changeMemoryState_changes hm' hfails
    · exact hkeeps.symm
    · cases hok
  refine ⟨e.toMemoryError, { p with vmManager := m }, ?_, ?_⟩
  · rw [ProcessMemory.unmapChecked, hunmap]
    simp only [Option.bind_eq_bind, Option.bind_some, hfails]
    rfl
  · -- the first page of the target was mapped and is free now
    intro heq
    have hsame : m = p.vmManager := congrArg ProcessMemory.vmManager heq
    have hpage : target / citraPageSize * citraPageSize = target :=
      Nat.div_mul_cancel (Nat.dvd_of_mod_eq_zero hr.target_aligned)
    have hin : InRange target size (target / citraPageSize) := by
      rw [InRange, hpage]
      exact ⟨le_rfl, Nat.lt_add_of_pos_right hr.pos⟩
    obtain ⟨a, ha, htype⟩ := hmapped _ hin
    have hgone : m.pageMap (target / citraPageSize) = some freeAttributes := by
      rw [VMManager.pageMap, hchanged.values, changedOn, if_pos ⟨hin.1, hin.2⟩]
      rw [VMManager.pageMap] at ha
      rw [ha]
      rfl
    rw [hsame, ha] at hgone
    obtain rfl := Option.some.inj hgone
    exact htype rfl

/-- What `Unmap` leaves when it fails behind its checks. -/
theorem unmapChecked_keeps_iff (hm : Consistent isCached p.vmManager) (hfree : FreeMerged p.vmManager.vmaMap)
    (hsource : source % citraPageSize = 0) (hstate : state ≠ .free)
    (hapart : source + size ≤ target ∨ target + size ≤ source) :
    (∀ e p', p.unmapChecked isCached target source size perms state = some (.error e, p') → p' = p) ↔
      ¬ (IsRange target size ∧ p.vmManager.pageMap.All target size (·.type ≠ .free) ∧
        p.vmManager.pageMap.NotAllIn state source size) := by
  constructor
  · rintro hkeeps ⟨hr, hmapped, hnot⟩
    obtain ⟨e, p', h, hne⟩ : ∃ e p', p.unmapChecked isCached target source size perms state =
        some (.error e, p') ∧ p' ≠ p := unmapChecked_half hm hfree hsource hstate hapart hr hmapped hnot
    exact hne (hkeeps e p' h)
  · intro hhalf e p' h
    rcases unmapChecked_error hm hsource hapart hstate h with hkeeps | hhalf'
    · exact hkeeps
    · exact absurd hhalf' hhalf

end

/-! ## Every call -/

theorem forget_error {α : Type} {r : Option (Except MemoryError α × ProcessMemory)}
    (h : r.map forget = some (.error e, p')) : r = some (.error e, p') := by
  obtain ⟨⟨r', p''⟩, hr, heq⟩ := Option.map_eq_some_iff.1 h
  cases r' with
  | error e' =>
    obtain ⟨he, rfl⟩ := Prod.mk.inj heq
    rw [hr, Except.error.inj he]
  | ok a => cases (Prod.mk.inj heq).1

theorem mapChecked_error_keeps {target source size : Nat} {perms sourcePerm : VMAPermission}
    {sourceState targetState : MemoryState} (hm : Consistent isCached p.vmManager)
    (h : p.mapChecked isCached target source size perms sourceState targetState sourcePerm =
      some (.error e, p')) : p' = p := by
  obtain ⟨e', -, rfl⟩ | ⟨m, blocks, m', hok, -⟩ := ProcessMemory.mapChecked_cases hm h
  · rfl
  · cases hok

theorem ofVm_error_keeps {target size : Nat} {expectedState newState : MemoryState}
    {expectedPerms newPerms : VMAPermission} (hm : Consistent isCached p.vmManager)
    (h : (p.vmManager.changeMemoryState isCached target size expectedState expectedPerms newState newPerms).map
      p.ofVm = some (.error e, p')) : p' = p := by
  obtain ⟨e', -, rfl⟩ | ⟨m, hok, -⟩ := ProcessMemory.ofVm_cases hm h
  · rfl
  · cases hok

/-- Every call but `Unmap` fails before it changes anything. -/
theorem error_keeps (hp : p.Orderly isCached) {call : MemoryCall}
    (hcall : ∀ target source size perms privileged, call ≠ .unmap target source size perms privileged)
    (h : call.run isCached p = some (.error e, p')) : p' = p := by
  have hm := hp.consistent
  cases call with
  | heapAllocate target size perms state skip =>
    rw [MemoryCall.run] at h
    obtain ⟨e', -, rfl⟩ | ⟨A, region, m, hok, -⟩ :=
      ProcessMemory.heapAllocate_cases hp.region.used (forget_error h)
    · rfl
    · cases hok
  | heapFree target size =>
    rw [MemoryCall.run] at h
    obtain ⟨e', -, rfl⟩ | ⟨hok, -⟩ | ⟨blocks, p₁, m, hok, -⟩ := ProcessMemory.heapFree_cases h
    · rfl
    · cases hok
    · cases hok
  | linearAllocate target size perms =>
    rw [MemoryCall.run] at h
    obtain ⟨e', -, rfl⟩ | ⟨offset, addr, region, m, hok, -⟩ :=
      ProcessMemory.linearAllocate_cases hp.region size.toNat_lt (forget_error h)
    · rfl
    · cases hok
  | linearFree target size =>
    rw [MemoryCall.run] at h
    obtain ⟨e', -, rfl⟩ | ⟨hok, -⟩ | ⟨m, region, hok, -⟩ := ProcessMemory.linearFree_cases hm h
    · rfl
    · cases hok
    · cases hok
  | map target source size perms privileged =>
    rw [MemoryCall.run] at h
    split_ifs at h
    · rw [ProcessMemory.mapPrivileged] at h
      split_ifs at h
      · exact ofVm_error_keeps hm h
      · exact (Prod.mk.inj (Option.some.inj h)).2.symm
      · exact mapChecked_error_keeps hm h
    · rw [ProcessMemory.map_eq] at h
      split_ifs at h
      · exact (Prod.mk.inj (Option.some.inj h)).2.symm
      · exact (Prod.mk.inj (Option.some.inj h)).2.symm
      · exact mapChecked_error_keeps hm h
  | unmap target source size perms privileged => exact absurd rfl (hcall target source size perms privileged)

/-- `Unmap` leaves everything as it was if it fails, unless it has unmapped half of what it was to. -/
theorem unmap_keeps_iff (hp : p.Orderly isCached) {target source size : UInt32} {perms : VMAPermission}
    {privileged : Bool} (hsource : source.toNat % citraPageSize = 0) :
    (∀ e p', (MemoryCall.unmap target source size perms privileged).run isCached p = some (.error e, p') →
      p' = p) ↔ ¬ (MemoryCall.unmap target source size perms privileged).UnmapsHalf p := by
  have hm := hp.consistent
  have hfree := hp.freeMerged
  cases privileged with
  | false =>
    simp only [MemoryCall.run, MemoryCall.UnmapsHalf, Bool.false_eq_true, if_false, forall_const,
      ProcessMemory.unmap_eq]
    by_cases hout : ProcessMemory.outside heapVaddr heapVaddrEnd source.toNat size.toNat = true
    · rw [if_pos hout]
      refine iff_of_true (fun e p' h => (Prod.mk.inj (Option.some.inj h)).2.symm) ?_
      rintro ⟨hin, -⟩
      rw [hin] at hout
      cases hout
    · rw [if_neg hout]
      by_cases hover : ProcessMemory.overlapping source.toNat target.toNat size.toNat = true
      · rw [if_pos hover]
        refine iff_of_true (fun e p' h => (Prod.mk.inj (Option.some.inj h)).2.symm) ?_
        rintro ⟨-, hapart, -⟩
        rw [hapart] at hover
        cases hover
      · rw [Bool.not_eq_true] at hout hover
        simp only [hout, hover, true_and, Bool.false_eq_true, if_false]
        exact unmapChecked_keeps_iff hm hfree hsource (by decide)
          (apart_of_not_overlapping source.toNat_lt target.toNat_lt hover)
  | true =>
    simp only [MemoryCall.run, MemoryCall.UnmapsHalf, if_true, ProcessMemory.unmapPrivileged,
      Bool.true_eq_false, false_imp_iff, true_and]
    by_cases hover : ProcessMemory.overlapping source.toNat target.toNat size.toNat = true
    · refine iff_of_true (fun e p' h => ?_) ?_
      · rw [if_pos hover] at h
        split_ifs at h
        · exact ofVm_error_keeps hm h
        · exact (Prod.mk.inj (Option.some.inj h)).2.symm
      · rintro ⟨hapart, -⟩
        rw [hapart] at hover
        cases hover
    · rw [Bool.not_eq_true] at hover
      simp only [hover, true_and, Bool.false_eq_true, if_false]
      exact unmapChecked_keeps_iff hm hfree hsource (by decide)
        (apart_of_not_overlapping source.toNat_lt target.toNat_lt hover)

/-- A call that returns an error leaves the address space, the region, `holding_memory` and `memory_used` as they
were, exactly if it is not an `Unmap` of a target that is mapped and a source that is not in the state `Map` has left
it in. -/
theorem failed_call_keeps_iff (isCached : Nat → Bool) (s : KernelMemory) (h : MemoryReachable isCached s)
    (call : MemoryCall) (haligned : call.Aligned) :
    (∀ e p', call.run isCached s.process = some (.error e, p') → p' = s.process) ↔
      ¬ call.UnmapsHalf s.process := by
  have hp := h.orderly.process
  cases call with
  | unmap target source size perms privileged => exact unmap_keeps_iff hp haligned.2.1
  | heapAllocate => exact iff_of_true (fun e p' h => error_keeps hp (by simp) h) id
  | heapFree => exact iff_of_true (fun e p' h => error_keeps hp (by simp) h) id
  | linearAllocate => exact iff_of_true (fun e p' h => error_keeps hp (by simp) h) id
  | linearFree => exact iff_of_true (fun e p' h => error_keeps hp (by simp) h) id
  | map => exact iff_of_true (fun e p' h => error_keeps hp (by simp) h) id

/-- A committed page is unmapped from a page that is free: the call fails and leaves the process as it was. -/
theorem failed_call_keeps_committed :
    ∃ p e, MemoryReachable (fun _ => false) { freshKernel with process := p } ∧ p.memoryUsed = 0x1000 ∧
      (MemoryCall.unmap 0x08002000 0x08000000 0x1000 permReadWrite false).run (fun _ => false) p =
        some (.error e, p) := by
  have hrun : (committed.bind fun p =>
      ((MemoryCall.unmap 0x08002000 0x08000000 0x1000 permReadWrite false).run (fun _ => false) p).map fun r =>
        decide (p.memoryUsed = 0x1000 ∧ p.vmManager.pageMap 0x8002 = some freeAttributes ∧
          r.1 = .error .invalidAddressState)) = some true := by
    decide +kernel
  obtain ⟨p, hp, hrun⟩ := Option.bind_eq_some_iff.1 hrun
  obtain ⟨⟨r, p'⟩, hcall, hfacts⟩ := Option.map_eq_some_iff.1 hrun
  obtain ⟨hused, hfree, rfl⟩ := of_decide_eq_true hfacts
  have hreach : MemoryReachable (fun _ => false) { freshKernel with process := p } :=
    reachable_freshKernel.controlPage hp
  have hkept : p' = p := (failed_call_keeps_iff (fun _ => false) _ hreach
      (.unmap 0x08002000 0x08000000 0x1000 permReadWrite false) ⟨by decide, by decide, by decide⟩).2
    (by
      rintro ⟨-, -, -, hmapped, -⟩
      obtain ⟨a, ha, htype⟩ := hmapped 0x8002 ⟨by decide, by decide⟩
      obtain rfl := Option.some.inj (hfree.symm.trans ha)
      exact htype rfl) _ _ hcall
  exact ⟨p, _, hreach, hused, hkept ▸ hcall⟩

/-- A second page of the heap is committed, behind a page that is not. -/
def committedTwice : Option ProcessMemory := committed.bind (controlPage 0x08002000 0 3)

/-- The second page is unmapped with the first one as its source: the call fails, and the page is gone. -/
theorem failed_unmap_changes :
    ¬ ∀ (isCached : Nat → Bool) (s : KernelMemory), MemoryReachable isCached s → ∀ call : MemoryCall, call.Aligned →
      ∀ e p', call.run isCached s.process = some (.error e, p') → p' = s.process := by
  intro hall
  have hrun : (committedTwice.bind fun p =>
      ((MemoryCall.unmap 0x08002000 0x08000000 0x1000 permReadWrite false).run (fun _ => false) p).map fun r =>
        decide (p.vmManager.pageTable.attributes 0x8002 ≠ .unmapped ∧
          r.2.vmManager.pageTable.attributes 0x8002 = .unmapped ∧ r.1 = .error .invalidAddressState)) =
      some true := by
    decide +kernel
  obtain ⟨p, hp, hrun⟩ := Option.bind_eq_some_iff.1 hrun
  obtain ⟨⟨r, p'⟩, hcall, hfacts⟩ := Option.map_eq_some_iff.1 hrun
  obtain ⟨hbefore, hafter, rfl⟩ := of_decide_eq_true hfacts
  obtain ⟨p₁, hp₁, hp₂⟩ := Option.bind_eq_some_iff.1 hp
  have hreach : MemoryReachable (fun _ => false) { freshKernel with process := p } :=
    (reachable_freshKernel.controlPage hp₁).controlPage hp₂
  obtain rfl := hall _ _ hreach (.unmap 0x08002000 0x08000000 0x1000 permReadWrite false)
    ⟨by decide, by decide, by decide⟩ _ p' hcall
  exact hbefore hafter

end AzaharPlus.Kernel
