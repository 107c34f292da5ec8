import AzaharPlus.Kernel.MemoryRuns
import AzaharPlus.Lib.Runs

/-!
# Queries of the address space

`QueryProcessMemory` of `core/hle/kernel/svc.cpp`: the area that has an address inside, together with its neighbours in
both directions as long as they have the same permissions and the same state.

`queryProcessMemory_maximal`: it reports the largest interval around the address on which all pages have the same
permissions and state, and so the queries from 0 on, each at the end of the interval before, go over the whole address
space once and never report the same twice in a row.
-/

namespace AzaharPlus.Kernel

open Tiling Runs

/-- `MemoryInfo`. -/
structure MemoryInfo where
  baseAddress : Nat
  size : Nat
  permission : VMAPermission
  state : MemoryState
  deriving DecidableEq

/-- The lambda `mismatch` of `QueryProcessMemory`. -/
def mismatch (permissions : VMAPermission) (state : MemoryState) (v : VirtualMemoryArea) : Bool :=
  v.val.permissions ≠ permissions ∨ v.val.meminfoState ≠ state

/-- `SVC::QueryProcessMemory`, of the process that the handle stands for.  The reverse iterator `rvma` stands at the area
before `vma`, and a step back from there leads to `vma` itself. -/
def queryProcessMemory (m : VMManager) (addr : Nat) : Except VmError MemoryInfo :=
  match findVMA m.vmaMap addr with
  | ⟨_, []⟩ => .error .invalidAddress
  | ⟨before, vma :: after⟩ =>
      let matching v := !mismatch vma.val.permissions vma.val.meminfoState v
      let lower := (before.takeWhile matching).getLast?.getD vma
      let upper := ((vma :: after).takeWhile matching).getLast?.getD vma
      .ok ⟨lower.base, upper.base + upper.size - lower.base, vma.val.permissions, vma.val.meminfoState⟩

/-- Queries from `addr` on, each at the end of the interval that the one before has reported, up to the first that
fails.  There is no answer if `fuel` does not suffice. -/
def queryFrom (m : VMManager) : Nat → Nat → Option (List MemoryInfo)
  | 0, _ => none
  | fuel + 1, addr =>
      match queryProcessMemory m addr with
      | .error _ => some []
      | .ok info => (queryFrom m fuel (info.baseAddress + info.size)).map (info :: ·)

/-- The permissions and the state of the page that an address lies on. -/
def pageKind (P : PageMap) (a : Nat) : Option (VMAPermission × MemoryState) :=
  (P (a / citraPageSize)).map fun x => (x.permissions, x.meminfoState)

variable {isCached : Nat → Bool} {m : VMManager}

/-! ## The two ends -/

section

variable (matching : VirtualMemoryArea → Bool)

/-- The search towards the beginning of the map. -/
theorem lower_spec : ∀ {before : List VirtualMemoryArea} {vma : VirtualMemoryArea} {lo : Nat},
    Tiles lo vma.base before.reverse →
    ((before.takeWhile matching).getLast?.getD vma).base ≤ vma.base ∧
      (∀ a, ((before.takeWhile matching).getLast?.getD vma).base ≤ a → a < vma.base →
        ∃ v ∈ before, matching v = true ∧ v.base ≤ a ∧ a < v.stop) ∧
      (lo < ((before.takeWhile matching).getLast?.getD vma).base → ∃ v ∈ before, matching v = false ∧
        v.base < ((before.takeWhile matching).getLast?.getD vma).base ∧
        v.stop = ((before.takeWhile matching).getLast?.getD vma).base) := by
  intro before
  induction before with
  | nil =>
    intro vma lo h
    have hlo : lo = vma.base := h
    refine ⟨le_rfl, fun a h₁ h₂ => ?_, fun hlt => ?_⟩
    · exact absurd h₁ (not_le.2 h₂)
    · exact absurd hlt (by rw [hlo]; exact lt_irrefl _)
  | cons c before ih =>
    intro vma lo h
    rw [List.reverse_cons, tiles_append] at h
    obtain ⟨mid, hbefore, rfl, hpos, hstop⟩ := h
    rw [tiles_nil] at hstop
    by_cases hc : matching c = true
    · rw [List.takeWhile_cons_of_pos hc, List.getLast?_cons, Option.getD_some]
      obtain ⟨hle, hin, hend⟩ := ih hbefore
      refine ⟨by omega, fun a h₁ h₂ => ?_, fun hlt => ?_⟩
      · by_cases ha : a < c.base
        · obtain ⟨v, hv, hspec⟩ := hin a h₁ ha
          exact ⟨v, List.mem_cons_of_mem _ hv, hspec⟩
        · exact ⟨c, List.mem_cons_self, hc, by omega, by rw [Tile.stop]; omega⟩
      · obtain ⟨v, hv, hspec⟩ := hend hlt
        exact ⟨v, List.mem_cons_of_mem _ hv, hspec⟩
    · rw [List.takeWhile_cons_of_neg hc]
      refine ⟨le_rfl, fun a h₁ h₂ => absurd h₁ (not_le.2 h₂), fun _ => ?_⟩
      refine ⟨c, List.mem_cons_self, Bool.not_eq_true _ ▸ hc, ?_, ?_⟩
      · rw [List.getLast?_nil, Option.getD_none]
        omega
      · rw [List.getLast?_nil, Option.getD_none, Tile.stop, hstop]

/-- The search towards the end of the map. -/
theorem upper_spec : ∀ {after : List VirtualMemoryArea} {vma : VirtualMemoryArea} {hi : Nat},
    Tiles vma.stop hi after →
    vma.stop ≤ ((after.takeWhile matching).getLast?.getD vma).stop ∧
      ((after.takeWhile matching).getLast?.getD vma).stop ≤ hi ∧
      (∀ a, vma.stop ≤ a → a < ((after.takeWhile matching).getLast?.getD vma).stop →
        ∃ v ∈ after, matching v = true ∧ v.base ≤ a ∧ a < v.stop) ∧
      (((after.takeWhile matching).getLast?.getD vma).stop < hi → ∃ v ∈ after, matching v = false ∧
        v.base = ((after.takeWhile matching).getLast?.getD vma).stop ∧
        ((after.takeWhile matching).getLast?.getD vma).stop < v.stop) := by
  intro after
  induction after with
  | nil =>
    intro vma hi h
    have hhi : vma.stop = hi := h
    refine ⟨le_rfl, hhi.le, fun a h₁ h₂ => absurd h₁ (not_le.2 h₂), fun hlt => ?_⟩
    exact absurd hlt (by rw [← hhi]; exact lt_irrefl _)
  | cons c after ih =>
    intro vma hi h
    obtain ⟨hbase, hpos, hafter⟩ := h
    rw [← hbase] at hafter
    replace hafter : Tiles c.stop hi after := hafter
    by_cases hc : matching c = true
    · rw [List.takeWhile_cons_of_pos hc, List.getLast?_cons, Option.getD_some]
      obtain ⟨hle, hhi, hin, hend⟩ := ih hafter
      have hstop : c.stop = c.base + c.size := rfl
      refine ⟨by omega, hhi, fun a h₁ h₂ => ?_, fun hlt => ?_⟩
      · by_cases ha : a < c.stop
        · exact ⟨c, List.mem_cons_self, hc, by omega, ha⟩
        · obtain ⟨v, hv, hspec⟩ := hin a (by omega) h₂
          exact ⟨v, List.mem_cons_of_mem _ hv, hspec⟩
      · obtain ⟨v, hv, hspec⟩ := hend hlt
        exact ⟨v, List.mem_cons_of_mem _ hv, hspec⟩
    · rw [List.takeWhile_cons_of_neg hc]
      have hle := hafter.le
      have hstop : c.stop = c.base + c.size := rfl
      refine ⟨le_rfl, ?_, fun a h₁ h₂ => absurd h₁ (not_le.2 h₂), fun _ => ?_⟩
      · rw [List.getLast?_nil, Option.getD_none]
        omega
      · refine ⟨c, List.mem_cons_self, Bool.not_eq_true _ ▸ hc, hbase, ?_⟩
        rw [List.getLast?_nil, Option.getD_none]
        omega

end

/-! ## One query -/

/-- The page of an address has the attributes of the area the address lies in. -/
theorem Consistent.pageKind_of_mem (hm : Consistent isCached m) {v : VirtualMemoryArea} (hv : v ∈ m.vmaMap) {a : Nat}
    (hlo : v.base ≤ a) (hhi : a < v.stop) :
    pageKind m.pageMap a = some (v.val.permissions, v.val.meminfoState) := by
  have hbase : v.base ≤ a / citraPageSize * citraPageSize := by
    have haligned := (hm.wellFormed v hv).base
    rw [← Nat.div_mul_cancel (Nat.dvd_of_mod_eq_zero haligned)]
    exact Nat.mul_le_mul_right _ (Nat.div_le_div_right hlo)
  have hvalue := hm.tiles.valueAt_of_mem hv hbase ((Nat.div_mul_le_self _ _).trans_lt hhi)
  rw [pageKind, VMManager.pageMap, hvalue]
  rfl

theorem Consistent.pageKind_eq_none (hm : Consistent isCached m) : pageKind m.pageMap maxAddress = none := by
  rw [pageKind, VMManager.pageMap, Nat.div_mul_cancel (by decide), hm.tiles.valueAt_eq_none (Or.inr le_rfl)]
  rfl

theorem mismatch_eq_true_iff {v w : VirtualMemoryArea} :
    mismatch w.val.permissions w.val.meminfoState v = true ↔
      (v.val.permissions, v.val.meminfoState) ≠ (w.val.permissions, w.val.meminfoState) := by
  rw [mismatch, decide_eq_true_iff, Ne, Ne, Ne, Prod.mk.injEq, not_and_or]

/-- A query reports a maximal run. -/
theorem Consistent.queryProcessMemory_ok (hm : Consistent isCached m) {addr : Nat} (haddr : addr < maxAddress) :
    ∃ info, queryProcessMemory m addr = .ok info ∧ info.baseAddress + info.size ≤ maxAddress ∧
      IsMaximalRun (pageKind m.pageMap) addr info.baseAddress (info.baseAddress + info.size)
        (info.permission, info.state) := by
  obtain ⟨before, vma, after, hf, hl, hlo, hhi⟩ := findVMA_spec hm.tiles haddr
  have htiles := hm.tiles
  rw [hl] at htiles
  obtain ⟨mid, hbefore, rfl, -, hafter⟩ := tiles_append.1 htiles
  have hmem : ∀ {v}, v ∈ before ∨ v = vma ∨ v ∈ after → v ∈ m.vmaMap := by
    intro v hv
    rw [hl, List.mem_append, List.mem_reverse, List.mem_cons]
    exact hv
  obtain ⟨matching, hmatching⟩ : ∃ f, f = fun v => !mismatch vma.val.permissions vma.val.meminfoState v := ⟨_, rfl⟩
  have hyes : ∀ {v}, matching v = true →
      (v.val.permissions, v.val.meminfoState) = (vma.val.permissions, vma.val.meminfoState) := by
    intro v hv
    rw [hmatching, Bool.not_eq_true', ← Bool.not_eq_true, mismatch_eq_true_iff, not_not] at hv
    exact hv
  have hno : ∀ {v}, matching v = false →
      (v.val.permissions, v.val.meminfoState) ≠ (vma.val.permissions, vma.val.meminfoState) := by
    intro v hv
    rw [hmatching, Bool.not_eq_false', mismatch_eq_true_iff] at hv
    exact hv
  have hvma : matching vma = true := by
    rw [hmatching]
    simp [mismatch]
  obtain ⟨hlower, hbelow, hend⟩ := lower_spec matching hbefore
  obtain ⟨hupper, hmax, hbehind, hend'⟩ := upper_spec matching hafter
  have hquery : queryProcessMemory m addr = .ok ⟨((before.takeWhile matching).getLast?.getD vma).base,
      ((after.takeWhile matching).getLast?.getD vma).stop - ((before.takeWhile matching).getLast?.getD vma).base,
      vma.val.permissions, vma.val.meminfoState⟩ := by
    rw [queryProcessMemory, hf]
    simp only [← hmatching]
    rw [List.takeWhile_cons_of_pos hvma, List.getLast?_cons, Option.getD_some, Tile.stop]
  refine ⟨_, hquery, ?_, ?_⟩
  · dsimp only
    omega
  dsimp only
  rw [Nat.add_sub_cancel' (by omega)]
  refine IsRun.isMaximal (fun a h₁ h₂ => ?_) (by omega) (by omega) (fun hpos => ?_) ?_
  · -- below the area, in it, or behind it
    by_cases hbase : a < vma.base
    · obtain ⟨v, hv, hmatch, hin⟩ := hbelow a h₁ hbase
      rw [hm.pageKind_of_mem (hmem (Or.inl hv)) hin.1 hin.2, hyes hmatch]
    · by_cases hstop : a < vma.stop
      · exact hm.pageKind_of_mem (hmem (Or.inr (Or.inl rfl))) (by omega) hstop
      · obtain ⟨v, hv, hmatch, hin⟩ := hbehind a (by omega) h₂
        rw [hm.pageKind_of_mem (hmem (Or.inr (Or.inr hv))) hin.1 hin.2, hyes hmatch]
  · obtain ⟨v, hv, hmatch, hin⟩ := hend hpos
    rw [hm.pageKind_of_mem (hmem (Or.inl hv)) (by omega) (by omega)]
    exact fun heq => hno hmatch (Option.some.inj heq)
  · obtain hlt | heq := hmax.lt_or_eq
    · obtain ⟨v, hv, hmatch, hin⟩ := hend' hlt
      rw [hm.pageKind_of_mem (hmem (Or.inr (Or.inr hv))) (by omega) (by omega)]
      exact fun heq => hno hmatch (Option.some.inj heq)
    · rw [heq, hm.pageKind_eq_none]
      exact (Option.some_ne_none _).symm

theorem queryProcessMemory_end {addr : Nat} (haddr : maxAddress ≤ addr) :
    queryProcessMemory m addr = .error .invalidAddress := by
  rw [queryProcessMemory, findVMA, if_pos haddr]

/-! ## Query after query -/

/-- The interval that is reported. -/
def MemoryInfo.tile (info : MemoryInfo) : Tile (VMAPermission × MemoryState) :=
  ⟨info.baseAddress, info.size, (info.permission, info.state)⟩

/-- From an address on where a maximal run begins, the queries go over the rest of the address space; `n` bounds what
there is left, and `k` is what the run before has. -/
theorem Consistent.queryFrom_ok (hm : Consistent isCached m) : ∀ (n : Nat) {addr : Nat}
    {k : Option (VMAPermission × MemoryState)}, maxAddress ≤ addr + n → addr ≤ maxAddress →
    (∀ lo hi k', IsMaximalRun (pageKind m.pageMap) addr lo hi k' → lo = addr ∧ some k' ≠ k) →
    ∃ l, (∀ fuel, n < fuel → queryFrom m fuel addr = some l) ∧ Tiles addr maxAddress (l.map MemoryInfo.tile) ∧
      (l.map MemoryInfo.tile).IsChain (fun i j => i.val ≠ j.val) ∧
      ∀ i ∈ l.head?, some (i.permission, i.state) ≠ k := by
  intro n
  induction n with
  | zero =>
    intro addr k hn haddr _
    obtain rfl : addr = maxAddress := by omega
    refine ⟨[], fun fuel hfuel => ?_, rfl, List.IsChain.nil, by simp⟩
    obtain ⟨fuel, rfl⟩ := Nat.exists_eq_add_of_lt hfuel
    rw [queryFrom, queryProcessMemory_end le_rfl]
  | succ n ih =>
    intro addr k hn haddr hstart
    by_cases hlt : addr < maxAddress
    · obtain ⟨info, hquery, hle, hmaximal⟩ := hm.queryProcessMemory_ok hlt
      obtain ⟨hbase, hkind⟩ := hstart _ _ _ hmaximal
      have hhi := hmaximal.lt_hi
      obtain ⟨l, hrest, htiles, hchain, hhead⟩ := ih (k := some (info.permission, info.state)) (by omega) hle
        fun lo hi k' h' => by
          obtain ⟨hlo, hne⟩ := hmaximal.next h'
          exact ⟨hlo, fun heq => hne (Option.some.inj heq)⟩
      refine ⟨info :: l, fun fuel hfuel => ?_, ⟨hbase, ?_, ?_⟩, ?_, ?_⟩
      · obtain ⟨fuel, rfl⟩ := Nat.exists_eq_add_of_lt hfuel
        rw [queryFrom, hquery]
        dsimp only
        rw [hrest _ (by omega)]
        rfl
      · rw [MemoryInfo.tile]
        dsimp only
        omega
      · rw [MemoryInfo.tile]
        dsimp only
        rw [← hbase]
        exact htiles
      · rw [List.map_cons, List.isChain_cons]
        refine ⟨fun i hi => ?_, hchain⟩
        rw [List.head?_map] at hi
        obtain ⟨j, hj, rfl⟩ := Option.map_eq_some_iff.1 hi
        exact fun heq => hhead j hj (congrArg some heq.symm)
      · intro i hi
        obtain rfl := Option.some.inj hi
        exact hkind
    · obtain ⟨l, hrest, hspec⟩ := ih (by omega) haddr hstart
      exact ⟨l, fun fuel hfuel => hrest fuel (by omega), hspec⟩

/-- In every state that is reached, a query below the end of the address space reports the largest interval around the
address on which all pages have the same permissions and state; and the queries from 0 on, each at the end of the
interval before, come to an end, with intervals that lie one behind the other from 0 up to that end, and no two
neighbours alike. -/
theorem queryProcessMemory_maximal (isCached : Nat → Bool) (s : KernelMemory) (h : MemoryReachable isCached s) :
    (∀ addr < maxAddress, ∃ info, queryProcessMemory s.process.vmManager addr = .ok info ∧
      IsMaximalRun (pageKind s.process.vmManager.pageMap) addr info.baseAddress (info.baseAddress + info.size)
        (info.permission, info.state)) ∧
    ∃ l, (∀ fuel, maxAddress < fuel → queryFrom s.process.vmManager fuel 0 = some l) ∧
      Tiles 0 maxAddress (l.map MemoryInfo.tile) ∧
      (l.map MemoryInfo.tile).IsChain (fun i j => i.val ≠ j.val) := by
  have hm := h.orderly.process.consistent
  refine ⟨fun addr haddr => ?_, ?_⟩
  · obtain ⟨info, hquery, -, hmaximal⟩ := hm.queryProcessMemory_ok haddr
    exact ⟨info, hquery, hmaximal⟩
  · obtain ⟨l, hl, htiles, hchain, -⟩ := hm.queryFrom_ok maxAddress (k := none) (Nat.le_add_left _ _) (Nat.zero_le _)
      fun lo hi k' h' => ⟨Nat.le_zero.1 h'.lo_le, Option.some_ne_none _⟩
    exact ⟨l, hl, htiles, hchain⟩

/-- Of a process that has committed a page, this page is an interval of its own. -/
theorem queryProcessMemory_maximal_committed :
    ∃ p, committed = some p ∧
      IsMaximalRun (pageKind p.vmManager.pageMap) 0x08000800 0x08000000 0x08001000
        (permReadWrite, .private_) ∧
      ∃ l, (∀ fuel, maxAddress < fuel → queryFrom p.vmManager fuel 0 = some l) ∧
        Tiles 0 maxAddress (l.map MemoryInfo.tile) ∧
        (l.map MemoryInfo.tile).IsChain (fun i j => i.val ≠ j.val) := by
  have hrun : (committed.map fun p => decide (queryProcessMemory p.vmManager 0x08000800 =
      .ok ⟨0x08000000, 0x1000, permReadWrite, .private_⟩)) = some true := by
    decide +kernel
  obtain ⟨p, hp, hfacts⟩ := Option.map_eq_some_iff.1 hrun
  have hquery := of_decide_eq_true hfacts
  have hreach : MemoryReachable (fun _ => false) { freshKernel with process := p } :=
    reachable_freshKernel.controlPage hp
  obtain ⟨hinfo, hall⟩ := queryProcessMemory_maximal (fun _ => false) _ hreach
  obtain ⟨info, hok, hmaximal⟩ := hinfo 0x08000800 (by decide)
  obtain rfl := Except.ok.inj (hquery.symm.trans hok)
  exact ⟨p, hp, hmaximal, hall⟩

end AzaharPlus.Kernel
