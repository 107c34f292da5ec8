import AzaharPlus.Kernel.ProcessMemory

/-!
# The memory behind the addresses of a process

What the operations of the virtual memory manager do to the memory behind each address,
whenever they return and whether or not all areas are merged: `MapBackingMemory` puts memory
behind a free range, `UnmapRange` takes it away, `ReprotectRange`, `Reprotect` and
`ChangeMemoryState` leave it alone.  `mapBlocks` lays one block behind the other, and
`GetBackingBlocksForRange` reads off the blocks that lie behind a range.
-/

namespace AzaharPlus.Kernel

open Tiling

/-- The memory behind an address. -/
def VMManager.backing (m : VMManager) (a : Nat) : Option MemoryRef :=
  (valueAt m.vmaMap a).bind Attributes.backingMemory

variable {isCached : Nat → Bool}

/-- A page that the page table maps has memory behind all its addresses. -/
theorem Consistent.backing_of_mapped {m : VMManager} (hm : Consistent isCached m) {a : Nat}
    (ha : a < maxAddress) (h : m.pageTable.attributes (a / citraPageSize) ≠ .unmapped) :
    ∃ memory, m.backing a = some memory := by
  have hpage : a / citraPageSize * citraPageSize ≤ a := Nat.div_mul_le_self _ _
  have hlt : a < a / citraPageSize * citraPageSize + citraPageSize := by
    simp only [citraPageSize]
    omega
  obtain ⟨v, hv, hlo, hhi, hval⟩ := hm.tiles.exists_mem (Nat.zero_le _) (hpage.trans_lt ha)
  obtain ⟨attrs, hattrs, hentry⟩ := hm.agrees (a / citraPageSize) (hpage.trans_lt ha)
  have hw := hm.wellFormed v hv
  -- the page lies in one area
  have hstop : a < v.stop := by
    have h₁ := hw.base
    have h₂ := hw.size
    simp only [Tile.stop, citraPageSize] at *
    omega
  have hhere := hm.tiles.valueAt_of_mem hv (hlo.trans hpage) hstop
  rw [hval] at hattrs
  obtain rfl := Option.some.inj hattrs
  rcases hw.valid with hf | ⟨-, hs⟩
  · rw [hf, vadd_def, shift_freeAttributes] at hentry
    exact absurd (congrArg Prod.fst hentry) h
  · obtain ⟨r, hr⟩ := Option.isSome_iff_exists.1 hs
    refine ⟨r.shift (a - v.base), ?_⟩
    rw [VMManager.backing, hhere, Option.bind_some, vadd_def, Attributes.shift, hr]
    rfl

/-! ## Changing a range -/

/-- All of a range was mapped, and its attributes are changed. -/
structure Changed (isCached : Nat → Bool) (m m' : VMManager) (change : Attributes → Attributes)
    (target size : Nat) : Prop where
  range : IsRange target size
  mapped : ∀ v ∈ areasUpTo (findVMA m.vmaMap target) (target + size), v.val.type ≠ .free
  consistent : Consistent isCached m'
  vmaMap : m'.vmaMap = changeBetween change target (target + size) m.vmaMap
  values : valueAt m'.vmaMap = changedOn change target (target + size) (valueAt m.vmaMap)

/-- What the part that `UnmapRange`, `ReprotectRange` and `ChangeMemoryState` share has done
when it returns. -/
theorem changeAreas_changes {m m' : VMManager} {change : Attributes → Attributes}
    {target size : Nat} {r : Except VmError Unit} (hm : Consistent isCached m)
    (hf : IsUpdate change)
    (hch : ∀ v, WellFormed v → v.val.type ≠ .free → WellFormed (v.map change))
    (h : m.changeAreas isCached change target size = some (r, m')) :
    (r ≠ .ok () ∧ m' = m) ∨ (r = .ok () ∧ Changed isCached m m' change target size) := by
  by_cases hr : IsRange target size
  · by_cases hnf : ∀ v ∈ areasUpTo (findVMA m.vmaMap target) (target + size), v.val.type ≠ .free
    · obtain ⟨m'', hok, hmap, hwf, hag, hlock⟩ := changeAreas_ok change hm hr hch hnf
      obtain ⟨rfl, rfl⟩ := Prod.mk.inj (Option.some.inj (h.symm.trans hok))
      have hlt : target < target + size := Nat.lt_add_of_pos_right hr.pos
      obtain ⟨ht, hv, -⟩ := changeBetween_spec hf hm.tiles (Nat.zero_le target) hlt hr.stop_le
      rw [← hmap] at ht hv
      exact Or.inr ⟨rfl, hr, hnf, ⟨ht, hwf, hag, hlock⟩, hmap, hv⟩
    · obtain ⟨rfl, rfl⟩ := Prod.mk.inj (Option.some.inj (h.symm.trans (changeAreas_error hr hnf)))
      exact Or.inl ⟨by simp, rfl⟩
  · -- the assertions of `CarveVMARange` are that the range is one
    have hcarve : carveVMARange m.vmaMap target size = none := by
      simp only [carveVMARange]
      refine if_neg ?_
      rintro ⟨h₁, h₂, h₃, h₄⟩
      exact hr ⟨h₂, h₁, h₄, h₃⟩
    rw [VMManager.changeAreas, hcarve] at h
    simp at h

/-- The memory behind a range of which every area has some. -/
theorem backing_isSome_of_areas {m : VMManager} (hm : Consistent isCached m) {target size a : Nat}
    (hr : IsRange target size)
    (hnf : ∀ v ∈ areasUpTo (findVMA m.vmaMap target) (target + size), v.val.type ≠ .free)
    (h₁ : target ≤ a) (h₂ : a < target + size) : (m.backing a).isSome := by
  have hstop := hr.stop_le
  obtain ⟨v, hv, hlo, hhi, hval⟩ := hm.tiles.exists_mem (Nat.zero_le a) (by omega)
  have hv' := hnf v ((mem_areasUpTo hm.tiles (by omega) v).2 ⟨hv, by omega, by omega⟩)
  rcases (hm.wellFormed v hv).valid with hf | ⟨-, hs⟩
  · rw [hf] at hv'
    exact absurd rfl hv'
  · simp only [VMManager.backing, hval, Option.bind_some, vadd_def, Attributes.shift,
      Option.isSome_map]
    exact hs

/-- What `UnmapRange` has done when it returns. -/
theorem unmapRange_changes {m m' : VMManager} {target size : Nat} {r : Except VmError Unit}
    (hm : Consistent isCached m) (h : m.unmapRange isCached target size = some (r, m')) :
    (r ≠ .ok () ∧ m' = m) ∨
      (r = .ok () ∧ Changed isCached m m' VMManager.unmapAttributes target size) := by
  rw [VMManager.unmapRange, hm.unlocked] at h
  simp only [Bool.false_eq_true, if_false, Option.bind_eq_bind, Option.bind_eq_some_iff] at h
  obtain ⟨⟨r', m''⟩, hch, h⟩ := h
  have hcases := changeAreas_changes hm isUpdate_unmap
    (fun v hv _ => ⟨hv.base, hv.size, Or.inl rfl, by
      simp [Tile.map, VMManager.unmapAttributes, freeAttributes]⟩) hch
  rcases hcases with ⟨hr', rfl⟩ | ⟨rfl, hchanged⟩
  · cases r' with
    | error e =>
      obtain ⟨rfl, rfl⟩ := Prod.mk.inj (Option.some.inj h)
      exact Or.inl ⟨hr', rfl⟩
    | ok => exact absurd rfl hr'
  · have hres : r = .ok () ∧ m'' = m' := by
      simp only at h
      split at h
      · cases h
      · split_ifs at h
        obtain ⟨h₁, h₂⟩ := Prod.mk.inj (Option.some.inj h)
        exact ⟨h₁.symm, h₂⟩
    obtain ⟨rfl, rfl⟩ := hres
    exact Or.inr ⟨rfl, hchanged⟩

/-- The memory behind the addresses after `UnmapRange` has returned. -/
theorem unmapRange_returns {m m' : VMManager} {target size : Nat} {r : Except VmError Unit}
    (hm : Consistent isCached m) (h : m.unmapRange isCached target size = some (r, m')) :
    (r ≠ .ok () ∧ m' = m) ∨
      (r = .ok () ∧ Consistent isCached m' ∧
        (∀ a, target ≤ a → a < target + size → (m.backing a).isSome) ∧
        ∀ a, m'.backing a =
          if target ≤ a ∧ a < target + size then none else m.backing a) := by
  rcases unmapRange_changes hm h with herror | ⟨rfl, hchanged⟩
  · exact Or.inl herror
  · refine Or.inr ⟨rfl, hchanged.consistent,
      fun a => backing_isSome_of_areas hm hchanged.range hchanged.mapped, ?_⟩
    intro a
    rw [VMManager.backing, hchanged.values, changedOn]
    split
    · cases valueAt m.vmaMap a <;> rfl
    · rfl

/-- What `ReprotectRange` has done when it returns. -/
theorem reprotectRange_changes {m m' : VMManager} {target size : Nat} {newPerms : VMAPermission}
    {r : Except VmError Unit} (hm : Consistent isCached m)
    (h : m.reprotectRange isCached target size newPerms = some (r, m')) :
    (r ≠ .ok () ∧ m' = m) ∨
      (r = .ok () ∧ Changed isCached m m' (VMManager.reprotectAttributes newPerms) target size) := by
  rw [VMManager.reprotectRange, hm.unlocked] at h
  simp only [Bool.false_eq_true, if_false] at h
  exact changeAreas_changes hm (isUpdate_reprotect newPerms)
    (fun v hv hv' => hv.restate hv' v.val.meminfoState newPerms) h

/-- What `ChangeMemoryState` has done when it returns. -/
theorem changeMemoryState_changes {m m' : VMManager} {target size : Nat}
    {expectedState newState : MemoryState} {expectedPerms newPerms : VMAPermission}
    {r : Except VmError Unit} (hm : Consistent isCached m)
    (h : m.changeMemoryState isCached target size expectedState expectedPerms newState newPerms =
      some (r, m')) :
    (r ≠ .ok () ∧ m' = m) ∨
      (r = .ok () ∧
        Changed isCached m m' (VMManager.restateAttributes newState newPerms) target size ∧
        ∀ v ∈ areasUpTo (findVMA m.vmaMap target) (target + size),
          v.val.meminfoState = expectedState ∧ v.val.permissions &&& expectedPerms = expectedPerms) := by
  rw [VMManager.changeMemoryState, hm.unlocked] at h
  simp only [Bool.false_eq_true, if_false] at h
  split_ifs at h with hend hany
  · obtain ⟨rfl, rfl⟩ := Prod.mk.inj (Option.some.inj h)
    exact Or.inl ⟨by simp, rfl⟩
  · obtain ⟨rfl, rfl⟩ := Prod.mk.inj (Option.some.inj h)
    exact Or.inl ⟨by simp, rfl⟩
  · refine (changeAreas_changes hm (isUpdate_restate newState newPerms)
      (fun v hv hv' => hv.restate hv' newState newPerms) h).imp_right ?_
    rintro ⟨hok, hchanged⟩
    refine ⟨hok, hchanged, fun v hv => ?_⟩
    by_contra hbad
    have hpos := hchanged.range.pos
    have hstop := hchanged.range.stop_le
    rw [areasChecked_eq hm.tiles (by omega) (lt_of_le_of_lt hstop (by decide))] at hany
    refine hany (List.any_eq_true.2 ⟨v, hv, ?_⟩)
    rw [not_and_or] at hbad
    simpa using hbad

/-- A change of permissions and states leaves the memory where it is. -/
theorem backing_changedOn {change : Attributes → Attributes} {lo stop : Nat} {m m' : VMManager}
    (hv : valueAt m'.vmaMap = changedOn change lo stop (valueAt m.vmaMap))
    (hc : ∀ a, (change a).backingMemory = a.backingMemory) : m'.backing = m.backing := by
  funext a
  rw [VMManager.backing, hv, changedOn, VMManager.backing]
  split
  · cases valueAt m.vmaMap a with
    | none => rfl
    | some attrs => exact hc attrs
  · rfl

/-- The memory behind the addresses after `ReprotectRange` has returned. -/
theorem reprotectRange_returns {m m' : VMManager} {target size : Nat} {newPerms : VMAPermission}
    {r : Except VmError Unit} (hm : Consistent isCached m)
    (h : m.reprotectRange isCached target size newPerms = some (r, m')) :
    Consistent isCached m' ∧ m'.backing = m.backing := by
  rcases reprotectRange_changes hm h with ⟨-, rfl⟩ | ⟨-, hchanged⟩
  · exact ⟨hm, rfl⟩
  · exact ⟨hchanged.consistent, backing_changedOn hchanged.values fun _ => rfl⟩

/-- The memory behind the addresses after `ChangeMemoryState` has returned. -/
theorem changeMemoryState_returns {m m' : VMManager} {target size : Nat}
    {expectedState newState : MemoryState} {expectedPerms newPerms : VMAPermission}
    {r : Except VmError Unit} (hm : Consistent isCached m)
    (h : m.changeMemoryState isCached target size expectedState expectedPerms newState newPerms =
      some (r, m')) :
    Consistent isCached m' ∧ m'.backing = m.backing := by
  rcases changeMemoryState_changes hm h with ⟨-, rfl⟩ | ⟨-, hchanged, -⟩
  · exact ⟨hm, rfl⟩
  · exact ⟨hchanged.consistent, backing_changedOn hchanged.values fun _ => rfl⟩

/-! ## Mapping -/

/-- An empty range cannot be carved out of an area. -/
theorem carveVMA_empty {l : List VirtualMemoryArea} {base : Nat} {it : VMAIter}
    (h : Tiles 0 maxAddress l) (hw : ∀ v ∈ l, WellFormed v) : carveVMA l base 0 ≠ some (.ok it) := by
  intro hc
  by_cases ht : base < maxAddress
  · obtain ⟨before, vma, after, hf, rfl, hb, hs⟩ := findVMA_spec h ht
    have hvma := hw vma (by simp)
    rw [Tile.stop] at hs
    have hne : base - vma.base ≠ vma.size := by omega
    have hsum : add32 (base - vma.base) 0 = base - vma.base :=
      Nat.mod_eq_of_lt ((Nat.sub_le _ _).trans_lt (ht.trans (by decide)))
    simp only [carveVMA, hf, hsum] at hc
    split_ifs at hc
    · cases hc
    · cases hc
    · simp only [splitAtEnd, if_pos hne] at hc
      by_cases h₀ : base - vma.base = 0
      · simp [splitVMA, h₀] at hc
      · rw [splitVMA_eq hvma (by omega) (by omega)] at hc
        simp [VMAIter.prev, splitAtStart, h₀, splitVMA, Tile.left] at hc
  · simp only [carveVMA, findVMA, if_pos (not_lt.1 ht)] at hc
    split_ifs at hc
    simp at hc

/-- What `CarveVMA` finds when it succeeds with an area of the size it was asked for. -/
theorem carveVMA_returns {l rest : List VirtualMemoryArea} {carved : VirtualMemoryArea}
    {base size : Nat} {it : VMAIter} (h : Tiles 0 maxAddress l) (hw : ∀ v ∈ l, WellFormed v)
    (hc : carveVMA l base size = some (.ok it)) (hit : it.after = carved :: rest)
    (hsize : carved.size = size) :
    ∃ before vma after, IsRange base size ∧ findVMA l base = ⟨before, vma :: after⟩ ∧
      l = before.reverse ++ vma :: after ∧ vma.base ≤ base ∧ vma.val.type = .free ∧
      base + size ≤ vma.stop := by
  have hpos : 0 < size := by
    rcases Nat.eq_zero_or_pos size with rfl | hpos
    · exact absurd hc (carveVMA_empty h hw)
    · exact hpos
  have hal : size % citraPageSize = 0 ∧ base % citraPageSize = 0 := by
    by_contra hne
    simp only [carveVMA] at hc
    rw [if_neg hne] at hc
    cases hc
  have ht : base < maxAddress := by
    by_contra hge
    simp only [carveVMA, findVMA, if_pos (not_lt.1 hge), if_pos hal] at hc
    cases hc
  obtain ⟨before, vma, after, hf, hl, hb, hs⟩ := findVMA_spec h ht
  have hbounds := (h.bounds (t := vma) (by rw [hl]; simp)).2.1
  have hwrap : base + size < 2 ^ 32 := by
    have hle := size_le_of_carveVMA hf hc hit
    rw [Tile.stop, maxAddress] at hbounds
    rw [maxAddress] at ht
    omega
  have hok : vma.val.type = .free ∧ base + size ≤ vma.stop := by
    by_contra hne
    have hbad : vma.val.type ≠ .free ∨ vma.stop < base + size := by
      rw [← not_le]
      exact not_and_or.1 hne
    rw [carveVMA_error hal.1 hal.2 hf hb hwrap hbad] at hc
    cases hc
  have hstop := hok.2.trans hbounds
  exact ⟨before, vma, after, ⟨hal.2, hal.1, hpos, hstop⟩, hf, hl, hb, hok.1, hok.2⟩

/-- The values after one area took the place of a range. -/
theorem valueAt_settledMap {l : List VirtualMemoryArea} (h : Tiles 0 maxAddress l)
    {target size : Nat} (hr : IsRange target size) (attrs : Attributes) (a : Nat) :
    valueAt (settledMap target size attrs l) a =
      if target ≤ a ∧ a < target + size then some (attrs.shift (a - target))
      else valueAt l a := by
  have hlt : target < target + size := Nat.lt_add_of_pos_right hr.pos
  have ht := tiles_replaceRange h (Nat.zero_le target) hlt hr.stop_le attrs
  have hrep : (cutAt target l).1.reverse.reverse ++
      ⟨target, size, attrs⟩ :: (cutAt (target + size) l).2 =
      replaceRange target (target + size) attrs l := by simp [replaceRange]
  rw [← hrep] at ht
  rw [settledMap, (Tiles.settle ht).2, hrep,
    valueAt_replaceRange h (Nat.zero_le target) hlt hr.stop_le]
  rfl

/-- `MapBackingMemory` fails before it changes anything. -/
theorem mapBackingMemory_error_keeps {m m' : VMManager} {target size : Nat} {memory : MemoryRef}
    {state : MemoryState} {e : VmError}
    (h : m.mapBackingMemory isCached target memory size state = some (.error e, m')) : m' = m := by
  rw [VMManager.mapBackingMemory] at h
  split_ifs at h
  simp only [Option.bind_eq_bind, Option.bind_eq_some_iff] at h
  obtain ⟨r, -, h⟩ := h
  cases r with
  | error e' => exact (Prod.mk.inj (Option.some.inj h)).2.symm
  | ok it =>
    simp only at h
    split at h
    · cases h
    · split_ifs at h
      simp only [Option.bind_eq_some_iff] at h
      obtain ⟨pt, -, it', -, h⟩ := h
      cases (Prod.mk.inj (Option.some.inj h)).1

theorem carveVMA_of_mapBackingMemory {m m' : VMManager} {target size : Nat} {memory : MemoryRef}
    {state : MemoryState} (hm : Consistent isCached m)
    (h : m.mapBackingMemory isCached target memory size state = some (.ok (), m')) :
    ∃ it carved rest, carveVMA m.vmaMap target size = some (.ok it) ∧ it.after = carved :: rest ∧
      carved.size = size := by
  rw [VMManager.mapBackingMemory, hm.unlocked] at h
  simp only [Bool.false_eq_true, if_false, Option.bind_eq_bind, Option.bind_eq_some_iff] at h
  obtain ⟨r, hc, h⟩ := h
  cases r with
  | error e => simp at h
  | ok it =>
    simp only at h
    split at h
    · cases h
    · rename_i carved rest hit
      split_ifs at h with hsize
      exact ⟨it, carved, rest, hc, hit, not_not.1 hsize⟩

/-- What `MapBackingMemory` has done when it succeeds. -/
theorem mapBackingMemory_settles {m m' : VMManager} {target size : Nat} {memory : MemoryRef}
    {state : MemoryState} (hm : Consistent isCached m)
    (hroom : memory.offset + size ≤ memory.backingMem.size)
    (h : m.mapBackingMemory isCached target memory size state = some (.ok (), m')) :
    IsRange target size ∧ Consistent isCached m' ∧
      m'.vmaMap = settledMap target size (mappedAttributes memory state) m.vmaMap ∧
      ∀ a, target ≤ a → a < target + size → valueAt m.vmaMap a = some freeAttributes := by
  obtain ⟨it, carved, rest, hcarve, hit, hsize⟩ := carveVMA_of_mapBackingMemory hm h
  obtain ⟨before, vma, after, hr, hf, hl, hb, hfree, hfit⟩ :=
    carveVMA_returns hm.tiles hm.wellFormed hcarve hit hsize
  obtain ⟨m'', hstep, hmap, -, hm'⟩ :=
    mapBackingMemory_ok state hm hr hroom hf hl hb hfree hfit
  obtain ⟨-, rfl⟩ := Prod.mk.inj (Option.some.inj (hstep.symm.trans h))
  refine ⟨hr, hm', hmap, fun a h₁ h₂ => ?_⟩
  have hvma : vma ∈ m.vmaMap := by rw [hl]; simp
  rw [hm.tiles.valueAt_of_mem hvma (by omega) (by omega),
    ((hm.wellFormed vma hvma).valid.free_iff).1 hfree, vadd_def, shift_freeAttributes]

/-- The memory behind the addresses after `MapBackingMemory` has succeeded. -/
theorem mapBackingMemory_returns {m m' : VMManager} {target size : Nat} {memory : MemoryRef}
    {state : MemoryState} (hm : Consistent isCached m)
    (hroom : memory.offset + size ≤ memory.backingMem.size)
    (h : m.mapBackingMemory isCached target memory size state = some (.ok (), m')) :
    IsRange target size ∧ Consistent isCached m' ∧
      ∀ a, m'.backing a =
        if target ≤ a ∧ a < target + size then some (memory.shift (a - target))
        else m.backing a := by
  obtain ⟨hr, hm', hmap, -⟩ := mapBackingMemory_settles hm hroom h
  refine ⟨hr, hm', fun a => ?_⟩
  rw [VMManager.backing, hmap, valueAt_settledMap hm.tiles hr]
  split
  · rfl
  · rfl

/-- What `Reprotect` does to the whole area that has an address inside. -/
def Reprotects (isCached : Nat → Bool) (m : VMManager) (target : Nat) (newPerms : VMAPermission)
    (m' : VMManager) : Prop :=
  Consistent isCached m' ∧ ∃ before vma after, m.vmaMap = before.reverse ++ vma :: after ∧
    vma.base ≤ target ∧ target < vma.stop ∧ vma.val.type ≠ .free ∧
    m'.vmaMap = (joinPrev (joinNext (vma.map (VMManager.reprotectAttributes newPerms)) after).1
        before).reverse ++
      (joinNext (vma.map (VMManager.reprotectAttributes newPerms)) after).2 ∧
    valueAt m'.vmaMap = changedOn (VMManager.reprotectAttributes newPerms) vma.base vma.stop
      (valueAt m.vmaMap)

/-- `Reprotect` of an address that is mapped: the whole area that has it inside is changed. -/
theorem reprotect_ok {m : VMManager} {target : Nat} (newPerms : VMAPermission)
    (hm : Consistent isCached m) (ht : target < maxAddress) (hmapped : (m.backing target).isSome) :
    ∃ m', m.reprotect isCached target newPerms = some m' ∧
      Reprotects isCached m target newPerms m' := by
  obtain ⟨before, vma, after, hf, hl, hb, hs⟩ := findVMA_spec hm.tiles ht
  have hvma : vma ∈ m.vmaMap := by rw [hl]; simp
  have htiles := hm.tiles
  have hwf := hm.wellFormed
  have hag := hm.agrees
  have hnf : vma.val.type ≠ .free := by
    intro hfree
    rw [VMManager.backing, htiles.valueAt_of_mem hvma hb hs,
      ((hwf vma hvma).valid.free_iff).1 hfree, vadd_def, shift_freeAttributes] at hmapped
    cases hmapped
  rw [hl] at htiles hwf hag
  obtain ⟨pt, it, hpt, hit, -, hmap, ht', hw', hag', hv⟩ := settle_spec htiles hwf
    ((hwf vma (by simp)).restate hnf vma.val.meminfoState newPerms) hag
  have hch : VMManager.changeVMA isCached (VMManager.reprotectAttributes newPerms) m.pageTable
      ⟨before, vma :: after⟩ = some (pt, it) := by
    simp only [VMManager.changeVMA, Tile.map, VMManager.reprotectAttributes]
    rw [hpt, Option.bind_eq_bind, Option.bind_some, hit]
    rfl
  refine ⟨⟨it.map, pt, false⟩, ?_, ⟨ht', hw', hag', rfl⟩, before, vma, after, hl, hb, hs, hnf, hmap, ?_⟩
  · rw [VMManager.reprotect, if_neg (by rw [hm.unlocked]; simp), hf, hch, ← hm.unlocked]
    rfl
  · obtain ⟨mid, hbefore, hmid, -⟩ := tiles_append.1 htiles
    rw [← hmid] at hbefore
    dsimp only
    rw [hv, hl]
    exact valueAt_map (isUpdate_reprotect newPerms) hbefore

/-- What `Reprotect` has done when it returns. -/
theorem reprotect_changes {m m' : VMManager} {target : Nat} {newPerms : VMAPermission}
    (hm : Consistent isCached m) (ht : target < maxAddress)
    (hmapped : (m.backing target).isSome)
    (h : m.reprotect isCached target newPerms = some m') :
    Reprotects isCached m target newPerms m' := by
  obtain ⟨m'', h', hspec⟩ := reprotect_ok newPerms hm ht hmapped
  obtain rfl := Option.some.inj (h'.symm.trans h)
  exact hspec

/-- The memory behind the addresses after `Reprotect` has returned. -/
theorem reprotect_returns {m m' : VMManager} {target : Nat} {newPerms : VMAPermission}
    (hm : Consistent isCached m) (ht : target < maxAddress)
    (hmapped : (m.backing target).isSome)
    (h : m.reprotect isCached target newPerms = some m') :
    Consistent isCached m' ∧ m'.backing = m.backing := by
  obtain ⟨hm', before, vma, after, -, -, -, -, -, hvalue⟩ := reprotect_changes hm ht hmapped h
  exact ⟨hm', backing_changedOn hvalue fun _ => rfl⟩

/-! ## Blocks -/

/-- The memory behind an address when blocks are laid one behind the other from `target` on. -/
def laid : List (MemoryRef × Nat) → Nat → Nat → Option MemoryRef
  | [], _, _ => none
  | (memory, size) :: blocks, target, a =>
      if target ≤ a ∧ a < target + size then some (memory.shift (a - target))
      else laid blocks (target + size) a

/-- The size of all blocks together. -/
def blocksSize (blocks : List (MemoryRef × Nat)) : Nat := (blocks.map Prod.snd).sum

@[simp] theorem blocksSize_nil : blocksSize [] = 0 := rfl

@[simp] theorem blocksSize_cons (b : MemoryRef × Nat) (blocks : List (MemoryRef × Nat)) :
    blocksSize (b :: blocks) = b.2 + blocksSize blocks := by
  simp [blocksSize]

theorem laid_eq_some {blocks : List (MemoryRef × Nat)} : ∀ {target a : Nat} {r : MemoryRef},
    laid blocks target a = some r → (target ≤ a ∧ a < target + blocksSize blocks) ∧
      ∃ b ∈ blocks, ∃ i < b.2, r = b.1.shift i := by
  induction blocks with
  | nil => intro target a r h; cases h
  | cons b blocks ih =>
    intro target a r h
    obtain ⟨memory, size⟩ := b
    rw [laid] at h
    split_ifs at h with hin
    · obtain rfl := Option.some.inj h
      rw [blocksSize_cons]
      refine ⟨by dsimp only; omega, (memory, size), by simp, a - target, ?_, rfl⟩
      dsimp only
      omega
    · obtain ⟨⟨h₁, h₂⟩, b, hb, hi⟩ := ih h
      rw [blocksSize_cons]
      exact ⟨by dsimp only; omega, b, by simp [hb], hi⟩

/-- Every byte of a block is laid somewhere. -/
theorem exists_laid {blocks : List (MemoryRef × Nat)} {b : MemoryRef × Nat} {i : Nat} :
    ∀ target : Nat, b ∈ blocks → i < b.2 →
    ∃ a, target ≤ a ∧ a < target + blocksSize blocks ∧
      laid blocks target a = some (b.1.shift i) := by
  induction blocks with
  | nil => intro target hb; simp at hb
  | cons c blocks ih =>
    intro target hb hi
    rw [blocksSize_cons]
    rcases List.mem_cons.1 hb with rfl | hb
    · refine ⟨target + i, by omega, by omega, ?_⟩
      rw [laid, if_pos (by omega), Nat.add_sub_cancel_left]
    · obtain ⟨a, h₁, h₂, ha⟩ := ih (target + c.2) hb hi
      refine ⟨a, by omega, by omega, ?_⟩
      rw [laid, if_neg (by omega)]
      exact ha

/-- What the loop over the blocks has done when it returns. -/
theorem mapBlocks_returns {state : MemoryState} {perms : VMAPermission}
    {blocks : List (MemoryRef × Nat)} : ∀ {target : Nat} {m m' : VMManager},
    Consistent isCached m → (∀ b ∈ blocks, b.1.offset + b.2 ≤ b.1.backingMem.size) →
    m.mapBlocks isCached state perms blocks target = some m' →
    Consistent isCached m' ∧ ∀ a, m'.backing a = (laid blocks target a).or (m.backing a) := by
  induction blocks with
  | nil =>
    intro target m m' hm _ h
    obtain rfl := Option.some.inj h
    exact ⟨hm, fun a => rfl⟩
  | cons b blocks ih =>
    obtain ⟨memory, size⟩ := b
    intro target m m' hm hroom h
    simp only [VMManager.mapBlocks, Option.bind_eq_bind, Option.bind_eq_some_iff] at h
    obtain ⟨⟨r, m₁⟩, hmapped, h⟩ := h
    cases r with
    | error e => simp at h
    | ok =>
      obtain ⟨m₂, hreprotect, h⟩ := Option.bind_eq_some_iff.1 h
      obtain ⟨hr, hm₁, hb₁⟩ := mapBackingMemory_returns hm (hroom _ List.mem_cons_self) hmapped
      have hstop := hr.stop_le
      have hpos := hr.pos
      obtain ⟨hm₂, hb₂⟩ := reprotect_returns hm₁ (by omega)
        (by rw [hb₁, if_pos (by omega)]; rfl) hreprotect
      obtain ⟨hm', hb'⟩ := ih hm₂ (fun b hb => hroom b (List.mem_cons_of_mem _ hb)) h
      refine ⟨hm', fun a => ?_⟩
      rw [hb', hb₂, hb₁, laid]
      by_cases hin : target ≤ a ∧ a < target + size
      · have hnone : laid blocks (target + size) a = none := by
          rw [Option.eq_none_iff_forall_ne_some]
          intro r hr
          have := (laid_eq_some hr).1
          omega
        rw [if_pos hin, if_pos hin, hnone, Option.none_or, Option.some_or]
      · rw [if_neg hin, if_neg hin]

/-- `GetBackingBlocksForRange` returns; the blocks it finds make up the range and lie behind
it as they are laid. -/
theorem backingBlocks_spec {m : VMManager} (hm : Consistent isCached m) {stop : Nat}
    (hstop : stop ≤ maxAddress) : ∀ fuel target : Nat, target ≤ stop → stop - target ≤ fuel →
    ∃ r, VMManager.backingBlocks m.vmaMap stop fuel target = some r ∧
      ∀ blocks, r = .ok blocks → target + blocksSize blocks = stop ∧
        (∀ b ∈ blocks, b.1.offset + b.2 ≤ b.1.backingMem.size) ∧
        ∀ a, target ≤ a → a < stop → ∃ memory, m.backing a = some memory ∧
          laid blocks target a = some memory := by
  intro fuel
  induction fuel with
  | zero =>
    intro target hle hfuel
    obtain rfl : target = stop := by omega
    refine ⟨.ok [], by rw [VMManager.backingBlocks, if_pos rfl], ?_⟩
    rintro blocks hb
    obtain rfl := (Except.ok.inj hb)
    exact ⟨by simp, by simp, fun a h₁ h₂ => by omega⟩
  | succ fuel ih =>
    intro target hle hfuel
    by_cases heq : target = stop
    · subst heq
      refine ⟨.ok [], by rw [VMManager.backingBlocks, if_pos rfl], ?_⟩
      rintro blocks hb
      obtain rfl := (Except.ok.inj hb)
      exact ⟨by simp, by simp, fun a h₁ h₂ => by omega⟩
    · obtain ⟨before, vma, after, hf, hl, hb, hs⟩ :=
        findVMA_spec hm.tiles (by omega : target < maxAddress)
      have hvma : vma ∈ m.vmaMap := by rw [hl]; simp
      have hw := hm.wellFormed vma hvma
      rw [VMManager.backingBlocks, if_neg heq]
      simp only [hf]
      rcases hw.valid with hfree | ⟨htype, hsome⟩
      · refine ⟨.error .invalidAddressState, by rw [hfree]; rfl, ?_⟩
        intro blocks h
        cases h
      · obtain ⟨memory, hmem⟩ := Option.isSome_iff_exists.1 hsome
        have hfit := hw.fits memory hmem
        have hlt : target - vma.base < memory.getSize := by
          rw [MemoryRef.getSize]
          rw [Tile.stop] at hs
          omega
        obtain ⟨r, hrec, hspec⟩ := ih (target + (min stop vma.stop - target))
          (by omega) (by omega)
        simp only [htype, ne_eq, not_true_eq_false, if_false, hmem, Option.bind_eq_bind,
          Option.bind_some, MemoryRef.addAssign, if_pos hlt, hrec]
        cases r with
        | error e => exact ⟨.error e, rfl, by simp⟩
        | ok blocks =>
          refine ⟨_, rfl, ?_⟩
          rintro blocks' hblocks
          obtain rfl := Except.ok.inj hblocks
          obtain ⟨hsize, hroom, hlaid⟩ := hspec blocks rfl
          refine ⟨by rw [blocksSize_cons]; dsimp only; omega, ?_, ?_⟩
          · intro b hb'
            rcases List.mem_cons.1 hb' with rfl | hb'
            · simp only [MemoryRef.shift]
              rw [Tile.stop] at hs
              rw [Tile.stop]
              omega
            · exact hroom b hb'
          · intro a h₁ h₂
            by_cases hin : a < vma.stop
            · refine ⟨memory.shift (a - vma.base), ?_, ?_⟩
              · rw [VMManager.backing, hm.tiles.valueAt_of_mem hvma (hb.trans h₁) hin,
                  Option.bind_some, vadd_def, Attributes.shift, hmem]
                rfl
              · rw [laid, if_pos (by omega)]
                simp only [MemoryRef.shift]
                congr 2
                omega
            · rw [laid, if_neg (by omega)]
              exact hlaid a (by omega) h₂

/-- `GetBackingBlocksForRange` succeeds on a range that is mapped. -/
theorem backingBlocks_isOk {m : VMManager} (hm : Consistent isCached m) {stop : Nat}
    (hstop : stop ≤ maxAddress) : ∀ fuel target : Nat, target ≤ stop → stop - target ≤ fuel →
    (∀ a, target ≤ a → a < stop → (m.backing a).isSome) →
    ∃ blocks, VMManager.backingBlocks m.vmaMap stop fuel target = some (.ok blocks) := by
  intro fuel
  induction fuel with
  | zero =>
    intro target hle hfuel _
    exact ⟨[], by rw [VMManager.backingBlocks, if_pos (by omega)]⟩
  | succ fuel ih =>
    intro target hle hfuel hmapped
    by_cases heq : target = stop
    · exact ⟨[], by rw [VMManager.backingBlocks, if_pos heq]⟩
    · obtain ⟨before, vma, after, hf, hl, hb, hs⟩ :=
        findVMA_spec hm.tiles (by omega : target < maxAddress)
      have hvma : vma ∈ m.vmaMap := by rw [hl]; simp
      have hw := hm.wellFormed vma hvma
      rw [VMManager.backingBlocks, if_neg heq]
      simp only [hf]
      rcases hw.valid with hfree | ⟨htype, hsome⟩
      · have hsome := hmapped target le_rfl (by omega)
        rw [VMManager.backing, hm.tiles.valueAt_of_mem hvma hb hs, hfree, vadd_def,
          shift_freeAttributes] at hsome
        cases hsome
      · obtain ⟨memory, hmem⟩ := Option.isSome_iff_exists.1 hsome
        have hfit := hw.fits memory hmem
        have hlt : target - vma.base < memory.getSize := by
          rw [MemoryRef.getSize]
          rw [Tile.stop] at hs
          omega
        obtain ⟨blocks, hrec⟩ := ih (target + (min stop vma.stop - target)) (by omega) (by omega)
          fun a h₁ h₂ => hmapped a (by omega) h₂
        simp only [htype, ne_eq, not_true_eq_false, if_false, hmem, Option.bind_eq_bind,
          Option.bind_some, MemoryRef.addAssign, if_pos hlt, hrec]
        exact ⟨_, rfl⟩

/-! ## Free areas -/

theorem free_vadd (n : ℕ) (a : Attributes) : (n +ᵥ a).type = .free ↔ a.type = .free := Iff.rfl

/-- A range without free areas is changed. -/
theorem FreeMerged.changed {m m' : VMManager} {change : Attributes → Attributes} {target size : Nat}
    (h : FreeMerged m.vmaMap) (hm : Consistent isCached m)
    (hchanged : Changed isCached m m' change target size) : FreeMerged m'.vmaMap := by
  have hpos := hchanged.range.pos
  have hstop := hchanged.range.stop_le
  have hmeets : ∀ v ∈ m.vmaMap, v.base < target + size → target < v.stop → v.val.type ≠ .free := by
    intro v hv h₁ h₂
    exact hchanged.mapped v ((mem_areasUpTo hm.tiles (by omega) v).2 ⟨hv, h₁, h₂⟩)
  rw [hchanged.vmaMap]
  refine coalescedOn_changeBetween free_vadd ?_ ?_ h
  · intro v hv h₁ h₂
    exact hmeets v hv (by omega) h₂
  · -- an area behind the first cut has the value of one of the areas before it
    intro v hv h₁ h₂
    have htiles : Tiles target maxAddress (cutAt target m.vmaMap).2 :=
      (hm.tiles.cutAt (Nat.zero_le _) (by omega)).2
    obtain ⟨hlo, -, hsize⟩ := htiles.bounds hv
    have hvalue : valueAt m.vmaMap v.base = some v.val := by
      rw [← valueAt_cutAt target m.vmaMap, valueAt_append,
        (hm.tiles.cutAt (Nat.zero_le _) (by omega)).1.valueAt_eq_none (Or.inr hlo), Option.none_or,
        htiles.valueAt_of_mem hv le_rfl (by omega), Nat.sub_self, zero_vadd]
    obtain ⟨w, hw, hwlo, hwhi, hval⟩ := hm.tiles.exists_mem (Nat.zero_le v.base) (by omega)
    rw [hvalue] at hval
    obtain hval := Option.some.inj hval
    rw [hval]
    exact hmeets w hw (by omega) (by omega)

/-- An area is put in the place of a range. -/
theorem FreeMerged.settledMap {l : List VirtualMemoryArea} (h : FreeMerged l) (target size : Nat)
    (a : Attributes) : FreeMerged (settledMap target size a l) := by
  refine coalescedOn_settle free_vadd ?_ (coalescedOn_cutAt free_vadd (target + size) h).2
  rw [List.reverse_reverse]
  exact (coalescedOn_cutAt free_vadd target h).1

theorem freeMerged_reset {m : VMManager} (hm : m.isLocked = false) {m' : VMManager}
    (h : m.reset isCached = some m') : Consistent isCached m' ∧ FreeMerged m'.vmaMap := by
  obtain ⟨m'', hreset, hmap, -, hconsistent⟩ := reset_spec isCached hm
  obtain rfl := Option.some.inj (h.symm.trans hreset)
  rw [hmap]
  exact ⟨hconsistent, List.isChain_singleton _⟩

/-- What every operation keeps. -/
theorem FreeMerged.step {m m' : VMManager} {op : Op} {r : Except VmError Unit}
    (h : FreeMerged m.vmaMap) (hm : Consistent isCached m) (hop : op.WellFormed)
    (hstep : m.step isCached op = some (r, m')) : Consistent isCached m' ∧ FreeMerged m'.vmaMap := by
  cases op with
  | reset =>
    obtain ⟨m'', hreset, heq⟩ := Option.map_eq_some_iff.1 hstep
    obtain ⟨-, rfl⟩ := Prod.mk.inj heq
    exact freeMerged_reset hm.unlocked hreset
  | mapBackingMemory target memory size state =>
    cases r with
    | error e =>
      obtain rfl := mapBackingMemory_error_keeps hstep
      exact ⟨hm, h⟩
    | ok =>
      obtain ⟨-, hm', hmap, -⟩ := mapBackingMemory_settles hm hop.2 hstep
      rw [hmap]
      exact ⟨hm', h.settledMap _ _ _⟩
  | unmapRange target size =>
    rcases unmapRange_changes hm hstep with ⟨-, rfl⟩ | ⟨-, hchanged⟩
    · exact ⟨hm, h⟩
    · exact ⟨hchanged.consistent, h.changed hm hchanged⟩
  | reprotectRange target size newPerms =>
    rcases reprotectRange_changes hm hstep with ⟨-, rfl⟩ | ⟨-, hchanged⟩
    · exact ⟨hm, h⟩
    · exact ⟨hchanged.consistent, h.changed hm hchanged⟩
  | changeMemoryState target size expectedState expectedPerms newState newPerms =>
    rcases changeMemoryState_changes hm hstep with ⟨-, rfl⟩ | ⟨-, hchanged, -⟩
    · exact ⟨hm, h⟩
    · exact ⟨hchanged.consistent, h.changed hm hchanged⟩

/-- Whatever operations are made, the manager is consistent and no two neighbouring areas are
free. -/
theorem Reachable.freeMerged {allowed : VMManager → Op → Prop} {m : VMManager}
    (h : Reachable isCached allowed m) : Consistent isCached m ∧ FreeMerged m.vmaMap := by
  induction h with
  | reset hreset => exact freeMerged_reset rfl hreset
  | step _ hop _ hstep ih => exact ih.2.step ih.1 hop hstep

/-- `UnmapRange` of a range that is mapped. -/
theorem unmapRange_ok {m : VMManager} {target size : Nat} (hm : Consistent isCached m)
    (hfree : FreeMerged m.vmaMap) (hr : IsRange target size)
    (hmapped : ∀ v ∈ areasUpTo (findVMA m.vmaMap target) (target + size), v.val.type ≠ .free) :
    ∃ m', m.unmapRange isCached target size = some (.ok (), m') ∧
      Changed isCached m m' VMManager.unmapAttributes target size := by
  have hwf : ∀ v : VirtualMemoryArea, WellFormed v → v.val.type ≠ .free →
      WellFormed (v.map VMManager.unmapAttributes) := fun v hv _ =>
    ⟨hv.base, hv.size, Or.inl rfl, by simp [Tile.map, VMManager.unmapAttributes, freeAttributes]⟩
  obtain ⟨m', hch, -⟩ := changeAreas_ok VMManager.unmapAttributes hm hr hwf hmapped
  obtain ⟨hne, -⟩ | ⟨-, hchanged⟩ := changeAreas_changes hm isUpdate_unmap hwf hch
  · exact absurd rfl hne
  -- the assertion at the end: the range is part of one free area
  obtain ⟨before, vma, after, hf, -, hlo, -, hall⟩ :=
    exists_free_area hchanged.consistent (hfree.changed hm hchanged) hr
  have hroom : target + size ≤ vma.stop := by
    refine (hall.1 fun page hpage => ?_).2
    obtain ⟨v, -, -, -, hvalue⟩ := hm.tiles.exists_mem (Nat.zero_le (page * citraPageSize))
      (hpage.2.trans_le hr.stop_le)
    refine ⟨freeAttributes, ?_, rfl⟩
    rw [VMManager.pageMap, hchanged.values, changedOn, if_pos ⟨hpage.1, hpage.2⟩, hvalue]
    rfl
  refine ⟨m', ?_, hchanged⟩
  rw [VMManager.unmapRange, hm.unlocked, hch]
  simp only [Bool.false_eq_true, if_false, Option.bind_eq_bind, Option.bind_some, hf]
  rw [Tile.stop] at hroom
  exact if_pos (by omega)

/-- `ChangeMemoryState` of a range in the expected state. -/
theorem changeMemoryState_ok {m : VMManager} {target size : Nat} {expectedState newState : MemoryState}
    {expectedPerms newPerms : VMAPermission} (hm : Consistent isCached m) (hr : IsRange target size)
    (hexpected : expectedState ≠ .free)
    (hstate : ∀ v ∈ areasUpTo (findVMA m.vmaMap target) (target + size),
      v.val.meminfoState = expectedState ∧ v.val.permissions &&& expectedPerms = expectedPerms) :
    ∃ m', m.changeMemoryState isCached target size expectedState expectedPerms newState newPerms =
        some (.ok (), m') ∧
      Changed isCached m m' (VMManager.restateAttributes newState newPerms) target size := by
  have hlt : target < maxAddress := by
    have hpos := hr.pos
    have hstop := hr.stop_le
    omega
  have hmapped : ∀ v ∈ areasUpTo (findVMA m.vmaMap target) (target + size), v.val.type ≠ .free := by
    intro v hv htype
    have hvma := ((mem_areasUpTo hm.tiles hlt v).1 hv).1
    refine hexpected ?_
    rw [← (hstate v hv).1, ((hm.wellFormed v hvma).valid.free_iff).1 htype]
    rfl
  obtain ⟨m', hch, -⟩ := changeAreas_ok (VMManager.restateAttributes newState newPerms) hm hr
    (fun v hv hv' => hv.restate hv' newState newPerms) hmapped
  have hrun : m.changeMemoryState isCached target size expectedState expectedPerms newState newPerms =
      some (.ok (), m') := by
    rw [changeMemoryState_eq hm hlt (lt_of_le_of_lt hr.stop_le (by decide)), if_neg ?_, hch]
    intro hany
    obtain ⟨v, hv, hbad⟩ := List.any_eq_true.1 hany
    rw [decide_eq_true_iff] at hbad
    rcases hbad with hbad | hbad
    · exact hbad (hstate v hv).1
    · exact hbad (hstate v hv).2
  obtain ⟨hne, -⟩ | ⟨-, hchanged, -⟩ := changeMemoryState_changes hm hrun
  · exact absurd rfl hne
  · exact ⟨m', hrun, hchanged⟩

/-- `ChangeMemoryState` finds a part of the range that is not as expected. -/
def VMManager.Mismatch (m : VMManager) (target size : Nat) (expectedState : MemoryState)
    (expectedPerms : VMAPermission) : Prop :=
  maxAddress ≤ target ∨ ∃ v ∈ areasChecked (findVMA m.vmaMap target) (add32 target size),
    v.val.meminfoState ≠ expectedState ∨ v.val.permissions &&& expectedPerms ≠ expectedPerms

instance (m : VMManager) (target size : Nat) (expectedState : MemoryState) (expectedPerms : VMAPermission) :
    Decidable (m.Mismatch target size expectedState expectedPerms) :=
  inferInstanceAs (Decidable (_ ∨ _))

/-- `ChangeMemoryState` fails exactly on a range that is not as expected. -/
theorem changeMemoryState_error_iff {m : VMManager} {target size : Nat} {expectedState newState : MemoryState}
    {expectedPerms newPerms : VMAPermission} (hm : Consistent isCached m) (hexpected : expectedState ≠ .free) :
    (∃ e m', m.changeMemoryState isCached target size expectedState expectedPerms newState newPerms =
      some (.error e, m')) ↔ m.Mismatch target size expectedState expectedPerms := by
  rw [VMManager.Mismatch, VMManager.changeMemoryState, hm.unlocked]
  simp only [Bool.false_eq_true, if_false]
  by_cases hlt : target < maxAddress
  · obtain ⟨before, vma, after, hf, -⟩ := findVMA_spec hm.tiles hlt
    rw [if_neg (by simp [hf])]
    split_ifs with hany
    · obtain ⟨v, hv, hbad⟩ := List.any_eq_true.1 hany
      exact iff_of_true ⟨_, _, rfl⟩ (Or.inr ⟨v, hv, of_decide_eq_true hbad⟩)
    · refine iff_of_false ?_ ?_
      · rintro ⟨e, m', h⟩
        rw [VMManager.changeAreas, Option.bind_eq_bind, Option.bind_eq_some_iff] at h
        obtain ⟨r, hcarve, h⟩ := h
        rw [carveVMARange] at hcarve
        simp only at hcarve
        split_ifs at hcarve with hrange hfree
        · -- a free area is not in the expected state
          obtain ⟨v, hv, htype⟩ := List.any_eq_true.1 hfree
          have hvma := ((mem_areasUpTo hm.tiles hlt v).1 hv).1
          rw [areasChecked_eq hm.tiles hlt (lt_of_le_of_lt hrange.2.2.1 (by decide))] at hany
          refine hany (List.any_eq_true.2 ⟨v, hv, decide_eq_true (Or.inl ?_)⟩)
          rw [((hm.wellFormed v hvma).valid.free_iff).1 (of_decide_eq_true htype)]
          exact hexpected.symm
        · simp only [Option.bind_eq_bind, Option.bind_eq_some_iff] at hcarve
          obtain ⟨it, -, it', -, hcarve⟩ := hcarve
          obtain rfl := Option.some.inj hcarve
          obtain ⟨q, -, h⟩ := Option.bind_eq_some_iff.1 h
          cases (Prod.mk.inj (Option.some.inj h)).1
      · rintro (hle | ⟨v, hv, hbad⟩)
        · omega
        · exact hany (List.any_eq_true.2 ⟨v, hv, decide_eq_true hbad⟩)
  · rw [if_pos (by rw [findVMA, if_pos (not_lt.1 hlt)])]
    exact iff_of_true ⟨_, _, rfl⟩ (Or.inl (not_lt.1 hlt))

/-- A range that does not wrap around is not as expected if one of its areas is not. -/
theorem mismatch_iff_areas {m : VMManager} {target size : Nat} {expectedState : MemoryState}
    {expectedPerms : VMAPermission} (hm : Consistent isCached m) (hlt : target < maxAddress)
    (hwrap : target + size < 2 ^ 32) :
    m.Mismatch target size expectedState expectedPerms ↔
      ∃ v ∈ areasUpTo (findVMA m.vmaMap target) (target + size),
        v.val.meminfoState ≠ expectedState ∨ v.val.permissions &&& expectedPerms ≠ expectedPerms := by
  rw [VMManager.Mismatch, areasChecked_eq hm.tiles hlt hwrap, or_iff_right (by omega)]

end AzaharPlus.Kernel
