import AzaharPlus.Kernel.VmAreas

/-!
# The virtual memory manager as a map of pages

What `VMManager` is for: a function from pages to attributes, with five operations
on it.  `Op.Enabled` and `Op.apply` say when an operation of the page map succeeds
and what it does then, without areas, iterators or merging.

The manager refines it (`vmManager_refines_pageMap`) as long as no operation swallows
the end of its range: `ReprotectRange` and `ChangeMemoryState` cut the area in which
the range ends, and when the change lets the area before it take in the part inside
the range, the walk is over before that part is looked at, and the cut stays.
-/

namespace AzaharPlus.Kernel

open Tiling

/-! ## The page map -/

/-- The attributes of each page; a page above the managed space has none. -/
abbrev PageMap := Nat → Option Attributes

/-- The page map of a manager. -/
def VMManager.pageMap (m : VMManager) : PageMap :=
  fun page => valueAt m.vmaMap (page * citraPageSize)

/-- The operations on the address space. -/
inductive Op
  | reset
  | mapBackingMemory (target : Nat) (memory : MemoryRef) (size : Nat) (state : MemoryState)
  | unmapRange (target size : Nat)
  | reprotectRange (target size : Nat) (newPerms : VMAPermission)
  | changeMemoryState (target size : Nat) (expectedState : MemoryState)
      (expectedPerms : VMAPermission) (newState : MemoryState) (newPerms : VMAPermission)

/-- A page-aligned range of positive size inside the managed space. -/
structure IsRange (target size : Nat) : Prop where
  target_aligned : target % citraPageSize = 0
  size_aligned : size % citraPageSize = 0
  pos : 0 < size
  stop_le : target + size ≤ maxAddress

instance (target size : Nat) : Decidable (IsRange target size) :=
  decidable_of_iff (target % citraPageSize = 0 ∧ size % citraPageSize = 0 ∧ 0 < size ∧
      target + size ≤ maxAddress)
    ⟨fun ⟨h₁, h₂, h₃, h₄⟩ => ⟨h₁, h₂, h₃, h₄⟩, fun h => ⟨h.1, h.2, h.3, h.4⟩⟩

/-- The page is one of a range. -/
def InRange (target size page : Nat) : Prop :=
  target ≤ page * citraPageSize ∧ page * citraPageSize < target + size

instance (target size page : Nat) : Decidable (InRange target size page) :=
  inferInstanceAs (Decidable (_ ∧ _))

/-- The map with the pages of a range changed. -/
def PageMap.changeOn (P : PageMap) (target size : Nat) (change : Attributes → Attributes) :
    PageMap :=
  fun page => if InRange target size page then (P page).map change else P page

/-- All pages of a range have a property. -/
def PageMap.All (P : PageMap) (target size : Nat) (p : Attributes → Prop) : Prop :=
  ∀ page, InRange target size page → ∃ a, P page = some a ∧ p a

namespace Op

/-- Whether the operation succeeds. -/
def Enabled (P : PageMap) : Op → Prop
  | reset => True
  | mapBackingMemory target _ size _ => P.All target size (·.type = .free)
  | unmapRange target size => P.All target size (·.type ≠ .free)
  | reprotectRange target size _ => P.All target size (·.type ≠ .free)
  | changeMemoryState target size expectedState expectedPerms _ _ =>
      P.All target size fun a => a.type ≠ .free ∧ a.meminfoState = expectedState ∧
        a.permissions &&& expectedPerms = expectedPerms

/-- What the operation makes of the page map when it succeeds. -/
def apply (P : PageMap) : Op → PageMap
  | reset => fun page => if page * citraPageSize < maxAddress then some freeAttributes else none
  | mapBackingMemory target memory size state => fun page =>
      if InRange target size page then
        some ⟨.backingMemory, permReadWrite, state,
          some (memory.shift (page * citraPageSize - target))⟩
      else P page
  | unmapRange target size => P.changeOn target size fun _ => freeAttributes
  | reprotectRange target size newPerms =>
      P.changeOn target size fun a => { a with permissions := newPerms }
  | changeMemoryState target size _ _ newState newPerms =>
      P.changeOn target size fun a =>
        { a with permissions := newPerms, meminfoState := newState }

/-- The arguments the operations take: page-aligned ranges, and memory for all of them. -/
def WellFormed : Op → Prop
  | reset => True
  | mapBackingMemory target memory size _ =>
      IsRange target size ∧ memory.offset + size ≤ memory.backingMem.size
  | unmapRange target size => IsRange target size
  | reprotectRange target size _ => IsRange target size
  | changeMemoryState target size _ _ _ _ => IsRange target size

instance : (op : Op) → Decidable op.WellFormed
  | reset => instDecidableTrue
  | mapBackingMemory .. => instDecidableAnd
  | unmapRange target size => inferInstanceAs (Decidable (IsRange target size))
  | reprotectRange target size _ => inferInstanceAs (Decidable (IsRange target size))
  | changeMemoryState target size _ _ _ _ => inferInstanceAs (Decidable (IsRange target size))

end Op

section

variable (isCached : Nat → Bool)

/-- The operation on the manager. -/
def VMManager.step (m : VMManager) : Op → Option (Except VmError Unit × VMManager)
  | .reset => (m.reset isCached).map fun m => (.ok (), m)
  | .mapBackingMemory target memory size state =>
      m.mapBackingMemory isCached target memory size state
  | .unmapRange target size => m.unmapRange isCached target size
  | .reprotectRange target size newPerms => m.reprotectRange isCached target size newPerms
  | .changeMemoryState target size expectedState expectedPerms newState newPerms =>
      m.changeMemoryState isCached target size expectedState expectedPerms newState newPerms

/-- The page table agrees with a list of areas: every page has the entry of its attributes. -/
def Agrees (pt : PageTable) (l : List VirtualMemoryArea) : Prop :=
  ∀ page, page * citraPageSize < maxAddress →
    ∃ a, valueAt l (page * citraPageSize) = some a ∧ pt.entry page = entryOf isCached page a

/-- The map is a partition of the managed space into well-formed areas, and the page
table agrees with it. -/
structure Consistent (m : VMManager) : Prop where
  tiles : Tiles 0 maxAddress m.vmaMap
  wellFormed : ∀ v ∈ m.vmaMap, WellFormed v
  agrees : Agrees isCached m.pageTable m.vmaMap
  unlocked : m.isLocked = false

end

/-! ## One change and its merge -/

section

variable {isCached : Nat → Bool}

theorem Agrees.congr {pt : PageTable} {l l' : List VirtualMemoryArea} (h : Agrees isCached pt l)
    (hv : valueAt l' = valueAt l) : Agrees isCached pt l' := by
  intro page hp
  rw [hv]
  exact h page hp

theorem wellFormed_settle {vma : VirtualMemoryArea} {before rest : List VirtualMemoryArea}
    (hw : ∀ v ∈ before.reverse ++ vma :: rest, WellFormed v) :
    ∀ v ∈ (joinPrev (joinNext vma rest).1 before).reverse ++ (joinNext vma rest).2,
      WellFormed v := by
  have hb : ∀ v ∈ before, WellFormed v := fun v hv => hw v (by simp [hv])
  have hn : WellFormed (joinNext vma rest).1 ∧ ∀ v ∈ (joinNext vma rest).2, WellFormed v := by
    have hv := hw vma (by simp)
    have hr : ∀ v ∈ rest, WellFormed v := fun v hv => hw v (by simp [hv])
    rcases joinNext_cases vma rest with ⟨n, rest', rfl, hj, e⟩ | ⟨e, -⟩ <;> rw [e]
    · exact ⟨hv.join (hr n (by simp)) hj, fun v hv => hr v (by simp [hv])⟩
    · exact ⟨hv, hr⟩
  intro v hv
  rcases List.mem_append.1 hv with hv | hv
  · rw [List.mem_reverse] at hv
    rcases joinPrev_cases (joinNext vma rest).1 before with ⟨p, before', rfl, hj, e⟩ | ⟨e, -⟩ <;>
      rw [e] at hv <;> rcases List.mem_cons.1 hv with rfl | hv
    · exact (hb p (by simp)).join hn.1 hj
    · exact hb v (by simp [hv])
    · exact hn.1
    · exact hb v hv
  · exact hn.2 v hv

/-- An area gets new attributes, the page table follows, and the area is merged with its
neighbours. -/
theorem settle_spec {pt : PageTable} {vma : VirtualMemoryArea}
    {before rest : List VirtualMemoryArea} {a : Attributes}
    (h : Tiles 0 maxAddress (before.reverse ++ vma :: rest))
    (hw : ∀ v ∈ before.reverse ++ vma :: rest, WellFormed v)
    (ha : WellFormed { vma with val := a })
    (hag : Agrees isCached pt (before.reverse ++ vma :: rest)) :
    let j := joinNext { vma with val := a } rest
    ∃ pt' it, updatePageTableForVMA isCached pt { vma with val := a } = some pt' ∧
      mergeAdjacent ⟨before, { vma with val := a } :: rest⟩ = some it ∧
      it.next = ⟨joinPrev j.1 before, j.2⟩ ∧ it.map = (joinPrev j.1 before).reverse ++ j.2 ∧
      Tiles 0 maxAddress it.map ∧ (∀ v ∈ it.map, WellFormed v) ∧ Agrees isCached pt' it.map ∧
      valueAt it.map = valueAt (before.reverse ++ { vma with val := a } :: rest) := by
  intro j
  have h' : Tiles 0 maxAddress (before.reverse ++ { vma with val := a } :: rest) := by
    obtain ⟨mid, h₁, h₂⟩ := tiles_append.1 h
    exact tiles_append.2 ⟨mid, h₁, h₂⟩
  have hw' : ∀ v ∈ before.reverse ++ { vma with val := a } :: rest, WellFormed v := by
    intro v hv
    rcases List.mem_append.1 hv with hv | hv
    · exact hw v (List.mem_append_left _ hv)
    · rcases List.mem_cons.1 hv with rfl | hv
      · exact ha
      · exact hw v (by simp [hv])
  obtain ⟨it, hit, hnext, hmap⟩ := mergeAdjacent_spec h' fun v hv => (hw' v hv).valid
  obtain ⟨ht, hv⟩ := Tiles.settle h'
  have hmap' : it.map = (joinPrev j.1 before).reverse ++ j.2 := by
    rw [hmap, hnext]
    rfl
  obtain ⟨pt', hpt', hentry⟩ := updatePageTableForVMA_spec isCached pt ha
    ((h.bounds (t := vma) (by simp)).2.1)
  refine ⟨pt', it, hpt', hit, hnext, hmap', ?_, ?_, ?_, ?_⟩
  · rw [hmap']
    exact ht
  · rw [hmap']
    exact wellFormed_settle hw'
  · rw [hmap']
    refine Agrees.congr ?_ hv
    intro page hp
    obtain ⟨mid, h₁, hmid, -⟩ := tiles_append.1 h
    rw [← hmid] at h₁
    rw [hentry page, valueAt_set h₁]
    by_cases hin : vma.base ≤ page * citraPageSize ∧ page * citraPageSize < vma.stop
    · exact ⟨_, if_pos hin, if_pos hin⟩
    · obtain ⟨a', hval, hpage⟩ := hag page hp
      exact ⟨a', by rw [if_neg hin, hval], by rw [← hpage]; exact if_neg hin⟩
  · rw [hmap']
    exact hv

/-! ## The loop over a range -/

/-- The loop computes `changeRange`, and the page table follows it. -/
theorem changeLoop_spec {change : Attributes → Attributes} {stop : Nat} : ∀ (fuel : Nat)
    {pt : PageTable} {before after : List VirtualMemoryArea}, after.length ≤ fuel →
    Tiles 0 maxAddress (before.reverse ++ after) →
    (∀ v ∈ before.reverse ++ after, WellFormed v) →
    (∀ v ∈ after, v.base < stop → WellFormed (v.map change)) →
    Agrees isCached pt (before.reverse ++ after) →
    ∃ pt' it, VMManager.changeLoop isCached change stop fuel pt ⟨before, after⟩ = some (pt', it) ∧
      it.map = changeRange change stop before after ∧ (∀ v ∈ it.map, WellFormed v) ∧
      Agrees isCached pt' it.map := by
  intro fuel
  induction fuel with
  | zero =>
    intro pt before after hlen _ hw _ hag
    obtain rfl := List.eq_nil_of_length_eq_zero (Nat.le_zero.1 hlen)
    exact ⟨pt, ⟨before, []⟩, rfl, by simp [changeRange, VMAIter.map], hw, hag⟩
  | succ fuel ih =>
    intro pt before after hlen ht hw hch hag
    cases after with
    | nil => exact ⟨pt, ⟨before, []⟩, rfl, by simp [changeRange, VMAIter.map], hw, hag⟩
    | cons vma rest =>
      by_cases hlt : vma.base < stop
      · obtain ⟨pt', it, hpt', hit, hnext, hmap, ht', hw', hag', -⟩ :=
          settle_spec ht hw (hch vma (by simp) hlt) hag
        have hstep : VMManager.changeVMA isCached change pt ⟨before, vma :: rest⟩ =
            some (pt', it) := by
          simp only [VMManager.changeVMA]
          rw [Tile.map, hpt', Option.bind_eq_bind, Option.bind_some, hit]
          rfl
        have hrest : ∀ v ∈ (joinNext (vma.map change) rest).2, v ∈ rest := by
          rcases joinNext_cases (vma.map change) rest with ⟨n, rest', rfl, -, e⟩ | ⟨e, -⟩ <;>
            rw [e]
          · exact fun v hv => List.mem_cons_of_mem n hv
          · exact fun v hv => hv
        have hlen' : (joinNext (vma.map change) rest).2.length ≤ fuel := by
          have := length_joinNext_le (vma.map change) rest
          simp only [List.length_cons] at hlen
          omega
        rw [hmap] at ht' hw' hag'
        obtain ⟨pt'', it', hloop, hmap', hrest'⟩ := ih hlen' ht' hw'
          (fun v hv hb => hch v (List.mem_cons_of_mem vma (hrest v hv)) hb) hag'
        refine ⟨pt'', it', ?_, ?_, hrest'⟩
        · simp only [VMManager.changeLoop, if_pos hlt]
          rw [hstep, Option.bind_eq_bind, Option.bind_some]
          simp only [hnext]
          exact hloop
        · rw [hmap', changeRange_cons_of_lt hlt]
          rfl
      · refine ⟨pt, ⟨before, vma :: rest⟩, ?_, ?_, hw, hag⟩
        · simp only [VMManager.changeLoop, if_neg hlt]
        · rw [changeRange, if_neg hlt]
          rfl

/-! ## Areas and pages -/

/-- What holds of the areas that meet a range is what holds of its pages. -/
theorem all_iff_areas {l : List VirtualMemoryArea} {target size : Nat}
    (h : Tiles 0 maxAddress l) (hw : ∀ v ∈ l, WellFormed v) (hr : IsRange target size)
    {p : Attributes → Prop} (hp : ∀ a n, p (Attributes.shift a n) ↔ p a) :
    PageMap.All (fun page => valueAt l (page * citraPageSize)) target size p ↔
      ∀ v ∈ areasUpTo (findVMA l target) (target + size), p v.val := by
  have hta := hr.target_aligned
  have hsz := hr.size_aligned
  have hpos := hr.pos
  have hend := hr.stop_le
  have ht : target < maxAddress := by omega
  constructor
  · intro hall v hv
    obtain ⟨hv, hlo, hhi⟩ := (mem_areasUpTo h ht v).1 hv
    have hb := (hw v hv).base
    have hvpos := (h.bounds hv).2.2
    rw [Tile.stop] at hhi
    -- the first page that the area and the range share
    have hpage : max target v.base / citraPageSize * citraPageSize = max target v.base := by
      simp only [citraPageSize] at *
      omega
    obtain ⟨a, ha, hpa⟩ := hall (max target v.base / citraPageSize) (by
      rw [InRange, hpage]
      omega)
    beta_reduce at ha
    rw [hpage, h.valueAt_of_mem hv (by omega) (by rw [Tile.stop]; omega)] at ha
    obtain rfl := Option.some.inj ha
    exact (hp _ _).1 hpa
  · rintro hall page ⟨h₁, h₂⟩
    obtain ⟨v, hv, hlo, hhi, hval⟩ := h.exists_mem (Nat.zero_le (page * citraPageSize)) (by omega)
    refine ⟨_, hval, (hp _ _).2 (hall v ((mem_areasUpTo h ht v).2 ⟨hv, ?_, ?_⟩))⟩ <;> omega

/-- The part `UnmapRange`, `ReprotectRange` and `ChangeMemoryState` share, on a range
without free areas. -/
theorem changeAreas_ok {m : VMManager} (change : Attributes → Attributes) {target size : Nat}
    (hm : Consistent isCached m) (hr : IsRange target size)
    (hch : ∀ v, WellFormed v → v.val.type ≠ .free → WellFormed (v.map change))
    (hnf : ∀ v ∈ areasUpTo (findVMA m.vmaMap target) (target + size), v.val.type ≠ .free) :
    ∃ m', m.changeAreas isCached change target size = some (.ok (), m') ∧
      m'.vmaMap = changeBetween change target (target + size) m.vmaMap ∧
      (∀ v ∈ m'.vmaMap, WellFormed v) ∧ Agrees isCached m'.pageTable m'.vmaMap ∧
      m'.isLocked = false := by
  have hl := hm.tiles
  have hw := hm.wellFormed
  obtain ⟨h₁, h₂⟩ := hl.cutAt (Nat.zero_le target) (by have := hr.stop_le; omega)
  obtain ⟨h₃, h₄⟩ := h₂.cutAt (Nat.le_add_right target size) hr.stop_le
  have hsa : (target + size) % citraPageSize = 0 := by
    have := hr.target_aligned
    have := hr.size_aligned
    simp only [citraPageSize] at *
    omega
  obtain ⟨hw₁, hw₂⟩ := wellFormed_cutAt hr.target_aligned hw
  obtain ⟨hw₃, hw₄⟩ := wellFormed_cutAt hsa hw₂
  have ht : Tiles 0 maxAddress ((cutAt target m.vmaMap).1.reverse.reverse ++
      ((cutAt (target + size) (cutAt target m.vmaMap).2).1 ++
        (cutAt (target + size) (cutAt target m.vmaMap).2).2)) := by
    rw [List.reverse_reverse]
    exact tiles_append.2 ⟨target, h₁, tiles_append.2 ⟨_, h₃, h₄⟩⟩
  have hv : valueAt ((cutAt target m.vmaMap).1.reverse.reverse ++
      ((cutAt (target + size) (cutAt target m.vmaMap).2).1 ++
        (cutAt (target + size) (cutAt target m.vmaMap).2).2)) = valueAt m.vmaMap := by
    rw [List.reverse_reverse, valueAt_append_congr (valueAt_cutAt _ _), valueAt_cutAt]
  -- the areas of the range are not free after the cuts either
  have hnf' : ∀ v ∈ (cutAt (target + size) (cutAt target m.vmaMap).2).1, v.val.type ≠ .free := by
    intro v hv'
    obtain ⟨hb₁, hb₂, hvpos⟩ := h₃.bounds hv'
    have hvb := (hw₃ v hv').base
    rw [Tile.stop] at hb₂
    have hpage : v.base / citraPageSize * citraPageSize = v.base := by
      simp only [citraPageSize] at *
      omega
    obtain ⟨a, ha, hpa⟩ := (all_iff_areas (p := (·.type ≠ .free)) hl hw hr (fun _ _ => Iff.rfl)).2
      hnf (v.base / citraPageSize) (by rw [InRange, hpage]; omega)
    beta_reduce at ha
    rw [hpage, ← hv, ht.valueAt_of_mem (t := v) (by simp [hv']) le_rfl (by rw [Tile.stop]; omega),
      Nat.sub_self, zero_vadd] at ha
    obtain rfl := Option.some.inj ha
    exact hpa
  have hwcut : ∀ v ∈ (cutAt target m.vmaMap).1.reverse.reverse ++
      ((cutAt (target + size) (cutAt target m.vmaMap).2).1 ++
        (cutAt (target + size) (cutAt target m.vmaMap).2).2), WellFormed v := by
    intro v hv'
    rw [List.reverse_reverse] at hv'
    rcases List.mem_append.1 hv' with hv' | hv'
    · exact hw₁ v hv'
    · exact (List.mem_append.1 hv').elim (hw₃ v) (hw₄ v)
  have hchcut : ∀ v ∈ (cutAt (target + size) (cutAt target m.vmaMap).2).1 ++
      (cutAt (target + size) (cutAt target m.vmaMap).2).2, v.base < target + size →
      WellFormed (v.map change) := by
    intro v hv' hb
    rcases List.mem_append.1 hv' with hv' | hv'
    · exact hch v (hw₃ v hv') (hnf' v hv')
    · have := (h₄.bounds hv').1
      omega
  obtain ⟨pt', it, hloop, hmap, hwf, hag⟩ :=
    changeLoop_spec _ le_rfl ht hwcut hchcut (hm.agrees.congr hv)
  refine ⟨{ m with vmaMap := it.map, pageTable := pt' }, ?_, hmap, hwf, hag, hm.unlocked⟩
  have hcarve := carveVMARange_ok hl hw hr.size_aligned hr.target_aligned hr.stop_le hr.pos
    (by push Not; exact hnf)
  rw [VMManager.changeAreas, hcarve, Option.bind_eq_bind, Option.bind_some]
  simp only [hloop]
  rfl

theorem changeAreas_error {m : VMManager} {change : Attributes → Attributes} {target size : Nat}
    (hr : IsRange target size)
    (hf : ¬ ∀ v ∈ areasUpTo (findVMA m.vmaMap target) (target + size), v.val.type ≠ .free) :
    m.changeAreas isCached change target size = some (.error .invalidAddressState, m) := by
  have hf' : ∃ v ∈ areasUpTo (findVMA m.vmaMap target) (target + size), v.val.type = .free := by
    push Not at hf
    exact hf
  rw [VMManager.changeAreas, carveVMARange_error hr.size_aligned hr.target_aligned hr.stop_le
    hr.pos hf']
  rfl

/-! ## Refinement, one operation at a time -/

/-- The operation succeeds and leaves an area cut at the end of its range. -/
def Op.Swallows (m : VMManager) : Op → Prop
  | .reprotectRange target size newPerms =>
      (Op.reprotectRange target size newPerms).Enabled m.pageMap ∧
        EndSwallowed (VMManager.reprotectAttributes newPerms) target (target + size) m.vmaMap
  | .changeMemoryState target size expectedState expectedPerms newState newPerms =>
      (Op.changeMemoryState target size expectedState expectedPerms newState newPerms).Enabled
          m.pageMap ∧
        EndSwallowed (VMManager.restateAttributes newState newPerms) target (target + size)
          m.vmaMap
  | _ => False

/-- The operation ends without a failed assertion, succeeds exactly when it does on the page
map, and does then what it does there; if it fails it changes nothing. -/
structure Refines (isCached : Nat → Bool) (m : VMManager) (op : Op)
    (r : Except VmError Unit) (m' : VMManager) : Prop where
  runs : m.step isCached op = some (r, m')
  succeeds : r = .ok () ↔ op.Enabled m.pageMap
  changes : r = .ok () → m'.pageMap = op.apply m.pageMap
  keeps : r ≠ .ok () → m'.pageMap = m.pageMap
  consistent : Consistent isCached m'
  coalesced : Coalesced m'.vmaMap ↔ ¬ op.Swallows m

/-- No two neighbouring areas are free. -/
def FreeMerged (l : List VirtualMemoryArea) : Prop := CoalescedOn (fun a => a.type = .free) l

/-- A range of free pages lies in one area. -/
theorem exists_free_area {m : VMManager} {target size : Nat} (hm : Consistent isCached m)
    (hc : FreeMerged m.vmaMap) (hr : IsRange target size) :
    ∃ before vma after, findVMA m.vmaMap target = ⟨before, vma :: after⟩ ∧
      m.vmaMap = before.reverse ++ vma :: after ∧ vma.base ≤ target ∧ target < vma.stop ∧
      (m.pageMap.All target size (·.type = .free) ↔
        vma.val.type = .free ∧ target + size ≤ vma.stop) := by
  have hend := hr.stop_le
  have hpos := hr.pos
  obtain ⟨before, vma, after, hf, hl, hb, hs⟩ :=
    findVMA_spec hm.tiles (by omega : target < maxAddress)
  refine ⟨before, vma, after, hf, hl, hb, hs, ?_⟩
  have hw := hm.wellFormed
  have ht := hm.tiles
  have hmem : ∀ v, v ∈ areasUpTo (findVMA m.vmaMap target) (target + size) ↔ _ :=
    mem_areasUpTo ht (by omega)
  have hvma : vma ∈ m.vmaMap := by rw [hl]; simp
  constructor
  · intro hall
    replace hall := (all_iff_areas ht hw hr (fun _ _ => Iff.rfl)).1 hall
    have hfree := hall vma ((hmem vma).2 ⟨hvma, by omega, hs⟩)
    refine ⟨hfree, ?_⟩
    by_contra hlt
    -- the next area would be free as well, and so carry on from this one
    rw [hl] at ht hc
    obtain ⟨mid, -, hmid⟩ := tiles_append.1 ht
    cases after with
    | nil =>
      obtain ⟨rfl, -, hstop⟩ := hmid
      rw [Tile.stop] at hlt
      rw [tiles_nil] at hstop
      omega
    | cons n after =>
      obtain ⟨rfl, -, hnb, hnpos, -⟩ := hmid
      have hn : n ∈ m.vmaMap := by rw [hl]; simp
      have hnfree := hall n ((hmem n).2 ⟨hn, by rw [Tile.stop] at hlt; omega,
        by rw [Tile.stop] at *; omega⟩)
      have hj : Joins vma n := by
        unfold Joins
        rw [((hw vma hvma).valid.free_iff).1 hfree, ((hw n hn).valid.free_iff).1 hnfree]
        rfl
      exact (List.isChain_append_cons_cons.1 hc).2.1 hfree hj
  · rintro ⟨hfree, hfit⟩ page ⟨hlo, hhi⟩
    exact ⟨_, ht.valueAt_of_mem hvma (by omega) (by omega), hfree⟩

/-- A failed operation. -/
theorem refines_error {m : VMManager} {op : Op} {e : VmError} (hm : Consistent isCached m)
    (hc : Coalesced m.vmaMap) (hstep : m.step isCached op = some (.error e, m))
    (hen : ¬ op.Enabled m.pageMap) (hsw : ¬ op.Swallows m) :
    Refines isCached m op (.error e) m where
  runs := hstep
  succeeds := iff_of_false (by simp) hen
  changes := by simp
  keeps := fun _ => rfl
  consistent := hm
  coalesced := iff_of_true hc hsw

/-- `Reset` leaves one free area. -/
theorem reset_spec (isCached : Nat → Bool) {m : VMManager} (hm : m.isLocked = false) :
    ∃ m', m.reset isCached = some m' ∧ m'.vmaMap = [⟨0, maxAddress, freeAttributes⟩] ∧
      m'.pageMap = Op.reset.apply m.pageMap ∧ Consistent isCached m' := by
  have hw : WellFormed (⟨0, maxAddress, freeAttributes⟩ : VirtualMemoryArea) :=
    ⟨by decide, by decide, Or.inl rfl, by simp [freeAttributes]⟩
  obtain ⟨pt, hpt, hentry⟩ := updatePageTableForVMA_spec isCached PageTable.clear hw
    (by simp [Tile.stop])
  have hval : ∀ a, valueAt [(⟨0, maxAddress, freeAttributes⟩ : VirtualMemoryArea)] a =
      if a < maxAddress then some freeAttributes else none := by
    intro a
    by_cases ha : a < maxAddress
    · rw [if_pos ha, valueAt_cons_pos (Nat.zero_le a) (by simpa using ha)]
      rfl
    · rw [if_neg ha, valueAt_cons_neg (by simpa using ha)]
      rfl
  refine ⟨⟨[⟨0, maxAddress, freeAttributes⟩], pt, false⟩, ?_, rfl, ?_, ?_, ?_, ?_, rfl⟩
  · simp [VMManager.reset, hm, hpt]
  · funext page
    exact hval _
  · exact ⟨rfl, by decide, by simp⟩
  · simpa using hw
  · intro page hp
    refine ⟨freeAttributes, by rw [hval, if_pos hp], ?_⟩
    rw [hentry page, if_pos (by simpa [Tile.stop] using hp)]
    rfl

theorem reset_refines {m : VMManager} (hm : Consistent isCached m) :
    ∃ r m', Refines isCached m .reset r m' := by
  obtain ⟨m', hreset, hmap, hpage, hm'⟩ := reset_spec isCached hm.unlocked
  refine ⟨.ok (), m', ?_, iff_of_true rfl trivial, fun _ => hpage, by simp, hm', ?_⟩
  · rw [VMManager.step, hreset]
    rfl
  · rw [hmap]
    exact iff_of_true (List.isChain_singleton _) id

/-- The attributes `MapBackingMemory` gives an area. -/
def mappedAttributes (memory : MemoryRef) (state : MemoryState) : Attributes :=
  ⟨.backingMemory, permReadWrite, state, some memory⟩

/-- The map after one area took the place of a range, and was merged with its neighbours. -/
def settledMap (target size : Nat) (a : Attributes) (l : List VirtualMemoryArea) :
    List VirtualMemoryArea :=
  let j := joinNext ⟨target, size, a⟩ (cutAt (target + size) l).2
  (joinPrev j.1 (cutAt target l).1.reverse).reverse ++ j.2

/-- `MapBackingMemory` inside a free area. -/
theorem mapBackingMemory_ok {m : VMManager} {target size : Nat} {memory : MemoryRef}
    (state : MemoryState) {before after : List VirtualMemoryArea} {vma : VirtualMemoryArea}
    (hm : Consistent isCached m) (hr : IsRange target size)
    (hroom : memory.offset + size ≤ memory.backingMem.size)
    (hf : findVMA m.vmaMap target = ⟨before, vma :: after⟩)
    (hl : m.vmaMap = before.reverse ++ vma :: after) (hb : vma.base ≤ target)
    (hfree : vma.val.type = .free) (hfit : target + size ≤ vma.stop) :
    ∃ m', m.step isCached (.mapBackingMemory target memory size state) = some (.ok (), m') ∧
      m'.vmaMap = settledMap target size (mappedAttributes memory state) m.vmaMap ∧
      m'.pageMap = (Op.mapBackingMemory target memory size state).apply m.pageMap ∧
      Consistent isCached m' := by
  have hpos := hr.pos
  have hvma : vma ∈ m.vmaMap := by rw [hl]; simp
  have hval := (hm.wellFormed vma hvma).valid.free_iff.1 hfree
  have hlt : target < target + size := by omega
  have hstop := hr.stop_le
  have hta := hr.target_aligned
  have hsz := hr.size_aligned
  have hsa : (target + size) % citraPageSize = 0 := by
    simp only [citraPageSize] at *
    omega
  have hcarve : carveVMA m.vmaMap target size = some (.ok ⟨(cutAt target m.vmaMap).1.reverse,
      ⟨target, size, freeAttributes⟩ :: (cutAt (target + size) m.vmaMap).2⟩) := by
    have ht := hm.tiles
    have hw := hm.wellFormed vma hvma
    rw [hl] at ht hf ⊢
    exact carveVMA_ok ht hw hsz hta hpos hf hb hfree hfit (hstop.trans_lt (by decide))
  -- the carved map, with any attributes for the carved area
  have hrep : ∀ a, (cutAt target m.vmaMap).1.reverse.reverse ++
      ⟨target, size, a⟩ :: (cutAt (target + size) m.vmaMap).2 =
      replaceRange target (target + size) a m.vmaMap := by simp [replaceRange]
  have hw₁ := (wellFormed_cutAt hta hm.wellFormed).1
  have hw₂ := (wellFormed_cutAt hsa hm.wellFormed).2
  have hwf : ∀ v ∈ (cutAt target m.vmaMap).1.reverse.reverse ++
      ⟨target, size, freeAttributes⟩ :: (cutAt (target + size) m.vmaMap).2, WellFormed v := by
    intro v hv
    rw [List.reverse_reverse, List.mem_append, List.mem_cons] at hv
    rcases hv with hv | rfl | hv
    · exact hw₁ v hv
    · exact ⟨hta, hsz, Or.inl rfl, by simp [freeAttributes]⟩
    · exact hw₂ v hv
  have ht := tiles_replaceRange hm.tiles (Nat.zero_le target) hlt hstop
  have hvalue := valueAt_replaceRange hm.tiles (Nat.zero_le target) hlt hstop
  have hag : Agrees isCached m.pageTable (replaceRange target (target + size) freeAttributes
      m.vmaMap) := by
    refine hm.agrees.congr ?_
    funext a
    rw [hvalue]
    split
    · rw [hm.tiles.valueAt_of_mem hvma (by omega) (by omega), hval]
      rfl
    · rfl
  obtain ⟨pt, it, hpt, hit, -, hmap, htiles, hwf', hag', hv⟩ := settle_spec
    (a := mappedAttributes memory state) (by rw [hrep]; exact ht freeAttributes) hwf
    ⟨hta, hsz, Or.inr ⟨rfl, rfl⟩, by simpa [mappedAttributes] using hroom⟩
    (by rw [hrep]; exact hag)
  refine ⟨{ m with vmaMap := it.map, pageTable := pt }, ?_, hmap, ?_,
    htiles, hwf', hag', hm.unlocked⟩
  · simp only [VMManager.step, VMManager.mapBackingMemory, hm.unlocked, Bool.false_eq_true,
      if_false, hcarve, Option.bind_eq_bind, Option.bind_some]
    rw [mappedAttributes] at hpt hit
    simp [hpt, hit]
  · funext page
    rw [VMManager.pageMap, hv, hrep, hvalue]
    rfl

theorem mapBackingMemory_refines {m : VMManager} {target size : Nat} {memory : MemoryRef}
    {state : MemoryState} (hm : Consistent isCached m) (hc : Coalesced m.vmaMap)
    (hr : IsRange target size) (hroom : memory.offset + size ≤ memory.backingMem.size) :
    ∃ r m', Refines isCached m (.mapBackingMemory target memory size state) r m' := by
  obtain ⟨before, vma, after, hf, hl, hb, hs, hall⟩ := exists_free_area hm (hc.on _) hr
  by_cases hok : vma.val.type = .free ∧ target + size ≤ vma.stop
  · obtain ⟨m', hstep, hmap, hpage, hm'⟩ :=
      mapBackingMemory_ok state hm hr hroom hf hl hb hok.1 hok.2
    refine ⟨.ok (), m', hstep, iff_of_true rfl (hall.2 hok), fun _ => hpage, by simp, hm',
      iff_of_true ?_ id⟩
    rw [hmap]
    exact coalesced_settle (by rw [List.reverse_reverse]; exact (coalesced_cutAt target hc).1)
      (coalesced_cutAt _ hc).2
  · refine ⟨_, m, refines_error hm hc (e := .invalidAddressState) ?_ (fun h => hok (hall.1 h)) id⟩
    have hbad : vma.val.type ≠ .free ∨ vma.stop < target + size := by
      by_cases ht : vma.val.type = .free
      · exact Or.inr (not_le.1 fun h => hok ⟨ht, h⟩)
      · exact Or.inl ht
    simp only [VMManager.step, VMManager.mapBackingMemory, hm.unlocked, Bool.false_eq_true,
      if_false, carveVMA_error hr.size_aligned hr.target_aligned hf hb
        (hr.stop_le.trans_lt (by decide)) hbad]
    rfl

theorem isUpdate_unmap : IsUpdate VMManager.unmapAttributes := ⟨fun _ _ => rfl, fun _ => rfl⟩

theorem isUpdate_reprotect (p : VMAPermission) : IsUpdate (VMManager.reprotectAttributes p) :=
  ⟨fun _ _ => rfl, fun _ => rfl⟩

theorem isUpdate_restate (s : MemoryState) (p : VMAPermission) :
    IsUpdate (VMManager.restateAttributes s p) := ⟨fun _ _ => rfl, fun _ => rfl⟩

/-- A mapped area stays well-formed when only its permissions and its state change. -/
theorem WellFormed.restate {v : VirtualMemoryArea} (h : WellFormed v) (hv : v.val.type ≠ .free)
    (s : MemoryState) (p : VMAPermission) :
    WellFormed (v.map fun a => { a with permissions := p, meminfoState := s }) where
  base := h.base
  size := h.size
  valid := by
    rcases h.valid with hf | h'
    · rw [hf] at hv
      exact absurd rfl hv
    · exact Or.inr h'
  fits := h.fits

/-- What the change of a range means for the page map. -/
theorem changeBetween_refines {m m' : VMManager} {change : Attributes → Attributes}
    {target size : Nat} (hf : IsUpdate change) (hm : Consistent isCached m)
    (hc : Coalesced m.vmaMap) (hr : IsRange target size)
    (hmap : m'.vmaMap = changeBetween change target (target + size) m.vmaMap) :
    Tiles 0 maxAddress m'.vmaMap ∧ m'.pageMap = m.pageMap.changeOn target size change ∧
      (Coalesced m'.vmaMap ↔ ¬ EndSwallowed change target (target + size) m.vmaMap) := by
  have hlt : target < target + size := by
    have := hr.pos
    omega
  obtain ⟨ht, hv, hco⟩ := changeBetween_spec hf hm.tiles (Nat.zero_le target) hlt hr.stop_le
  rw [hmap]
  refine ⟨ht, ?_, hco hc⟩
  funext page
  rw [VMManager.pageMap, hmap, hv]
  rfl

theorem unmapRange_refines {m : VMManager} {target size : Nat} (hm : Consistent isCached m)
    (hc : Coalesced m.vmaMap) (hr : IsRange target size) :
    ∃ r m', Refines isCached m (.unmapRange target size) r m' := by
  have hareas : m.pageMap.All target size (·.type ≠ .free) ↔
      ∀ v ∈ areasUpTo (findVMA m.vmaMap target) (target + size), v.val.type ≠ .free :=
    all_iff_areas hm.tiles hm.wellFormed hr fun _ _ => Iff.rfl
  by_cases hnf : ∀ v ∈ areasUpTo (findVMA m.vmaMap target) (target + size), v.val.type ≠ .free
  · obtain ⟨m', hch, hmap, hwf, hag, hlock⟩ := changeAreas_ok VMManager.unmapAttributes hm hr
      (fun v hv _ => ⟨hv.base, hv.size, Or.inl rfl, by
        simp [Tile.map, VMManager.unmapAttributes, freeAttributes]⟩) hnf
    obtain ⟨ht, hpage, hco⟩ := changeBetween_refines isUpdate_unmap hm hc hr hmap
    have hnsw : ¬ EndSwallowed VMManager.unmapAttributes target (target + size) m.vmaMap := by
      intro hsw
      obtain ⟨x, hx, h₁, h₂, h₃, y, hj⟩ := hsw.exists_mem
      refine hnf x ((mem_areasUpTo hm.tiles (by have := hr.stop_le; omega) x).2
        ⟨hx, h₂, by omega⟩) ?_
      rw [← hj]
      rfl
    have hm' : Consistent isCached m' := ⟨ht, hwf, hag, hlock⟩
    have hc' := hco.2 hnsw
    obtain ⟨before, vma, after, hf, -, hb, -, hall⟩ := exists_free_area hm' (hc'.on _) hr
    have hfit := (hall.1 (by
      intro page hp
      obtain ⟨a, ha, -⟩ := (hareas.2 hnf) page hp
      refine ⟨freeAttributes, ?_, rfl⟩
      rw [hpage, PageMap.changeOn, if_pos hp, ha]
      rfl)).2
    refine ⟨.ok (), m', ?_, iff_of_true rfl (hareas.2 hnf), fun _ => hpage, by simp, hm',
      iff_of_true hc' id⟩
    have hsize : vma.size ≥ size := by
      rw [Tile.stop] at hfit
      omega
    simp only [VMManager.step, VMManager.unmapRange, hm.unlocked, Bool.false_eq_true, if_false,
      hch, Option.bind_eq_bind, Option.bind_some, hf, if_pos hsize]
  · refine ⟨_, m, refines_error hm hc (e := .invalidAddressState) ?_ (fun h => hnf (hareas.1 h)) id⟩
    simp only [VMManager.step, VMManager.unmapRange, hm.unlocked, Bool.false_eq_true, if_false,
      changeAreas_error hr hnf, Option.bind_eq_bind, Option.bind_some]

theorem reprotectRange_refines {m : VMManager} {target size : Nat} {newPerms : VMAPermission}
    (hm : Consistent isCached m) (hc : Coalesced m.vmaMap) (hr : IsRange target size) :
    ∃ r m', Refines isCached m (.reprotectRange target size newPerms) r m' := by
  have hareas : m.pageMap.All target size (·.type ≠ .free) ↔
      ∀ v ∈ areasUpTo (findVMA m.vmaMap target) (target + size), v.val.type ≠ .free :=
    all_iff_areas hm.tiles hm.wellFormed hr fun _ _ => Iff.rfl
  by_cases hnf : ∀ v ∈ areasUpTo (findVMA m.vmaMap target) (target + size), v.val.type ≠ .free
  · obtain ⟨m', hch, hmap, hwf, hag, hlock⟩ := changeAreas_ok
      (VMManager.reprotectAttributes newPerms) hm hr
      (fun v hv hv' => hv.restate hv' v.val.meminfoState newPerms) hnf
    obtain ⟨ht, hpage, hco⟩ := changeBetween_refines (isUpdate_reprotect newPerms) hm hc hr hmap
    refine ⟨.ok (), m', ?_, iff_of_true rfl (hareas.2 hnf), fun _ => hpage, by simp,
      ⟨ht, hwf, hag, hlock⟩, ?_⟩
    · simp only [VMManager.step, VMManager.reprotectRange, hm.unlocked, Bool.false_eq_true,
        if_false, hch]
    · rw [hco]
      exact not_congr ⟨fun h => ⟨hareas.2 hnf, h⟩, fun h => h.2⟩
  · refine ⟨_, m, refines_error hm hc (e := .invalidAddressState) ?_ (fun h => hnf (hareas.1 h))
      fun h => hnf (hareas.1 h.1)⟩
    simp only [VMManager.step, VMManager.reprotectRange, hm.unlocked, Bool.false_eq_true, if_false,
      changeAreas_error hr hnf]

/-- `ChangeMemoryState` of a range that begins in the managed space and does not wrap around. -/
theorem changeMemoryState_eq {m : VMManager} {target size : Nat} {expectedState newState : MemoryState}
    {expectedPerms newPerms : VMAPermission} (hm : Consistent isCached m) (hlt : target < maxAddress)
    (hwrap : target + size < 2 ^ 32) :
    m.changeMemoryState isCached target size expectedState expectedPerms newState newPerms =
      if (areasUpTo (findVMA m.vmaMap target) (target + size)).any fun vma =>
          vma.val.meminfoState ≠ expectedState ∨ vma.val.permissions &&& expectedPerms ≠ expectedPerms
      then some (.error .invalidAddressState, m)
      else m.changeAreas isCached (VMManager.restateAttributes newState newPerms) target size := by
  obtain ⟨before, vma, after, hf, -⟩ := findVMA_spec hm.tiles hlt
  have hbegin : (findVMA m.vmaMap target).after ≠ [] := by simp [hf]
  rw [VMManager.changeMemoryState, hm.unlocked, if_neg (by simp)]
  simp only [if_neg hbegin, areasChecked_eq hm.tiles hlt hwrap]

theorem changeMemoryState_refines {m : VMManager} {target size : Nat}
    {expectedState newState : MemoryState} {expectedPerms newPerms : VMAPermission}
    (hm : Consistent isCached m) (hc : Coalesced m.vmaMap) (hr : IsRange target size) :
    ∃ r m', Refines isCached m
      (.changeMemoryState target size expectedState expectedPerms newState newPerms) r m' := by
  have hareas : m.pageMap.All target size (fun a => a.type ≠ .free ∧
        a.meminfoState = expectedState ∧ a.permissions &&& expectedPerms = expectedPerms) ↔
      ∀ v ∈ areasUpTo (findVMA m.vmaMap target) (target + size), v.val.type ≠ .free ∧
        v.val.meminfoState = expectedState ∧ v.val.permissions &&& expectedPerms = expectedPerms :=
    all_iff_areas hm.tiles hm.wellFormed hr fun _ _ => Iff.rfl
  have hpos := hr.pos
  have hstop := hr.stop_le
  -- the check of the source, and then `CarveVMARange`
  have hstep : ∀ b, ((areasUpTo (findVMA m.vmaMap target) (target + size)).any fun vma =>
        vma.val.meminfoState ≠ expectedState ∨
          vma.val.permissions &&& expectedPerms ≠ expectedPerms) = b →
      m.step isCached (.changeMemoryState target size expectedState expectedPerms newState newPerms)
        = if b then some (.error .invalidAddressState, m)
          else m.changeAreas isCached (VMManager.restateAttributes newState newPerms) target size := by
    intro b hb
    rw [VMManager.step, changeMemoryState_eq hm (by omega) (lt_of_le_of_lt hstop (by decide)), hb]
  by_cases hex : ∀ v ∈ areasUpTo (findVMA m.vmaMap target) (target + size),
      v.val.meminfoState = expectedState ∧ v.val.permissions &&& expectedPerms = expectedPerms
  · have hstep := hstep false (by
      rw [List.any_eq_false]
      intro v hv
      simp [hex v hv])
    rw [if_neg (by simp)] at hstep
    by_cases hnf : ∀ v ∈ areasUpTo (findVMA m.vmaMap target) (target + size), v.val.type ≠ .free
    · have hen := hareas.2 fun v hv => ⟨hnf v hv, hex v hv⟩
      obtain ⟨m', hch, hmap, hwf, hag, hlock⟩ := changeAreas_ok
        (VMManager.restateAttributes newState newPerms) hm hr
        (fun v hv hv' => hv.restate hv' newState newPerms) hnf
      obtain ⟨ht, hpage, hco⟩ :=
        changeBetween_refines (isUpdate_restate newState newPerms) hm hc hr hmap
      refine ⟨.ok (), m', by rw [hstep, hch], iff_of_true rfl hen, fun _ => hpage, by simp,
        ⟨ht, hwf, hag, hlock⟩, ?_⟩
      rw [hco]
      exact not_congr ⟨fun h => ⟨hen, h⟩, fun h => h.2⟩
    · have hen : ¬ m.pageMap.All target size _ := fun h => hnf fun v hv => (hareas.1 h v hv).1
      exact ⟨_, m, refines_error hm hc (by rw [hstep, changeAreas_error hr hnf]) hen
        fun h => hen h.1⟩
  · have hstep := hstep true (by
      push Not at hex
      obtain ⟨v, hv, h⟩ := hex
      rw [List.any_eq_true]
      refine ⟨v, hv, decide_eq_true ?_⟩
      by_cases hs : v.val.meminfoState = expectedState
      · exact Or.inr (h hs)
      · exact Or.inl hs)
    have hen : ¬ m.pageMap.All target size _ := fun h => hex fun v hv => (hareas.1 h v hv).2
    exact ⟨_, m, refines_error hm hc (by rw [hstep, if_pos rfl]) hen fun h => hen h.1⟩

/-- Every operation refines the one on the page map. -/
theorem step_refines {m : VMManager} {op : Op} (hm : Consistent isCached m)
    (hc : Coalesced m.vmaMap) (hop : op.WellFormed) : ∃ r m', Refines isCached m op r m' := by
  cases op with
  | reset => exact reset_refines hm
  | mapBackingMemory => exact mapBackingMemory_refines hm hc hop.1 hop.2
  | unmapRange => exact unmapRange_refines hm hc hop
  | reprotectRange => exact reprotectRange_refines hm hc hop
  | changeMemoryState => exact changeMemoryState_refines hm hc hop

/-- The same for a step that was made. -/
theorem refines_of_step {m m' : VMManager} {op : Op} {r : Except VmError Unit}
    (hm : Consistent isCached m) (hc : Coalesced m.vmaMap)
    (hstep : m.step isCached op = some (r, m')) (hop : op.WellFormed) :
    Refines isCached m op r m' := by
  obtain ⟨r', m'', href⟩ := step_refines hm hc hop
  obtain ⟨rfl, rfl⟩ := Prod.mk.inj (Option.some.inj (hstep.symm.trans href.runs))
  exact href

/-! ## Runs -/

/-- The manager as its constructor leaves it to `Reset`. -/
def VMManager.blank : VMManager := ⟨[], PageTable.clear, false⟩

/-- An address space without memory. -/
def VMManager.fresh : VMManager := ⟨[⟨0, maxAddress, freeAttributes⟩], PageTable.clear, false⟩

theorem reset_blank (isCached : Nat → Bool) :
    VMManager.blank.reset isCached = some VMManager.fresh := by
  have hw : WellFormed (⟨0, maxAddress, freeAttributes⟩ : VirtualMemoryArea) :=
    ⟨by decide, by decide, Or.inl rfl, by simp [freeAttributes]⟩
  obtain ⟨pt, hpt, hentry⟩ := updatePageTableForVMA_spec isCached PageTable.clear hw
    (by simp [Tile.stop])
  -- unmapping the pages of a cleared table changes none of them
  have hclear : ∀ page, pt.entry page = PageTable.clear.entry page := by
    intro page
    rw [hentry]
    split_ifs
    · rfl
    · rfl
  have hsame : pt = PageTable.clear := by
    obtain ⟨attributes, pointers⟩ := pt
    rw [PageTable.clear, PageTable.mk.injEq]
    exact ⟨funext fun page => congrArg Prod.fst (hclear page),
      funext fun page => congrArg Prod.snd (hclear page)⟩
  simp only [VMManager.reset, VMManager.blank, Bool.false_eq_true, if_false, hpt, hsame,
    Option.map_some, VMManager.fresh]

/-- The states the manager reaches by operations that are allowed where they are made. -/
inductive Reachable (isCached : Nat → Bool) (allowed : VMManager → Op → Prop) : VMManager → Prop
  | reset {m : VMManager} : VMManager.blank.reset isCached = some m → Reachable isCached allowed m
  | step {m m' : VMManager} {op : Op} {r : Except VmError Unit} :
      Reachable isCached allowed m → op.WellFormed → allowed m op →
      m.step isCached op = some (r, m') → Reachable isCached allowed m'

/-- No two neighbours can be merged, in the words of the source. -/
def Merged (l : List VirtualMemoryArea) : Prop :=
  l.IsChain fun v n => canBeMergedWith v n = some false

theorem merged_iff_coalesced {l : List VirtualMemoryArea} {lo hi : Nat} (h : Tiles lo hi l)
    (hw : ∀ v ∈ l, WellFormed v) : Merged l ↔ Coalesced l := by
  induction l generalizing lo with
  | nil => exact iff_of_true List.isChain_nil List.isChain_nil
  | cons v l ih =>
    cases l with
    | nil => exact iff_of_true (List.isChain_singleton _) (List.isChain_singleton _)
    | cons n l =>
      obtain ⟨rfl, -, hn⟩ := h
      have ih := ih hn fun u hu => hw u (List.mem_cons_of_mem v hu)
      rw [Merged, List.isChain_cons_cons, Coalesced, List.isChain_cons_cons]
      rw [canBeMergedWith_eq hn.1 (hw v (by simp)).valid (hw n (by simp)).valid]
      exact and_congr (by simp) ih

/-- Along a run in which no operation swallows the end of its range, the manager is
consistent and its map coalesced. -/
theorem Reachable.consistent {m : VMManager}
    (h : Reachable isCached (fun m op => ¬ op.Swallows m) m) :
    Consistent isCached m ∧ Coalesced m.vmaMap := by
  induction h with
  | reset h =>
    obtain ⟨m', hm', hmap, -, hcons⟩ := reset_spec isCached (m := VMManager.blank) rfl
    obtain rfl := Option.some.inj (h.symm.trans hm')
    exact ⟨hcons, by rw [hmap]; exact List.isChain_singleton _⟩
  | step _ hop hsw hstep ih =>
    have href := refines_of_step ih.1 ih.2 hstep hop
    exact ⟨href.consistent, href.coalesced.2 hsw⟩

end

/-- The manager refines the page map: in every state that is reached without an operation
that swallows the end of its range, the areas are a partition of the managed space, in the
order of their bases, no two neighbours can be merged, and every page has the entry of its
attributes in the page table.  From such a state every operation succeeds exactly when it
does on the page map, has the same effect on it, and leaves it alone if it fails; and the
map is merged afterwards exactly if the operation does not swallow the end of its range. -/
theorem vmManager_refines_pageMap (isCached : Nat → Bool) (m : VMManager)
    (h : Reachable isCached (fun m op => ¬ op.Swallows m) m) :
    Tiles 0 maxAddress m.vmaMap ∧ Merged m.vmaMap ∧
    (∀ page, page * citraPageSize < maxAddress → ∃ a, m.pageMap page = some a ∧
      m.pageTable.entry page = entryOf isCached page a) ∧
    ∀ op : Op, op.WellFormed → ∃ r m', m.step isCached op = some (r, m') ∧
      (r = .ok () ↔ op.Enabled m.pageMap) ∧
      (r = .ok () → m'.pageMap = op.apply m.pageMap) ∧
      (r ≠ .ok () → m'.pageMap = m.pageMap) ∧
      (Merged m'.vmaMap ↔ ¬ op.Swallows m) := by
  obtain ⟨hm, hc⟩ := h.consistent
  refine ⟨hm.tiles, (merged_iff_coalesced hm.tiles hm.wellFormed).2 hc, hm.agrees, ?_⟩
  intro op hop
  obtain ⟨r, m', href⟩ := step_refines hm hc hop
  refine ⟨r, m', href.runs, href.succeeds, href.changes, href.keeps, ?_⟩
  rw [merged_iff_coalesced href.consistent.tiles href.consistent.wellFormed]
  exact href.coalesced

/-- The first thing a process does: two pages of memory are mapped. -/
theorem vmManager_refines_pageMap_heap :
    ∃ m m', Reachable (fun _ => false) (fun m op => ¬ op.Swallows m) m ∧
      m.step (fun _ => false) (.mapBackingMemory 0x08000000 ⟨⟨0, 0x2000⟩, 0⟩ 0x2000 .private_) =
        some (.ok (), m') ∧
      m'.pageMap 0x8001 =
        some ⟨.backingMemory, permReadWrite, .private_, some ⟨⟨0, 0x2000⟩, 0x1000⟩⟩ := by
  obtain ⟨m, hreset, -, hpage, -⟩ := reset_spec (fun _ => false) (m := VMManager.blank) rfl
  have hreach : Reachable (fun _ => false) (fun m op => ¬ op.Swallows m) m := .reset hreset
  obtain ⟨-, -, -, hops⟩ := vmManager_refines_pageMap _ m hreach
  obtain ⟨r, m', hstep, hok, hchange, -, -⟩ :=
    hops (.mapBackingMemory 0x08000000 ⟨⟨0, 0x2000⟩, 0⟩ 0x2000 .private_)
      ⟨⟨by decide, by decide, by decide, by decide⟩, by decide⟩
  have hr : r = .ok () := by
    rw [hok, hpage]
    intro page hp
    refine ⟨freeAttributes, if_pos ?_, rfl⟩
    simp only [InRange, maxAddress] at hp ⊢
    omega
  subst hr
  refine ⟨m, m', hreach, hstep, ?_⟩
  rw [hchange rfl]
  simp only [Op.apply]
  rw [if_pos (by decide)]
  rfl

/-! ## An area that stays cut -/

/-- The first page of a block of three, mapped at `0x1000`. -/
def firstPart (perms : VMAPermission) : VirtualMemoryArea :=
  ⟨0x1000, 0x1000, ⟨.backingMemory, perms, .private_, some ⟨⟨0, 0x3000⟩, 0⟩⟩⟩

/-- The other two pages, mapped behind it. -/
def secondPart : VirtualMemoryArea :=
  ⟨0x2000, 0x2000, ⟨.backingMemory, permReadWrite, .private_, some ⟨⟨0, 0x3000⟩, 0x1000⟩⟩⟩

/-- A free area. -/
def freeArea (base stop : Nat) : VirtualMemoryArea := ⟨base, stop - base, freeAttributes⟩

/-- The first part loses its write permission and gets it back together with one page of
the second: the second part stays cut there. -/
theorem vmManager_not_merged :
    ¬ ∀ (isCached : Nat → Bool) (m : VMManager), Reachable isCached (fun _ _ => True) m →
      Merged m.vmaMap := by
  intro hall
  have hr₁ : IsRange 0x1000 0x1000 := ⟨by decide, by decide, by decide, by decide⟩
  have hr₃ : IsRange 0x2000 0x2000 := ⟨by decide, by decide, by decide, by decide⟩
  have hr₄ : IsRange 0x1000 0x2000 := ⟨by decide, by decide, by decide, by decide⟩
  have hop₂ : (Op.reprotectRange 0x1000 0x1000 1).WellFormed := hr₁
  have hop₄ : (Op.reprotectRange 0x1000 0x2000 permReadWrite).WellFormed := hr₄
  -- the first part is mapped
  obtain ⟨m₀, hreset, hmap₀, -, hm₀⟩ := reset_spec (fun _ => false) (m := VMManager.blank) rfl
  have hc₀ : Coalesced m₀.vmaMap := by rw [hmap₀]; exact List.isChain_singleton _
  have hop₁ : (Op.mapBackingMemory 0x1000 ⟨⟨0, 0x3000⟩, 0⟩ 0x1000 .private_).WellFormed :=
    ⟨hr₁, by decide⟩
  obtain ⟨m₁, hstep₁, hmap₁, -⟩ := mapBackingMemory_ok .private_ hm₀ hr₁ hop₁.2
    (show findVMA m₀.vmaMap 0x1000 = ⟨[], [freeArea 0 maxAddress]⟩ by rw [hmap₀]; rfl) hmap₀
    (by decide) rfl (by decide)
  replace hmap₁ : m₁.vmaMap =
      [freeArea 0 0x1000, firstPart permReadWrite, freeArea 0x2000 maxAddress] := by
    rw [hmap₁, hmap₀]
    rfl
  have href₁ := refines_of_step hm₀ hc₀ hstep₁ hop₁
  have hc₁ := href₁.coalesced.2 id
  -- it becomes read-only
  obtain ⟨m₂, hch₂, hmap₂, -⟩ := changeAreas_ok (VMManager.reprotectAttributes 1) href₁.consistent
    hr₁ (fun v hv hv' => hv.restate hv' v.val.meminfoState 1) (by rw [hmap₁]; decide)
  have hstep₂ : m₁.step (fun _ => false) (.reprotectRange 0x1000 0x1000 1) = some (.ok (), m₂) := by
    simp only [VMManager.step, VMManager.reprotectRange, href₁.consistent.unlocked,
      Bool.false_eq_true, if_false, hch₂]
  have hmap₂' : m₂.vmaMap = [freeArea 0 0x1000, firstPart 1, freeArea 0x2000 maxAddress] := by
    rw [hmap₂, hmap₁]
    show changeRange _ 0x2000 [freeArea 0 0x1000]
      [firstPart permReadWrite, freeArea 0x2000 maxAddress] = _
    rw [changeRange_cons_of_lt (by decide)]
    show changeRange _ 0x2000 [firstPart 1, freeArea 0 0x1000] [freeArea 0x2000 maxAddress] = _
    rw [changeRange, if_neg (by decide)]
    rfl
  have href₂ := refines_of_step href₁.consistent hc₁ hstep₂ hr₁
  have hc₂ : Coalesced m₂.vmaMap := by
    refine href₂.coalesced.2 fun h => ?_
    have hsw := h.2
    rw [hmap₁] at hsw
    obtain ⟨x, hx, h₁, h₂, -⟩ := hsw.exists_mem
    simp only [List.mem_cons, List.not_mem_nil, or_false] at hx
    rcases hx with rfl | rfl | rfl <;> simp [freeArea, firstPart] at h₁ h₂
  -- the second part is mapped
  have hop₃ : (Op.mapBackingMemory 0x2000 ⟨⟨0, 0x3000⟩, 0x1000⟩ 0x2000 .private_).WellFormed :=
    ⟨hr₃, by decide⟩
  obtain ⟨m₃, hstep₃, hmap₃, -⟩ := mapBackingMemory_ok .private_ href₂.consistent hr₃ hop₃.2
    (show findVMA m₂.vmaMap 0x2000 =
      ⟨[firstPart 1, freeArea 0 0x1000], [freeArea 0x2000 maxAddress]⟩ by rw [hmap₂']; rfl)
    hmap₂' (by decide) rfl (by decide)
  replace hmap₃ : m₃.vmaMap =
      [freeArea 0 0x1000, firstPart 1, secondPart, freeArea 0x4000 maxAddress] := by
    rw [hmap₃, hmap₂']
    rfl
  have href₃ := refines_of_step href₂.consistent hc₂ hstep₃ hop₃
  have hc₃ := href₃.coalesced.2 id
  -- and the first part gets its permission back, together with a page of the second
  obtain ⟨r, m₄, href₄⟩ := step_refines href₃.consistent hc₃ hop₄
  have hswallow : (Op.reprotectRange 0x1000 0x2000 permReadWrite).Swallows m₃ := by
    refine ⟨(all_iff_areas href₃.consistent.tiles href₃.consistent.wellFormed hr₄
      (p := (·.type ≠ .free)) fun _ _ => Iff.rfl).2 (by rw [hmap₃]; decide), ?_⟩
    rw [hmap₃]
    exact Or.inr (Or.inl ⟨by decide, by decide, by decide, rfl⟩)
  have hreach : Reachable (fun _ => false) (fun _ _ => True) m₄ :=
    ((((Reachable.reset hreset).step hop₁ trivial hstep₁).step hop₂ trivial
      hstep₂).step hop₃ trivial hstep₃).step hop₄ trivial href₄.runs
  have hmerged := hall _ m₄ hreach
  rw [merged_iff_coalesced href₄.consistent.tiles href₄.consistent.wellFormed,
    href₄.coalesced] at hmerged
  exact hmerged hswallow

end AzaharPlus.Kernel
