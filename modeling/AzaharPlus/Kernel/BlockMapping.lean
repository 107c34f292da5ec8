import AzaharPlus.Kernel.MemoryRuns

/-!
# Mapping memory blocks

`SharedMemory::Map` of `core/hle/kernel/shared_memory.cpp`, and the `Unmap` that follows.  The end of the target is a
32-bit sum, and so a range that wraps around passes the check of its bounds; the bounds of an address 0 are not
checked at all, though only a block of the linear heap has a place of its own for it.

`mapsSafely_iff`: the call returns, leaves everything as it was or maps the block where it may, and can be undone,
exactly if the block is not one for which the bounds are misjudged in this way.
-/

namespace AzaharPlus.Kernel

open Tiling Intervals

namespace SharedMemory

/-- A memory block of whole pages, and not of none. -/
structure OfPages (b : SharedMemory) : Prop where
  fits : b.Fits
  size_lt : b.size < 2 ^ 32
  size_pos : 0 < b.size
  pages : ∀ c ∈ b.backingBlocks, 0 < c.2 ∧ c.2 % citraPageSize = 0
  linear : b.baseAddress = 0 →
    b.linearHeapPhysOffset % citraPageSize = 0 ∧ b.linearHeapPhysOffset + b.size ≤ fcramMem.size

/-- The block is mapped where it may be, page by page, and `Unmap` takes exactly these pages away. -/
structure Mapped (isCached : Nat → Bool) (b : SharedMemory) (p : ProcessMemory) (address : Nat) : Prop where
  place : (heapVaddr ≤ b.targetAddress address ∧ b.targetAddress address + b.size ≤ sharedMemoryVaddrEnd) ∨
    (address = 0 ∧ b.baseAddress = 0 ∧ b.targetAddress address = linearHeapVaddr + b.linearHeapPhysOffset)
  backed : ∀ k, k * citraPageSize < b.size → ∃ a, p.vmManager.pageMap (b.targetAddress address / citraPageSize + k) =
    some a ∧ a.backingMemory = laid b.backingBlocks 0 (k * citraPageSize) ∧ a.backingMemory.isSome
  unmaps : ∃ p', b.unmap isCached p (b.targetAddress address) = some (.ok (), p') ∧
    ∀ page, (InRange (b.targetAddress address) b.size page → p'.vmManager.pageMap page = some freeAttributes) ∧
      (¬ InRange (b.targetAddress address) b.size page → p'.vmManager.pageMap page = p.vmManager.pageMap page)

/-- What is expected of `Map`: it returns, and has changed nothing or mapped the block. -/
def MapsSafely (isCached : Nat → Bool) (b : SharedMemory) (p : ProcessMemory) (address : Nat)
    (permissions otherPermissions : UInt32) : Prop :=
  ∃ r p', b.map isCached p address permissions otherPermissions = some (r, p') ∧
    ((∃ e, r = .error e ∧ p' = p) ∨ (r = .ok () ∧ b.Mapped isCached p' address))

/-- The permissions are those that the block can be mapped with. -/
structure Permitted (b : SharedMemory) (permissions otherPermissions : UInt32) : Prop where
  automatic : b.baseAddress = 0 ↔ otherPermissions = dontCare
  own : permissions &&& ~~~b.ownOtherPermissions = 0
  others : otherPermissions ≠ dontCare → b.permissions &&& ~~~otherPermissions = 0

/-- The bounds of the target are misjudged: a block of the heap is wanted at address 0, where the pages are free; or
the end of the target wraps around, and its first page is free or behind the managed space. -/
def Misjudged (b : SharedMemory) (p : ProcessMemory) (address : Nat) : Prop :=
  (address = 0 ∧ b.baseAddress ≠ 0 ∧ p.vmManager.pageMap.All 0 b.size (·.type = .free)) ∨
    (heapVaddr ≤ address ∧ 2 ^ 32 ≤ address + b.size ∧ address + b.size - 2 ^ 32 < sharedMemoryVaddrEnd ∧
      ∀ a ∈ p.vmManager.pageMap (address / citraPageSize), a.type = .free)

variable {isCached : Nat → Bool} {b : SharedMemory} {p p' : ProcessMemory} {address : Nat}
  {permissions otherPermissions : UInt32}

/-- `Map` with permissions that do not match. -/
theorem map_of_not_permitted (h : ¬ b.Permitted permissions otherPermissions) :
    ∃ e, b.map isCached p address permissions otherPermissions = some (.error e, p) := by
  by_contra hnot
  refine h ?_
  rw [SharedMemory.map] at hnot
  split_ifs at hnot with h₁ h₂ h₃ h₄ h₅
  iterate 4 exact absurd ⟨_, rfl⟩ hnot
  all_goals
    rw [not_and, not_not] at h₁ h₄
    rw [not_and] at h₃
    exact ⟨⟨h₁, fun ho => by_contra fun hb => h₃ hb ho⟩, not_not.1 h₂, h₄⟩

/-- `Map` with permissions that match. -/
theorem map_of_permitted (h : b.Permitted permissions otherPermissions) :
    b.map isCached p address permissions otherPermissions =
      if address ≠ 0 ∧ (address < heapVaddr ∨ add32 address b.size ≥ sharedMemoryVaddrEnd) then
        some (.error .invalidAddress, p)
      else (p.targetTaken (b.targetAddress address) b.size).bind fun taken =>
        if taken then some (.error .invalidAddressState, p)
        else (p.vmManager.mapBlocks isCached .shared (convertPermissions permissions) b.backingBlocks
          (b.targetAddress address)).map fun m => (.ok (), { p with vmManager := m }) := by
  obtain ⟨hauto, hown, hothers⟩ := h
  rw [SharedMemory.map, if_neg (by rw [hauto]; tauto), if_neg (not_not.2 hown), if_neg (by rw [ne_eq, hauto]; tauto),
    if_neg (by tauto)]
  split_ifs
  · rfl
  · simp only [Option.bind_eq_bind, Option.map_eq_bind]
    rfl

/-! ## The check of the target -/

/-- A target that does not wrap around is taken if one of its pages is not free. -/
theorem targetTaken_eq {target size : Nat} (hp : p.Orderly isCached) (hlt : target < maxAddress)
    (ht : target % citraPageSize = 0) (hs : size % citraPageSize = 0) (hpos : 0 < size)
    (hwrap : target + size < 2 ^ 32) :
    ∃ taken, p.targetTaken target size = some taken ∧
      (taken = false ↔ IsRange target size ∧ p.vmManager.pageMap.All target size (·.type = .free)) := by
  by_cases hr : IsRange target size
  · obtain ⟨before, vma, after, hf, -, -, -, hall⟩ := exists_free_area hp.consistent hp.freeMerged hr
    rw [ProcessMemory.targetTaken, hf]
    refine ⟨_, rfl, ?_⟩
    rw [hall, and_iff_right hr, decide_eq_false_iff_not, not_or, not_not, not_lt, add32_of_lt hwrap, Tile.stop]
  · obtain ⟨before, vma, after, hf, hl, -, -⟩ := findVMA_spec hp.consistent.tiles hlt
    have hstop := (hp.consistent.tiles.bounds (show vma ∈ p.vmManager.vmaMap by rw [hl]; simp)).2.1
    have hbig : maxAddress < target + size := by
      by_contra hle
      exact hr ⟨ht, hs, hpos, not_lt.1 hle⟩
    rw [ProcessMemory.targetTaken, hf]
    refine ⟨_, rfl, iff_of_false ?_ fun h => hr h.1⟩
    rw [decide_eq_false_iff_not, not_not, add32_of_lt hwrap]
    rw [Tile.stop] at hstop
    exact Or.inr (by omega)

/-- A target whose end wraps around is taken if its first page is not free. -/
theorem targetTaken_wrapped {target size : Nat} (hp : p.Orderly isCached) (hlt : target < maxAddress)
    (ht : target % citraPageSize = 0) (hs : size < 2 ^ 32) (hwrap : 2 ^ 32 ≤ target + size) :
    ∃ taken, p.targetTaken target size = some taken ∧
      (taken = false ↔ ∀ a ∈ p.vmManager.pageMap (target / citraPageSize), a.type = .free) := by
  obtain ⟨before, vma, after, hf, hl, hlo, hhi⟩ := findVMA_spec hp.consistent.tiles hlt
  have hvma : vma ∈ p.vmManager.vmaMap := by rw [hl]; simp
  have hpage : p.vmManager.pageMap (target / citraPageSize) = some ((target - vma.base) +ᵥ vma.val) := by
    rw [VMManager.pageMap, Nat.div_mul_cancel (Nat.dvd_of_mod_eq_zero ht)]
    exact hp.consistent.tiles.valueAt_of_mem hvma hlo hhi
  have hend : add32 target size ≤ vma.base + vma.size := by
    have hmax : maxAddress < 2 ^ 32 := by decide
    rw [Tile.stop] at hhi
    rw [add32]
    omega
  rw [ProcessMemory.targetTaken, hf, hpage]
  refine ⟨_, rfl, ?_⟩
  rw [decide_eq_false_iff_not, not_or, not_not, not_lt]
  constructor
  · rintro ⟨hfree, -⟩ a ha
    obtain rfl := Option.some.inj ha
    exact hfree
  · intro hfree
    exact ⟨hfree ((target - vma.base) +ᵥ vma.val) rfl, hend⟩

/-! ## The loop over the blocks -/

theorem size_aligned : ∀ {blocks : List (MemoryRef × Nat)}, (∀ c ∈ blocks, 0 < c.2 ∧ c.2 % citraPageSize = 0) →
    blocksSize blocks % citraPageSize = 0 := by
  intro blocks
  induction blocks with
  | nil => intro _; rfl
  | cons c blocks ih =>
    intro h
    rw [blocksSize_cons, Nat.add_mod, (h c List.mem_cons_self).2, ih fun d hd => h d (List.mem_cons_of_mem _ hd)]
    rfl

theorem OfPages.size_aligned (hb : b.OfPages) : b.size % citraPageSize = 0 := by
  rw [← hb.fits.size_eq]
  exact SharedMemory.size_aligned hb.pages

/-- A free target takes the block, and gives it back. -/
theorem mapBlocks_mapped {target : Nat} (hp : p.Orderly isCached) (hb : b.OfPages) (hr : IsRange target b.size)
    (hfree : p.vmManager.pageMap.All target b.size (·.type = .free)) :
    ∃ m, p.vmManager.mapBlocks isCached .shared (convertPermissions permissions) b.backingBlocks target = some m ∧
      (∀ k, k * citraPageSize < b.size → ∃ a, m.pageMap (target / citraPageSize + k) = some a ∧
        a.backingMemory = laid b.backingBlocks 0 (k * citraPageSize) ∧ a.backingMemory.isSome) ∧
      ∃ p', b.unmap isCached { p with vmManager := m } target = some (.ok (), p') ∧
        ∀ page, (InRange target b.size page → p'.vmManager.pageMap page = some freeAttributes) ∧
          (¬ InRange target b.size page → p'.vmManager.pageMap page = m.pageMap page) := by
  have hm := hp.consistent
  have hsize := hb.fits.size_eq
  have hvalues : ∀ a, target ≤ a → a < target + blocksSize b.backingBlocks →
      valueAt p.vmManager.vmaMap a = some freeAttributes := by
    obtain ⟨before, vma, after, -, hl, hlo, -, hall⟩ := exists_free_area hm hp.freeMerged hr
    obtain ⟨htype, hfit⟩ := hall.1 hfree
    have hvma : vma ∈ p.vmManager.vmaMap := by rw [hl]; simp
    intro a h₁ h₂
    rw [hm.tiles.valueAt_of_mem hvma (by omega) (by omega), ((hm.wellFormed vma hvma).valid.free_iff).1 htype,
      vadd_def, shift_freeAttributes]
  obtain ⟨m, hmap⟩ : ∃ m, p.vmManager.mapBlocks isCached .shared (convertPermissions permissions) b.backingBlocks
      target = some m := mapBlocks_ok hm hp.freeMerged hb.fits.blocks hb.pages hr.target_aligned
    (by rw [hsize]; exact hr.stop_le) hvalues
  obtain ⟨hm', hmerged, -⟩ := mapBlocks_consistent hm hb.fits.blocks hmap
  have htarget : ∀ a, target ≤ a → a < target + b.size → ∃ memory, laid b.backingBlocks target a = some memory ∧
      valueAt m.vmaMap a = some (laidAttributes (convertPermissions permissions) .shared memory) :=
    fun a h₁ h₂ => mapBlocks_target hm hb.fits.blocks hmap h₁ (by rw [hsize]; exact h₂)
  have hpage : target / citraPageSize * citraPageSize = target :=
    Nat.div_mul_cancel (Nat.dvd_of_mod_eq_zero hr.target_aligned)
  refine ⟨m, hmap, fun k hk => ?_, ?_⟩
  · have haddress : (target / citraPageSize + k) * citraPageSize = target + k * citraPageSize := by
      rw [Nat.add_mul, hpage]
    obtain ⟨memory, hlaid, hvalue⟩ := htarget (target + k * citraPageSize) (Nat.le_add_right _ _) (by omega)
    refine ⟨_, by rw [VMManager.pageMap, haddress]; exact hvalue, ?_, rfl⟩
    have htranslate : laid b.backingBlocks target (target + k * citraPageSize) =
        laid b.backingBlocks 0 (k * citraPageSize) := by
      rw [laid_translate target 0, Nat.zero_add]
    rw [← htranslate, hlaid]
    rfl
  · have hmapped : m.pageMap.All target b.size (·.type ≠ .free) := by
      intro page hin
      obtain ⟨memory, -, hvalue⟩ := htarget _ hin.1 hin.2
      exact ⟨_, hvalue, by simp [laidAttributes]⟩
    obtain ⟨m', hunmap, hchanged⟩ := unmapRange_ok hm' (hmerged hp.freeMerged) hr
      ((all_iff_areas hm'.tiles hm'.wellFormed hr (fun _ _ => Iff.rfl)).1 hmapped)
    refine ⟨{ p with vmManager := m' }, by rw [SharedMemory.unmap, hunmap]; rfl, fun page => ⟨fun hin => ?_, ?_⟩⟩
    · obtain ⟨memory, -, hvalue⟩ := htarget _ hin.1 hin.2
      rw [VMManager.pageMap, hchanged.values, changedOn, if_pos ⟨hin.1, hin.2⟩, hvalue]
      rfl
    · intro hout
      rw [VMManager.pageMap, hchanged.values, changedOn, if_neg (fun h => hout ⟨h.1, h.2⟩)]
      rfl

/-! ## `Map` -/

/-- Where the block goes if the call passes the check of the bounds. -/
def Passes (b : SharedMemory) (address : Nat) : Prop :=
  address = 0 ∨ (heapVaddr ≤ address ∧ add32 address b.size < sharedMemoryVaddrEnd)

theorem targetAddress_of_ne {address : Nat} (h : address ≠ 0) : b.targetAddress address = address :=
  if_neg fun hzero => h hzero.2

theorem OfPages.targetAddress_linear (hb : b.OfPages) (hbase : b.baseAddress = 0) :
    b.targetAddress 0 = linearHeapVaddr + b.linearHeapPhysOffset := by
  obtain ⟨-, hfit⟩ := hb.linear hbase
  have hsum : b.linearHeapPhysOffset + linearHeapVaddr < 2 ^ 32 := by
    have hmax : fcramMem.size + linearHeapVaddr < 2 ^ 32 := by decide
    omega
  rw [targetAddress, if_pos ⟨hbase, rfl⟩, add32_of_lt hsum, Nat.add_comm]

/-- A target that does not wrap around lies in the managed space, at the border of a page. -/
theorem OfPages.target_inside (hb : b.OfPages) (haligned : address % citraPageSize = 0) (hpasses : b.Passes address)
    (hwrap : address + b.size < 2 ^ 32) :
    b.targetAddress address < maxAddress ∧ b.targetAddress address % citraPageSize = 0 ∧
      b.targetAddress address + b.size < 2 ^ 32 := by
  obtain rfl | ⟨hlo, hhi⟩ := hpasses
  · by_cases hbase : b.baseAddress = 0
    · obtain ⟨hoffset, hfit⟩ := hb.linear hbase
      rw [hb.targetAddress_linear hbase]
      refine ⟨?_, ?_, ?_⟩
      · have hmax : linearHeapVaddr + fcramMem.size < maxAddress := by decide
        omega
      · rw [Nat.add_mod, hoffset]
        rfl
      · have hmax : linearHeapVaddr + fcramMem.size < 2 ^ 32 := by decide
        omega
    · rw [targetAddress, if_neg fun h => hbase h.1]
      exact ⟨by decide, rfl, hwrap⟩
  · have hne : address ≠ 0 := by
      have hheap : 0 < heapVaddr := by decide
      omega
    rw [targetAddress_of_ne hne]
    rw [add32_of_lt hwrap] at hhi
    have hmax : sharedMemoryVaddrEnd < maxAddress := by decide
    exact ⟨by omega, haligned, hwrap⟩

/-- A block whose end wraps around fits nowhere. -/
theorem mapBlocks_wrapped {target : Nat} (hp : p.Orderly isCached) (hb : b.OfPages)
    (hwrap : 2 ^ 32 ≤ target + b.size) :
    p.vmManager.mapBlocks isCached .shared (convertPermissions permissions) b.backingBlocks target = none := by
  rw [Option.eq_none_iff_forall_ne_some]
  intro m hmap
  have hne : b.backingBlocks ≠ [] := by
    intro hnil
    have hsize := hb.fits.size_eq
    rw [hnil, blocksSize_nil] at hsize
    exact absurd hsize hb.size_pos.ne
  have hstop := ((mapBlocks_consistent hp.consistent hb.fits.blocks hmap).2.2 hne).stop_le
  rw [hb.fits.size_eq] at hstop
  have hmax : maxAddress < 2 ^ 32 := by decide
  omega

/-- A call whose target wraps around is safe exactly if the first page is taken. -/
theorem mapsSafely_wrapped (hp : p.Orderly isCached) (hb : b.OfPages)
    (hperm : b.Permitted permissions otherPermissions) (haligned : address % citraPageSize = 0)
    (hlo : heapVaddr ≤ address) (hhi : add32 address b.size < sharedMemoryVaddrEnd)
    (hwrap : 2 ^ 32 ≤ address + b.size) :
    b.MapsSafely isCached p address permissions otherPermissions ↔
      ¬ ∀ a ∈ p.vmManager.pageMap (address / citraPageSize), a.type = .free := by
  have hne : address ≠ 0 := by
    have hheap : 0 < heapVaddr := by decide
    omega
  have hmap : b.map isCached p address permissions otherPermissions = _ := map_of_permitted hperm
  rw [if_neg (by omega), targetAddress_of_ne hne] at hmap
  by_cases hlt : address < maxAddress
  · obtain ⟨taken, htaken, hfree⟩ := targetTaken_wrapped hp hlt haligned hb.size_lt hwrap
    rw [htaken, Option.bind_some, mapBlocks_wrapped hp hb hwrap] at hmap
    rw [← hfree, MapsSafely, hmap]
    cases taken with
    | true => exact iff_of_true ⟨_, _, rfl, Or.inl ⟨_, rfl, rfl⟩⟩ (by simp)
    | false => exact iff_of_false (by rintro ⟨r, p', h, -⟩; cases h) (by simp)
  · have hend : p.targetTaken address b.size = none := by
      rw [ProcessMemory.targetTaken, findVMA, if_pos (not_lt.1 hlt)]
    rw [hend, Option.bind_none] at hmap
    rw [MapsSafely, hmap]
    refine iff_of_false (by rintro ⟨r, p', h, -⟩; cases h) (not_not.2 fun a ha => ?_)
    rw [VMManager.pageMap, Nat.div_mul_cancel (Nat.dvd_of_mod_eq_zero haligned),
      hp.consistent.tiles.valueAt_eq_none (Or.inr (not_lt.1 hlt))] at ha
    cases ha

/-- A call whose target does not wrap around is safe unless it puts a block of the heap at address 0. -/
theorem mapsSafely_unwrapped (hp : p.Orderly isCached) (hb : b.OfPages)
    (hperm : b.Permitted permissions otherPermissions) (haligned : address % citraPageSize = 0)
    (hpasses : b.Passes address) (hwrap : address + b.size < 2 ^ 32) :
    b.MapsSafely isCached p address permissions otherPermissions ↔
      ¬ (address = 0 ∧ b.baseAddress ≠ 0 ∧ p.vmManager.pageMap.All 0 b.size (·.type = .free)) := by
  obtain ⟨hlt, htarget, hsum⟩ := hb.target_inside haligned hpasses hwrap
  have hmap : b.map isCached p address permissions otherPermissions = _ := map_of_permitted hperm
  rw [if_neg (by rw [Passes] at hpasses; omega)] at hmap
  obtain ⟨taken, htaken, hfree⟩ := targetTaken_eq hp hlt htarget hb.size_aligned hb.size_pos hsum
  rw [htaken, Option.bind_some] at hmap
  have hheap : address = 0 → b.baseAddress ≠ 0 → b.targetAddress address = 0 := by
    rintro rfl hbase
    rw [targetAddress, if_neg fun h => hbase h.1]
  cases taken with
  | true =>
    rw [if_pos rfl] at hmap
    refine iff_of_true ⟨_, _, hmap, Or.inl ⟨_, rfl, rfl⟩⟩ ?_
    rintro ⟨hzero, hbase, hall⟩
    rw [hheap hzero hbase] at hfree
    refine absurd (hfree.2 ⟨⟨rfl, hb.size_aligned, hb.size_pos, ?_⟩, hall⟩) (by simp)
    -- the page behind the managed space would be free
    by_contra hbig
    obtain ⟨a, ha, -⟩ := hall (maxAddress / citraPageSize) ⟨Nat.zero_le _, by
      rw [Nat.div_mul_cancel (by decide)]
      omega⟩
    rw [VMManager.pageMap, Nat.div_mul_cancel (by decide),
      hp.consistent.tiles.valueAt_eq_none (Or.inr le_rfl)] at ha
    cases ha
  | false =>
    obtain ⟨hr, hall⟩ := hfree.1 rfl
    obtain ⟨m, hm, hbacked, hunmaps⟩ : ∃ m, p.vmManager.mapBlocks isCached .shared (convertPermissions permissions)
        b.backingBlocks (b.targetAddress address) = some m ∧ _ := mapBlocks_mapped hp hb hr hall
    rw [if_neg (by simp), hm, Option.map_some] at hmap
    constructor
    · rintro ⟨r, p', hrun, hresult⟩ ⟨hzero, hbase, -⟩
      obtain ⟨rfl, rfl⟩ := Prod.mk.inj (Option.some.inj (hmap.symm.trans hrun))
      obtain ⟨e, he, -⟩ | ⟨-, hplace, -⟩ := hresult
      · cases he
      · rw [hheap hzero hbase] at hplace
        obtain ⟨hlo, -⟩ | ⟨-, hbase', -⟩ := hplace
        · exact absurd hlo (by decide)
        · exact hbase hbase'
    · intro hnot
      refine ⟨_, _, hmap, Or.inr ⟨rfl, ?_, hbacked, hunmaps⟩⟩
      obtain rfl | ⟨hlo, hhi⟩ := hpasses
      · have hbase : b.baseAddress = 0 := by
          by_contra hbase
          rw [hheap rfl hbase] at hall
          exact hnot ⟨rfl, hbase, hall⟩
        exact Or.inr ⟨rfl, hbase, hb.targetAddress_linear hbase⟩
      · have hne : address ≠ 0 := by
          have hpos : 0 < heapVaddr := by decide
          omega
        rw [add32_of_lt hwrap] at hhi
        rw [targetAddress_of_ne hne]
        exact Or.inl ⟨hlo, hhi.le⟩

/-- `Map` returns, leaves everything as it was or maps the block where it may so that it can be unmapped again, exactly
if its permissions do not match or the bounds of the target are not misjudged. -/
theorem mapsSafely_iff (isCached : Nat → Bool) (s : KernelMemory) (h : MemoryReachable isCached s) (b : SharedMemory)
    (hb : b.OfPages) (address permissions otherPermissions : UInt32)
    (haligned : address.toNat % citraPageSize = 0) :
    b.MapsSafely isCached s.process address.toNat permissions otherPermissions ↔
      ¬ (b.Permitted permissions otherPermissions ∧ b.Misjudged s.process address.toNat) := by
  have hp := h.orderly.process
  have hlt := address.toNat_lt
  by_cases hperm : b.Permitted permissions otherPermissions
  swap
  · obtain ⟨e, hmap⟩ : ∃ e, b.map isCached s.process address.toNat permissions otherPermissions =
        some (.error e, s.process) := map_of_not_permitted hperm
    exact iff_of_true ⟨_, _, hmap, Or.inl ⟨e, rfl, rfl⟩⟩ fun h => hperm h.1
  rw [and_iff_right hperm, Misjudged]
  have hsize := hb.size_lt
  have hheap : 0 < heapVaddr := by decide
  by_cases hpasses : b.Passes address.toNat
  · by_cases hwrap : address.toNat + b.size < 2 ^ 32
    · rw [mapsSafely_unwrapped hp hb hperm haligned hpasses hwrap, or_iff_left (by omega)]
    · obtain hzero | ⟨hlo, hhi⟩ := hpasses
      · omega
      rw [mapsSafely_wrapped hp hb hperm haligned hlo hhi (not_lt.1 hwrap)]
      have hend : address.toNat + b.size - 2 ^ 32 < sharedMemoryVaddrEnd := by
        rw [add32] at hhi
        omega
      rw [or_iff_right (by omega), and_iff_right hlo, and_iff_right (not_lt.1 hwrap), and_iff_right hend]
  · have hmap : b.map isCached s.process address.toNat permissions otherPermissions = _ := map_of_permitted hperm
    rw [if_pos (by rw [Passes] at hpasses; omega)] at hmap
    refine iff_of_true ⟨_, _, hmap, Or.inl ⟨_, rfl, rfl⟩⟩ ?_
    rintro (⟨hzero, -⟩ | ⟨hlo, hwrap, hend, -⟩)
    · exact hpasses (Or.inl hzero)
    · refine hpasses (Or.inr ⟨hlo, ?_⟩)
      rw [add32]
      omega

/-- A block of one page of the linear heap. -/
def onePage : SharedMemory :=
  ⟨0, [(⟨fcramMem, 0⟩, 0x1000)], 0x1000, 3, 3, true, false, 0, IntervalSet.empty.insert ⟨0, 0x1000⟩⟩

theorem ofPages_onePage : onePage.OfPages where
  fits := {
    size_eq := rfl
    blocks := by decide
    holding := by
      rw [onePage, IntervalSet.toFinset_insert, IntervalSet.toFinset_empty, Finset.union_empty]
      intro x hx
      rw [Interval.mem_toFinset] at hx
      exact Finset.mem_range.2 (hx.2.trans (by decide)) }
  size_lt := by decide
  size_pos := by decide
  pages := by decide
  linear := fun _ => ⟨by decide, by decide⟩

/-- A new process maps the block at its place in the linear heap. -/
theorem mapsSafely_onePage :
    MemoryReachable (fun _ => false) freshKernel ∧
      onePage.MapsSafely (fun _ => false) freshProcess (0 : UInt32).toNat 3 dontCare := by
  refine ⟨reachable_freshKernel, ?_⟩
  refine (mapsSafely_iff (fun _ => false) freshKernel reachable_freshKernel onePage ofPages_onePage 0 3 dontCare
    (by decide)).2 ?_
  rintro ⟨-, ⟨-, hbase, -⟩ | ⟨hlo, -⟩⟩
  · exact hbase rfl
  · exact absurd hlo (by decide)

/-- A new process maps the block at the last page of the address space: its end wraps around to 0, and `FindVMA`
finds no area. -/
theorem map_dereferences_end :
    ¬ ∀ (isCached : Nat → Bool) (s : KernelMemory), MemoryReachable isCached s → ∀ b : SharedMemory, b.OfPages →
      ∀ address permissions otherPermissions : UInt32, address.toNat % citraPageSize = 0 →
        b.MapsSafely isCached s.process address.toNat permissions otherPermissions := by
  intro hall
  obtain ⟨r, p', hmap, -⟩ := hall (fun _ => false) freshKernel reachable_freshKernel onePage ofPages_onePage
    0xFFFFF000 3 dontCare (by decide)
  have hnone : (onePage.map (fun _ => false) freshKernel.process (0xFFFFF000 : UInt32).toNat 3 dontCare).isNone =
      true := by
    decide +kernel
  rw [hmap] at hnone
  cases hnone

end SharedMemory

end AzaharPlus.Kernel
