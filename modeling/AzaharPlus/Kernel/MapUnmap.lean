import AzaharPlus.Kernel.FailedCalls

/-!
# Mapping and unmapping again

`Map` marks its source as aliased and maps the memory behind it a second time; `Unmap` undoes both.  What lies
between them is the address space as a whole: `Map` gives the permissions of the alias to the area that the alias has
been merged with, and `Unmap` does not give that area its own permissions back.

* `unmap_inverts_map_iff`: after a `Map` that succeeds `Unmap` brings every page back to what it was, exactly if no
  page next to the target is caught by the `Map`, and the pages of the source had read and write permission only;
* `unmap_does_not_invert`: a page is aliased next to the alias of the page before it, with read permission only, and
  after the `Unmap` the other alias cannot be written any more.
-/

namespace AzaharPlus.Kernel

open Tiling

/-- A page next to the target of a `Map` is caught: the alias is not to be read and written, and the page before or
behind the target is an alias with read and write permission, of the memory before or behind that of the source. -/
def PageMap.CatchesAlias (P : PageMap) (perms : VMAPermission) (target source size : Nat) : Prop :=
  perms ≠ permReadWrite ∧
    ((∃ page sourcePage memory, (page + 1) * citraPageSize = target ∧ sourcePage * citraPageSize = source ∧
        P page = some (mappedAttributes memory .alias_) ∧
        (P sourcePage).bind Attributes.backingMemory = some (memory.shift citraPageSize)) ∨
      ∃ page sourcePage memory, page * citraPageSize = target + size ∧
        (sourcePage + 1) * citraPageSize = source + size ∧
        (P sourcePage).bind Attributes.backingMemory = some memory ∧
        P page = some (mappedAttributes (memory.shift citraPageSize) .alias_))

/-- `Map` has made an alias of the source, and `Unmap` with read and write permission brings all pages back to what
they were. -/
structure UnmapInverts (isCached : Nat → Bool) (p p' : ProcessMemory) (target source size : Nat) : Prop where
  alias_eq : ∀ i, i * citraPageSize < size → ∃ memory,
    p'.vmManager.backing (target + i * citraPageSize) = some memory ∧
      p'.vmManager.backing (source + i * citraPageSize) = some memory
  restores : ∃ p'', p'.unmap isCached target source size permReadWrite = some (.ok (), p'') ∧
    p''.vmManager.pageMap = p.vmManager.pageMap ∧
    p''.vmManager.pageMap.All source size (fun a => a.meminfoState = .private_ ∧ a.permissions = permReadWrite) ∧
    p''.vmManager.pageMap.All target size (· = freeAttributes)

variable {isCached : Nat → Bool} {p p' : ProcessMemory} {target source size : Nat} {perms : VMAPermission}

/-- What a change of a range makes of the pages. -/
theorem Changed.pageMap_eq {m m' : VMManager} {change : Attributes → Attributes}
    (h : Changed isCached m m' change target size) (page : Nat) :
    m'.pageMap page = if InRange target size page then (m.pageMap page).map change else m.pageMap page := by
  rw [VMManager.pageMap, h.values]
  rfl

theorem not_inRange_of_apart (h : source + size ≤ target ∨ target + size ≤ source) {page : Nat}
    (hpage : InRange source size page) : ¬ InRange target size page := by
  rw [InRange] at *
  omega

/-! ## What `Map` does -/

/-- A `Map` that has succeeded: `m` is the address space once the source has been marked. -/
structure Mapped (isCached : Nat → Bool) (p p' : ProcessMemory) (target source size : Nat) (perms : VMAPermission)
    (m : VMManager) (blocks : List (MemoryRef × Nat)) : Prop where
  inHeap : ProcessMemory.outside heapVaddr heapVaddrEnd source size = false
  notOverlapping : ProcessMemory.overlapping source target size = false
  apart : source + size ≤ target ∨ target + size ≤ source
  marked : Changed isCached p.vmManager m (VMManager.restateAttributes .aliased permReadWrite) source size
  wasPrivate : p.vmManager.pageMap.All source size fun a =>
    a.meminfoState = .private_ ∧ a.permissions &&& permReadWrite = permReadWrite
  size_eq : blocksSize blocks = size
  room : ∀ b ∈ blocks, b.1.offset + b.2 ≤ b.1.backingMem.size
  laid_source : ∀ a, source ≤ a → a < source + size → ∃ memory, p.vmManager.backing a = some memory ∧
    laid blocks source a = some memory
  mapped : m.mapBlocks isCached .alias_ perms blocks target = some p'.vmManager

theorem map_mapped (hp : p.Orderly isCached) (hs : source < 2 ^ 32) (ht : target < 2 ^ 32)
    (h : p.map isCached target source size perms = some (.ok (), p')) :
    ∃ m blocks, Mapped isCached p p' target source size perms m blocks := by
  rw [ProcessMemory.map_eq] at h
  split_ifs at h with hout hover
  · cases (Prod.mk.inj (Option.some.inj h)).1
  · cases (Prod.mk.inj (Option.some.inj h)).1
  rw [Bool.not_eq_true] at hout hover
  obtain ⟨e, he, -⟩ | ⟨m, blocks, m', -, -, hstate, hblocks, hmap, rfl⟩ :=
    ProcessMemory.mapChecked_cases hp.consistent h
  · cases he
  obtain ⟨hne, -⟩ | ⟨-, hchanged, hareas⟩ := changeMemoryState_changes hp.consistent hstate
  · exact absurd rfl hne
  obtain ⟨rblocks, hblocks', hspec⟩ := backingBlocks_spec hchanged.consistent hchanged.range.stop_le size source
    (Nat.le_add_right _ _) (by omega)
  obtain rfl := Option.some.inj (hblocks'.symm.trans hblocks)
  obtain ⟨hsize, hroom, hlaid⟩ := hspec blocks rfl
  have hbacking : m.backing = p.vmManager.backing := backing_changedOn hchanged.values fun _ => rfl
  refine ⟨m, blocks, hout, hover, apart_of_not_overlapping hs ht hover, hchanged, ?_, by omega, hroom, ?_, hmap⟩
  · exact (all_iff_areas hp.consistent.tiles hp.consistent.wellFormed hchanged.range (fun _ _ => Iff.rfl)).2 hareas
  · rw [← hbacking]
    exact hlaid

namespace Mapped

variable {m : VMManager} {blocks : List (MemoryRef × Nat)}

/-- The alias has the memory of the source. -/
theorem backing_eq (h : Mapped isCached p p' target source size perms m blocks) {i : Nat} (hi : i < size) :
    ∃ memory, p'.vmManager.backing (target + i) = some memory ∧
      p'.vmManager.backing (source + i) = some memory := by
  obtain ⟨memory, hmem, hlaid⟩ := h.laid_source (source + i) (Nat.le_add_right _ _) (by omega)
  obtain ⟨-, hb⟩ := mapBlocks_returns h.marked.consistent h.room h.mapped
  have hbacking : m.backing = p.vmManager.backing := backing_changedOn h.marked.values fun _ => rfl
  have hapart := h.apart
  have hnone : laid blocks target (source + i) = none := by
    rw [Option.eq_none_iff_forall_ne_some]
    intro r hr
    have hin := (laid_eq_some hr).1
    rw [h.size_eq] at hin
    omega
  refine ⟨memory, ?_, ?_⟩
  · rw [hb, laid_translate target source i, hlaid, Option.some_or]
  · rw [hb, hnone, Option.none_or, hbacking, hmem]

/-- Once the source has been marked no page of it is an alias. -/
theorem source_not_alias (h : Mapped isCached p p' target source size perms m blocks) (page : Nat)
    (hpage : InRange source size page) : ∀ x ∈ m.pageMap page, x.meminfoState ≠ .alias_ := by
  intro x hx
  rw [h.marked.pageMap_eq, if_pos hpage] at hx
  obtain ⟨y, -, rfl⟩ := Option.map_eq_some_iff.1 hx
  simp [VMManager.restateAttributes]

/-- The pages of the source in between. -/
theorem pageMap_source (h : Mapped isCached p p' target source size perms m blocks) {page : Nat}
    (hpage : InRange source size page) :
    p'.vmManager.pageMap page =
      (p.vmManager.pageMap page).map (VMManager.restateAttributes .aliased permReadWrite) := by
  have hmark : m.pageMap page =
      (p.vmManager.pageMap page).map (VMManager.restateAttributes .aliased permReadWrite) := by
    rw [h.marked.pageMap_eq, if_pos hpage]
  rw [← hmark]
  refine mapBlocks_keeps h.marked.consistent h.room h.mapped ?_ ?_
  · rw [h.size_eq]
    exact not_inRange_of_apart h.apart hpage
  · exact h.source_not_alias page hpage

/-- The pages of the target are mapped. -/
theorem target_mapped (h : Mapped isCached p p' target source size perms m blocks) :
    p'.vmManager.pageMap.All target size (·.type ≠ .free) := by
  intro page hpage
  obtain ⟨memory, -, hvalue⟩ := mapBlocks_target h.marked.consistent h.room h.mapped hpage.1
    (by rw [h.size_eq]; exact hpage.2)
  exact ⟨_, hvalue, by simp [laidAttributes]⟩

theorem blocks_ne_nil (h : Mapped isCached p p' target source size perms m blocks) : blocks ≠ [] := by
  rintro rfl
  have hsize := h.size_eq
  have hpos := h.marked.range.pos
  rw [blocksSize_nil] at hsize
  omega

theorem target_isRange (h : Mapped isCached p p' target source size perms m blocks) : IsRange target size := by
  obtain ⟨-, -, hr⟩ := mapBlocks_consistent h.marked.consistent h.room h.mapped
  rw [← h.size_eq]
  exact hr h.blocks_ne_nil

/-- `Unmap` succeeds, and what it makes of the pages. -/
theorem unmap (h : Mapped isCached p p' target source size perms m blocks) (hp' : p'.Orderly isCached) :
    ∃ p'', p'.unmap isCached target source size permReadWrite = some (.ok (), p'') ∧
      ∀ page, p''.vmManager.pageMap page =
        if InRange source size page then
          (p.vmManager.pageMap page).map (VMManager.restateAttributes .private_ permReadWrite)
        else if InRange target size page then some freeAttributes
        else p'.vmManager.pageMap page := by
  have hm' := hp'.consistent
  have hr := h.target_isRange
  obtain ⟨m₁, hunmap, hfreed⟩ := unmapRange_ok hm' hp'.freeMerged hr
    ((all_iff_areas hm'.tiles hm'.wellFormed hr (fun _ _ => Iff.rfl)).1 h.target_mapped)
  have hm₁ := hfreed.consistent
  have hsource : ∀ page, InRange source size page → m₁.pageMap page =
      (p.vmManager.pageMap page).map (VMManager.restateAttributes .aliased permReadWrite) := by
    intro page hpage
    rw [hfreed.pageMap_eq, if_neg (not_inRange_of_apart h.apart hpage), h.pageMap_source hpage]
  -- the source is still marked
  have haliased : m₁.pageMap.All source size fun a =>
      a.meminfoState = .aliased ∧ a.permissions &&& permNone = permNone := by
    intro page hpage
    obtain ⟨a, ha, -⟩ := h.wasPrivate page hpage
    refine ⟨VMManager.restateAttributes .aliased permReadWrite a, ?_, rfl, ?_⟩
    · rw [hsource page hpage, ha]
      rfl
    · show permReadWrite &&& permNone = permNone
      decide
  obtain ⟨m₂, hrestate, hrestored⟩ : ∃ m₂,
      m₁.changeMemoryState isCached source size .aliased permNone .private_ permReadWrite = some (.ok (), m₂) ∧
      Changed isCached m₁ m₂ (VMManager.restateAttributes .private_ permReadWrite) source size :=
    changeMemoryState_ok hm₁ h.marked.range (by decide)
      ((all_iff_areas hm₁.tiles hm₁.wellFormed h.marked.range (fun _ _ => Iff.rfl)).1 haliased)
  refine ⟨{ p' with vmManager := m₂ }, ?_, fun page => ?_⟩
  · rw [ProcessMemory.unmap_eq, h.inHeap, h.notOverlapping]
    simp only [Bool.false_eq_true, if_false, ProcessMemory.unmapChecked, hunmap, Option.bind_eq_bind,
      Option.bind_some, hrestate]
    rfl
  · by_cases hpage : InRange source size page
    · rw [hrestored.pageMap_eq, if_pos hpage, if_pos hpage, hsource page hpage, Option.map_map]
      rfl
    · rw [hrestored.pageMap_eq, if_neg hpage, if_neg hpage, hfreed.pageMap_eq]
      by_cases htarget : InRange target size page
      · obtain ⟨a, ha, -⟩ := h.target_mapped page htarget
        rw [if_pos htarget, if_pos htarget, ha]
        rfl
      · rw [if_neg htarget, if_neg htarget]

/-- The memory of the first block is that of the first page of the source. -/
theorem head_eq (h : Mapped isCached p p' target source size perms m blocks) {b : MemoryRef × Nat}
    (hb : b ∈ blocks.head?) : p.vmManager.backing source = some b.1 := by
  have hpos := mapBlocks_pos h.marked.consistent h.room h.mapped b (List.mem_of_mem_head? hb)
  have hsize := h.marked.range.pos
  obtain ⟨memory, hmem, hlaid⟩ := h.laid_source source le_rfl (by omega)
  rw [laid_first hb hpos] at hlaid
  rw [hmem, hlaid]

/-- The memory of the last block ends with that of the last page of the source. -/
theorem last_eq (h : Mapped isCached p p' target source size perms m blocks) (hm : Consistent isCached p.vmManager)
    {b : MemoryRef × Nat} (hb : b ∈ blocks.getLast?) {sourcePage : Nat}
    (hpage : (sourcePage + 1) * citraPageSize = source + size) :
    ∃ memory, (p.vmManager.pageMap sourcePage).bind Attributes.backingMemory = some memory ∧
      b.1.shift b.2 = memory.shift citraPageSize := by
  have hpos := mapBlocks_pos h.marked.consistent h.room h.mapped b (List.mem_of_getLast? hb)
  have hsize := h.marked.range.pos
  obtain ⟨memory, hmem, hlaid⟩ := h.laid_source (source + size - 1) (by omega) (by omega)
  have hlast : laid blocks source (source + blocksSize blocks - 1) = some (b.1.shift (b.2 - 1)) := laid_last hb hpos
  rw [h.size_eq, hlaid] at hlast
  have haddr : source + size - 1 = sourcePage * citraPageSize + (citraPageSize - 1) := by
    rw [← hpage, Nat.add_mul, Nat.one_mul, Nat.add_sub_assoc (by decide)]
  rw [VMManager.backing, haddr, hm.valueAt_page (by decide)] at hmem
  cases hvalue : p.vmManager.pageMap sourcePage with
  | none =>
    rw [hvalue] at hmem
    cases hmem
  | some x =>
    rw [hvalue, Option.map_some, Option.bind_some, vadd_def, Attributes.shift] at hmem
    obtain ⟨first, hfirst, hshift⟩ := Option.map_eq_some_iff.1 hmem
    refine ⟨first, hfirst, ?_⟩
    have hnext : (first.shift (citraPageSize - 1)).shift 1 = (b.1.shift (b.2 - 1)).shift 1 := by
      rw [hshift, Option.some.inj hlast]
    simp only [MemoryRef.shift, Nat.add_assoc, MemoryRef.mk.injEq] at hnext ⊢
    obtain ⟨hmem', hoff⟩ := hnext
    refine ⟨hmem'.symm, ?_⟩
    rw [Nat.sub_add_cancel (by decide), Nat.sub_add_cancel hpos] at hoff
    exact hoff.symm

/-- An alias is no part of the source, before it is marked and after. -/
theorem alias_page (h : Mapped isCached p p' target source size perms m blocks) {page : Nat} {memory : MemoryRef} :
    m.pageMap page = some (mappedAttributes memory .alias_) ↔
      p.vmManager.pageMap page = some (mappedAttributes memory .alias_) := by
  rw [h.marked.pageMap_eq]
  by_cases hpage : InRange source size page
  · obtain ⟨a, ha, hprivate, -⟩ := h.wasPrivate page hpage
    rw [if_pos hpage, ha]
    refine iff_of_false (fun heq => ?_) (fun heq => ?_)
    · cases congrArg Attributes.meminfoState (Option.some.inj heq)
    · rw [Option.some.inj heq] at hprivate
      cases hprivate
  · rw [if_neg hpage]

/-- Which pages are caught can be told before the `Map`. -/
theorem caught_iff (h : Mapped isCached p p' target source size perms m blocks)
    (hm : Consistent isCached p.vmManager) :
    m.pageMap.Caught .alias_ perms blocks target ↔ p.vmManager.pageMap.CatchesAlias perms target source size := by
  have hsource : source / citraPageSize * citraPageSize = source :=
    Nat.div_mul_cancel (Nat.dvd_of_mod_eq_zero h.marked.range.target_aligned)
  have hlastPage := page_below h.marked.range.stop_aligned (Nat.add_pos_right source h.marked.range.pos)
  refine and_congr_right fun _ => or_congr ⟨?_, ?_⟩ ⟨?_, ?_⟩
  · rintro ⟨b, hb, page, x, hpage, hx, hnext⟩
    obtain ⟨memory, rfl⟩ := exists_mappedAttributes hnext
    refine ⟨page, source / citraPageSize, memory, hpage, hsource, h.alias_page.1 hx, ?_⟩
    have hfirst := h.head_eq hb
    rw [VMManager.backing] at hfirst
    rw [VMManager.pageMap, hsource, hfirst]
    exact (congrArg Attributes.backingMemory hnext).symm
  · rintro ⟨page, sourcePage, memory, hpage, hsourcePage, hx, hnext⟩
    obtain ⟨b, hb⟩ := Option.isSome_iff_exists.1 (List.isSome_head?.2 h.blocks_ne_nil)
    refine ⟨b, hb, page, _, hpage, h.alias_page.2 hx, ?_⟩
    have hfirst := h.head_eq hb
    rw [VMManager.pageMap, hsourcePage] at hnext
    rw [VMManager.backing, hnext] at hfirst
    rw [← Option.some.inj hfirst]
    rfl
  · rintro ⟨b, hb, page, hpage, hx⟩
    rw [h.size_eq] at hpage
    obtain ⟨memory, hmem, hshift⟩ := h.last_eq hm hb hlastPage
    rw [hshift] at hx
    exact ⟨page, _, memory, hpage, hlastPage, hmem, h.alias_page.1 hx⟩
  · rintro ⟨page, sourcePage, memory, hpage, hsourcePage, hmem, hx⟩
    obtain ⟨b, hb⟩ := Option.ne_none_iff_exists'.1 (mt List.getLast?_eq_none_iff.1 h.blocks_ne_nil)
    obtain ⟨memory', hmem', hshift⟩ := h.last_eq hm hb hsourcePage
    obtain rfl := Option.some.inj (hmem.symm.trans hmem')
    rw [← hshift] at hx
    exact ⟨b, hb, page, by rw [h.size_eq]; exact hpage, h.alias_page.2 hx⟩

/-- The target was free before. -/
theorem target_free (h : Mapped isCached p p' target source size perms m blocks) {page : Nat}
    (hpage : InRange target size page) : p.vmManager.pageMap page = some freeAttributes := by
  have hkept : m.pageMap page = p.vmManager.pageMap page := by
    rw [h.marked.pageMap_eq, if_neg (not_inRange_of_apart h.apart.symm hpage)]
  rw [← hkept]
  exact mapBlocks_free h.marked.consistent h.room h.mapped hpage.1 (by rw [h.size_eq]; exact hpage.2)

/-- `Unmap` brings the pages back exactly if none was caught and the source had read and write permission only. -/
theorem inverts_iff (h : Mapped isCached p p' target source size perms m blocks) (hp : p.Orderly isCached)
    (hp' : p'.Orderly isCached) :
    UnmapInverts isCached p p' target source size ↔
      ¬ p.vmManager.pageMap.CatchesAlias perms target source size ∧
        p.vmManager.pageMap.All source size (·.permissions = permReadWrite) := by
  obtain ⟨p'', hunmap, hpages⟩ := h.unmap hp'
  have hframe := mapBlocks_frame_iff h.marked.consistent h.room h.mapped (InRange source size) h.source_not_alias
  rw [h.caught_iff hp.consistent, h.size_eq] at hframe
  rw [← hframe]
  constructor
  · rintro ⟨-, p₁, hunmap', hrestored, hsource, -⟩
    obtain ⟨-, rfl⟩ := Prod.mk.inj (Option.some.inj (hunmap.symm.trans hunmap'))
    refine ⟨fun page htarget hsource => ?_, fun page hpage => ?_⟩
    · have heq := congrFun hrestored page
      rw [hpages, if_neg hsource, if_neg htarget] at heq
      rw [heq, h.marked.pageMap_eq, if_neg hsource]
    · obtain ⟨a, ha, -, hperms⟩ := hsource page hpage
      exact ⟨a, by rw [← hrestored]; exact ha, hperms⟩
  · rintro ⟨hkeeps, hreadWrite⟩
    have hrestored : p''.vmManager.pageMap = p.vmManager.pageMap := by
      funext page
      rw [hpages]
      by_cases hpage : InRange source size page
      · obtain ⟨a, ha, hstate, -⟩ := h.wasPrivate page hpage
        obtain ⟨a', ha', hperms⟩ := hreadWrite page hpage
        obtain rfl := Option.some.inj (ha.symm.trans ha')
        rw [if_pos hpage, ha, Option.map_some, VMManager.restateAttributes, ← hstate, ← hperms]
      · rw [if_neg hpage]
        by_cases htarget : InRange target size page
        · rw [if_pos htarget, h.target_free htarget]
        · rw [if_neg htarget, hkeeps page htarget hpage, h.marked.pageMap_eq, if_neg hpage]
    refine ⟨fun i hi => h.backing_eq hi, p'', hunmap, hrestored, fun page hpage => ?_, fun page hpage => ?_⟩
    · obtain ⟨a, ha, -⟩ := h.wasPrivate page hpage
      refine ⟨_, by rw [hpages, if_pos hpage, ha]; rfl, rfl, rfl⟩
    · exact ⟨_, by rw [hrestored, h.target_free hpage], rfl⟩

end Mapped

/-- For every reachable state and every `Map` that succeeds: the alias has the memory of the source, and `Unmap`
succeeds and brings all pages back, the source private and with read and write permission and the target free,
exactly if no page next to the target is caught, and every page of the source had read and write permission and no
other. -/
theorem unmap_inverts_map_iff (isCached : Nat → Bool) (s : KernelMemory) (hreach : MemoryReachable isCached s)
    (target source size : UInt32) (perms : VMAPermission) (p' : ProcessMemory)
    (h : s.process.map isCached target.toNat source.toNat size.toNat perms = some (.ok (), p')) :
    UnmapInverts isCached s.process p' target.toNat source.toNat size.toNat ↔
      ¬ s.process.vmManager.pageMap.CatchesAlias perms target.toNat source.toNat size.toNat ∧
        s.process.vmManager.pageMap.All source.toNat size.toNat (·.permissions = permReadWrite) := by
  have hp := hreach.orderly.process
  obtain ⟨m, blocks, hmapped⟩ := map_mapped hp source.toNat_lt target.toNat_lt h
  exact hmapped.inverts_iff hp (hp.map h)

/-- A committed page is aliased with read permission, away from other aliases, and the alias is unmapped again. -/
theorem unmap_inverts_map_committed :
    ∃ p p', MemoryReachable (fun _ => false) { freshKernel with process := p } ∧
      p.map (fun _ => false) 0x08002000 0x08000000 0x1000 1 = some (.ok (), p') ∧
      UnmapInverts (fun _ => false) p p' 0x08002000 0x08000000 0x1000 := by
  have hrun : (committed.bind fun p => (p.map (fun _ => false) 0x08002000 0x08000000 0x1000 1).map fun r =>
      decide (r.1 = .ok () ∧ p.vmManager.pageMap 0x8001 = some freeAttributes ∧
        p.vmManager.pageMap 0x8003 = some freeAttributes ∧
        (p.vmManager.pageMap 0x8000).map Attributes.permissions = some permReadWrite)) = some true := by
    decide +kernel
  obtain ⟨p, hp, hrun⟩ := Option.bind_eq_some_iff.1 hrun
  obtain ⟨⟨r, p'⟩, hmap, hfacts⟩ := Option.map_eq_some_iff.1 hrun
  obtain ⟨rfl, hbefore, hbehind, hperms⟩ := of_decide_eq_true hfacts
  have hreach : MemoryReachable (fun _ => false) { freshKernel with process := p } :=
    reachable_freshKernel.controlPage hp
  refine ⟨p, p', hreach, hmap, ?_⟩
  refine (unmap_inverts_map_iff (fun _ => false) _ hreach 0x08002000 0x08000000 0x1000 1 p' hmap).2 ⟨?_, ?_⟩
  · rintro ⟨-, ⟨page, -, memory, hpage, -, hx, -⟩ | ⟨page, -, memory, hpage, -, -, hx⟩⟩
    · obtain rfl : page = 0x8001 := by
        simp only [citraPageSize, UInt32.reduceToNat] at hpage
        omega
      cases congrArg Attributes.type (Option.some.inj (hbefore.symm.trans hx))
    · obtain rfl : page = 0x8003 := by
        simp only [citraPageSize, UInt32.reduceToNat] at hpage
        omega
      cases congrArg Attributes.type (Option.some.inj (hbehind.symm.trans hx))
  · intro page hpage
    obtain rfl : page = 0x8000 := by
      simp only [InRange, citraPageSize, UInt32.reduceToNat] at hpage
      omega
    exact Option.map_eq_some_iff.1 hperms

/-- Two pages are committed that lie behind each other in memory too, and the second one is aliased. -/
def aliasedBehind : Option ProcessMemory :=
  ((controlPage 0x08001000 0 3 freshProcess).bind (controlPage 0x08000000 0 3)).bind
    (controlPage 0x08005000 0x08001000 4)

/-- The first page is aliased before the alias of the second one, with read permission only, and the alias is
unmapped: the alias of the second page has lost its write permission. -/
theorem unmap_does_not_invert :
    ¬ ∀ (isCached : Nat → Bool) (s : KernelMemory), MemoryReachable isCached s →
      ∀ (target source size : UInt32) (perms : VMAPermission) (p' : ProcessMemory),
        s.process.map isCached target.toNat source.toNat size.toNat perms = some (.ok (), p') →
        UnmapInverts isCached s.process p' target.toNat source.toNat size.toNat := by
  intro hall
  have hrun : (aliasedBehind.bind fun p => (p.map (fun _ => false) 0x08004000 0x08000000 0x1000 1).bind fun r =>
      (r.2.unmap (fun _ => false) 0x08004000 0x08000000 0x1000 permReadWrite).map fun r' =>
        decide (r.1 = .ok () ∧ (p.vmManager.pageMap 0x8005).map Attributes.permissions = some permReadWrite ∧
          (r'.2.vmManager.pageMap 0x8005).map Attributes.permissions = some 1)) = some true := by
    decide +kernel
  obtain ⟨p, hp, hrun⟩ := Option.bind_eq_some_iff.1 hrun
  obtain ⟨⟨r, p'⟩, hmap, hrun⟩ := Option.bind_eq_some_iff.1 hrun
  obtain ⟨r', hunmap, hfacts⟩ := Option.map_eq_some_iff.1 hrun
  obtain ⟨rfl, hbefore, hafter⟩ := of_decide_eq_true hfacts
  obtain ⟨p₂, hp₂, hp₃⟩ := Option.bind_eq_some_iff.1 hp
  obtain ⟨p₁, hp₁, hp₂⟩ := Option.bind_eq_some_iff.1 hp₂
  have hreach : MemoryReachable (fun _ => false) { freshKernel with process := p } :=
    ((reachable_freshKernel.controlPage hp₁).controlPage hp₂).controlPage hp₃
  obtain ⟨-, p'', hunmap', hrestored, -⟩ := hall _ _ hreach 0x08004000 0x08000000 0x1000 1 p' hmap
  obtain rfl := Option.some.inj (hunmap.symm.trans hunmap')
  rw [hrestored, hbefore] at hafter
  cases hafter

end AzaharPlus.Kernel
