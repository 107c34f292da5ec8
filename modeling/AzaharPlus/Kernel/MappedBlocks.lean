import AzaharPlus.Kernel.AddressSpace

/-!
# Mapping blocks of memory

What the loop that `HeapAllocate`, `LinearAllocate`, `Map` and `SharedMemory::Map` share does to the pages.  Each
block is mapped with read and write permission, merged with its neighbours, and then the area it has become part of
is given the permissions that were asked for.

* `mapBlocks_target`: the pages of the target are mapped to the blocks as asked for;
* `mapBlocks_frame_iff`: the pages outside of it keep their attributes, unless the permissions are other ones than
  read and write and the page before or the page behind the target carries on from the blocks.
-/

namespace AzaharPlus.Kernel

open Tiling

variable {isCached : Nat → Bool}

/-- The attributes of a page of the target. -/
def laidAttributes (perms : VMAPermission) (state : MemoryState) (memory : MemoryRef) : Attributes :=
  ⟨.backingMemory, perms, state, some memory⟩

/-! ## One block -/

/-- The first block carries on from what lies below the target. -/
def CarriesOnBelow (value : Nat → Option Attributes) (state : MemoryState) (blocks : List (MemoryRef × Nat))
    (target : Nat) : Prop :=
  ∃ b ∈ blocks.head?, 0 < target ∧ ∃ x, value (target - 1) = some x ∧
    (1 : ℕ) +ᵥ x = mappedAttributes b.1 state

/-- What lies behind the target carries on from the last block. -/
def CarriesOnBehind (value : Nat → Option Attributes) (state : MemoryState) (blocks : List (MemoryRef × Nat))
    (target : Nat) : Prop :=
  ∃ b ∈ blocks.getLast?, value (target + blocksSize blocks) = some (mappedAttributes (b.1.shift b.2) state)

/-- The values after blocks were mapped: those of the target are given by the blocks, and those next to it, from
`lo` on and up to `hi`, have been given the new permissions too. -/
structure Laid (m m' : VMManager) (state : MemoryState) (perms : VMAPermission) (blocks : List (MemoryRef × Nat))
    (target lo hi : Nat) : Prop where
  lo_le : lo ≤ target
  le_hi : target + blocksSize blocks ≤ hi
  below : lo < target ↔ CarriesOnBelow (valueAt m.vmaMap) state blocks target
  behind : target + blocksSize blocks < hi ↔ CarriesOnBehind (valueAt m.vmaMap) state blocks target
  inside : ∀ a, target ≤ a → a < target + blocksSize blocks →
    valueAt m.vmaMap a = some freeAttributes ∧
      ∃ memory, laid blocks target a = some memory ∧ valueAt m'.vmaMap a = some (laidAttributes perms state memory)
  caught : ∀ a, lo ≤ a → a < hi → ¬ (target ≤ a ∧ a < target + blocksSize blocks) →
    ∃ memory, valueAt m.vmaMap a = some (mappedAttributes memory state) ∧
      valueAt m'.vmaMap a = some (laidAttributes perms state memory)
  outside : ∀ a, ¬ (lo ≤ a ∧ a < hi) → valueAt m'.vmaMap a = valueAt m.vmaMap a

/-- The neighbours of a range in a map in which one area took its place. -/
theorem settledMap_area {l : List VirtualMemoryArea} (h : Tiles 0 maxAddress l) {target size : Nat}
    (hr : IsRange target size) (memory : MemoryRef) (state : MemoryState) :
    ∃ v ∈ settledMap target size (mappedAttributes memory state) l, v.base ≤ target ∧ target + size ≤ v.stop ∧
      (v.base < target ↔ CarriesOnBelow (valueAt l) state [(memory, size)] target) ∧
      (target + size < v.stop ↔ CarriesOnBehind (valueAt l) state [(memory, size)] target) := by
  have hlt : target < target + size := Nat.lt_add_of_pos_right hr.pos
  have htiles := tiles_replaceRange h (Nat.zero_le target) hlt hr.stop_le (mappedAttributes memory state)
  have hrep : (cutAt target l).1.reverse.reverse ++
      ⟨target, size, mappedAttributes memory state⟩ :: (cutAt (target + size) l).2 =
      replaceRange target (target + size) (mappedAttributes memory state) l := by simp [replaceRange]
  rw [← hrep] at htiles
  obtain ⟨v, hv, hlo, hhi, hbelow, hbehind⟩ := Tiles.settle_tile htiles
  have hstop := hr.stop_le
  obtain ⟨hcut, hrest⟩ := h.cutAt (Nat.zero_le target) (by omega)
  obtain ⟨hcut', -⟩ := h.cutAt (Nat.zero_le (target + size)) hstop
  refine ⟨v, hv, hlo, hhi, hbelow.trans ?_, hbehind.trans ?_⟩
  · simp only [CarriesOnBelow, List.head?_cons, Option.mem_some_iff, exists_eq_left', List.reverse_reverse]
    by_cases hzero : target = 0
    · subst hzero
      rw [hcut.valueAt_eq_none (Or.inr (Nat.zero_le _))]
      simp
    · have hpos : 0 < target := Nat.pos_of_ne_zero hzero
      have hvalue : valueAt (cutAt target l).1 (target - 1) = valueAt l (target - 1) := by
        rw [← valueAt_cutAt target l, valueAt_append, hrest.valueAt_eq_none (Or.inl (by omega)),
          Option.or_none]
      rw [hvalue]
      exact ⟨fun hx => ⟨hpos, hx⟩, fun hx => hx.2⟩
  · simp only [CarriesOnBehind, List.getLast?_singleton, Option.mem_some_iff, exists_eq_left',
      blocksSize_cons, blocksSize_nil, Nat.add_zero]
    have hvalue : valueAt (cutAt (target + size) l).2 (target + size) = valueAt l (target + size) := by
      rw [← valueAt_cutAt (target + size) l, valueAt_append,
        hcut'.valueAt_eq_none (Or.inr le_rfl), Option.none_or]
    rw [show Tile.stop (⟨target, size, mappedAttributes memory state⟩ : VirtualMemoryArea) = target + size
      from rfl, hvalue]
    rfl

theorem exists_mappedAttributes {n : ℕ} {x : Attributes} {memory : MemoryRef} {state : MemoryState}
    (h : n +ᵥ x = mappedAttributes memory state) : ∃ r, x = mappedAttributes r state := by
  obtain ⟨type, perms, state', b⟩ := x
  rw [vadd_def, Attributes.shift, mappedAttributes] at h
  obtain ⟨rfl, rfl, rfl, hb⟩ := Attributes.mk.inj h
  obtain ⟨r, rfl, -⟩ := Option.map_eq_some_iff.1 hb
  exact ⟨r, rfl⟩

/-- `MapBackingMemory` of a block and `Reprotect` of the area it has become part of. -/
theorem mapBlock_laid {m m₁ m₂ : VMManager} {target size : Nat} {memory : MemoryRef} {state : MemoryState}
    {perms : VMAPermission} (hm : Consistent isCached m)
    (hroom : memory.offset + size ≤ memory.backingMem.size)
    (hmap : m.mapBackingMemory isCached target memory size state = some (.ok (), m₁))
    (hreprotect : m₁.reprotect isCached target perms = some m₂) :
    Consistent isCached m₂ ∧ (FreeMerged m.vmaMap → FreeMerged m₂.vmaMap) ∧ IsRange target size ∧
      ∃ lo hi, Laid m m₂ state perms [(memory, size)] target lo hi := by
  obtain ⟨hr, hm₁, hmap₁, hfree⟩ := mapBackingMemory_settles hm hroom hmap
  have hpos := hr.pos
  have hstop := hr.stop_le
  have hvalue₁ := valueAt_settledMap hm.tiles hr (mappedAttributes memory state)
  rw [← hmap₁] at hvalue₁
  have hmapped : (m₁.backing target).isSome := by
    rw [VMManager.backing, hvalue₁, if_pos (by omega)]
    rfl
  obtain ⟨hm₂, before, vma, after, hl, hlo, hhi, hnf, hmap₂, hvalue₂⟩ :=
    reprotect_changes hm₁ (by omega) hmapped hreprotect
  -- the area that is reprotected is the one the block has become part of
  obtain ⟨v, hv, hvlo, hvhi, hbelow, hbehind⟩ := settledMap_area hm.tiles hr memory state
  rw [← hmap₁] at hv
  have hvma : vma ∈ m₁.vmaMap := by rw [hl]; simp
  obtain rfl : v = vma := hm₁.tiles.eq_of_mem hv hvma hvlo (by omega) hlo hhi
  have hval : (target - v.base) +ᵥ v.val = mappedAttributes memory state := by
    have h₁ := hm₁.tiles.valueAt_of_mem hv hvlo hhi
    rw [hvalue₁, if_pos (by omega), Nat.sub_self] at h₁
    exact (Option.some.inj h₁).symm.trans (zero_vadd ℕ _)
  refine ⟨hm₂, ?_, hr, v.base, v.stop, hvlo, ?_, hbelow, ?_, ?_, ?_, ?_⟩
  · intro hfm
    have hfm₁ := hfm.settledMap target size (mappedAttributes memory state)
    rw [← hmap₁, hl] at hfm₁
    rw [hmap₂]
    exact coalescedOn_settle free_vadd (List.isChain_append.1 hfm₁).1 (List.isChain_append.1 hfm₁).2.1.tail
  · simpa using hvhi
  · simpa using hbehind
  · intro a h₁ h₂
    rw [blocksSize_cons, blocksSize_nil, Nat.add_zero] at h₂
    refine ⟨hfree a h₁ h₂, memory.shift (a - target), if_pos ⟨h₁, h₂⟩, ?_⟩
    rw [hvalue₂, changedOn, if_pos (by omega), hvalue₁, if_pos ⟨h₁, h₂⟩]
    rfl
  · intro a h₁ h₂ hout
    rw [blocksSize_cons, blocksSize_nil, Nat.add_zero] at hout
    obtain ⟨r, hr'⟩ := exists_mappedAttributes hval
    have ha := hm₁.tiles.valueAt_of_mem hv h₁ h₂
    rw [hr'] at ha
    refine ⟨r.shift (a - v.base), ?_, ?_⟩
    · rw [hvalue₁, if_neg hout] at ha
      exact ha
    · rw [hvalue₂, changedOn, if_pos ⟨h₁, h₂⟩, ha]
      rfl
  · intro a hout
    rw [hvalue₂, changedOn, if_neg hout, hvalue₁, if_neg (by omega)]

/-! ## All blocks -/

section

variable {state : MemoryState} {perms : VMAPermission} {blocks : List (MemoryRef × Nat)}

theorem mapBlocks_cons {memory : MemoryRef} {size target : Nat} {m m' : VMManager}
    (h : m.mapBlocks isCached state perms ((memory, size) :: blocks) target = some m') :
    ∃ m₁ m₂, m.mapBackingMemory isCached target memory size state = some (.ok (), m₁) ∧
      m₁.reprotect isCached target perms = some m₂ ∧
      m₂.mapBlocks isCached state perms blocks (target + size) = some m' := by
  simp only [VMManager.mapBlocks, Option.bind_eq_bind, Option.bind_eq_some_iff] at h
  obtain ⟨⟨r, m₁⟩, hmap, h⟩ := h
  cases r with
  | error e => cases h
  | ok =>
    obtain ⟨m₂, hreprotect, h⟩ := Option.bind_eq_some_iff.1 h
    exact ⟨m₁, m₂, hmap, hreprotect, h⟩

theorem IsRange.stop_aligned {target size : Nat} (h : IsRange target size) :
    (target + size) % citraPageSize = 0 := by
  have h₁ := h.target_aligned
  have h₂ := h.size_aligned
  simp only [citraPageSize] at *
  omega

/-- Two ranges one behind the other. -/
theorem IsRange.append {target size size' : Nat} (h : IsRange target size) (h' : IsRange (target + size) size') :
    IsRange target (size + size') where
  target_aligned := h.target_aligned
  size_aligned := by
    have h₁ := h.size_aligned
    have h₂ := h'.size_aligned
    simp only [citraPageSize] at *
    omega
  pos := Nat.add_pos_left h.pos _
  stop_le := by
    have h₁ := h'.stop_le
    omega

/-- Every address of the target has memory laid behind it. -/
theorem exists_laid_of_mem : ∀ {blocks : List (MemoryRef × Nat)} {target a : Nat}, target ≤ a →
    a < target + blocksSize blocks → ∃ memory, laid blocks target a = some memory := by
  intro blocks
  induction blocks with
  | nil =>
    intro target a h₁ h₂
    rw [blocksSize_nil] at h₂
    omega
  | cons b blocks ih =>
    obtain ⟨memory, size⟩ := b
    intro target a h₁ h₂
    rw [blocksSize_cons] at h₂
    dsimp only at h₂
    rw [laid]
    by_cases hin : target ≤ a ∧ a < target + size
    · exact ⟨_, if_pos hin⟩
    · rw [if_neg hin]
      exact ih (by omega) (by omega)

/-- What the loop over the blocks keeps. -/
theorem mapBlocks_consistent : ∀ {blocks : List (MemoryRef × Nat)} {target : Nat} {m m' : VMManager},
    Consistent isCached m → (∀ b ∈ blocks, b.1.offset + b.2 ≤ b.1.backingMem.size) →
    m.mapBlocks isCached state perms blocks target = some m' →
    Consistent isCached m' ∧ (FreeMerged m.vmaMap → FreeMerged m'.vmaMap) ∧
      (blocks ≠ [] → IsRange target (blocksSize blocks)) := by
  intro blocks
  induction blocks with
  | nil =>
    intro target m m' hm _ h
    obtain rfl := Option.some.inj h
    exact ⟨hm, id, fun hne => absurd rfl hne⟩
  | cons b blocks ih =>
    obtain ⟨memory, size⟩ := b
    intro target m m' hm hroom h
    obtain ⟨m₁, m₂, hmap, hreprotect, hrest⟩ := mapBlocks_cons h
    obtain ⟨hm₂, hfree, hr, -⟩ := mapBlock_laid hm (hroom _ List.mem_cons_self) hmap hreprotect
    obtain ⟨hm', hfree', hr'⟩ := ih hm₂ (fun b hb => hroom b (List.mem_cons_of_mem _ hb)) hrest
    refine ⟨hm', hfree' ∘ hfree, fun _ => ?_⟩
    cases blocks with
    | nil => simpa using hr
    | cons c blocks =>
      rw [blocksSize_cons]
      exact hr.append (hr' (by simp))

theorem mapBlocks_pos : ∀ {blocks : List (MemoryRef × Nat)} {target : Nat} {m m' : VMManager},
    Consistent isCached m → (∀ b ∈ blocks, b.1.offset + b.2 ≤ b.1.backingMem.size) →
    m.mapBlocks isCached state perms blocks target = some m' → ∀ b ∈ blocks, 0 < b.2 := by
  intro blocks
  induction blocks with
  | nil => intro target m m' _ _ _ b hb; cases hb
  | cons b blocks ih =>
    obtain ⟨memory, size⟩ := b
    intro target m m' hm hroom h c hc
    obtain ⟨m₁, m₂, hmap, hreprotect, hrest⟩ := mapBlocks_cons h
    obtain ⟨hm₂, -, hr, -⟩ := mapBlock_laid hm (hroom _ List.mem_cons_self) hmap hreprotect
    rcases List.mem_cons.1 hc with rfl | hc
    · exact hr.pos
    · exact ih hm₂ (fun b hb => hroom b (List.mem_cons_of_mem _ hb)) hrest c hc

/-- With read and write permission nothing but the target changes. -/
theorem mapBlocks_readWrite : ∀ {blocks : List (MemoryRef × Nat)} {target : Nat} {m m' : VMManager},
    Consistent isCached m → (∀ b ∈ blocks, b.1.offset + b.2 ≤ b.1.backingMem.size) →
    m.mapBlocks isCached state permReadWrite blocks target = some m' →
    ∀ a, valueAt m'.vmaMap a =
      ((laid blocks target a).map (laidAttributes permReadWrite state)).or (valueAt m.vmaMap a) := by
  intro blocks
  induction blocks with
  | nil =>
    intro target m m' _ _ h a
    obtain rfl := Option.some.inj h
    rfl
  | cons b blocks ih =>
    obtain ⟨memory, size⟩ := b
    intro target m m' hm hroom h a
    obtain ⟨m₁, m₂, hmap, hreprotect, hrest⟩ := mapBlocks_cons h
    obtain ⟨hm₂, -, hr, lo, hi, hlaid⟩ := mapBlock_laid hm (hroom _ List.mem_cons_self) hmap hreprotect
    rw [ih hm₂ (fun b hb => hroom b (List.mem_cons_of_mem _ hb)) hrest, laid]
    have hsize : blocksSize [(memory, size)] = size := by simp
    by_cases hin : target ≤ a ∧ a < target + size
    · obtain ⟨-, r, hr', hvalue⟩ := hlaid.inside a hin.1 (by rw [hsize]; exact hin.2)
      rw [laid, if_pos hin] at hr'
      obtain rfl := Option.some.inj hr'
      have hnone : laid blocks (target + size) a = none := by
        rw [Option.eq_none_iff_forall_ne_some]
        intro r hr
        have := (laid_eq_some hr).1
        omega
      rw [if_pos hin, hnone, hvalue]
      rfl
    · rw [if_neg hin]
      congr 1
      by_cases hcaught : lo ≤ a ∧ a < hi
      · obtain ⟨r, h₁, h₂⟩ := hlaid.caught a hcaught.1 hcaught.2 (by rw [hsize]; exact hin)
        rw [h₂, h₁]
        rfl
      · exact hlaid.outside a hcaught

/-- A block is mapped, and more blocks behind it.  The first block is not merged with the second one, since it has
been given other permissions than read and write by then; and behind it the address space is free. -/
theorem Laid.cons {m m₂ m' : VMManager} {memory : MemoryRef} {size target lo hi lo' hi' : Nat}
    {c : MemoryRef × Nat} (hperms : perms ≠ permReadWrite) (hpos : 0 < size)
    (hpos' : 0 < blocksSize (c :: blocks)) (h : Laid m m₂ state perms [(memory, size)] target lo hi)
    (h' : Laid m₂ m' state perms (c :: blocks) (target + size) lo' hi') :
    Laid m m' state perms ((memory, size) :: c :: blocks) target lo hi' := by
  have hsize : blocksSize [(memory, size)] = size := by simp
  have htotal : blocksSize ((memory, size) :: c :: blocks) = size + blocksSize (c :: blocks) := blocksSize_cons _ _
  have hlo := h.lo_le
  have hhi := h.le_hi
  have hlo' := h'.lo_le
  have hhi' := h'.le_hi
  rw [hsize] at hhi
  have hedge : hi = target + size := by
    by_contra hne
    obtain ⟨r, -, hvalue⟩ := h.caught (target + size) (by omega) (by omega) (by rw [hsize]; omega)
    have hfree := (h'.inside (target + size) le_rfl (by omega)).1
    rw [hvalue] at hfree
    cases congrArg Attributes.type (Option.some.inj hfree)
  have hedge' : lo' = target + size := by
    by_contra hne
    obtain ⟨b, -, -, x, hx, hnext⟩ := h'.below.1 (by omega)
    obtain ⟨-, r, -, hvalue⟩ := h.inside (target + size - 1) (by omega) (by rw [hsize]; omega)
    rw [hvalue] at hx
    obtain rfl := Option.some.inj hx
    exact hperms (congrArg Attributes.permissions hnext)
  subst hedge hedge'
  have hsame : ∀ a, target + size ≤ a → valueAt m₂.vmaMap a = valueAt m.vmaMap a :=
    fun a ha => h.outside a (by omega)
  have hsame' : ∀ a, a < target + size → valueAt m'.vmaMap a = valueAt m₂.vmaMap a :=
    fun a ha => h'.outside a (by omega)
  refine ⟨hlo, by omega, h.below, ?_, ?_, ?_, ?_⟩
  · rw [htotal, ← Nat.add_assoc, h'.behind, CarriesOnBehind, CarriesOnBehind, hsame _ (by omega), htotal,
      ← Nat.add_assoc, List.getLast?_cons_cons]
  · intro a h₁ h₂
    rw [laid]
    by_cases hin : a < target + size
    · obtain ⟨hfree, r, hr, hvalue⟩ := h.inside a h₁ (by rw [hsize]; exact hin)
      rw [laid, if_pos ⟨h₁, hin⟩] at hr
      exact ⟨hfree, r, by rw [if_pos ⟨h₁, hin⟩]; exact hr, by rw [hsame' a hin]; exact hvalue⟩
    · obtain ⟨hfree, hlaid⟩ := h'.inside a (by omega) (by omega)
      rw [hsame a (by omega)] at hfree
      rw [if_neg (by omega)]
      exact ⟨hfree, hlaid⟩
  · intro a h₁ h₂ hout
    by_cases hin : a < target
    · obtain ⟨r, hr, hvalue⟩ := h.caught a h₁ (by omega) (by omega)
      exact ⟨r, hr, by rw [hsame' a (by omega)]; exact hvalue⟩
    · obtain ⟨r, hr, hvalue⟩ := h'.caught a (by omega) h₂ (by omega)
      rw [hsame a (by omega)] at hr
      exact ⟨r, hr, hvalue⟩
  · intro a hout
    rw [h'.outside a (by omega), h.outside a (by omega)]

/-- With other permissions the neighbours that carry on from the blocks are caught: the first block gives them to
what lies below the target, and the last one to what lies behind it. -/
theorem mapBlocks_laid (hperms : perms ≠ permReadWrite) :
    ∀ {blocks : List (MemoryRef × Nat)} {target : Nat} {m m' : VMManager},
    Consistent isCached m → (∀ b ∈ blocks, b.1.offset + b.2 ≤ b.1.backingMem.size) →
    m.mapBlocks isCached state perms blocks target = some m' →
    ∃ lo hi, Laid m m' state perms blocks target lo hi := by
  intro blocks
  induction blocks with
  | nil =>
    intro target m m' _ _ h
    obtain rfl := Option.some.inj h
    refine ⟨target, target, le_rfl, le_rfl, iff_of_false (lt_irrefl _) ?_, iff_of_false (lt_irrefl _) ?_, ?_, ?_,
      fun a _ => rfl⟩
    · rintro ⟨b, hb, -⟩
      cases hb
    · rintro ⟨b, hb, -⟩
      cases hb
    · intro a h₁ h₂
      rw [blocksSize_nil] at h₂
      omega
    · intro a h₁ h₂
      omega
  | cons b blocks ih =>
    obtain ⟨memory, size⟩ := b
    intro target m m' hm hroom h
    obtain ⟨m₁, m₂, hmap, hreprotect, hrest⟩ := mapBlocks_cons h
    obtain ⟨hm₂, -, hr, lo, hi, hlaid⟩ := mapBlock_laid hm (hroom _ List.mem_cons_self) hmap hreprotect
    cases blocks with
    | nil =>
      obtain rfl := Option.some.inj hrest
      exact ⟨lo, hi, hlaid⟩
    | cons c blocks =>
      obtain ⟨lo', hi', hlaid'⟩ := ih hm₂ (fun b hb => hroom b (List.mem_cons_of_mem _ hb)) hrest
      have hpos' : 0 < blocksSize (c :: blocks) := ((mapBlocks_consistent hm₂
        (fun b hb => hroom b (List.mem_cons_of_mem _ hb)) hrest).2.2 (by simp)).pos
      exact ⟨lo, hi', hlaid.cons hperms hr.pos hpos' hlaid'⟩

end

/-! ## Pages -/

/-- An area has no end inside a page. -/
theorem page_inside {v : VirtualMemoryArea} (hw : WellFormed v) {page i : Nat} (hi : i < citraPageSize)
    (hhi : page * citraPageSize < v.stop) :
    page * citraPageSize + i < v.stop := by
  have h₁ := hw.base
  have h₂ := hw.size
  rw [Tile.stop] at hhi ⊢
  generalize citraPageSize = n at *
  obtain ⟨k₁, hk₁⟩ := Nat.dvd_of_mod_eq_zero h₁
  obtain ⟨k₂, hk₂⟩ := Nat.dvd_of_mod_eq_zero h₂
  rw [hk₁, hk₂, ← Nat.mul_add, Nat.mul_comm page] at hhi
  rw [hk₁, hk₂, ← Nat.mul_add, Nat.mul_comm page]
  have hlt : page < k₁ + k₂ := Nat.lt_of_mul_lt_mul_left hhi
  calc n * page + i < n * page + n := Nat.add_lt_add_left hi _
    _ = n * (page + 1) := (Nat.mul_succ n page).symm
    _ ≤ n * (k₁ + k₂) := Nat.mul_le_mul_left _ hlt

/-- The page that ends at an address. -/
theorem page_below {a : Nat} (ha : a % citraPageSize = 0) (hpos : 0 < a) :
    (a / citraPageSize - 1 + 1) * citraPageSize = a := by
  have hcancel : a / citraPageSize * citraPageSize = a := Nat.div_mul_cancel (Nat.dvd_of_mod_eq_zero ha)
  have hne : a / citraPageSize ≠ 0 := by
    intro hzero
    rw [hzero, Nat.zero_mul] at hcancel
    omega
  rw [Nat.sub_add_cancel (Nat.pos_of_ne_zero hne), hcancel]

/-- The values inside a page are those of its beginning, moved on. -/
theorem Consistent.valueAt_page {m : VMManager} (hm : Consistent isCached m) {page i : Nat}
    (hi : i < citraPageSize) : valueAt m.vmaMap (page * citraPageSize + i) =
      (m.pageMap page).map (i +ᵥ ·) := by
  rw [VMManager.pageMap]
  by_cases hlt : page * citraPageSize < maxAddress
  · obtain ⟨v, hv, hlo, hhi, hvalue⟩ := hm.tiles.exists_mem (Nat.zero_le _) hlt
    have hstop : page * citraPageSize + i < v.stop := page_inside (hm.wellFormed v hv) hi hhi
    rw [hvalue, hm.tiles.valueAt_of_mem hv (by omega) hstop, Option.map_some, ← add_vadd]
    congr 2
    omega
  · have hge : maxAddress ≤ page * citraPageSize := not_lt.1 hlt
    rw [hm.tiles.valueAt_eq_none (Or.inr hge), hm.tiles.valueAt_eq_none (Or.inr (by omega))]
    rfl

/-- The page before a target is mapped with read and write permission, in a state, to the memory that ends where the
first block begins. -/
def PageMap.CarriesOnBelow (P : PageMap) (state : MemoryState) (blocks : List (MemoryRef × Nat))
    (target : Nat) : Prop :=
  ∃ b ∈ blocks.head?, ∃ page x, (page + 1) * citraPageSize = target ∧ P page = some x ∧
    x.shift citraPageSize = mappedAttributes b.1 state

/-- The page behind a target is mapped with read and write permission, in a state, to the memory that begins where
the last block ends. -/
def PageMap.CarriesOnBehind (P : PageMap) (state : MemoryState) (blocks : List (MemoryRef × Nat))
    (target : Nat) : Prop :=
  ∃ b ∈ blocks.getLast?, ∃ page, page * citraPageSize = target + blocksSize blocks ∧
    P page = some (mappedAttributes (b.1.shift b.2) state)

/-- A page next to the target is given the permissions of the target: they are other ones than read and write, and
the page is merged with the blocks while these have read and write permission. -/
def PageMap.Caught (P : PageMap) (state : MemoryState) (perms : VMAPermission) (blocks : List (MemoryRef × Nat))
    (target : Nat) : Prop :=
  perms ≠ permReadWrite ∧ (P.CarriesOnBelow state blocks target ∨ P.CarriesOnBehind state blocks target)

section

variable {state : MemoryState} {perms : VMAPermission} {blocks : List (MemoryRef × Nat)} {target : Nat}
  {m m' : VMManager}

theorem carriesOnBelow_iff (hm : Consistent isCached m) (ht : target % citraPageSize = 0) :
    m.pageMap.CarriesOnBelow state blocks target ↔
      CarriesOnBelow (valueAt m.vmaMap) state blocks target := by
  refine exists_congr fun b => and_congr_right fun _ => ?_
  have hlast : ∀ page, (page + 1) * citraPageSize = target →
      valueAt m.vmaMap (target - 1) = (m.pageMap page).map ((citraPageSize - 1) +ᵥ ·) := by
    rintro page rfl
    rw [← hm.valueAt_page (by decide), Nat.add_mul, Nat.one_mul, Nat.add_sub_assoc (by decide)]
  have hstep : ∀ x : Attributes, (1 : ℕ) +ᵥ ((citraPageSize - 1) +ᵥ x) = x.shift citraPageSize := by
    intro x
    rw [← add_vadd, Nat.add_sub_cancel' (by decide), vadd_def]
  constructor
  · rintro ⟨page, x, htarget, hx, hnext⟩
    refine ⟨?_, (citraPageSize - 1) +ᵥ x, by rw [hlast page htarget, hx]; rfl, by rw [hstep, hnext]⟩
    rw [← htarget]
    exact Nat.mul_pos (Nat.succ_pos _) (by decide)
  · rintro ⟨hpos, y, hy, hnext⟩
    have hpage := page_below ht hpos
    rw [hlast _ hpage] at hy
    obtain ⟨x, hx, rfl⟩ := Option.map_eq_some_iff.1 hy
    exact ⟨_, x, hpage, hx, by rw [← hstep, hnext]⟩

theorem carriesOnBehind_iff (ht : (target + blocksSize blocks) % citraPageSize = 0) :
    m.pageMap.CarriesOnBehind state blocks target ↔
      CarriesOnBehind (valueAt m.vmaMap) state blocks target := by
  refine exists_congr fun b => and_congr_right fun _ => ?_
  constructor
  · rintro ⟨page, hpage, hvalue⟩
    rw [VMManager.pageMap, hpage] at hvalue
    exact hvalue
  · intro hvalue
    have hpage : (target + blocksSize blocks) / citraPageSize * citraPageSize = target + blocksSize blocks :=
      Nat.div_mul_cancel (Nat.dvd_of_mod_eq_zero ht)
    exact ⟨_, hpage, by rw [VMManager.pageMap, hpage]; exact hvalue⟩

/-- Every page of the target is mapped to its part of the blocks, as asked for. -/
theorem mapBlocks_target (hm : Consistent isCached m)
    (hroom : ∀ b ∈ blocks, b.1.offset + b.2 ≤ b.1.backingMem.size)
    (h : m.mapBlocks isCached state perms blocks target = some m') {a : Nat} (h₁ : target ≤ a)
    (h₂ : a < target + blocksSize blocks) :
    ∃ memory, laid blocks target a = some memory ∧
      valueAt m'.vmaMap a = some (laidAttributes perms state memory) := by
  by_cases hperms : perms = permReadWrite
  · subst hperms
    obtain ⟨memory, hmemory⟩ := exists_laid_of_mem h₁ h₂
    refine ⟨memory, hmemory, ?_⟩
    rw [mapBlocks_readWrite hm hroom h, hmemory]
    rfl
  · obtain ⟨lo, hi, hlaid⟩ := mapBlocks_laid hperms hm hroom h
    exact (hlaid.inside a h₁ h₂).2

/-- The target was free. -/
theorem mapBlocks_free : ∀ {blocks : List (MemoryRef × Nat)} {target : Nat} {m m' : VMManager},
    Consistent isCached m → (∀ b ∈ blocks, b.1.offset + b.2 ≤ b.1.backingMem.size) →
    m.mapBlocks isCached state perms blocks target = some m' → ∀ {a : Nat}, target ≤ a →
    a < target + blocksSize blocks → valueAt m.vmaMap a = some freeAttributes := by
  intro blocks
  induction blocks with
  | nil =>
    intro target m m' _ _ _ a h₁ h₂
    rw [blocksSize_nil] at h₂
    omega
  | cons b blocks ih =>
    obtain ⟨memory, size⟩ := b
    intro target m m' hm hroom h a h₁ h₂
    obtain ⟨m₁, m₂, hmap, hreprotect, hrest⟩ := mapBlocks_cons h
    obtain ⟨hm₂, -, -, lo, hi, hlaid⟩ := mapBlock_laid hm (hroom _ List.mem_cons_self) hmap hreprotect
    have hsize : blocksSize [(memory, size)] = size := by simp
    by_cases hin : a < target + size
    · exact (hlaid.inside a h₁ (by rw [hsize]; exact hin)).1
    · rw [blocksSize_cons] at h₂
      dsimp only at h₂
      have hfree := ih hm₂ (fun b hb => hroom b (List.mem_cons_of_mem _ hb)) hrest (a := a) (by omega) (by omega)
      by_cases hcaught : lo ≤ a ∧ a < hi
      · obtain ⟨r, -, hvalue⟩ := hlaid.caught a hcaught.1 hcaught.2 (by rw [hsize]; omega)
        rw [hvalue] at hfree
        cases congrArg Attributes.type (Option.some.inj hfree)
      · rw [← hlaid.outside a hcaught, hfree]

/-- Blocks of whole pages can be mapped to a range that is free. -/
theorem mapBlocks_ok : ∀ {blocks : List (MemoryRef × Nat)} {target : Nat} {m : VMManager},
    Consistent isCached m → FreeMerged m.vmaMap → (∀ b ∈ blocks, b.1.offset + b.2 ≤ b.1.backingMem.size) →
    (∀ b ∈ blocks, 0 < b.2 ∧ b.2 % citraPageSize = 0) → target % citraPageSize = 0 →
    target + blocksSize blocks ≤ maxAddress →
    (∀ a, target ≤ a → a < target + blocksSize blocks → valueAt m.vmaMap a = some freeAttributes) →
    ∃ m', m.mapBlocks isCached state perms blocks target = some m' := by
  intro blocks
  induction blocks with
  | nil => intro target m _ _ _ _ _ _ _; exact ⟨m, rfl⟩
  | cons b blocks ih =>
    obtain ⟨memory, size⟩ := b
    intro target m hm hmerged hroom hpages htarget hstop hfree
    obtain ⟨hpos, hsize⟩ := hpages _ List.mem_cons_self
    have hroom' := hroom _ List.mem_cons_self
    rw [blocksSize_cons] at hstop hfree
    dsimp only at hpos hsize hroom' hstop hfree
    have hr : IsRange target size := ⟨htarget, hsize, hpos, by omega⟩
    obtain ⟨before, vma, after, hf, hl, hlo, hhi, hall⟩ := exists_free_area hm hmerged hr
    obtain ⟨htype, hfit⟩ := hall.1 fun page hpage =>
      ⟨freeAttributes, hfree _ hpage.1 (by have := hpage.2; omega), rfl⟩
    obtain ⟨m₁, hmap, hmap₁, -, hm₁⟩ := mapBackingMemory_ok state hm hr hroom' hf hl hlo htype hfit
    rw [VMManager.step] at hmap
    have hmapped : (m₁.backing target).isSome := by
      rw [VMManager.backing, hmap₁, valueAt_settledMap hm.tiles hr, if_pos (by omega)]
      rfl
    obtain ⟨m₂, hreprotect, -⟩ := reprotect_ok perms hm₁ (by omega) hmapped
    obtain ⟨hm₂, hmerged₂, -, lo, hi, hlaid⟩ := mapBlock_laid hm hroom' hmap hreprotect
    obtain ⟨m', hrest⟩ := ih hm₂ (hmerged₂ hmerged) (fun b hb => hroom b (List.mem_cons_of_mem _ hb))
      (fun b hb => hpages b (List.mem_cons_of_mem _ hb)) hr.stop_aligned (by omega) fun a h₁ h₂ => by
        -- behind the first block the range is as free as it was
        have hsize : blocksSize [(memory, size)] = size := by simp
        have ha := hfree a (by omega) (by omega)
        by_cases hcaught : lo ≤ a ∧ a < hi
        · obtain ⟨r, hvalue, -⟩ := hlaid.caught a hcaught.1 hcaught.2 (by rw [hsize]; omega)
          rw [ha] at hvalue
          cases congrArg Attributes.type (Option.some.inj hvalue)
        · rw [hlaid.outside a hcaught, ha]
    refine ⟨m', ?_⟩
    simp only [VMManager.mapBlocks, hmap, hreprotect, Option.bind_eq_bind, Option.bind_some, hrest]

/-- With read and write permission every page outside of the target keeps its attributes. -/
theorem mapBlocks_readWrite_keeps (hm : Consistent isCached m)
    (hroom : ∀ b ∈ blocks, b.1.offset + b.2 ≤ b.1.backingMem.size)
    (h : m.mapBlocks isCached state permReadWrite blocks target = some m') {page : Nat}
    (hout : ¬ InRange target (blocksSize blocks) page) : m'.pageMap page = m.pageMap page := by
  have hnone : laid blocks target (page * citraPageSize) = none := by
    rw [Option.eq_none_iff_forall_ne_some]
    intro r hr
    exact hout (laid_eq_some hr).1
  rw [VMManager.pageMap, mapBlocks_readWrite hm hroom h, hnone]
  rfl

/-- A page outside of the target that is in another state keeps its attributes. -/
theorem mapBlocks_keeps (hm : Consistent isCached m)
    (hroom : ∀ b ∈ blocks, b.1.offset + b.2 ≤ b.1.backingMem.size)
    (h : m.mapBlocks isCached state perms blocks target = some m') {page : Nat}
    (hout : ¬ InRange target (blocksSize blocks) page)
    (hstate : ∀ x ∈ m.pageMap page, x.meminfoState ≠ state) : m'.pageMap page = m.pageMap page := by
  by_cases hperms : perms = permReadWrite
  · subst hperms
    exact mapBlocks_readWrite_keeps hm hroom h hout
  · obtain ⟨lo, hi, hlaid⟩ := mapBlocks_laid hperms hm hroom h
    refine hlaid.outside _ fun hin => ?_
    obtain ⟨r, hvalue, -⟩ := hlaid.caught _ hin.1 hin.2 hout
    exact hstate _ hvalue rfl

/-- The pages outside of the target keep their attributes exactly if none of them is caught; some pages in other
states may be left aside. -/
theorem mapBlocks_frame_iff (hm : Consistent isCached m)
    (hroom : ∀ b ∈ blocks, b.1.offset + b.2 ≤ b.1.backingMem.size)
    (h : m.mapBlocks isCached state perms blocks target = some m') (aside : Nat → Prop)
    (haside : ∀ page, aside page → ∀ x ∈ m.pageMap page, x.meminfoState ≠ state) :
    (∀ page, ¬ InRange target (blocksSize blocks) page → ¬ aside page → m'.pageMap page = m.pageMap page) ↔
      ¬ m.pageMap.Caught state perms blocks target := by
  obtain ⟨hm', -, hrange⟩ := mapBlocks_consistent hm hroom h
  have hnot : ∀ page x memory, m.pageMap page = some x → (∃ n : ℕ, n +ᵥ x = mappedAttributes memory state) →
      ¬ aside page := by
    rintro page x memory hx ⟨n, hn⟩ hpage
    exact haside page hpage x hx (congrArg Attributes.meminfoState hn)
  by_cases hperms : perms = permReadWrite
  · subst hperms
    exact iff_of_true (fun page hout _ => mapBlocks_readWrite_keeps hm hroom h hout)
      (fun hcaught => hcaught.1 rfl)
  · obtain ⟨lo, hi, hlaid⟩ := mapBlocks_laid hperms hm hroom h
    rw [PageMap.Caught, not_and_or, not_or, not_not]
    by_cases hnil : blocks = []
    · subst hnil
      obtain rfl := Option.some.inj h
      refine iff_of_true (fun page _ _ => rfl) (Or.inr ⟨?_, ?_⟩)
      · rintro ⟨b, hb, -⟩
        cases hb
      · rintro ⟨b, hb, -⟩
        cases hb
    have hr := hrange hnil
    have hend := hr.stop_aligned
    have hlo := hlaid.lo_le
    have hhi := hlaid.le_hi
    rw [carriesOnBehind_iff hend]
    constructor
    · intro hkeeps
      refine Or.inr ⟨?_, ?_⟩
      · intro hbelow
        have hlt := hlaid.below.2 ((carriesOnBelow_iff hm hr.target_aligned).1 hbelow)
        obtain ⟨b, -, page, x, htarget, hx, hnext⟩ := hbelow
        have haddr : target - 1 = page * citraPageSize + (citraPageSize - 1) := by
          simp only [citraPageSize] at *
          omega
        have hsame := hkeeps page (fun hin => by
          have := hin.1
          simp only [citraPageSize] at *
          omega) (hnot page x b.1 hx ⟨citraPageSize, hnext⟩)
        -- the last byte of the page has been given other permissions
        obtain ⟨r, hbefore, hafter⟩ := hlaid.caught (target - 1) (by omega) (by omega) (by omega)
        rw [haddr, hm.valueAt_page (by decide)] at hbefore
        rw [haddr, hm'.valueAt_page (by decide), hsame, hbefore] at hafter
        exact hperms (congrArg Attributes.permissions (Option.some.inj hafter)).symm
      · intro hbehind
        have hlt := hlaid.behind.2 hbehind
        obtain ⟨b, -, page, hpage, hx⟩ := (carriesOnBehind_iff hend).2 hbehind
        have hsame := hkeeps page (fun hin => by
          have := hin.2
          omega) (hnot page _ _ hx ⟨0, zero_vadd ℕ _⟩)
        obtain ⟨r, hbefore, hafter⟩ := hlaid.caught (page * citraPageSize) (by omega) (by omega) (by omega)
        rw [VMManager.pageMap, VMManager.pageMap, hbefore, hafter] at hsame
        exact hperms (congrArg Attributes.permissions (Option.some.inj hsame))
    · rintro (heq | ⟨hbelow, hbehind⟩) page hout -
      · exact absurd heq hperms
      · rw [carriesOnBelow_iff hm hr.target_aligned, ← hlaid.below] at hbelow
        rw [← hlaid.behind] at hbehind
        refine hlaid.outside _ fun hin => hout ⟨?_, ?_⟩
        · omega
        · omega

/-- The memory of the first and of the last byte of the blocks. -/
theorem laid_first {b : MemoryRef × Nat} (hb : b ∈ blocks.head?) (hpos : 0 < b.2) :
    laid blocks target target = some b.1 := by
  cases blocks with
  | nil => cases hb
  | cons c blocks =>
    obtain rfl := Option.some.inj hb
    rw [laid, if_pos (by omega), Nat.sub_self]
    rfl

@[inherit_doc laid_first]
theorem laid_last : ∀ {blocks : List (MemoryRef × Nat)} {target : Nat} {b : MemoryRef × Nat},
    b ∈ blocks.getLast? → 0 < b.2 →
    laid blocks target (target + blocksSize blocks - 1) = some (b.1.shift (b.2 - 1)) := by
  intro blocks
  induction blocks with
  | nil => intro target b hb; cases hb
  | cons c blocks ih =>
    intro target b hb hpos
    cases blocks with
    | nil =>
      obtain rfl : c = b := Option.some.inj hb
      rw [blocksSize_cons, blocksSize_nil, Nat.add_zero, laid, if_pos (by omega)]
      congr 2
      omega
    | cons d blocks =>
      rw [List.getLast?_cons_cons] at hb
      have hge : b.2 ≤ blocksSize (d :: blocks) :=
        List.le_sum_of_mem (List.mem_map_of_mem (List.mem_of_getLast? hb))
      rw [laid, blocksSize_cons, if_neg (by omega), ← ih hb hpos]
      congr 1
      omega

/-- Blocks lie behind another target as they do behind this one. -/
theorem laid_translate : ∀ {blocks : List (MemoryRef × Nat)} (target source i : Nat),
    laid blocks target (target + i) = laid blocks source (source + i) := by
  intro blocks
  induction blocks with
  | nil => intro target source i; rfl
  | cons b blocks ih =>
    obtain ⟨memory, size⟩ := b
    intro target source i
    rw [laid, laid]
    by_cases hi : i < size
    · rw [if_pos (by omega), if_pos (by omega), Nat.add_sub_cancel_left, Nat.add_sub_cancel_left]
    · rw [if_neg (by omega), if_neg (by omega)]
      have h₁ : target + i = target + size + (i - size) := by omega
      have h₂ : source + i = source + size + (i - size) := by omega
      rw [h₁, h₂]
      exact ih _ _ _

end

end AzaharPlus.Kernel
