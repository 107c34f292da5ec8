import AzaharPlus.Kernel.AddressSpace

/-!
# The first free address

The model of `VMManager::MapBackingMemoryToBase` in `core/hle/kernel/vm_manager.cpp`, which maps a block of memory
at the first free address of a region.

It stops at the first free area that ends behind `base + size`.  When this area begins behind `base` it may still
be too small, and then the call fails although a later area has room: the end is compared with the end of a block
at `base` and not with that of a block at the address it would get.

* `isFirstFit_iff`: the call is a first fit exactly if the area it stops at has room for the block;
* `not_isFirstFit`: three buffers are mapped and the second is unmapped; a larger one finds no place.
-/

namespace AzaharPlus.Kernel

open Tiling

/-! ## The function -/

/-- The errors of `MapBackingMemoryToBase`: its own, and those of `MapBackingMemory`. -/
inductive BaseError
  | outOfMemory
  | vm (error : VmError)
  deriving DecidableEq, Repr

/-- The areas `MapBackingMemoryToBase` searches for. -/
def Candidate (base size : Nat) (vma : VirtualMemoryArea) : Prop :=
  vma.val.type = .free ∧ vma.stop > base ∧ vma.stop ≥ add32 base size

instance (base size : Nat) (vma : VirtualMemoryArea) : Decidable (Candidate base size vma) :=
  inferInstanceAs (Decidable (_ ∧ _))

/-- `VMManager::MapBackingMemoryToBase`.  If no area is found the source computes `target` from
`vma_map.end()` all the same, but does not use it. -/
def VMManager.mapBackingMemoryToBase (isCached : Nat → Bool) (m : VMManager) (base regionSize : Nat)
    (memory : MemoryRef) (size : Nat) (state : MemoryState) :
    Option (Except BaseError Nat × VMManager) :=
  if m.isLocked then none
  else
    match m.vmaMap.find? (Candidate base size ·) with
    | none => some (.error .outOfMemory, m)
    | some vma =>
        let target := max base vma.base
        if add32 target size > add32 base regionSize then some (.error .outOfMemory, m)
        else do
          match ← m.mapBackingMemory isCached target memory size state with
          | (.error e, m) => some (.error (.vm e), m)
          | (.ok (), m) => some (.ok target, m)

variable {isCached : Nat → Bool}

/-! ## First fit -/

/-- A block of so many bytes can be put at an address of the region: the address is one of a page, and all of
the block is free. -/
structure FitsAt (m : VMManager) (base regionSize size t : Nat) : Prop where
  aligned : t % citraPageSize = 0
  base_le : base ≤ t
  stop_le : t + size ≤ base + regionSize
  free : m.pageMap.All t size (·.type = .free)

/-- A first fit: the block is mapped at the lowest address of the region at which it can be, and if there is none
the call runs out of memory and leaves everything as it was. -/
structure IsFirstFit (isCached : Nat → Bool) (m : VMManager) (base regionSize : Nat) (memory : MemoryRef)
    (size : Nat) (state : MemoryState) (result : Option (Except BaseError Nat × VMManager)) : Prop where
  found : ∀ t, IsLeast {t | FitsAt m base regionSize size t} t → ∃ m', result = some (.ok t, m') ∧
    Consistent isCached m' ∧ m'.pageMap = (Op.mapBackingMemory t memory size state).apply m.pageMap
  notFound : (∀ t, ¬ FitsAt m base regionSize size t) → result = some (.error .outOfMemory, m)

/-- The first area the search accepts. -/
def FirstCandidate (m : VMManager) (base size : Nat) (vma : VirtualMemoryArea) : Prop :=
  ∃ pre post, m.vmaMap = pre ++ vma :: post ∧ Candidate base size vma ∧ ∀ v ∈ pre, ¬ Candidate base size v

/-- The block has room in the first area the search accepts, at the address the call computes, unless the region
ends before it.  A block without bytes has to have no place in the region, and `base` must not be free. -/
def FirstCandidateFits (m : VMManager) (base regionSize size : Nat) : Prop :=
  if 0 < size then
    ∀ vma, FirstCandidate m base size vma → add32 (max base vma.base) size ≤ base + regionSize →
      max base vma.base % citraPageSize = 0 ∧ max base vma.base + size ≤ vma.stop
  else
    (∀ t, t % citraPageSize = 0 → base ≤ t → base + regionSize < t) ∧
      ∀ vma ∈ m.vmaMap, vma.val.type = .free → vma.base ≤ base → vma.stop ≤ base

theorem find?_candidate_iff {m : VMManager} {base size : Nat} {vma : VirtualMemoryArea} :
    m.vmaMap.find? (Candidate base size ·) = some vma ↔ FirstCandidate m base size vma := by
  rw [List.find?_eq_some_iff_append, FirstCandidate]
  constructor
  · rintro ⟨hc, pre, post, hl, hpre⟩
    exact ⟨pre, post, hl, of_decide_eq_true hc, fun v hv => by simpa using hpre v hv⟩
  · rintro ⟨pre, post, hl, hc, hpre⟩
    exact ⟨decide_eq_true hc, pre, post, hl, fun v hv => by simpa using hpre v hv⟩

/-- The first area the search accepts lies below all the others. -/
theorem FirstCandidate.base_le {m : VMManager} {base size : Nat} {vma w : VirtualMemoryArea}
    (h : FirstCandidate m base size vma) (hm : Consistent isCached m) (hw : w ∈ m.vmaMap)
    (hc : Candidate base size w) : vma.base ≤ w.base := by
  obtain ⟨pre, post, hl, -, hpre⟩ := h
  have htiles := hm.tiles
  rw [hl] at htiles hw
  obtain ⟨mid, -, hmid, -, hpost⟩ := tiles_append.1 htiles
  rcases List.mem_append.1 hw with hw | hw
  · exact absurd hc (hpre w hw)
  · rcases List.mem_cons.1 hw with rfl | hw
    · exact le_rfl
    · have hlo := (hpost.bounds hw).1
      omega

theorem FirstCandidate.mem {m : VMManager} {base size : Nat} {vma : VirtualMemoryArea}
    (h : FirstCandidate m base size vma) : vma ∈ m.vmaMap := by
  obtain ⟨pre, post, hl, -⟩ := h
  rw [hl]
  simp

theorem FirstCandidate.candidate {m : VMManager} {base size : Nat} {vma : VirtualMemoryArea}
    (h : FirstCandidate m base size vma) : Candidate base size vma := by
  obtain ⟨_, _, _, hc, _⟩ := h
  exact hc

theorem add32_le (a b : Nat) : add32 a b ≤ a + b := Nat.mod_le _ _

/-- Where a block fits, an area that the search accepts has room for it. -/
theorem FitsAt.exists_candidate {m : VMManager} {base regionSize size t : Nat}
    (h : FitsAt m base regionSize size t) (hm : Consistent isCached m) (hfree : FreeMerged m.vmaMap)
    (hregion : base + regionSize < maxAddress) (hsize : size % citraPageSize = 0) (hpos : 0 < size) :
    ∃ w ∈ m.vmaMap, Candidate base size w ∧ w.base ≤ t ∧ t + size ≤ w.stop := by
  have hstop := h.stop_le
  have hbase := h.base_le
  have hr : IsRange t size := ⟨h.aligned, hsize, hpos, by omega⟩
  obtain ⟨before, w, after, -, hl, hlo, -, hall⟩ := exists_free_area hm hfree hr
  obtain ⟨htype, hroom⟩ := hall.1 h.free
  have hadd := add32_le base size
  exact ⟨w, by rw [hl]; simp, ⟨htype, by omega, by omega⟩, hlo, hroom⟩

/-- A block that has room in the first area the search accepts is mapped there, and nothing lower fits. -/
theorem FirstCandidate.isLeast {m : VMManager} {base regionSize size : Nat} {vma : VirtualMemoryArea}
    (h : FirstCandidate m base size vma) (hm : Consistent isCached m) (hfree : FreeMerged m.vmaMap)
    (hregion : base + regionSize < maxAddress) (hsize : size % citraPageSize = 0) (hpos : 0 < size)
    (hinside : max base vma.base + size ≤ base + regionSize)
    (haligned : max base vma.base % citraPageSize = 0) (hroom : max base vma.base + size ≤ vma.stop) :
    IsLeast {t | FitsAt m base regionSize size t} (max base vma.base) := by
  constructor
  · refine ⟨haligned, le_max_left _ _, hinside, fun page hpage => ?_⟩
    have hlo := le_max_right base vma.base
    exact ⟨_, hm.tiles.valueAt_of_mem h.mem (hlo.trans hpage.1) (hpage.2.trans_le hroom),
      h.candidate.1⟩
  · intro t ht
    obtain ⟨w, hw, hc, hlo, -⟩ := ht.exists_candidate hm hfree hregion hsize hpos
    exact max_le ht.base_le ((h.base_le hm hw hc).trans hlo)

section

variable {m : VMManager} {base regionSize size : Nat} {memory : MemoryRef} {state : MemoryState}
  {vma : VirtualMemoryArea}

theorem mapBackingMemoryToBase_of_none (hm : Consistent isCached m)
    (hnone : ∀ vma, ¬ FirstCandidate m base size vma) :
    m.mapBackingMemoryToBase isCached base regionSize memory size state = some (.error .outOfMemory, m) := by
  have hfind : m.vmaMap.find? (Candidate base size ·) = none := by
    cases hfind : m.vmaMap.find? (Candidate base size ·) with
    | none => rfl
    | some vma => exact absurd (find?_candidate_iff.1 hfind) (hnone vma)
  rw [VMManager.mapBackingMemoryToBase, hm.unlocked, hfind]
  rfl

theorem mapBackingMemoryToBase_of_lt (hm : Consistent isCached m) (hregion : base + regionSize < maxAddress)
    (hc : FirstCandidate m base size vma) (hlt : base + regionSize < add32 (max base vma.base) size) :
    m.mapBackingMemoryToBase isCached base regionSize memory size state = some (.error .outOfMemory, m) := by
  have hsum : add32 base regionSize = base + regionSize :=
    Nat.mod_eq_of_lt (hregion.trans (by decide))
  rw [VMManager.mapBackingMemoryToBase, hm.unlocked, find?_candidate_iff.2 hc]
  simp only [Bool.false_eq_true, if_false]
  rw [hsum, if_pos hlt]

/-- The block is mapped in the first area the search accepts, or the call fails otherwise than by running out of
memory. -/
theorem mapBackingMemoryToBase_of_le (hm : Consistent isCached m) (hregion : base + regionSize < maxAddress)
    (hc : FirstCandidate m base size vma) (hle : add32 (max base vma.base) size ≤ base + regionSize) :
    m.mapBackingMemoryToBase isCached base regionSize memory size state =
      (m.mapBackingMemory isCached (max base vma.base) memory size state).bind fun r =>
        match r with
        | (.error e, m) => some (.error (.vm e), m)
        | (.ok (), m) => some (.ok (max base vma.base), m) := by
  have hsum : add32 base regionSize = base + regionSize :=
    Nat.mod_eq_of_lt (hregion.trans (by decide))
  rw [VMManager.mapBackingMemoryToBase, hm.unlocked, find?_candidate_iff.2 hc]
  simp only [Bool.false_eq_true, if_false]
  rw [hsum, if_neg (not_lt.2 hle)]
  rfl

/-- What a call that succeeded or ran out of memory has done. -/
theorem mapBackingMemoryToBase_cases (hm : Consistent isCached m) (hregion : base + regionSize < maxAddress)
    (hc : FirstCandidate m base size vma) (hle : add32 (max base vma.base) size ≤ base + regionSize)
    {r : Except BaseError Nat} {m' : VMManager} (hr : r = .error .outOfMemory ∨ ∃ t, r = .ok t)
    (h : m.mapBackingMemoryToBase isCached base regionSize memory size state = some (r, m')) :
    m.mapBackingMemory isCached (max base vma.base) memory size state = some (.ok (), m') := by
  rw [mapBackingMemoryToBase_of_le hm hregion hc hle, Option.bind_eq_some_iff] at h
  obtain ⟨⟨r', m''⟩, hmap, h⟩ := h
  cases r' with
  | error e =>
    obtain ⟨rfl, -⟩ := Prod.mk.inj (Option.some.inj h)
    rcases hr with hr | ⟨t, hr⟩ <;> cases hr
  | ok =>
    obtain ⟨-, rfl⟩ := Prod.mk.inj (Option.some.inj h)
    exact hmap

/-- Whether a block can be mapped in the first area the search accepts. -/
theorem FirstCandidate.room_of_mapped (hc : FirstCandidate m base size vma) (hm : Consistent isCached m)
    {m' : VMManager}
    (h : m.mapBackingMemory isCached (max base vma.base) memory size state = some (.ok (), m')) :
    0 < size ∧ max base vma.base % citraPageSize = 0 ∧ max base vma.base + size ≤ vma.stop := by
  obtain ⟨it, carved, rest, hcarve, hit, hcarved⟩ := carveVMA_of_mapBackingMemory hm h
  obtain ⟨before, w, after, hr, -, hl, hlo, -, hroom⟩ :=
    carveVMA_returns hm.tiles hm.wellFormed hcarve hit hcarved
  have hpos := hr.pos
  have hbounds := hm.tiles.bounds hc.mem
  have hstop := hc.candidate.2.1
  have hinside : max base vma.base < vma.stop := by
    rw [Tile.stop] at hstop ⊢
    exact max_lt hstop (by omega)
  have hvma : vma = w :=
    hm.tiles.eq_of_mem hc.mem (by rw [hl]; simp) (le_max_right _ _) hinside hlo (by omega)
  rw [← hvma] at hroom
  exact ⟨hpos, hr.target_aligned, hroom⟩

/-- The call is a first fit if the first area the search accepts has room. -/
theorem isFirstFit_of_fits (hm : Consistent isCached m) (hfree : FreeMerged m.vmaMap)
    (hmemory : memory.offset + size ≤ memory.backingMem.size) (hregion : base + regionSize < maxAddress)
    (hsize : size % citraPageSize = 0) (hpos : 0 < size)
    (h : ∀ vma, FirstCandidate m base size vma → add32 (max base vma.base) size ≤ base + regionSize →
      max base vma.base % citraPageSize = 0 ∧ max base vma.base + size ≤ vma.stop) :
    IsFirstFit isCached m base regionSize memory size state
      (m.mapBackingMemoryToBase isCached base regionSize memory size state) := by
  by_cases hex : ∃ vma, FirstCandidate m base size vma
  · obtain ⟨vma, hc⟩ := hex
    have hlow : ∀ t, FitsAt m base regionSize size t → max base vma.base ≤ t := by
      intro t ht
      obtain ⟨w, hw, hcw, hlo, -⟩ := ht.exists_candidate hm hfree hregion hsize hpos
      exact max_le ht.base_le ((hc.base_le hm hw hcw).trans hlo)
    by_cases hle : add32 (max base vma.base) size ≤ base + regionSize
    · obtain ⟨haligned, hroom⟩ := h vma hc hle
      have hbounds := hm.tiles.bounds hc.mem
      have hsum : add32 (max base vma.base) size = max base vma.base + size :=
        Nat.mod_eq_of_lt ((hroom.trans hbounds.2.1).trans_lt (by decide))
      rw [hsum] at hle
      have hleast := hc.isLeast hm hfree hregion hsize hpos hle haligned hroom
      have hr : IsRange (max base vma.base) size := ⟨haligned, hsize, hpos, by omega⟩
      obtain ⟨before, w, after, hf, hl, hlo, -, hall⟩ := exists_free_area hm hfree hr
      obtain ⟨htype, hroom'⟩ := hall.1 hleast.1.free
      obtain ⟨m', hstep, -, hpages, hm'⟩ :=
        mapBackingMemory_ok state hm hr hmemory hf hl hlo htype hroom'
      have hstep' : m.mapBackingMemory isCached (max base vma.base) memory size state =
          some (.ok (), m') := hstep
      rw [mapBackingMemoryToBase_of_le hm hregion hc (hsum.trans_le hle), hstep', Option.bind_some]
      refine ⟨fun t ht => ?_, fun hnone => absurd hleast.1 (hnone _)⟩
      obtain rfl := ht.unique hleast
      exact ⟨m', rfl, hm', hpages⟩
    · have hnone : ∀ t, ¬ FitsAt m base regionSize size t := by
        intro t ht
        have hlo := hlow t ht
        have hstop := ht.stop_le
        have hadd := add32_le (max base vma.base) size
        omega
      rw [mapBackingMemoryToBase_of_lt hm hregion hc (not_le.1 hle)]
      exact ⟨fun t ht => absurd ht.1 (hnone t), fun _ => rfl⟩
  · have hnone : ∀ t, ¬ FitsAt m base regionSize size t := by
      intro t ht
      obtain ⟨w, hw, hcw, -, -⟩ := ht.exists_candidate hm hfree hregion hsize hpos
      cases hfind : m.vmaMap.find? (Candidate base size ·) with
      | none =>
        have hw' := List.find?_eq_none.1 hfind w hw
        exact absurd hcw (by simpa using hw')
      | some v => exact hex ⟨v, find?_candidate_iff.1 hfind⟩
    rw [mapBackingMemoryToBase_of_none hm (not_exists.1 hex)]
    exact ⟨fun t ht => absurd ht.1 (hnone t), fun _ => rfl⟩

/-- A first fit found room in the first area the search accepts. -/
theorem IsFirstFit.room
    (h : IsFirstFit isCached m base regionSize memory size state
      (m.mapBackingMemoryToBase isCached base regionSize memory size state))
    (hm : Consistent isCached m) (hregion : base + regionSize < maxAddress)
    (hc : FirstCandidate m base size vma) (hle : add32 (max base vma.base) size ≤ base + regionSize) :
    0 < size ∧ max base vma.base % citraPageSize = 0 ∧ max base vma.base + size ≤ vma.stop := by
  by_cases hex : ∃ t, FitsAt m base regionSize size t
  · classical
    have hleast : IsLeast {t | FitsAt m base regionSize size t} (Nat.find hex) :=
      ⟨Nat.find_spec hex, fun t ht => Nat.find_min' hex ht⟩
    obtain ⟨m', hrun, -, -⟩ := h.found _ hleast
    exact hc.room_of_mapped hm (mapBackingMemoryToBase_cases hm hregion hc hle (Or.inr ⟨_, rfl⟩) hrun)
  · have hrun := h.notFound (not_exists.1 hex)
    exact hc.room_of_mapped hm (mapBackingMemoryToBase_cases hm hregion hc hle (Or.inl rfl) hrun)

/-- The address `base` is free. -/
theorem exists_firstCandidate_zero (hm : Consistent isCached m) {v : VirtualMemoryArea} (hv : v ∈ m.vmaMap)
    (hvfree : v.val.type = .free) (hlo : v.base ≤ base) (hhi : base < v.stop) :
    ∃ vma, FirstCandidate m base 0 vma ∧ max base vma.base = base := by
  have hcv : Candidate base 0 v := ⟨hvfree, hhi, (add32_le base 0).trans hhi.le⟩
  cases hfind : m.vmaMap.find? (Candidate base 0 ·) with
  | none =>
    have hv' := List.find?_eq_none.1 hfind v hv
    exact absurd hcv (by simpa using hv')
  | some vma =>
    have hc := find?_candidate_iff.1 hfind
    exact ⟨vma, hc, max_eq_left ((hc.base_le hm hv hcv).trans hlo)⟩

/-- `MapBackingMemoryToBase` of a block with bytes. -/
theorem isFirstFit_iff_of_pos (hm : Consistent isCached m) (hfree : FreeMerged m.vmaMap)
    (hmemory : memory.offset + size ≤ memory.backingMem.size) (hregion : base + regionSize < maxAddress)
    (hsize : size % citraPageSize = 0) (hpos : 0 < size) :
    IsFirstFit isCached m base regionSize memory size state
        (m.mapBackingMemoryToBase isCached base regionSize memory size state) ↔
      FirstCandidateFits m base regionSize size := by
  rw [FirstCandidateFits, if_pos hpos]
  constructor
  · intro h vma hc hle
    exact (h.room hm hregion hc hle).2
  · exact isFirstFit_of_fits hm hfree hmemory hregion hsize hpos

/-- `MapBackingMemoryToBase` of a block without bytes. -/
theorem isFirstFit_iff_of_zero (hm : Consistent isCached m) (hregion : base + regionSize < maxAddress) :
    IsFirstFit isCached m base regionSize memory 0 state
        (m.mapBackingMemoryToBase isCached base regionSize memory 0 state) ↔
      FirstCandidateFits m base regionSize 0 := by
  have hsum : ∀ a, a < maxAddress → add32 a 0 = a := fun a ha =>
    Nat.mod_eq_of_lt (ha.trans (by decide))
  have hempty : ∀ t, t % citraPageSize = 0 → base ≤ t → t ≤ base + regionSize →
      FitsAt m base regionSize 0 t := by
    intro t ht hlo hhi
    refine ⟨ht, hlo, hhi, fun page hpage => ?_⟩
    have := hpage.1
    have := hpage.2
    omega
  rw [FirstCandidateFits, if_neg (lt_irrefl 0)]
  constructor
  · intro h
    have hnotfree : ∀ vma, FirstCandidate m base 0 vma → base + regionSize < max base vma.base := by
      intro vma hc
      by_contra hle
      have hlt : max base vma.base < maxAddress := by omega
      exact absurd (h.room hm hregion hc (by rw [hsum _ hlt]; omega)).1 (lt_irrefl 0)
    constructor
    · intro t ht hlo
      by_contra hhi
      classical
      have hex : ∃ t, FitsAt m base regionSize 0 t := ⟨t, hempty t ht hlo (by omega)⟩
      have hleast : IsLeast {t | FitsAt m base regionSize 0 t} (Nat.find hex) :=
        ⟨Nat.find_spec hex, fun t ht => Nat.find_min' hex ht⟩
      obtain ⟨m', hrun, -, -⟩ := h.found _ hleast
      -- the call did not succeed: nothing of no bytes can be mapped
      by_cases hcand : ∃ vma, FirstCandidate m base 0 vma
      · obtain ⟨vma, hc⟩ := hcand
        have hlt := hnotfree vma hc
        have hle : max base vma.base ≤ maxAddress := by
          have hbounds := hm.tiles.bounds hc.mem
          rw [Tile.stop] at hbounds
          exact max_le (by omega) (by omega)
        rw [mapBackingMemoryToBase_of_lt hm hregion hc
          (by rw [add32, Nat.add_zero, Nat.mod_eq_of_lt (hle.trans_lt (by decide))]; exact hlt)] at hrun
        cases (Prod.mk.inj (Option.some.inj hrun)).1
      · rw [mapBackingMemoryToBase_of_none hm (not_exists.1 hcand)] at hrun
        cases (Prod.mk.inj (Option.some.inj hrun)).1
    · intro v hv hvfree hlo
      by_contra hhi
      obtain ⟨vma, hc, hmax⟩ := exists_firstCandidate_zero hm hv hvfree hlo (not_le.1 hhi)
      have hlt := hnotfree vma hc
      omega
  · rintro ⟨hpages, hbase⟩
    have hnone : ∀ t, ¬ FitsAt m base regionSize 0 t := by
      intro t ht
      have hlt := hpages t ht.aligned ht.base_le
      have hstop := ht.stop_le
      omega
    have hrun : m.mapBackingMemoryToBase isCached base regionSize memory 0 state =
        some (.error .outOfMemory, m) := by
      by_cases hcand : ∃ vma, FirstCandidate m base 0 vma
      · obtain ⟨vma, hc⟩ := hcand
        have hbounds := hm.tiles.bounds hc.mem
        have hlt : base < vma.base := by
          by_contra hlo
          have hstop := hbase vma hc.mem hc.candidate.1 (not_lt.1 hlo)
          have hstop' := hc.candidate.2.1
          omega
        have hbehind := hpages vma.base (hm.wellFormed vma hc.mem).base hlt.le
        rw [Tile.stop] at hbounds
        refine mapBackingMemoryToBase_of_lt hm hregion hc ?_
        rw [max_eq_right hlt.le, hsum vma.base (by omega)]
        exact hbehind
      · exact mapBackingMemoryToBase_of_none hm (not_exists.1 hcand)
    exact ⟨fun t ht => absurd ht.1 (hnone t), fun _ => hrun⟩

end

/-- `MapBackingMemoryToBase` is a first fit exactly if the first area it accepts has room for the block at the
address it computes, unless the region ends before that.  All that is asked of the map is what every operation of
the manager keeps. -/
theorem isFirstFit_iff (isCached : Nat → Bool) (m : VMManager) (hm : Consistent isCached m)
    (hfree : FreeMerged m.vmaMap) (base regionSize size : Nat) (memory : MemoryRef) (state : MemoryState)
    (hmemory : memory.offset + size ≤ memory.backingMem.size) (hregion : base + regionSize < maxAddress)
    (hsize : size % citraPageSize = 0) :
    IsFirstFit isCached m base regionSize memory size state
        (m.mapBackingMemoryToBase isCached base regionSize memory size state) ↔
      FirstCandidateFits m base regionSize size := by
  rcases Nat.eq_zero_or_pos size with rfl | hpos
  · exact isFirstFit_iff_of_zero hm hregion
  · exact isFirstFit_iff_of_pos hm hfree hmemory hregion hsize hpos

/-! ## Buffers between buffers -/

/-- A sequence of operations. -/
def VMManager.runOps (isCached : Nat → Bool) (m : VMManager) (ops : List Op) : Option VMManager :=
  ops.foldlM (fun m op => (m.step isCached op).map Prod.snd) m

theorem Reachable.runOps {m m' : VMManager} {ops : List Op} (h : Reachable isCached (fun _ _ => True) m)
    (hops : ∀ op ∈ ops, op.WellFormed) (hrun : m.runOps isCached ops = some m') :
    Reachable isCached (fun _ _ => True) m' := by
  induction ops generalizing m with
  | nil =>
    obtain rfl := Option.some.inj hrun
    exact h
  | cons op ops ih =>
    rw [List.forall_mem_cons] at hops
    obtain ⟨m₁, hmapped, hrun⟩ := Option.bind_eq_some_iff.1 hrun
    obtain ⟨⟨r, m₂⟩, hstep, rfl⟩ := Option.map_eq_some_iff.1 hmapped
    exact ih (h.step hops.1 trivial hstep) hops.2 hrun

/-- Three buffers of a page are mapped where the kernel maps them for a request, and the second is unmapped. -/
def bufferOps : List Op :=
  [.mapBackingMemory 0x04000000 ⟨⟨6, 0x3000⟩, 0⟩ 0x3000 .shared,
    .mapBackingMemory 0x04003000 ⟨⟨7, 0x3000⟩, 0⟩ 0x3000 .shared,
    .mapBackingMemory 0x04006000 ⟨⟨8, 0x3000⟩, 0⟩ 0x3000 .shared,
    .unmapRange 0x04003000 0x3000]

/-- Another buffer of a page finds its place between the two others. -/
theorem isFirstFit_iff_between :
    ∃ m, VMManager.fresh.runOps (fun _ => false) bufferOps = some m ∧
      IsFirstFit (fun _ => false) m 0x04000000 0x04000000 ⟨⟨9, 0x3000⟩, 0⟩ 0x3000 .shared
        (m.mapBackingMemoryToBase (fun _ => false) 0x04000000 0x04000000 ⟨⟨9, 0x3000⟩, 0⟩ 0x3000 .shared) := by
  have hmap : (VMManager.fresh.runOps (fun _ => false) bufferOps).map (fun m =>
      m.vmaMap.find? (Candidate 0x04000000 0x3000 ·)) =
      some (some ⟨0x04003000, 0x3000, freeAttributes⟩) := by decide +kernel
  obtain ⟨m, hrun, hfind⟩ := Option.map_eq_some_iff.1 hmap
  have hreach : Reachable (fun _ => false) (fun _ _ => True) m :=
    (Reachable.reset (reset_blank _)).runOps (by decide) hrun
  obtain ⟨hm, hfree⟩ := hreach.freeMerged
  refine ⟨m, hrun, (isFirstFit_iff _ _ hm hfree _ _ _ _ _ (by decide) (by decide) (by decide)).2 ?_⟩
  rw [FirstCandidateFits, if_pos (by decide)]
  rintro vma hc -
  obtain rfl := Option.some.inj ((find?_candidate_iff.2 hc).symm.trans hfind)
  exact ⟨by decide, by decide⟩

/-- A buffer of two pages does not fit between the two others.  There is room behind them, but the call fails. -/
theorem not_isFirstFit :
    ¬ ∀ (isCached : Nat → Bool) (m : VMManager), Reachable isCached (fun _ _ => True) m →
      ∀ (base regionSize size : Nat) (memory : MemoryRef) (state : MemoryState),
        memory.offset + size ≤ memory.backingMem.size → base + regionSize < maxAddress →
        size % citraPageSize = 0 →
        IsFirstFit isCached m base regionSize memory size state
          (m.mapBackingMemoryToBase isCached base regionSize memory size state) := by
  intro hall
  have hmap : (VMManager.fresh.runOps (fun _ => false) bufferOps).map (fun m =>
      m.vmaMap.find? (Candidate 0x04000000 0x4000 ·)) =
      some (some ⟨0x04003000, 0x3000, freeAttributes⟩) := by decide +kernel
  obtain ⟨m, hrun, hfind⟩ := Option.map_eq_some_iff.1 hmap
  have hreach : Reachable (fun _ => false) (fun _ _ => True) m :=
    (Reachable.reset (reset_blank _)).runOps (by decide) hrun
  have hfits := hall _ m hreach 0x04000000 0x04000000 0x4000 ⟨⟨9, 0x4000⟩, 0⟩ .shared (by decide) (by decide)
    (by decide)
  have hroom := hfits.room hreach.freeMerged.1 (by decide) (find?_candidate_iff.1 hfind) (by decide)
  revert hroom
  decide

end AzaharPlus.Kernel
