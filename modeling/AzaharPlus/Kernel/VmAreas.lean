import AzaharPlus.Kernel.VmManager

/-!
# What the functions of the virtual memory manager do

One lemma for each function of `AzaharPlus/Kernel/VmManager.lean`, in terms of the
tilings of `AzaharPlus/Lib/Tiling.lean`: `CanBeMergedWith` decides whether an area
carries on from another one, `FindVMA` with `SplitVMA` cuts the map at an address,
`MergeAdjacent` joins an area with its neighbours, and `UpdatePageTableForVMA` writes
the entries of its pages.  None of them fails an assertion on well-formed areas.
-/

namespace AzaharPlus.Kernel

open Tiling

/-! ## Well-formed areas -/

/-- The attributes an area can have: all free areas look alike, the others have memory. -/
def Attributes.Valid (a : Attributes) : Prop :=
  a = freeAttributes ∨ (a.type = .backingMemory ∧ a.backingMemory.isSome)

@[simp] theorem vadd_def (n : ℕ) (a : Attributes) : n +ᵥ a = a.shift n := rfl

@[simp] theorem shift_freeAttributes (n : Nat) : freeAttributes.shift n = freeAttributes := rfl

theorem Attributes.Valid.shift {a : Attributes} (h : a.Valid) (n : Nat) : (a.shift n).Valid := by
  rcases h with rfl | ⟨ht, hb⟩
  · exact Or.inl rfl
  · exact Or.inr ⟨ht, by simpa [Attributes.shift] using hb⟩

theorem Attributes.Valid.free_iff {a : Attributes} (h : a.Valid) :
    a.type = .free ↔ a = freeAttributes := by
  rcases h with rfl | ⟨ht, hb⟩
  · exact iff_of_true rfl rfl
  · rw [ht]
    refine iff_of_false (by decide) ?_
    rintro rfl
    exact absurd ht (by decide)

/-- An area aligned to pages, with attributes that are valid all over it. -/
structure WellFormed (vma : VirtualMemoryArea) : Prop where
  base : vma.base % citraPageSize = 0
  size : vma.size % citraPageSize = 0
  valid : vma.val.Valid
  fits : ∀ r ∈ vma.val.backingMemory, r.offset + vma.size ≤ r.backingMem.size

/-- For adjacent areas `CanBeMergedWith` is that the second carries on from the first. -/
theorem canBeMergedWith_eq {v n : VirtualMemoryArea} (hb : n.base = v.base + v.size)
    (hv : v.val.Valid) (hn : n.val.Valid) : canBeMergedWith v n = some (decide (Joins v n)) := by
  obtain ⟨vb, vs, ⟨vt, vp, vst, vm⟩⟩ := v
  obtain ⟨nb, ns, ⟨nt, np, nst, nm⟩⟩ := n
  have hj : Joins (⟨vb, vs, ⟨vt, vp, vst, vm⟩⟩ : VirtualMemoryArea) ⟨nb, ns, ⟨nt, np, nst, nm⟩⟩ ↔
      vt = nt ∧ vp = np ∧ vst = nst ∧ vm.map (·.shift vs) = nm := by
    simp [Joins, Attributes.shift]
  simp only at hb
  rw [canBeMergedWith, if_neg (by simpa using hb.symm)]
  simp only [decide_eq_decide.2 hj, ne_eq]
  by_cases hp : vp = np <;> by_cases hst : vst = nst <;> by_cases ht : vt = nt <;>
    simp only [hp, hst, ht, not_true_eq_false, not_false_eq_true, false_or, true_or, or_true,
      if_true, if_false, false_and, and_false, decide_false, true_and]
  -- the same kind of area on both sides: only for mapped ones are the pointers compared
  subst hp hst ht
  rcases hv with hv | ⟨hvt, -⟩
  · cases hv
    rcases hn with hn | ⟨hnt, -⟩
    · cases hn
      simp
    · cases hnt
  · simp only at hvt
    subst hvt
    simp only [true_and]
    split <;> simp_all

theorem WellFormed.left {v : VirtualMemoryArea} (h : WellFormed v) {n : Nat}
    (hn : n % citraPageSize = 0) (hle : n ≤ v.size) : WellFormed (v.left n) where
  base := h.base
  size := hn
  valid := h.valid
  fits := fun r hr => by
    have := h.fits r hr
    simp only [Tile.left]
    omega

theorem WellFormed.right {v : VirtualMemoryArea} (h : WellFormed v) {n : Nat}
    (hn : n % citraPageSize = 0) (hle : n ≤ v.size) : WellFormed (v.right n) where
  base := by
    have := h.base
    simp only [Tile.right, citraPageSize] at *
    omega
  size := by
    have := h.size
    simp only [Tile.right, citraPageSize] at *
    omega
  valid := h.valid.shift n
  fits := fun r hr => by
    simp only [Tile.right, vadd_def, Attributes.shift, Option.mem_def, Option.map_eq_some_iff] at hr
    obtain ⟨r', hr', rfl⟩ := hr
    have := h.fits r' hr'
    simp only [MemoryRef.shift, Tile.right]
    omega

theorem WellFormed.join {v n : VirtualMemoryArea} (hv : WellFormed v) (hn : WellFormed n)
    (h : Joins v n) : WellFormed (v.join n) where
  base := hv.base
  size := by
    have h₁ := hv.size
    have h₂ := hn.size
    simp only [Tile.join, citraPageSize] at *
    omega
  valid := hv.valid
  fits := fun r hr => by
    have hr' : n.val.backingMemory = some (r.shift v.size) := by
      rw [← h]
      simp only [vadd_def, Attributes.shift, Option.map_eq_some_iff]
      exact ⟨r, hr, rfl⟩
    have := hn.fits _ hr'
    simp only [MemoryRef.shift, Tile.join] at *
    omega

/-! ## Iterators, splitting and merging -/

/-- The keys up to an address are those of the areas up to the one that has it inside. -/
theorem upperBound_spec {l : List VirtualMemoryArea} {target lo hi : Nat} (h : Tiles lo hi l)
    (h₁ : lo ≤ target) (h₂ : target < hi) :
    ∃ pre vma post, l = pre ++ vma :: post ∧ vma.base ≤ target ∧ target < vma.stop ∧
      l.takeWhile (·.base ≤ target) = pre ++ [vma] ∧ l.dropWhile (·.base ≤ target) = post := by
  induction l generalizing lo with
  | nil => rw [tiles_nil] at h; omega
  | cons v l ih =>
    obtain ⟨rfl, hpos, hl⟩ := h
    rw [List.takeWhile_cons_of_pos (by simpa using h₁),
      List.dropWhile_cons_of_pos (by simpa using h₁)]
    by_cases hv : target < v.base + v.size
    · refine ⟨[], v, l, rfl, h₁, hv, ?_, ?_⟩
      · cases l with
        | nil => rfl
        | cons n l =>
          have hn := hl.1
          rw [List.takeWhile_cons_of_neg (by simp; omega), List.nil_append]
      · cases l with
        | nil => rfl
        | cons n l =>
          have hn := hl.1
          rw [List.dropWhile_cons_of_neg (by simp; omega)]
    · obtain ⟨pre, vma, post, rfl, hb, hs, ht, hd⟩ := ih hl (by omega)
      exact ⟨v :: pre, vma, post, rfl, hb, hs, by rw [ht, List.cons_append], hd⟩

/-- `FindVMA` finds the area that has the address inside. -/
theorem findVMA_spec {l : List VirtualMemoryArea} {target : Nat} (h : Tiles 0 maxAddress l)
    (ht : target < maxAddress) :
    ∃ before vma after, findVMA l target = ⟨before, vma :: after⟩ ∧
      l = before.reverse ++ vma :: after ∧ vma.base ≤ target ∧ target < vma.stop := by
  obtain ⟨pre, vma, post, hl, hb, hs, htake, hdrop⟩ := upperBound_spec h (Nat.zero_le _) ht
  refine ⟨pre.reverse, vma, post, ?_, by rw [List.reverse_reverse, hl], hb, hs⟩
  rw [findVMA, if_neg (by omega), upperBound, htake, hdrop, List.reverse_append]
  rfl

/-- `lower_bound` of an address at which the map has a border. -/
theorem lowerBound_eq {pre post : List VirtualMemoryArea} {target lo hi : Nat}
    (h₁ : Tiles lo target pre) (h₂ : Tiles target hi post) :
    lowerBound (pre ++ post) target = ⟨pre.reverse, post⟩ := by
  have hpre : ∀ v ∈ pre, decide (v.base < target) = true := by
    intro v hv
    obtain ⟨-, hs, hpos⟩ := h₁.bounds hv
    rw [Tile.stop] at hs
    exact decide_eq_true (by omega)
  have hpost : post.takeWhile (·.base < target) = [] ∧ post.dropWhile (·.base < target) = post := by
    cases post with
    | nil => exact ⟨rfl, rfl⟩
    | cons v post =>
      have hv := h₂.1
      exact ⟨List.takeWhile_cons_of_neg (by simp; omega),
        List.dropWhile_cons_of_neg (by simp; omega)⟩
  rw [lowerBound, List.takeWhile_append_of_pos hpre, List.dropWhile_append_of_pos hpre, hpost.1,
    hpost.2, List.append_nil]

/-- `SplitVMA` inside an area cuts it in two. -/
theorem splitVMA_eq {vma : VirtualMemoryArea} {before rest : List VirtualMemoryArea} {n : Nat}
    (h : WellFormed vma) (h₁ : 0 < n) (h₂ : n < vma.size) :
    splitVMA ⟨before, vma :: rest⟩ n = some ⟨vma.left n :: before, vma.right n :: rest⟩ := by
  have hb : splitBacking vma.val n = some (vma.right n).val.backingMemory := by
    rcases h.valid with hf | ⟨ht, hs⟩
    · rw [Tile.right, hf]
      rfl
    · obtain ⟨r, hr⟩ := Option.isSome_iff_exists.1 hs
      have hfit := h.fits r hr
      have hlt : n < r.getSize := by
        rw [MemoryRef.getSize]
        omega
      simp [splitBacking, ht, hr, MemoryRef.addAssign, hlt, Tile.right, Attributes.shift]
  have hm : canBeMergedWith (vma.left n) (vma.right n) = some true := by
    have hj : decide (Joins (vma.left n) (vma.right n)) = true :=
      decide_eq_true (joins_left_right vma n)
    rw [← hj]
    exact canBeMergedWith_eq rfl h.valid (h.valid.shift n)
  simp only [splitVMA]
  rw [if_pos ⟨h₂, h₁⟩, hb]
  show (canBeMergedWith (vma.left n) (vma.right n)).bind _ = _
  rw [hm]
  rfl

theorem mergeNext_eq {vma : VirtualMemoryArea} {rest : List VirtualMemoryArea} {lo hi : Nat}
    (h : Tiles lo hi (vma :: rest)) (hw : ∀ v ∈ vma :: rest, v.val.Valid) :
    mergeNext vma rest = some (joinNext vma rest) := by
  cases rest with
  | nil => rfl
  | cons n rest =>
    obtain ⟨rfl, -, hn, -⟩ := h
    rw [mergeNext, canBeMergedWith_eq hn (hw vma (by simp)) (hw n (by simp))]
    by_cases hj : Joins vma n <;> simp [joinNext, hj, Tile.join]

theorem mergePrev_spec {vma : VirtualMemoryArea} {before : List VirtualMemoryArea} {lo hi : Nat}
    (h : Tiles lo hi (before.reverse ++ [vma])) (hw : ∀ v ∈ before.reverse ++ [vma], v.val.Valid)
    (rest : List VirtualMemoryArea) :
    ∃ it, mergePrev before vma rest = some it ∧ it.next = ⟨joinPrev vma before, rest⟩ ∧
      it.map = it.next.map := by
  cases before with
  | nil => exact ⟨_, rfl, rfl, rfl⟩
  | cons p before =>
    rw [List.reverse_cons, List.append_assoc] at h
    obtain ⟨mid, -, rfl, -, hv, -⟩ := tiles_append.1 h
    rw [mergePrev, canBeMergedWith_eq hv (hw p (by simp)) (hw vma (by simp))]
    by_cases hj : Joins p vma <;>
      simp [joinPrev, hj, Tile.join, VMAIter.next, VMAIter.map]

theorem valid_joinNext {vma : VirtualMemoryArea} {rest : List VirtualMemoryArea}
    (hw : vma.val.Valid) : (joinNext vma rest).1.val.Valid := by
  rcases joinNext_cases vma rest with ⟨n, rest', rfl, -, e⟩ | ⟨e, -⟩ <;> rw [e] <;> exact hw

/-- `MergeAdjacent` joins an area with both its neighbours. -/
theorem mergeAdjacent_spec {vma : VirtualMemoryArea} {before rest : List VirtualMemoryArea}
    {lo hi : Nat} (h : Tiles lo hi (before.reverse ++ vma :: rest))
    (hw : ∀ v ∈ before.reverse ++ vma :: rest, v.val.Valid) :
    ∃ it, mergeAdjacent ⟨before, vma :: rest⟩ = some it ∧
      it.next = ⟨joinPrev (joinNext vma rest).1 before, (joinNext vma rest).2⟩ ∧
      it.map = it.next.map := by
  obtain ⟨mid, hb, hv⟩ := tiles_append.1 h
  have hj := hv.joinNext.1
  have hb' : Tiles lo (mid + (joinNext vma rest).1.size) (before.reverse ++ [(joinNext vma rest).1]) :=
    tiles_append.2 ⟨mid, hb, hj.1, hj.2.1, rfl⟩
  have hnext : mergeNext vma rest = some (joinNext vma rest) :=
    mergeNext_eq hv fun v hv => hw v (List.mem_append_right _ hv)
  obtain ⟨it, hit⟩ := mergePrev_spec hb' (by
    intro v hv
    rcases List.mem_append.1 hv with hv | hv
    · exact hw v (List.mem_append_left _ hv)
    · rw [List.mem_singleton.1 hv]
      exact valid_joinNext (hw vma (by simp))) (joinNext vma rest).2
  refine ⟨it, ?_, hit.2⟩
  simp only [mergeAdjacent, hnext]
  exact hit.1

/-! ## Carving -/

theorem wellFormed_cutAt {l : List VirtualMemoryArea} {a : Nat} (ha : a % citraPageSize = 0)
    (hw : ∀ v ∈ l, WellFormed v) :
    (∀ v ∈ (cutAt a l).1, WellFormed v) ∧ ∀ v ∈ (cutAt a l).2, WellFormed v := by
  induction l with
  | nil => exact ⟨hw, hw⟩
  | cons t l ih =>
    have ht := hw t List.mem_cons_self
    have hl : ∀ v ∈ l, WellFormed v := fun v hv => hw v (List.mem_cons_of_mem t hv)
    rcases cutAt_cons_cases a t l with ⟨-, e⟩ | ⟨h₁, h₂, e⟩ | ⟨-, -, e⟩ <;> rw [e]
    · exact ⟨List.forall_mem_cons.2 ⟨ht, (ih hl).1⟩, (ih hl).2⟩
    · have hoff : (a - t.base) % citraPageSize = 0 := by
        have := ht.base
        simp only [citraPageSize] at *
        omega
      have hle : a - t.base ≤ t.size := by
        rw [Tile.stop] at h₂
        omega
      exact ⟨List.forall_mem_singleton.2 (ht.left hoff hle),
        List.forall_mem_cons.2 ⟨ht.right hoff hle, hl⟩⟩
    · exact ⟨by simp, hw⟩

/-- Where `FindVMA` stands, the map is cut. -/
theorem cutAt_of_find {before after : List VirtualMemoryArea} {vma : VirtualMemoryArea}
    {target lo hi : Nat} (h : Tiles lo hi (before.reverse ++ vma :: after))
    (hb : vma.base ≤ target) (hs : target < vma.stop) :
    cutAt target (before.reverse ++ vma :: after) =
      if target ≠ vma.base then
        (before.reverse ++ [vma.left (target - vma.base)], vma.right (target - vma.base) :: after)
      else (before.reverse, vma :: after) := by
  obtain ⟨mid, h₁, rfl, -⟩ := tiles_append.1 h
  rw [cutAt_append h₁ hb]
  rcases cutAt_cons_cases target vma after with ⟨hs', -⟩ | ⟨hb', -, e⟩ | ⟨hb', -, e⟩
  · omega
  · rw [e, if_pos (by omega)]
  · rw [e, if_neg (by omega), List.append_nil]

/-- Finding the area of an address and splitting it there cuts the map. -/
theorem splitAtAddress_eq {l : List VirtualMemoryArea} {target : Nat} (h : Tiles 0 maxAddress l)
    (hw : ∀ v ∈ l, WellFormed v) (ht : target ≤ maxAddress) :
    splitAtAddress (findVMA l target) target =
      some ⟨(cutAt target l).1.reverse, (cutAt target l).2⟩ := by
  rcases ht.lt_or_eq with ht | rfl
  · obtain ⟨before, vma, after, hf, rfl, hb, hs⟩ := findVMA_spec h ht
    rw [cutAt_of_find h hb hs, hf]
    by_cases hne : target = vma.base
    · simp [splitAtAddress, hne]
    · rw [Tile.stop] at hs
      have hsplit : splitVMA ⟨before, vma :: after⟩ (target - vma.base) = _ :=
        splitVMA_eq (hw vma (by simp)) (by omega) (by omega)
      simp [splitAtAddress, hne, hsplit]
  · have hcut : cutAt maxAddress l = (l, []) := by
      have := cutAt_append h le_rfl []
      simpa [cutAt] using this
    rw [findVMA, if_pos le_rfl, hcut]
    rfl

theorem mem_takeWhile_base_lt {l : List VirtualMemoryArea} {stop lo hi : Nat}
    (h : Tiles lo hi l) (v : VirtualMemoryArea) :
    v ∈ l.takeWhile (·.base < stop) ↔ v ∈ l ∧ v.base < stop := by
  induction l generalizing lo with
  | nil => simp
  | cons t l ih =>
    by_cases ht : t.base < stop
    · rw [List.takeWhile_cons_of_pos (by simpa using ht), List.mem_cons, ih h.2.2, List.mem_cons]
      constructor
      · rintro (rfl | ⟨hv, hlt⟩)
        · exact ⟨Or.inl rfl, ht⟩
        · exact ⟨Or.inr hv, hlt⟩
      · rintro ⟨rfl | hv, hlt⟩
        · exact Or.inl rfl
        · exact Or.inr ⟨hv, hlt⟩
    · rw [List.takeWhile_cons_of_neg (by simpa using ht)]
      refine iff_of_false (by simp) ?_
      rintro ⟨hv, hlt⟩
      have := (h.bounds hv).1
      have := h.1
      omega

/-- An area is looked at exactly if it meets the range. -/
theorem mem_areasUpTo {l : List VirtualMemoryArea} {target stop : Nat} (h : Tiles 0 maxAddress l)
    (ht : target < maxAddress) (v : VirtualMemoryArea) :
    v ∈ areasUpTo (findVMA l target) stop ↔ v ∈ l ∧ v.base < stop ∧ target < v.stop := by
  obtain ⟨before, vma, after, hf, rfl, hb, hs⟩ := findVMA_spec h ht
  obtain ⟨mid, h₁, h₂⟩ := tiles_append.1 h
  have hmid := h₂.1
  rw [hf, areasUpTo, mem_takeWhile_base_lt h₂]
  constructor
  · rintro ⟨hv, hlt⟩
    refine ⟨List.mem_append_right _ hv, hlt, ?_⟩
    rcases List.mem_cons.1 hv with rfl | hv
    · exact hs
    · obtain ⟨hv₁, -, hv₂⟩ := h₂.2.2.bounds hv
      rw [Tile.stop] at hs ⊢
      omega
  · rintro ⟨hv, hlt, hgt⟩
    rcases List.mem_append.1 hv with hv | hv
    · have := (h₁.bounds hv).2.1
      omega
    · exact ⟨hv, hlt⟩

/-- The loop of `ChangeMemoryState` goes over the areas of the range, unless this wraps around. -/
theorem areasChecked_eq {l : List VirtualMemoryArea} {target size : Nat} (h : Tiles 0 maxAddress l)
    (ht : target < maxAddress) (hwrap : target + size < 2 ^ 32) :
    areasChecked (findVMA l target) (add32 target size) = areasUpTo (findVMA l target) (target + size) := by
  obtain ⟨before, vma, after, hf, rfl, hb, -⟩ := findVMA_spec h ht
  obtain ⟨mid, h₁, h₂⟩ := tiles_append.1 h
  rw [add32, Nat.mod_eq_of_lt hwrap, hf, areasChecked, if_neg ?_]
  rw [Bool.not_eq_true, List.any_eq_false]
  intro v hv
  obtain ⟨-, hstop, hpos⟩ := h₁.bounds (List.mem_reverse.2 hv)
  have hmid := h₂.1
  rw [Tile.stop] at hstop
  rw [decide_eq_true_iff, not_le]
  omega

/-- `CarveVMARange` on a range with a free area in it. -/
theorem carveVMARange_error {l : List VirtualMemoryArea} {target size : Nat}
    (hsz : size % citraPageSize = 0) (hta : target % citraPageSize = 0)
    (hend : target + size ≤ maxAddress) (hpos : 0 < size)
    (hfree : ∃ v ∈ areasUpTo (findVMA l target) (target + size), v.val.type = .free) :
    carveVMARange l target size = some (.error .invalidAddressState) := by
  have hany : (areasUpTo (findVMA l target) (target + size)).any (·.val.type = .free) = true := by
    simpa using hfree
  simp only [carveVMARange]
  rw [if_pos ⟨hsz, hta, hend, hpos⟩, if_pos hany]

/-- `CarveVMARange` on a range without free areas cuts the map at both ends. -/
theorem carveVMARange_ok {l : List VirtualMemoryArea} {target size : Nat}
    (h : Tiles 0 maxAddress l) (hw : ∀ v ∈ l, WellFormed v)
    (hsz : size % citraPageSize = 0) (hta : target % citraPageSize = 0)
    (hend : target + size ≤ maxAddress) (hpos : 0 < size)
    (hfree : ¬ ∃ v ∈ areasUpTo (findVMA l target) (target + size), v.val.type = .free) :
    carveVMARange l target size = some (.ok ⟨(cutAt target l).1.reverse,
      (cutAt (target + size) (cutAt target l).2).1 ++
        (cutAt (target + size) (cutAt target l).2).2⟩) := by
  have hany : ¬ (areasUpTo (findVMA l target) (target + size)).any (·.val.type = .free) = true := by
    simpa using hfree
  have ht : target < maxAddress := by omega
  obtain ⟨h₁, h₂⟩ := h.cutAt (Nat.zero_le target) ht.le
  obtain ⟨h₃, h₄⟩ := h₂.cutAt (a := target + size) (by omega) hend
  obtain ⟨hw₁, hw₂⟩ := wellFormed_cutAt hta hw
  have hcut : cutAt (target + size) ((cutAt target l).1 ++ (cutAt target l).2) =
      ((cutAt target l).1 ++ (cutAt (target + size) (cutAt target l).2).1,
        (cutAt (target + size) (cutAt target l).2).2) := cutAt_append h₁ (by omega) _
  have h₅ : Tiles 0 maxAddress ((cutAt target l).1 ++ (cutAt target l).2) :=
    tiles_append.2 ⟨target, h₁, h₂⟩
  have hw₅ : ∀ v ∈ (cutAt target l).1 ++ (cutAt target l).2, WellFormed v := by
    intro v hv
    exact (List.mem_append.1 hv).elim (hw₁ v) (hw₂ v)
  have hend' := splitAtAddress_eq h₅ hw₅ hend
  rw [hcut] at hend'
  simp only [carveVMARange]
  rw [if_pos ⟨hsz, hta, hend, hpos⟩, if_neg hany, splitAtAddress_eq h hw ht.le]
  simp only [VMAIter.map, List.reverse_reverse, Option.bind_eq_bind, Option.bind_some, hend',
    List.append_assoc]
  rw [lowerBound_eq h₁ (tiles_append.2 ⟨_, h₃, h₄⟩)]

/-- `CarveVMA` fails on an area that is mapped or too small. -/
theorem carveVMA_error {l before after : List VirtualMemoryArea} {vma : VirtualMemoryArea}
    {base size : Nat} (hsz : size % citraPageSize = 0) (hba : base % citraPageSize = 0)
    (hf : findVMA l base = ⟨before, vma :: after⟩) (hb : vma.base ≤ base)
    (hwrap : base + size < 2 ^ 32) (hbad : vma.val.type ≠ .free ∨ vma.stop < base + size) :
    carveVMA l base size = some (.error .invalidAddressState) := by
  simp only [carveVMA]
  rw [if_pos ⟨hsz, hba⟩, hf]
  by_cases ht : vma.val.type = .free
  · have hbig : add32 (base - vma.base) size > vma.size := by
      have := hbad.resolve_left (not_not.2 ht)
      rw [Tile.stop] at this
      rw [add32, Nat.mod_eq_of_lt (by omega)]
      omega
    simp [ht, hbig]
  · simp [ht]

/-- A split leaves two smaller areas. -/
theorem sizes_of_splitVMA {before rest : List VirtualMemoryArea} {vma : VirtualMemoryArea} {n : Nat}
    {it : VMAIter} (h : splitVMA ⟨before, vma :: rest⟩ n = some it) :
    ∃ left right, left.size ≤ vma.size ∧ right.size ≤ vma.size ∧
      it = ⟨left :: before, right :: rest⟩ := by
  simp only [splitVMA] at h
  split_ifs at h with hn
  simp only [Option.bind_eq_bind, Option.bind_eq_some_iff] at h
  obtain ⟨backing, -, mergeable, -, h⟩ := h
  split_ifs at h
  exact ⟨_, _, hn.1.le, Nat.sub_le _ _, (Option.some.inj h).symm⟩

/-- Nothing larger than the area at the address can be carved. -/
theorem size_le_of_carveVMA {l before after rest : List VirtualMemoryArea}
    {vma carved : VirtualMemoryArea} {base size : Nat} {it : VMAIter}
    (hf : findVMA l base = ⟨before, vma :: after⟩) (hc : carveVMA l base size = some (.ok it))
    (hit : it.after = carved :: rest) : carved.size ≤ vma.size := by
  simp only [carveVMA, hf] at hc
  split_ifs at hc
  · cases hc
  · cases hc
  simp only [Option.bind_eq_bind, Option.bind_eq_some_iff] at hc
  obtain ⟨it₁, hend, it₂, hstart, hc⟩ := hc
  obtain rfl : it₂ = it := Except.ok.inj (Option.some.inj hc)
  obtain ⟨before₁, w, rest₁, rfl, hw⟩ : ∃ before₁ w rest₁, it₁ = ⟨before₁, w :: rest₁⟩ ∧
      w.size ≤ vma.size := by
    rw [splitAtEnd] at hend
    split_ifs at hend
    · obtain ⟨it₀, hsplit, rfl⟩ := Option.map_eq_some_iff.1 hend
      obtain ⟨left, right, hleft, -, rfl⟩ := sizes_of_splitVMA hsplit
      exact ⟨before, left, right :: after, rfl, hleft⟩
    · exact ⟨before, vma, after, (Option.some.inj hend).symm, le_rfl⟩
  rw [splitAtStart] at hstart
  split_ifs at hstart
  · obtain ⟨left, right, -, hright, rfl⟩ := sizes_of_splitVMA hstart
    obtain ⟨rfl, -⟩ := List.cons.inj hit
    exact hright.trans hw
  · obtain rfl := Option.some.inj hstart
    obtain ⟨rfl, -⟩ := List.cons.inj hit
    exact hw

theorem splitAtEnd_eq {before after : List VirtualMemoryArea} {vma : VirtualMemoryArea}
    {n lo hi : Nat} (h : Tiles lo hi (before.reverse ++ vma :: after)) (hw : WellFormed vma)
    (h₁ : 0 < n) (h₂ : n ≤ vma.size) :
    splitAtEnd ⟨before, vma :: after⟩ n vma.size =
      some ⟨before, vma.left n :: (cutAt (vma.base + n) (before.reverse ++ vma :: after)).2⟩ := by
  by_cases hn : n = vma.size
  · obtain ⟨mid, hm, rfl, -, ha⟩ := tiles_append.1 h
    rw [splitAtEnd, if_neg (by simpa using hn), cutAt_append hm (by omega), hn, cutAt,
      if_pos (by rw [Tile.stop]), cutAt_of_le ha le_rfl]
    rfl
  · have hlt : n < vma.size := by omega
    rw [splitAtEnd, if_pos hn, splitVMA_eq hw h₁ hlt,
      cutAt_of_find h (Nat.le_add_right _ _) (by rw [Tile.stop]; omega), if_pos (by omega)]
    simp [VMAIter.prev]

theorem splitAtStart_eq {before rest : List VirtualMemoryArea} {vma : VirtualMemoryArea} {n : Nat}
    (hw : WellFormed vma) (hn : n < vma.size) :
    splitAtStart ⟨before, vma :: rest⟩ n =
      some ⟨if n ≠ 0 then vma.left n :: before else before, vma.right n :: rest⟩ := by
  by_cases h₀ : n = 0
  · subst h₀
    have hr : vma.right 0 = vma := by rw [Tile.right, zero_vadd]; rfl
    simp [splitAtStart, hr]
  · rw [splitAtStart, if_pos h₀, if_pos h₀, splitVMA_eq hw (by omega) hn]

/-- `CarveVMA` inside a free area puts a border at both ends of the range. -/
theorem carveVMA_ok {before after : List VirtualMemoryArea} {vma : VirtualMemoryArea}
    {base size lo hi : Nat} (h : Tiles lo hi (before.reverse ++ vma :: after)) (hw : WellFormed vma)
    (hsz : size % citraPageSize = 0) (hba : base % citraPageSize = 0) (hpos : 0 < size)
    (hf : findVMA (before.reverse ++ vma :: after) base = ⟨before, vma :: after⟩)
    (hb : vma.base ≤ base) (hfree : vma.val.type = .free) (hfit : base + size ≤ vma.stop)
    (hwrap : base + size < 2 ^ 32) :
    carveVMA (before.reverse ++ vma :: after) base size =
      some (.ok ⟨(cutAt base (before.reverse ++ vma :: after)).1.reverse,
        ⟨base, size, freeAttributes⟩ ::
          (cutAt (base + size) (before.reverse ++ vma :: after)).2⟩) := by
  have hval : vma.val = freeAttributes := hw.valid.free_iff.1 hfree
  rw [Tile.stop] at hfit
  have hoff : (base - vma.base + size) % citraPageSize = 0 := by
    have := hw.base
    simp only [citraPageSize] at *
    omega
  have hend := splitAtEnd_eq h hw (by omega : 0 < base - vma.base + size) (by omega)
  have hstart : splitAtStart ⟨before, vma.left (base - vma.base + size) ::
      (cutAt (base + size) (before.reverse ++ vma :: after)).2⟩ (base - vma.base) = _ :=
    splitAtStart_eq (hw.left hoff (by omega)) (by simp only [Tile.left]; omega)
  have hmid : (vma.left (base - vma.base + size)).right (base - vma.base) =
      ⟨base, size, freeAttributes⟩ := by
    simp only [Tile.left, Tile.right, hval, vadd_def, shift_freeAttributes]
    congr 1 <;> omega
  rw [show vma.base + (base - vma.base + size) = base + size by omega] at hend
  rw [hmid] at hstart
  rw [cutAt_of_find h hb (by rw [Tile.stop]; omega)]
  simp only [carveVMA]
  rw [if_pos ⟨hsz, hba⟩, hf]
  simp only [hfree, ne_eq, not_true_eq_false, if_false]
  rw [add32, Nat.mod_eq_of_lt (by omega), if_neg (by omega), hend, Option.bind_eq_bind, Option.bind_some, hstart]
  by_cases h₀ : base = vma.base
  · simp [h₀]
  · have h₁ : base - vma.base ≠ 0 := by omega
    simp [h₀, h₁, Tile.left]

/-! ## The page table -/

section

variable (isCached : Nat → Bool)

/-- The entry of a page. -/
def PageTable.entry (pt : PageTable) (page : Nat) : PageType × Option MemoryRef :=
  (pt.attributes page, pt.pointers page)

/-- The entry a page has when it is mapped with a type and a memory. -/
def mappedEntry (page : Nat) (memory : Option MemoryRef) (type : PageType) :
    PageType × Option MemoryRef :=
  if type = .memory ∧ isCached page then (.rasterizerCachedMemory, none) else (type, memory)

theorem entry_setPage (pt : PageTable) (page : Nat) (memory : Option MemoryRef) (type : PageType)
    (page' : Nat) :
    (pt.setPage isCached page memory type).entry page' =
      if page' = page then mappedEntry isCached page memory type else pt.entry page' := by
  simp only [PageTable.setPage, PageTable.entry, mappedEntry]
  split_ifs <;> simp_all

/-- The memory of the next page is one page further on wherever there is one. -/
theorem nextPageMemory_spec {memory : Option MemoryRef} {n : Nat}
    (h : ∀ r ∈ memory, r.offset + (n + 1) * citraPageSize ≤ r.backingMem.size) :
    ∃ memory', nextPageMemory memory = some memory' ∧
      (∀ r ∈ memory', r.offset + n * citraPageSize ≤ r.backingMem.size) ∧
      (0 < n → memory' = memory.map (·.shift citraPageSize)) := by
  cases memory with
  | none => exact ⟨none, rfl, by simp, fun _ => rfl⟩
  | some r =>
    have hr := h r rfl
    by_cases hs : r.getSize > citraPageSize
    · refine ⟨some (r.shift citraPageSize), ?_, ?_, fun _ => rfl⟩
      · have hlt : citraPageSize < r.getSize := hs
        simp [nextPageMemory, MemoryRef.addAssign, hlt]
      · intro r' hr'
        obtain rfl := Option.some.inj hr'
        simp only [MemoryRef.shift, citraPageSize] at *
        omega
    · have hn : n = 0 := by
        simp only [MemoryRef.getSize, citraPageSize] at *
        omega
      subst hn
      refine ⟨some r, by rw [nextPageMemory, if_neg hs], ?_, fun h' => absurd h' (lt_irrefl 0)⟩
      intro r' hr'
      obtain rfl := Option.some.inj hr'
      omega

/-- `MapPages` writes the pages of its range, each with its own part of the memory. -/
theorem mapPages_spec (type : PageType) {n : Nat} : ∀ (pt : PageTable) (base : Nat)
    (memory : Option MemoryRef), base + n ≤ pageTableNumEntries →
    (∀ r ∈ memory, r.offset + n * citraPageSize ≤ r.backingMem.size) →
    ∃ pt', mapPages isCached pt base memory type n = some pt' ∧ ∀ page, pt'.entry page =
      if base ≤ page ∧ page < base + n then
        mappedEntry isCached page (memory.map (·.shift ((page - base) * citraPageSize))) type
      else pt.entry page := by
  induction n with
  | zero =>
    intro pt base memory _ _
    refine ⟨pt, rfl, fun page => ?_⟩
    rw [if_neg (by omega)]
  | succ n ih =>
    intro pt base memory hb hm
    obtain ⟨memory', hnext, hm', hshift⟩ := nextPageMemory_spec hm
    obtain ⟨pt', hpt', hentry⟩ :=
      ih (pt.setPage isCached base memory type) (base + 1) memory' (by omega) hm'
    refine ⟨pt', ?_, fun page => ?_⟩
    · rw [mapPages, if_pos (by omega), hnext]
      exact hpt'
    · rw [hentry page, entry_setPage]
      rcases Nat.lt_trichotomy page base with hlt | rfl | hgt
      · rw [if_neg (by omega), if_neg (by omega), if_neg (by omega)]
      · rw [if_neg (by omega), if_pos rfl, if_pos (by omega)]
        congr 1
        cases memory <;> simp [MemoryRef.shift]
      · by_cases hin : page < base + 1 + n
        · have hp : (page - base) * citraPageSize =
              citraPageSize + (page - (base + 1)) * citraPageSize := by
            rw [show page - base = page - (base + 1) + 1 by omega, Nat.add_mul]
            omega
          rw [if_pos (by omega), if_pos (by omega), hshift (by omega), hp, Option.map_map]
          simp only [Function.comp_def, MemoryRef.shift, Nat.add_assoc]
        · rw [if_neg (by omega), if_neg (by omega), if_neg (by omega)]

/-- The entry the page table has for a page with given attributes. -/
def entryOf (page : Nat) (a : Attributes) : PageType × Option MemoryRef :=
  match a.type with
  | .free => (.unmapped, none)
  | .backingMemory => mappedEntry isCached page a.backingMemory .memory

/-- `UpdatePageTableForVMA` writes the entries of the pages of an area. -/
theorem updatePageTableForVMA_spec (pt : PageTable) {vma : VirtualMemoryArea} (h : WellFormed vma)
    (hs : vma.stop ≤ maxAddress) :
    ∃ pt', updatePageTableForVMA isCached pt vma = some pt' ∧ ∀ page, pt'.entry page =
      if vma.base ≤ page * citraPageSize ∧ page * citraPageSize < vma.stop then
        entryOf isCached page ((page * citraPageSize - vma.base) +ᵥ vma.val)
      else pt.entry page := by
  have hb := h.base
  have hsz := h.size
  have hpages : ∀ page, (vma.base / citraPageSize ≤ page ∧
      page < vma.base / citraPageSize + vma.size / citraPageSize) ↔
      (vma.base ≤ page * citraPageSize ∧ page * citraPageSize < vma.stop) := by
    intro page
    simp only [citraPageSize, Tile.stop] at *
    omega
  have hoff : ∀ page, vma.base ≤ page * citraPageSize →
      (page - vma.base / citraPageSize) * citraPageSize = page * citraPageSize - vma.base := by
    intro page hp
    simp only [citraPageSize] at *
    omega
  have hn : vma.base / citraPageSize + vma.size / citraPageSize ≤ pageTableNumEntries := by
    simp only [citraPageSize, Tile.stop, maxAddress, pageTableNumEntries] at *
    omega
  rw [updatePageTableForVMA, if_pos ⟨hsz, hb⟩]
  rcases h.valid with hf | ⟨ht, hm⟩
  · obtain ⟨pt', hpt', hentry⟩ := mapPages_spec isCached .unmapped pt _ none hn (by simp)
    refine ⟨pt', by rw [hf]; exact hpt', fun page => ?_⟩
    rw [hentry page, hf]
    simp only [hpages]
    rfl
  · have hfit : ∀ r ∈ vma.val.backingMemory,
        r.offset + vma.size / citraPageSize * citraPageSize ≤ r.backingMem.size := by
      intro r hr
      have := h.fits r hr
      simp only [citraPageSize] at *
      omega
    obtain ⟨pt', hpt', hentry⟩ := mapPages_spec isCached .memory pt _ _ hn hfit
    refine ⟨pt', by rw [ht]; exact hpt', fun page => ?_⟩
    rw [hentry page]
    simp only [hpages]
    split
    · next hp =>
        rw [hoff page hp.1, entryOf]
        simp only [vadd_def, Attributes.shift, ht]
    · rfl

end

end AzaharPlus.Kernel
