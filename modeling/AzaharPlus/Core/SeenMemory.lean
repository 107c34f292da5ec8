import AzaharPlus.Core.MemorySystem
import AzaharPlus.Lib.MappedMemory

/-!
# Accesses as the guest sees them

What the pages lead to, with what the rasterizer has newer, is a memory behind a translation of
addresses.  Each access to pages is one access to that memory, although it moves bytes between the
rasterizer and host memory and takes marks away.

* `readPage_seen`, `writePage_seen` — one turn of the loops, also past the end of its page where the
  memory goes on;
* `readBlock_seen`, `writeBlock_seen` — whole blocks.
-/

namespace AzaharPlus.Core

open Kernel Bytes BlockMemory Lib.MappedMemory

variable {dev : Devices} {pages : GuestPages dev.pluginFb}

/-! ## Where the memory of pages is -/

/-- Where the memory of a page starts, if it has any. -/
def GuestPages.origin {pluginFb : Option Nat} (pages : GuestPages pluginFb) (page : Nat) :
    Option Place := (pages.mapped page).map place

/-- The place that an address leads to. -/
def GuestPages.target {pluginFb : Option Nat} (pages : GuestPages pluginFb) (a : Nat) :
    Option Place := (pages.origin (a / citraPageSize)).map (·.shift (a % citraPageSize))

theorem shift_shift (p : Place) (a b : Nat) : (p.shift a).shift b = p.shift (a + b) := by
  simp [Place.shift, Nat.add_assoc]

theorem shift_inj {p : Place} {a b : Nat} (h : p.shift a = p.shift b) : a = b := by
  have := congrArg Prod.snd h
  exact Nat.add_left_cancel this

/-- The three kinds of pages. -/
theorem GuestPages.page_cases {pluginFb : Option Nat} (pages : GuestPages pluginFb)
    (marked : Nat → Bool) (page : Nat) :
    ((pages.table marked).attributes page = .unmapped ∧ (pages.table marked).pointers page = none ∧
      pages.origin page = none) ∨
    (∃ r, (pages.table marked).attributes page = .memory ∧
      (pages.table marked).pointers page = some r ∧ pages.origin page = some (place r)) ∨
    ∃ p, (pages.table marked).attributes page = .rasterizerCachedMemory ∧
      (pages.table marked).pointers page = none ∧
      getPointerForRasterizerCache pluginFb (page * citraPageSize) = some p ∧
      pages.origin page = some p := by
  cases hr : pages.mapped page with
  | none => exact Or.inl (by simp [table, isCached, origin, hr])
  | some r =>
    by_cases hcached : pages.isCached marked page = true
    · obtain ⟨p, hp⟩ : ∃ p, getPointerForRasterizerCache pluginFb (page * citraPageSize) = some p := by
        unfold isCached at hcached
        rw [Bool.and_eq_true] at hcached
        exact Option.isSome_iff_exists.1 hcached.2
      refine Or.inr (Or.inr ⟨p, by simp [table, hcached], by simp [table, hcached], hp, ?_⟩)
      rw [origin, hr, Option.map_some, pages.linear page r p hr hp]
    · exact Or.inr (Or.inl ⟨r, by simp [table, hcached, hr], by simp [table, hcached, hr],
        by simp [origin, hr]⟩)

theorem vaddr_eq (vaddr : Nat) :
    vaddr / citraPageSize * citraPageSize + vaddr % citraPageSize = vaddr := by
  rw [Nat.mul_comm]
  exact Nat.div_add_mod vaddr citraPageSize

/-- The rasterizer finds an address behind the start of its page. -/
theorem pointer_of_page {pluginFb : Option Nat} {a : Nat} {p : Place}
    (hp : getPointerForRasterizerCache pluginFb (a / citraPageSize * citraPageSize) = some p) :
    getPointerForRasterizerCache pluginFb a = some (p.shift (a % citraPageSize)) := by
  have hadd := getPointerForRasterizerCache_add pluginFb (a / citraPageSize)
    (Nat.mod_lt a (by decide))
  rwa [vaddr_eq, hp] at hadd

/-- The rasterizer finds the memory of a page. -/
theorem GuestPages.target_of_pointer {pluginFb : Option Nat} (pages : GuestPages pluginFb) {a : Nat}
    {p q : Place} (hp : getPointerForRasterizerCache pluginFb a = some p)
    (hq : pages.target a = some q) : p = q := by
  have hadd := getPointerForRasterizerCache_add pluginFb (a / citraPageSize)
    (Nat.mod_lt a (by decide))
  rw [vaddr_eq, hp] at hadd
  obtain ⟨p', hp', rfl⟩ := Option.map_eq_some_iff.1 hadd.symm
  obtain ⟨q', hq', rfl⟩ := Option.map_eq_some_iff.1 hq
  obtain ⟨r, hr, rfl⟩ := Option.map_eq_some_iff.1 hq'
  rw [pages.linear _ r p' hr hp']

/-- It looks for the memory of the cached pages. -/
theorem GuestPages.pointer_of_cached {pluginFb : Option Nat} {pages : GuestPages pluginFb}
    {marked : Nat → Bool} {a : Nat} {q : Place}
    (h : (pages.table marked).attributes (a / citraPageSize) = .rasterizerCachedMemory)
    (hq : pages.target a = some q) : getPointerForRasterizerCache pluginFb a = some q := by
  rcases pages.page_cases marked (a / citraPageSize) with ⟨ha, -⟩ | ⟨r, ha, -⟩ | ⟨p, -, -, hp, -⟩
  · rw [h] at ha
    cases ha
  · rw [h] at ha
    cases ha
  · have hplace := pointer_of_page hp
    rw [hplace, pages.target_of_pointer hplace hq]

theorem readPage_unmapped {s : HostState} {page : Nat}
    (h : (pages.table s.marked).attributes page = .unmapped) (offset amount : Nat) :
    readPage dev pages s page offset amount = (List.replicate amount 0, s) := by
  simp [readPage, h]

theorem readPage_memory {s : HostState} {page : Nat} {r : MemoryRef}
    (h : (pages.table s.marked).attributes page = .memory)
    (hr : (pages.table s.marked).pointers page = some r) (offset amount : Nat) :
    readPage dev pages s page offset amount =
      (s.copyFrom ((place r).shift offset) amount, s) := by
  simp [readPage, h, hr]

theorem readPage_cached {s : HostState} {a : Nat} {p : Place}
    (h : (pages.table s.marked).attributes (a / citraPageSize) = .rasterizerCachedMemory)
    (hp : getPointerForRasterizerCache dev.pluginFb (a / citraPageSize * citraPageSize) = some p)
    (amount : Nat) :
    readPage dev pages s (a / citraPageSize) (a % citraPageSize) amount =
      ((dev.flush s a amount).copyFrom (p.shift (a % citraPageSize)) amount,
        dev.flush s a amount) := by
  simp [readPage, h, vaddr_eq, pointer_of_page hp]

theorem writePage_unmapped {s : HostState} {page : Nat}
    (h : (pages.table s.marked).attributes page = .unmapped) (offset : Nat) (data : List UInt8) :
    writePage dev pages s page offset data = s := by
  simp [writePage, h]

theorem writePage_memory {s : HostState} {page : Nat} {r : MemoryRef}
    (h : (pages.table s.marked).attributes page = .memory)
    (hr : (pages.table s.marked).pointers page = some r) (offset : Nat) (data : List UInt8) :
    writePage dev pages s page offset data = s.copyTo ((place r).shift offset) data := by
  simp [writePage, h, hr]

theorem writePage_cached {s : HostState} {a : Nat} {p : Place}
    (h : (pages.table s.marked).attributes (a / citraPageSize) = .rasterizerCachedMemory)
    (hp : getPointerForRasterizerCache dev.pluginFb (a / citraPageSize * citraPageSize) = some p)
    (data : List UInt8) :
    writePage dev pages s (a / citraPageSize) (a % citraPageSize) data =
      (dev.invalidate s a data.length).copyTo (p.shift (a % citraPageSize)) data := by
  simp [writePage, h, vaddr_eq, pointer_of_page hp]

/-- Addresses that are still in the page. -/
theorem first_page {vaddr i : Nat} (hi : vaddr % citraPageSize + i < citraPageSize) :
    (vaddr + i) / citraPageSize = vaddr / citraPageSize ∧
      (vaddr + i) % citraPageSize = vaddr % citraPageSize + i := by
  have hv := vaddr_eq vaddr
  have hsum : vaddr + i = vaddr % citraPageSize + i + citraPageSize * (vaddr / citraPageSize) := by
    rw [Nat.mul_comm citraPageSize]
    omega
  rw [hsum, Nat.add_mul_div_left _ _ (by decide), Nat.add_mul_mod_self_left,
    Nat.div_eq_of_lt hi, Nat.mod_eq_of_lt hi]
  exact ⟨Nat.zero_add _, rfl⟩

/-- Addresses in the page behind it. -/
theorem second_page {vaddr k j : Nat} (hk : vaddr % citraPageSize + k = citraPageSize)
    (hj : j < citraPageSize) :
    (vaddr + (k + j)) / citraPageSize = vaddr / citraPageSize + 1 ∧
      (vaddr + (k + j)) % citraPageSize = j := by
  have hv := vaddr_eq vaddr
  have hsum : vaddr + (k + j) = j + citraPageSize * (vaddr / citraPageSize + 1) := by
    rw [Nat.mul_add, Nat.mul_comm citraPageSize, Nat.mul_one]
    omega
  rw [hsum, Nat.add_mul_div_left _ _ (by decide), Nat.add_mul_mod_self_left,
    Nat.div_eq_of_lt hj, Nat.mod_eq_of_lt hj]
  exact ⟨Nat.zero_add _, rfl⟩

/-! ## What the rasterizer has newer -/

/-- Memory is current where the rasterizer has nothing newer. -/
theorem current_of_none {s : HostState} {q : Place} (h : s.newerAt q = none) :
    s.current q = s.byte q := by
  rw [HostState.current, h]
  rfl

/-- What a flush leaves in memory. -/
theorem byte_flush {s : HostState} {start size : Nat} {q : Place}
    (h : s.newerAt q = none ∨ InRegion dev.pluginFb start size q) :
    (dev.flush s start size).byte q = s.current q := by
  have hnone : (dev.flush s start size).newerAt q = none := by
    rcases h with h | h
    · exact dev.flush_none s start size q h
    · exact dev.flush_region s start size q h
  rw [← current_of_none hnone, dev.flush_current]

/-- The rasterizer has nothing newer for the bytes of an access that lie in pages of type
`Memory`: such pages are marked as cached. -/
def Unpending (pages : GuestPages dev.pluginFb) (s : HostState) (vaddr n : Nat) : Prop :=
  ∀ i < n, ∀ r ∈ (pages.table s.marked).pointers ((vaddr + i) / citraPageSize),
    s.newerAt ((place r).shift ((vaddr + i) % citraPageSize)) = none

theorem Unpending.left {s : HostState} {vaddr k l : Nat} (h : Unpending pages s vaddr (k + l)) :
    Unpending pages s vaddr k :=
  fun i hi => h i (Nat.lt_add_right l hi)

theorem Unpending.right {s : HostState} {vaddr k l : Nat} (h : Unpending pages s vaddr (k + l)) :
    Unpending pages s (vaddr + k) l := by
  intro i hi
  rw [Nat.add_assoc]
  exact h (k + i) (Nat.add_lt_add_left hi k)

/-- The rasterizer has not got anything newer where it had nothing, nor kept anything for a page that
lost its mark. -/
structure Settles (pluginFb : Option Nat) (s s' : HostState) : Prop where
  settled : ∀ q, s.newerAt q = none → s'.newerAt q = none
  unmarked : ∀ page o p, s.marked page = true → s'.marked page = false → o < citraPageSize →
    getPointerForRasterizerCache pluginFb (page * citraPageSize + o) = some p → s'.newerAt p = none

theorem Settles.refl (pluginFb : Option Nat) (s : HostState) : Settles pluginFb s s where
  settled _ h := h
  unmarked _ _ _ h h' := by
    rw [h] at h'
    cases h'

theorem Settles.trans {pluginFb : Option Nat} {s s' s'' : HostState} (h : Settles pluginFb s s')
    (h' : Settles pluginFb s' s'') : Settles pluginFb s s'' where
  settled q hq := h'.settled q (h.settled q hq)
  unmarked page o p hs hs'' ho hp := by
    cases hs' : s'.marked page with
    | false => exact h'.settled p (h.unmarked page o p hs hs' ho hp)
    | true => exact h'.unmarked page o p hs' hs'' ho hp

theorem settles_flush (s : HostState) (start size : Nat) :
    Settles dev.pluginFb s (dev.flush s start size) where
  settled := dev.flush_none s start size
  unmarked page _ _ h h' := by
    rw [dev.flush_marked, h] at h'
    cases h'

theorem settles_invalidate (s : HostState) (start size : Nat) :
    Settles dev.pluginFb s (dev.invalidate s start size) where
  settled q hq := (dev.invalidate_none s start size q hq).2
  unmarked := dev.invalidate_marked s start size

theorem Settles.copyTo {s s' : HostState} (h : Settles dev.pluginFb s s') (p : Place)
    (data : List UInt8) : Settles dev.pluginFb s (s'.copyTo p data) where
  settled := h.settled
  unmarked := h.unmarked

/-- A page that has become one of type `Memory` has nothing pending either. -/
theorem Unpending.settles {s s' : HostState} {vaddr n : Nat} (h : Unpending pages s vaddr n)
    (hs : Settles dev.pluginFb s s') : Unpending pages s' vaddr n := by
  intro i hi r hr
  have ho : (vaddr + i) % citraPageSize < citraPageSize := Nat.mod_lt _ (by decide)
  rcases pages.page_cases s'.marked ((vaddr + i) / citraPageSize) with ⟨-, hr', -⟩ | ⟨r', ha', hr', h'⟩ |
    ⟨-, -, hr', -⟩
  · rw [hr'] at hr
    cases hr
  · rw [hr'] at hr
    cases hr
    rcases pages.page_cases s.marked ((vaddr + i) / citraPageSize) with ⟨-, -, h₀⟩ | ⟨r₀, -, hr₀, h₀⟩ |
      ⟨p, ha, -, hp, h₀⟩
    · rw [h'] at h₀
      cases h₀
    · rw [h', Option.some.injEq] at h₀
      rw [h₀]
      exact hs.settled _ (h i hi r₀ hr₀)
    · -- the page was cached, and lost its mark
      rw [h', Option.some.injEq] at h₀
      rw [h₀]
      have hmark : s.marked ((vaddr + i) / citraPageSize) = true := by
        by_contra hno
        simp [GuestPages.table, GuestPages.isCached, hno] at ha
        split at ha
        · cases ha
        · cases ha
      have hmark' : s'.marked ((vaddr + i) / citraPageSize) = false := by
        by_contra hno
        have hmapped : (pages.mapped ((vaddr + i) / citraPageSize)).isSome = true := by
          by_contra hnone
          simp [GuestPages.origin, Option.not_isSome_iff_eq_none.1 hnone] at h'
        simp [GuestPages.table, GuestPages.isCached, hno, hp, hmapped] at ha'
      refine hs.unmarked _ _ _ hmark hmark' ho ?_
      rw [getPointerForRasterizerCache_add dev.pluginFb _ ho, hp]
      rfl
  · rw [hr'] at hr
    cases hr

/-! ## One page -/

/-- The memory of an access lies in one piece. -/
def InPiece (pages : GuestPages dev.pluginFb) (a n : Nat) : Prop :=
  ∀ i < n, pages.target (a + i) =
    (pages.origin (a / citraPageSize)).map (·.shift (a % citraPageSize + i))

/-- What is newer for the bytes of an access lies in the region that is flushed or invalidated for
it. -/
def Covered (pages : GuestPages dev.pluginFb) (s : HostState) (a n : Nat) : Prop :=
  ∀ i < n, ∀ q, pages.target (a + i) = some q → s.newerAt q = none ∨
    ((pages.table s.marked).attributes (a / citraPageSize) = .rasterizerCachedMemory ∧
      InRegion dev.pluginFb a n q)

theorem InPiece.target {a n : Nat} {p : Place} (h : InPiece pages a n)
    (hp : pages.origin (a / citraPageSize) = some p) {i : Nat} (hi : i < n) :
    pages.target (a + i) = some ((p.shift (a % citraPageSize)).shift i) := by
  rw [h i hi, hp, shift_shift]
  rfl

/-- Nothing is newer for the bytes that lie in a page of type `Memory`. -/
theorem Covered.of_memory {s : HostState} {a n : Nat} (h : Covered pages s a n)
    (ha : (pages.table s.marked).attributes (a / citraPageSize) = .memory) {i : Nat} (hi : i < n)
    {q : Place} (hq : pages.target (a + i) = some q) : s.newerAt q = none :=
  (h i hi q hq).resolve_right fun hcached => by
    rw [ha] at hcached
    cases hcached.1

theorem inPiece_of_fit {a n : Nat} (h : a % citraPageSize + n ≤ citraPageSize) :
    InPiece pages a n := by
  intro i hi
  obtain ⟨hdiv, hmod⟩ := first_page (show a % citraPageSize + i < citraPageSize by omega)
  rw [GuestPages.target, hdiv, hmod]

/-- A cached page is covered if the access starts in a cached page. -/
theorem covered_of_kinds {s : HostState} {a n : Nat} (hclean : Unpending pages s a n)
    (hkinds : ∀ i < n,
      (pages.table s.marked).attributes ((a + i) / citraPageSize) = .rasterizerCachedMemory →
      (pages.table s.marked).attributes (a / citraPageSize) = .rasterizerCachedMemory) :
    Covered pages s a n := by
  intro i hi q hq
  rcases pages.page_cases s.marked ((a + i) / citraPageSize) with ⟨-, -, h₁⟩ | ⟨r, ha, hr, h₁⟩ |
    ⟨p, ha, -, -, -⟩
  · rw [GuestPages.target, h₁] at hq
    cases hq
  · rw [GuestPages.target, h₁, Option.map_some, Option.some.injEq] at hq
    exact Or.inl (hq ▸ hclean i hi r hr)
  · exact Or.inr ⟨hkinds i hi ha, i, hi, GuestPages.pointer_of_cached ha hq⟩

theorem covered_of_fit {s : HostState} {a n : Nat} (hclean : Unpending pages s a n)
    (h : a % citraPageSize + n ≤ citraPageSize) : Covered pages s a n :=
  covered_of_kinds hclean fun i hi hcached => by
    rwa [(first_page (show a % citraPageSize + i < citraPageSize by omega)).1] at hcached

/-- A page is read as what its addresses lead to. -/
theorem readPage_seen {s : HostState} {a n : Nat} (hpiece : InPiece pages a n)
    (hcovered : Covered pages s a n) :
    (readPage dev pages s (a / citraPageSize) (a % citraPageSize) n).1 =
        seeBytes 0 pages.target s.current a n ∧
      (readPage dev pages s (a / citraPageSize) (a % citraPageSize) n).2.current = s.current ∧
      Settles dev.pluginFb s (readPage dev pages s (a / citraPageSize) (a % citraPageSize) n).2 := by
  rcases pages.page_cases s.marked (a / citraPageSize) with ⟨ha, -, h₁⟩ | ⟨r, ha, hr, h₁⟩ |
    ⟨p, ha, -, hp, h₁⟩
  · rw [readPage_unmapped ha]
    refine ⟨?_, rfl, Settles.refl _ s⟩
    refine (List.eq_replicate_iff.2 ⟨length_seeBytes _ _ _ _ _, fun b hb => ?_⟩).symm
    obtain ⟨i, hi, rfl⟩ := List.mem_map.1 hb
    rw [see, hpiece i (List.mem_range.1 hi), h₁]
    rfl
  · rw [readPage_memory ha hr]
    refine ⟨List.map_congr_left fun i hi => ?_, rfl, Settles.refl _ s⟩
    have hi' := List.mem_range.1 hi
    have htarget := hpiece.target h₁ hi'
    rw [see, htarget, Option.elim_some, current_of_none (hcovered.of_memory ha hi' htarget)]
    rfl
  · rw [readPage_cached ha hp]
    refine ⟨List.map_congr_left fun i hi => ?_, funext fun q => dev.flush_current s _ _ q,
      settles_flush s _ _⟩
    have hi' := List.mem_range.1 hi
    have htarget := hpiece.target h₁ hi'
    have hbyte := byte_flush ((hcovered i hi' _ htarget).imp_right And.right)
    rw [see, htarget, Option.elim_some, ← hbyte]
    rfl

/-- A copy to memory, byte by byte. -/
theorem byte_copyTo_shift {s : HostState} {p : Place} {data : List UInt8} {i : Nat}
    (hi : i < data.length) : (s.copyTo p data).byte (p.shift i) = data[i] := by
  rw [HostState.byte_copyTo, if_pos ⟨rfl, Nat.le_add_right _ _, Nat.add_lt_add_left hi _⟩,
    Place.shift, Nat.add_sub_cancel_left, byteAt_eq_getElem hi]

theorem byte_copyTo_of_ne {s : HostState} {p q : Place} {data : List UInt8}
    (h : ∀ i < data.length, q ≠ p.shift i) : (s.copyTo p data).byte q = s.byte q := by
  rw [HostState.byte_copyTo, if_neg]
  rintro ⟨hblock, hle, hlt⟩
  refine h (q.2 - p.2) (by omega) (Prod.ext hblock ?_)
  exact (Nat.add_sub_cancel' hle).symm

/-- A copy to the memory that addresses lead to, where the rasterizer has nothing newer. -/
theorem current_copyTo {s : HostState} {t : Nat → Option Place} {p : Place} {a : Nat}
    {data : List UInt8} {view : Place → UInt8}
    (ht : ∀ i < data.length, t (a + i) = some (p.shift i))
    (hnone : ∀ i < data.length, s.newerAt (p.shift i) = none)
    (hview : ∀ q, (∀ i < data.length, q ≠ p.shift i) → s.current q = view q) :
    (s.copyTo p data).current = putBytes t view a data := by
  funext q
  by_cases hq : ∃ i < data.length, q = p.shift i
  · obtain ⟨i, hi, rfl⟩ := hq
    rw [current_of_none (s := s.copyTo p data) (hnone i hi), byte_copyTo_shift hi]
    refine (putBytes_of_last (List.getElem?_eq_getElem hi) (ht i hi) (fun j hj hij heq => ?_) view).symm
    rw [ht j hj, Option.some.injEq] at heq
    exact absurd (shift_inj heq) (Nat.ne_of_gt hij)
  · have hne : ∀ i < data.length, q ≠ p.shift i := fun i hi heq => hq ⟨i, hi, heq⟩
    rw [putBytes_of_ne fun i hi heq => ?_, ← hview q hne, HostState.current, HostState.current,
      HostState.newerAt_copyTo, byte_copyTo_of_ne hne]
    rw [ht i hi, Option.some.injEq] at heq
    exact hne i hi heq.symm

/-- The region of an access to memory that is mapped holds the bytes of the access only. -/
theorem target_of_inRegion {a n : Nat} {q : Place} (hmapped : ∀ i < n, (pages.target (a + i)).isSome)
    (h : InRegion dev.pluginFb a n q) : ∃ i < n, pages.target (a + i) = some q := by
  obtain ⟨i, hi, hq⟩ := h
  obtain ⟨p, hp⟩ := Option.isSome_iff_exists.1 (hmapped i hi)
  refine ⟨i, hi, ?_⟩
  rw [hp, pages.target_of_pointer hq hp]

/-- A page is written as what its addresses lead to, and no other byte of memory is, unless the
rasterizer had it newer. -/
theorem writePage_seen {s : HostState} {a : Nat} {data : List UInt8}
    (hpiece : InPiece pages a data.length) (hcovered : Covered pages s a data.length) :
    (writePage dev pages s (a / citraPageSize) (a % citraPageSize) data).current =
        putBytes pages.target s.current a data ∧
      Settles dev.pluginFb s
        (writePage dev pages s (a / citraPageSize) (a % citraPageSize) data) ∧
      ∀ q, s.newerAt q = none → (∀ i < data.length, pages.target (a + i) ≠ some q) →
        (writePage dev pages s (a / citraPageSize) (a % citraPageSize) data).byte q = s.byte q := by
  rcases pages.page_cases s.marked (a / citraPageSize) with ⟨ha, -, h₁⟩ | ⟨r, ha, hr, h₁⟩ |
    ⟨p, ha, -, hp, h₁⟩
  · rw [writePage_unmapped ha]
    refine ⟨funext fun q => (putBytes_of_ne (fun i hi heq => ?_) _).symm, Settles.refl _ s,
      fun q _ _ => rfl⟩
    rw [hpiece i hi, h₁] at heq
    cases heq
  · have htarget := fun i => hpiece.target h₁ (i := i)
    rw [writePage_memory ha hr]
    exact ⟨current_copyTo htarget (fun i hi => hcovered.of_memory ha hi (htarget i hi)) fun q _ => rfl,
      (Settles.refl _ s).copyTo _ _,
      fun q _ hq => byte_copyTo_of_ne fun i hi heq => hq i hi (by rw [htarget i hi, heq])⟩
  · have htarget := fun i => hpiece.target h₁ (i := i)
    rw [writePage_cached ha hp]
    refine ⟨current_copyTo htarget (fun i hi => ?_) fun q hq => ?_,
      (settles_invalidate s _ _).copyTo _ _, fun q hq hne => ?_⟩
    · rcases hcovered i hi _ (htarget i hi) with hnone | ⟨-, hin⟩
      · exact (dev.invalidate_none _ _ _ _ hnone).2
      · exact dev.invalidate_region _ _ _ _ hin
    · refine dev.invalidate_current _ _ _ _ fun hin => ?_
      obtain ⟨i, hi, heq⟩ := target_of_inRegion (fun i hi => by rw [htarget i hi]; rfl) hin
      rw [htarget i hi, Option.some.injEq] at heq
      exact hq i hi heq.symm
    · rw [byte_copyTo_of_ne fun i hi heq => hne i hi (by rw [htarget i hi, heq]),
        (dev.invalidate_none _ _ _ _ hq).1]

/-! ## Blocks, page by page -/

/-- Either nothing is left behind the page, or the rest starts with the next one. -/
theorem next_page (a n : Nat) :
    n - min (citraPageSize - a % citraPageSize) n = 0 ∨
      ((a + min (citraPageSize - a % citraPageSize) n) / citraPageSize = a / citraPageSize + 1 ∧
        (a + min (citraPageSize - a % citraPageSize) n) % citraPageSize = 0) := by
  have hlt : a % citraPageSize < citraPageSize := Nat.mod_lt a (by decide)
  by_cases hle : n ≤ citraPageSize - a % citraPageSize
  · exact Or.inl (by omega)
  · have hmin : min (citraPageSize - a % citraPageSize) n = citraPageSize - a % citraPageSize := by
      omega
    rw [hmin]
    exact Or.inr (@second_page a (citraPageSize - a % citraPageSize) 0 (by omega) (by decide))

theorem readBlockLoop_next (turns : Nat) (s : HostState) (a n : Nat) :
    readBlockLoop dev pages turns s (a / citraPageSize + 1) 0
        (n - min (citraPageSize - a % citraPageSize) n) =
      readBlockLoop dev pages turns s
        ((a + min (citraPageSize - a % citraPageSize) n) / citraPageSize)
        ((a + min (citraPageSize - a % citraPageSize) n) % citraPageSize)
        (n - min (citraPageSize - a % citraPageSize) n) := by
  rcases next_page a n with hrest | ⟨hdiv, hmod⟩
  · rw [hrest]
    cases turns <;> simp [readBlockLoop]
  · rw [hdiv, hmod]

/-- A block is read as what its addresses lead to. -/
theorem readBlockLoop_seen {turns : Nat} {s : HostState} {a n : Nat} (hturns : n ≤ turns)
    (hclean : Unpending pages s a n) :
    (readBlockLoop dev pages turns s (a / citraPageSize) (a % citraPageSize) n).1 =
        seeBytes 0 pages.target s.current a n ∧
      (readBlockLoop dev pages turns s (a / citraPageSize) (a % citraPageSize) n).2.current =
        s.current ∧
      Settles dev.pluginFb s (readBlockLoop dev pages turns s (a / citraPageSize) (a % citraPageSize) n).2 := by
  induction turns generalizing s a n with
  | zero =>
    rw [Nat.le_zero.1 hturns]
    exact ⟨rfl, rfl, Settles.refl _ s⟩
  | succ turns ih =>
    by_cases hn : n = 0
    · rw [readBlockLoop, if_pos hn, hn]
      exact ⟨rfl, rfl, Settles.refl _ s⟩
    · have hlt : a % citraPageSize < citraPageSize := Nat.mod_lt a (by decide)
      rw [readBlockLoop, if_neg hn, readBlockLoop_next]
      obtain ⟨k, hk⟩ : ∃ k, k = min (citraPageSize - a % citraPageSize) n := ⟨_, rfl⟩
      rw [← hk]
      obtain ⟨l, rfl⟩ : ∃ l, n = k + l := ⟨n - k, by omega⟩
      rw [Nat.add_sub_cancel_left]
      have hfit : a % citraPageSize + k ≤ citraPageSize := by omega
      obtain ⟨hdata, hcurrent, hset⟩ :=
        readPage_seen (inPiece_of_fit hfit) (covered_of_fit hclean.left hfit)
      obtain ⟨hdata', hcurrent', hset'⟩ := ih (a := a + k) (by omega) (hclean.right.settles hset)
      exact ⟨by rw [hdata, hdata', hcurrent, seeBytes_add], by rw [hcurrent', hcurrent],
        hset.trans hset'⟩

theorem readBlock_seen {s : HostState} {a n : Nat} (hclean : Unpending pages s a n) :
    (readBlock dev pages s a n).1 = seeBytes 0 pages.target s.current a n ∧
      (readBlock dev pages s a n).2.current = s.current ∧
      Settles dev.pluginFb s (readBlock dev pages s a n).2 :=
  readBlockLoop_seen (Nat.le_refl n) hclean

theorem writeBlockLoop_next (turns : Nat) (s : HostState) (a : Nat) (data : List UInt8) :
    writeBlockLoop dev pages turns s (a / citraPageSize + 1) 0
        (data.drop (citraPageSize - a % citraPageSize)) =
      writeBlockLoop dev pages turns s
        ((a + min (citraPageSize - a % citraPageSize) data.length) / citraPageSize)
        ((a + min (citraPageSize - a % citraPageSize) data.length) % citraPageSize)
        (data.drop (citraPageSize - a % citraPageSize)) := by
  rcases next_page a data.length with hrest | ⟨hdiv, hmod⟩
  · rw [List.drop_of_length_le (by omega)]
    cases turns <;> simp [writeBlockLoop]
  · rw [hdiv, hmod]

/-- A block is written as what its addresses lead to, and no other byte of memory is. -/
theorem writeBlockLoop_seen {turns : Nat} {s : HostState} {a : Nat} {data : List UInt8}
    (hturns : data.length ≤ turns) (hclean : Unpending pages s a data.length) :
    (writeBlockLoop dev pages turns s (a / citraPageSize) (a % citraPageSize) data).current =
        putBytes pages.target s.current a data ∧
      Settles dev.pluginFb s (writeBlockLoop dev pages turns s (a / citraPageSize) (a % citraPageSize) data) := by
  induction turns generalizing s a data with
  | zero =>
    rw [List.length_eq_zero_iff.1 (Nat.le_zero.1 hturns)]
    exact ⟨rfl, Settles.refl _ s⟩
  | succ turns ih =>
    by_cases hdata : data = []
    · rw [writeBlockLoop, if_pos hdata, hdata]
      exact ⟨rfl, Settles.refl _ s⟩
    · have hlt : a % citraPageSize < citraPageSize := Nat.mod_lt a (by decide)
      have hpos : 0 < data.length := List.length_pos_of_ne_nil hdata
      rw [writeBlockLoop, if_neg hdata, writeBlockLoop_next]
      obtain ⟨d₁, hd₁⟩ : ∃ d, d = data.take (citraPageSize - a % citraPageSize) := ⟨_, rfl⟩
      obtain ⟨d₂, hd₂⟩ : ∃ d, d = data.drop (citraPageSize - a % citraPageSize) := ⟨_, rfl⟩
      have hcut : data = d₁ ++ d₂ := by rw [hd₁, hd₂, List.take_append_drop]
      have hlen₁ : d₁.length = min (citraPageSize - a % citraPageSize) data.length := by
        rw [hd₁, List.length_take]
      have hlen : data.length = d₁.length + d₂.length := by rw [hcut, List.length_append]
      rw [← hd₁, ← hd₂, ← hlen₁]
      rw [hlen] at hclean
      have hfit : a % citraPageSize + d₁.length ≤ citraPageSize := by omega
      obtain ⟨hcurrent, hset, -⟩ :=
        writePage_seen (inPiece_of_fit hfit) (covered_of_fit hclean.left hfit)
      obtain ⟨hcurrent', hset'⟩ := ih (a := a + d₁.length) (by omega) (hclean.right.settles hset)
      exact ⟨by rw [hcurrent', hcurrent, hcut, putBytes_append], hset.trans hset'⟩

theorem writeBlock_seen {s : HostState} {a : Nat} {data : List UInt8}
    (hclean : Unpending pages s a data.length) :
    (writeBlock dev pages s a data).current = putBytes pages.target s.current a data ∧
      Settles dev.pluginFb s (writeBlock dev pages s a data) :=
  writeBlockLoop_seen (Nat.le_refl _) hclean

theorem byteAt_seeBytes (t : Nat → Option Place) (view : Place → UInt8) {a n i : Nat} (hi : i < n) :
    byteAt (seeBytes 0 t view a n) i = see 0 t view (a + i) := by
  rw [byteAt_eq_getElem (by rwa [length_seeBytes])]
  simp [seeBytes]

/-- The byte at an address is the one that the address leads to. -/
theorem guestByte_seen {s : HostState} {a : Nat} (hclean : Unpending pages s a 1) :
    guestByte dev pages s a = see 0 pages.target s.current a := by
  unfold guestByte see
  rcases pages.page_cases s.marked (a / citraPageSize) with ⟨ha, -, h₁⟩ | ⟨r, ha, hr, h₁⟩ |
    ⟨p, ha, -, hp, h₁⟩
  · simp only [ha, GuestPages.target, h₁]
    rfl
  · have hnone := hclean 0 Nat.one_pos r hr
    simp only [ha, hr, GuestPages.target, h₁]
    exact (current_of_none hnone).symm
  · simp only [ha, pointer_of_page hp, GuestPages.target, h₁]
    rfl

end AzaharPlus.Core
