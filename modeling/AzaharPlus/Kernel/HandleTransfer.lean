import AzaharPlus.Kernel.IpcLoop

/-!
# What a command does to handles

`Transfers` says what has to become of every handle word of a command and of every handle
of its sender, and `Receives` what sending one word has to do for that.

`kernel_transfers_iff` and `hle_transfers_iff` say for which commands the code does it.  A
descriptor that moves handles has to be the number `0x10` itself, which announces exactly
one handle: this is what the code compares it with.
-/

namespace AzaharPlus.Kernel

/-! ## Handles of the sender -/

/-- Two values of one handle: they differ at most in the bit that is not looked at. -/
def SameHandle (h h' : Handle) : Prop :=
  getSlot h = getSlot h' ∧ getGeneration h = getGeneration h'

instance (h h' : Handle) : Decidable (SameHandle h h') := inferInstanceAs (Decidable (_ ∧ _))

/-- The pseudo-handles, which stand for a thread or a process and are in no table. -/
def IsPseudo (h : Handle) : Prop := h = currentThreadHandle ∨ h = currentProcessHandle

instance (h : Handle) : Decidable (IsPseudo h) := inferInstanceAs (Decidable (_ ∨ _))

namespace HandleTable

variable {Obj : Type}

/-- The object of an open handle of a table. -/
def lookup (t : HandleTable Obj) (h : Handle) : Option Obj :=
  if t.isValid h then t.objects (getSlot h) else none

theorem lookup_congr (t : HandleTable Obj) {h h' : Handle} (hh : SameHandle h h') :
    t.lookup h = t.lookup h' := by
  have hv : t.isValid h = t.isValid h' := by rw [isValid, isValid, hh.1, hh.2]
  rw [lookup, lookup, hv, hh.1]

theorem lookup_eq_some {t : HandleTable Obj} {h : Handle} {o : Obj} :
    t.lookup h = some o ↔ t.isValid h = true ∧ t.objects (getSlot h) = some o := by
  unfold lookup
  split <;> simp_all

theorem lookup_pseudo (t : HandleTable Obj) {h : Handle} (hh : IsPseudo h) : t.lookup h = none := by
  have hv : t.isValid h = false := by
    rcases hh with rfl | rfl <;> rfl
  simp [lookup, hv]

theorem getGeneric_eq_lookup (t : HandleTable Obj) (k : KernelContext Obj) {h : Handle}
    (hh : ¬ IsPseudo h) : t.getGeneric k h = t.lookup h := by
  unfold IsPseudo at hh
  push Not at hh
  rw [getGeneric, if_neg hh.1, if_neg hh.2, lookup]

/-- Closing a handle ends all its values, and no other. -/
theorem lookup_closeQuietly (t : HandleTable Obj) (h h' : Handle) :
    (t.closeQuietly h).lookup h' = if SameHandle h h' then none else t.lookup h' := by
  unfold closeQuietly
  cases hc : t.close h with
  | error e =>
    have hv : t.isValid h = false := by
      by_contra hv
      simp [close, Bool.eq_true_of_not_eq_false hv] at hc
    show t.lookup h' = _
    split
    · next hs => rw [← t.lookup_congr hs, lookup, hv]; rfl
    · rfl
  | ok t' =>
    obtain ⟨hv, hobj, hgen, -⟩ := close_ok hc
    obtain ⟨-, -, hg⟩ := isValid_iff.1 hv
    by_cases hslot : getSlot h = getSlot h'
    · have hnone : t'.lookup h' = none := by
        simp [lookup, isValid, hobj, ← hslot]
      rw [hnone]
      split
      · rfl
      · next hs =>
          -- another generation of the slot: it was not open before
          have hv' : t.isValid h' = false := by
            by_contra hv'
            have := (isValid_iff.1 (Bool.eq_true_of_not_eq_false hv')).2.2
            rw [← hslot, hg] at this
            exact hs ⟨hslot, this⟩
          simp [lookup, hv']
    · rw [if_neg fun hs => hslot hs.1]
      have hobj' : t'.objects (getSlot h') = t.objects (getSlot h') := by
        rw [hobj, Function.update_of_ne (Ne.symm hslot)]
      have hv' : t'.isValid h' = t.isValid h' := by
        rw [isValid, isValid, hobj', hgen, Function.update_of_ne (Ne.symm hslot)]
      show t'.lookup h' = _
      rw [lookup, lookup, hv', hobj']

theorem closeQuietly_pseudo (t : HandleTable Obj) {h : Handle} (hh : IsPseudo h) :
    t.closeQuietly h = t := by
  have hv : t.isValid h = false := by
    rcases hh with rfl | rfl <;> rfl
  simp [closeQuietly, close, hv]

/-- The number of empty slots. -/
def freeSlots (t : HandleTable Obj) : Nat :=
  ((Finset.range maxCount).filter fun s => (t.objects s).isNone).card

theorem nextFreeSlot_lt {t : HandleTable Obj} (ht : t.Ok) (h : 0 < t.freeSlots) :
    t.nextFreeSlot < maxCount := by
  obtain ⟨l, hl, -, hmem⟩ := ht.free
  obtain ⟨s, hs⟩ := Finset.card_pos.1 h
  simp only [Finset.mem_filter, Finset.mem_range, Option.isNone_iff_eq_none] at hs
  cases hl with
  | done hle => exact absurd ((hmem s).2 hs) (by simp)
  | link hlt _ => exact hlt

/-- A Create fills one empty slot. -/
theorem freeSlots_create {t t' : HandleTable Obj} (ht : t.Ok) {o : Obj} {h : Handle}
    (hc : t.create o = .ok (h, t')) : t'.freeSlots + 1 = t.freeSlots := by
  obtain ⟨hlt, -, hobj, -⟩ := create_ok hc
  have hnone := ht.free.objects_head hlt
  have hmem : t.nextFreeSlot ∈ (Finset.range maxCount).filter fun s => (t.objects s).isNone := by
    rw [Finset.mem_filter, hnone]
    exact ⟨Finset.mem_range.2 hlt, rfl⟩
  have herase : (Finset.range maxCount).filter (fun s => (t'.objects s).isNone) =
      ((Finset.range maxCount).filter fun s => (t.objects s).isNone).erase t.nextFreeSlot := by
    ext s
    simp only [Finset.mem_filter, Finset.mem_erase, hobj]
    by_cases hs : s = t.nextFreeSlot
    · simp [hs]
    · simp [hs]
  rw [freeSlots, freeSlots, herase]
  exact Finset.card_erase_add_one hmem

/-- A Create opens the handle it returns and leaves the others alone. -/
theorem lookup_create {t t' : HandleTable Obj} (ht : t.Ok) {o : Obj} {h : Handle}
    (hc : t.create o = .ok (h, t')) :
    t'.lookup h = some o ∧ h ≠ 0 ∧ ∀ h' o', t.lookup h' = some o' → t'.lookup h' = some o' := by
  obtain ⟨hlt, rfl, hobj, hgen, -⟩ := create_ok hc
  have hslot := getSlot_makeHandle ht.next_lt hlt
  have hgeneration := getGeneration_makeHandle ht.next_lt hlt
  refine ⟨?_, ?_, ?_⟩
  · rw [lookup_eq_some, isValid_iff, hslot, hgeneration, hobj, hgen]
    simp [hlt]
  · intro h0
    rw [h0] at hgeneration
    have := ht.next_pos
    have : getGeneration 0 = 0 := by decide
    omega
  · intro h' o' hl
    obtain ⟨hv, ho⟩ := lookup_eq_some.1 hl
    have hne : getSlot h' ≠ t.nextFreeSlot := by
      intro hs
      rw [hs, ht.free.objects_head hlt] at ho
      exact absurd ho (by simp)
    rw [lookup_eq_some, isValid_iff, hobj, hgen, Function.update_of_ne hne,
      Function.update_of_ne hne]
    exact ⟨isValid_iff.1 hv, ho⟩

end HandleTable

/-! ## What has to become of the handles -/

/-- One of the words moved the handle. -/
def MovedBy (items : List (UInt32 × Handle)) (h : Handle) : Prop :=
  ∃ item ∈ items, getDescriptorType item.1 = .moveHandle ∧ item.2 ≠ 0 ∧ SameHandle item.2 h

instance (items : List (UInt32 × Handle)) (h : Handle) : Decidable (MovedBy items h) :=
  inferInstanceAs (Decidable (∃ item ∈ items, _))

theorem movedBy_append {items₁ items₂ : List (UInt32 × Handle)} {h : Handle} :
    MovedBy (items₁ ++ items₂) h ↔ MovedBy items₁ h ∨ MovedBy items₂ h := by
  simp only [MovedBy, List.mem_append, or_and_right, exists_or]

theorem movedBy_singleton {d : UInt32} {h h' : Handle} :
    MovedBy [(d, h)] h' ↔ getDescriptorType d = .moveHandle ∧ h ≠ 0 ∧ SameHandle h h' := by
  simp [MovedBy]

theorem MovedBy.congr {items : List (UInt32 × Handle)} {h h' : Handle} (hm : MovedBy items h)
    (hs : SameHandle h h') : MovedBy items h' := by
  obtain ⟨item, hi, hd, h0, hs'⟩ := hm
  exact ⟨item, hi, hd, h0, hs'.1.trans hs.1, hs'.2.trans hs.2⟩

section Sender

variable {Obj : Type}

/-- The object a handle word names: the null handle names none. -/
def HandleTable.named (t : HandleTable Obj) (k : KernelContext Obj) (h : Handle) : Option Obj :=
  if h = 0 then none else t.getGeneric k h

/-- What the handle words name, each at its turn, with `pre` before them: a handle that was
moved names nothing any more. -/
def namedAll (k : KernelContext Obj) (t : HandleTable Obj) :
    List (UInt32 × Handle) → List (UInt32 × Handle) → List (Handle × Option Obj)
  | _, [] => []
  | pre, (d, h) :: items =>
      (h, if MovedBy pre h ∧ ¬ IsPseudo h then none else t.named k h) ::
        namedAll k t (pre ++ [(d, h)]) items

/-- The handles of the sender after the words: the moved ones are closed, and no other. -/
def Moved (t t' : HandleTable Obj) (items : List (UInt32 × Handle)) : Prop :=
  ∀ h, t'.lookup h = if MovedBy items h then none else t.lookup h

/-- The word is in a descriptor that moves handles, names an open one, and the descriptor is
not the number the code compares it with. -/
def LeavesOpen (t : HandleTable Obj) (pre : List (UInt32 × Handle)) (item : UInt32 × Handle) :
    Prop :=
  getDescriptorType item.1 = .moveHandle ∧ item.1 ≠ moveHandleValue ∧ item.2 ≠ 0 ∧
    ¬ MovedBy pre item.2 ∧ t.lookup item.2 ≠ none

/-- No word leaves a handle open that it moves. -/
def ClosesMoved (t : HandleTable Obj) (pre items : List (UInt32 × Handle)) : Prop :=
  ∀ l item r, items = l ++ item :: r → ¬ LeavesOpen t (pre ++ l) item

theorem closesMoved_nil (t : HandleTable Obj) (pre : List (UInt32 × Handle)) :
    ClosesMoved t pre [] := by
  intro l item r h
  exact absurd h (by simp)

theorem closesMoved_cons {t : HandleTable Obj} {pre items : List (UInt32 × Handle)}
    {item : UInt32 × Handle} : ClosesMoved t pre (item :: items) ↔
      ¬ LeavesOpen t pre item ∧ ClosesMoved t (pre ++ [item]) items := by
  constructor
  · intro h
    refine ⟨by simpa using h [] item items rfl, fun l item' r hl => ?_⟩
    have := h (item :: l) item' r (by rw [hl]; rfl)
    rwa [List.append_cons] at this
  · rintro ⟨h, hs⟩ l item' r hl
    cases l with
    | nil =>
      obtain ⟨rfl, rfl⟩ := List.cons.inj hl
      simpa using h
    | cons a l =>
      obtain ⟨rfl, rfl⟩ := List.cons.inj hl
      rw [List.append_cons]
      exact hs l item' r rfl

/-- The table of the sender after one word. -/
def closes (d : UInt32) (h : Handle) (t : HandleTable Obj) : HandleTable Obj :=
  if d = moveHandleValue ∧ h ≠ 0 then t.closeQuietly h else t

theorem named_of_moved {t t₀ : HandleTable Obj} {pre : List (UInt32 × Handle)}
    (ht : Moved t₀ t pre) (k : KernelContext Obj) (h : Handle) :
    t.named k h = if MovedBy pre h ∧ ¬ IsPseudo h then none else t₀.named k h := by
  unfold HandleTable.named
  by_cases h0 : h = 0
  · simp [h0]
  rw [if_neg h0, if_neg h0]
  by_cases hp : IsPseudo h
  · rw [if_neg fun hc => hc.2 hp]
    rcases hp with rfl | rfl <;> rfl
  · rw [t.getGeneric_eq_lookup k hp, t₀.getGeneric_eq_lookup k hp, ht h]
    simp [hp]

/-- A word that leaves nothing open keeps the moved handles closed. -/
theorem Moved.closes {t t₀ : HandleTable Obj} {pre : List (UInt32 × Handle)} {d : UInt32}
    {h : Handle} (ht : Moved t₀ t pre) (hl : ¬ LeavesOpen t₀ pre (d, h)) :
    Moved t₀ (closes d h t) (pre ++ [(d, h)]) := by
  intro h'
  unfold Kernel.closes
  by_cases hd : d = moveHandleValue ∧ h ≠ 0
  · rw [if_pos hd, HandleTable.lookup_closeQuietly, ht h']
    have htype : getDescriptorType d = .moveHandle := by rw [hd.1]; decide
    by_cases hs : SameHandle h h'
    · rw [if_pos hs, if_pos (movedBy_append.2 (.inr (movedBy_singleton.2 ⟨htype, hd.2, hs⟩)))]
    · have hiff : MovedBy (pre ++ [(d, h)]) h' ↔ MovedBy pre h' := by
        rw [movedBy_append, movedBy_singleton]
        simp [hs]
      rw [if_neg hs]
      simp only [hiff]
  · rw [if_neg hd, ht h']
    by_cases hm : MovedBy pre h'
    · rw [if_pos hm, if_pos (movedBy_append.2 (.inl hm))]
    rw [if_neg hm]
    by_cases hm' : MovedBy (pre ++ [(d, h)]) h'
    · -- the word moves the handle and does not close it: it was not open
      rw [if_pos hm']
      obtain ⟨htype, h0, hs⟩ := movedBy_singleton.1 ((movedBy_append.1 hm').resolve_left hm)
      by_contra hopen
      refine hl ⟨htype, fun he => hd ⟨he, h0⟩, h0, fun hc => hm (hc.congr hs), ?_⟩
      rwa [t₀.lookup_congr hs]
    · rw [if_neg hm']

end Sender

/-! ## Sending all the handles -/

/-- What sending a handle has to do for a receiver: `Takes` says which objects it has room
for, `Got` that a word stands for an object, and `Ok n` that it is ready for `n` words. -/
structure Receives {Obj R Mem : Type} (T : Translator Obj R Mem) (k : KernelContext Obj)
    (Ok : Nat → R → Prop) (Got : R → UInt32 → Option Obj → Prop)
    (Takes : R → List (Handle × Option Obj) → Prop) : Prop where
  takes_nil : ∀ r, Takes r []
  send_some : ∀ {n : Nat} {r r' : R} {d w : UInt32} {h : Handle} {t t' : HandleTable Obj},
    Ok (n + 1) r → T.send d h t r = some (w, t', r') →
    t' = closes d h t ∧ Ok n r' ∧ Got r' w (t.named k h) ∧ (∀ w o, Got r w o → Got r' w o) ∧
      ∀ rest, Takes r ((h, t.named k h) :: rest) ↔ Takes r' rest
  send_exists : ∀ {n : Nat} {r : R} {d : UInt32} {h : Handle} {t : HandleTable Obj}
    {rest : List (Handle × Option Obj)}, Ok (n + 1) r → Takes r ((h, t.named k h) :: rest) →
    (T.send d h t r).isSome
  got_none : ∀ {r : R} {w : UInt32} {o : Obj}, Got r w (some o) → ¬ Got r w none

namespace Receives

variable {Obj R Mem : Type} {T : Translator Obj R Mem} {k : KernelContext Obj}
  {Ok : Nat → R → Prop} {Got : R → UInt32 → Option Obj → Prop}
  {Takes : R → List (Handle × Option Obj) → Prop}

/-- What the receiver has got it keeps. -/
theorem sendAll_keeps (hT : Receives T k Ok Got Takes) {items : List (UInt32 × Handle)}
    {t t' : HandleTable Obj} {r r' : R} {outs : List UInt32} (hr : Ok items.length r)
    (h : T.sendAll items t r = some (outs, t', r')) : ∀ w o, Got r w o → Got r' w o := by
  induction items generalizing t r outs with
  | nil =>
    simp only [Translator.sendAll, Option.some.injEq, Prod.mk.injEq] at h
    obtain ⟨-, -, rfl⟩ := h
    exact fun _ _ hg => hg
  | cons item items ih =>
    obtain ⟨d, h'⟩ := item
    obtain ⟨⟨w, t₁, r₁⟩, hsend, h⟩ := Option.bind_eq_some_iff.1 h
    obtain ⟨⟨outs', t₂, r₂⟩, hrest, he⟩ := Option.map_eq_some_iff.1 h
    simp only [Prod.mk.injEq] at he
    obtain ⟨-, rfl, rfl⟩ := he
    obtain ⟨-, hr₁, -, hkeep, -⟩ := hT.send_some hr hsend
    exact fun w o hg => ih hr₁ hrest w o (hkeep w o hg)

/-- Words that leave nothing open are sent as they have to be. -/
theorem sendAll_of_takes (hT : Receives T k Ok Got Takes) {t₀ : HandleTable Obj}
    {items pre : List (UInt32 × Handle)} {t : HandleTable Obj} {r : R} (hr : Ok items.length r)
    (ht : Moved t₀ t pre) (hl : ClosesMoved t₀ pre items)
    (htakes : Takes r (namedAll k t₀ pre items)) :
    ∃ outs t' r', T.sendAll items t r = some (outs, t', r') ∧ Moved t₀ t' (pre ++ items) ∧
      List.Forall₂ (fun w p => Got r' w p.2) outs (namedAll k t₀ pre items) := by
  induction items generalizing pre t r with
  | nil => exact ⟨[], t, r, rfl, by simpa using ht, .nil⟩
  | cons item items ih =>
    obtain ⟨d, h⟩ := item
    obtain ⟨hopen, hl⟩ := closesMoved_cons.1 hl
    rw [namedAll, ← named_of_moved ht] at htakes ⊢
    obtain ⟨⟨w, t₁, r₁⟩, hsend⟩ := Option.isSome_iff_exists.1 (hT.send_exists (d := d) hr htakes)
    obtain ⟨rfl, hr₁, hgot, -, hrest⟩ := hT.send_some hr hsend
    obtain ⟨outs, t', r', hall, hmoved, hfor⟩ := ih hr₁ (ht.closes hopen) hl ((hrest _).1 htakes)
    refine ⟨w :: outs, t', r', ?_, by rwa [List.append_cons], .cons ?_ hfor⟩
    · simp [Translator.sendAll, hsend, hall]
    · exact hT.sendAll_keeps hr₁ hall _ _ hgot

/-- A handle that was to be closed and is open stays open, if every word is sent as it has to
be: to close it would be to send it. -/
theorem lookup_of_sendAll (hT : Receives T k Ok Got Takes) {t₀ : HandleTable Obj}
    {items pre : List (UInt32 × Handle)} {t t' : HandleTable Obj} {r r' : R} {outs : List UInt32}
    {h : Handle} {o : Obj} (hr : Ok items.length r) (hm : MovedBy pre h) (ho : t.lookup h = some o)
    (hall : T.sendAll items t r = some (outs, t', r'))
    (hfor : List.Forall₂ (fun w p => Got r' w p.2) outs (namedAll k t₀ pre items)) :
    t'.lookup h = some o := by
  induction items generalizing pre t r outs with
  | nil =>
    simp only [Translator.sendAll, Option.some.injEq, Prod.mk.injEq] at hall
    rw [← hall.2.1, ho]
  | cons item items ih =>
    obtain ⟨d, h'⟩ := item
    obtain ⟨⟨w, t₁, r₁⟩, hsend, h⟩ := Option.bind_eq_some_iff.1 hall
    obtain ⟨⟨outs', t₂, r₂⟩, hrest, he⟩ := Option.map_eq_some_iff.1 h
    simp only [Prod.mk.injEq] at he
    obtain ⟨rfl, rfl, rfl⟩ := he
    rw [namedAll] at hfor
    obtain ⟨hgot, hfor⟩ := List.forall₂_cons.1 hfor
    obtain ⟨rfl, hr₁, hgot₁, -⟩ := hT.send_some hr hsend
    refine ih hr₁ (movedBy_append.2 (.inl hm)) ?_ hrest hfor
    unfold Kernel.closes
    split
    · rename_i hd
      rw [HandleTable.lookup_closeQuietly]
      split
      · rename_i hs
        -- the word names the handle, which was to be closed
        have hnp : ¬ IsPseudo h' := by
          intro hp
          rw [← t.lookup_congr hs, t.lookup_pseudo hp] at ho
          exact absurd ho (by simp)
        have hnamed : t.named k h' = some o := by
          rw [HandleTable.named, if_neg hd.2, t.getGeneric_eq_lookup k hnp, t.lookup_congr hs, ho]
        have hmoved : MovedBy pre h' := hm.congr ⟨hs.1.symm, hs.2.symm⟩
        rw [if_pos ⟨hmoved, hnp⟩] at hgot
        rw [hnamed] at hgot₁
        exact absurd hgot (hT.got_none (hT.sendAll_keeps hr₁ hrest _ _ hgot₁))
      · exact ho
    · exact ho

/-- Words that were sent as they have to be leave nothing open, and there was room for them. -/
theorem takes_of_sendAll (hT : Receives T k Ok Got Takes) {t₀ : HandleTable Obj}
    {items pre : List (UInt32 × Handle)} {t t' : HandleTable Obj} {r r' : R} {outs : List UInt32}
    (hr : Ok items.length r) (ht : Moved t₀ t pre)
    (hall : T.sendAll items t r = some (outs, t', r')) (ht' : Moved t₀ t' (pre ++ items))
    (hfor : List.Forall₂ (fun w p => Got r' w p.2) outs (namedAll k t₀ pre items)) :
    ClosesMoved t₀ pre items ∧ Takes r (namedAll k t₀ pre items) := by
  induction items generalizing pre t r outs with
  | nil => exact ⟨closesMoved_nil t₀ pre, hT.takes_nil r⟩
  | cons item items ih =>
    obtain ⟨d, h⟩ := item
    obtain ⟨⟨w, t₁, r₁⟩, hsend, h'⟩ := Option.bind_eq_some_iff.1 hall
    obtain ⟨⟨outs', t₂, r₂⟩, hrest, he⟩ := Option.map_eq_some_iff.1 h'
    simp only [Prod.mk.injEq] at he
    obtain ⟨rfl, rfl, rfl⟩ := he
    rw [List.append_cons] at ht'
    rw [namedAll] at hfor
    obtain ⟨-, hfor⟩ := List.forall₂_cons.1 hfor
    obtain ⟨rfl, hr₁, -, -, htakes⟩ := hT.send_some hr hsend
    have hopen : ¬ LeavesOpen t₀ pre (d, h) := by
      rintro ⟨htype, hd, h0, hm, ho⟩
      obtain ⟨o, ho⟩ := Option.ne_none_iff_exists'.1 ho
      have hm' : MovedBy (pre ++ [(d, h)]) h :=
        movedBy_append.2 (.inr (movedBy_singleton.2 ⟨htype, h0, rfl, rfl⟩))
      have hcloses : closes d h t = t := if_neg fun hc => hd hc.1
      have hstill : t.lookup h = some o := by
        rw [ht h, if_neg hm, ho]
      rw [hcloses] at hrest
      have hlast := hT.lookup_of_sendAll hr₁ hm' hstill hrest hfor
      rw [ht' h, if_pos (movedBy_append.2 (.inl hm'))] at hlast
      exact absurd hlast (by simp)
    obtain ⟨hl, hroom⟩ := ih hr₁ (ht.closes hopen) hrest ht' hfor
    refine ⟨closesMoved_cons.2 ⟨hopen, hl⟩, ?_⟩
    rw [namedAll, ← named_of_moved ht]
    exact (htakes _).2 hroom

end Receives

/-! ## Commands -/

/-- The descriptors of a whole command. -/
def commandParams (words : Nat → UInt32) (header : UInt32) : Option (List Param) :=
  let untranslatedSize := 1 + normalParamsSize header
  let commandSize := untranslatedSize + translateParamsSize header
  params words commandSize commandSize untranslatedSize

/-- A command is translated, the receiver has got what each handle word names, the moved
handles of the sender are closed, and no other handle of the sender is changed. -/
def Transfers {Obj R Mem : Type} (T : Translator Obj R Mem) (k : KernelContext Obj)
    (Got : R → UInt32 → Option Obj → Prop) (words : Nat → UInt32) (header : UInt32)
    (s : Translation Obj R Mem) : Prop :=
  ∃ ps s', commandParams words header = some ps ∧ T.translate header s = some (.success, s') ∧
    List.Forall₂ (fun w p => Got s'.receiver (s'.cmdBuf w.2) p.2) (handleWords ps)
      (namedAll k s.src [] (handleItems words (handleWords ps))) ∧
    Moved s.src s'.src (handleItems words (handleWords ps))

/-- The descriptors are in the command, their buffers can be translated, no word leaves a
handle open that it moves, and the receiver has room. -/
def CanTransfer {Obj R Mem : Type} (T : Translator Obj R Mem) (k : KernelContext Obj)
    (Takes : R → List (Handle × Option Obj) → Prop) (words : Nat → UInt32) (header : UInt32)
    (s : Translation Obj R Mem) : Prop :=
  ∃ ps, commandParams words header = some ps ∧
    (T.bufferAll words (bufferWords ps) s.mem).isSome ∧
    ClosesMoved s.src [] (handleItems words (handleWords ps)) ∧
    Takes s.receiver (namedAll k s.src [] (handleItems words (handleWords ps)))

theorem moved_nil {Obj : Type} (t : HandleTable Obj) : Moved t t [] := by
  intro h
  rw [if_neg (by simp [MovedBy])]

theorem forall₂_written {R Obj : Type} {Got : R → UInt32 → Option Obj → Prop} {r : R}
    {cmdBuf : Nat → UInt32} {ws : List (UInt32 × Nat)} {outs : List UInt32}
    {ns : List (Handle × Option Obj)} (hw : List.Forall₂ (fun w o => cmdBuf w.2 = o) ws outs) :
    List.Forall₂ (fun w p => Got r (cmdBuf w.2) p.2) ws ns ↔
      List.Forall₂ (fun w p => Got r w p.2) outs ns := by
  induction hw generalizing ns with
  | nil => cases ns <;> simp
  | cons h _ ih =>
    cases ns with
    | nil => simp
    | cons n ns => rw [List.forall₂_cons, List.forall₂_cons, h, ih]

theorem Receives.transfers_iff {Obj R Mem : Type} {T : Translator Obj R Mem} {k : KernelContext Obj}
    {Ok : Nat → R → Prop} {Got : R → UInt32 → Option Obj → Prop}
    {Takes : R → List (Handle × Option Obj) → Prop} (hT : Receives T k Ok Got Takes)
    (hreads : T.ReadsAhead) (htm : T.tooManyHandles ≠ some .success) {words : Nat → UInt32}
    {header : UInt32} {s : Translation Obj R Mem}
    (hfit : 1 + normalParamsSize header + translateParamsSize header ≤ commandBufferLength)
    (hw : T.Ahead words (1 + normalParamsSize header) s)
    (hr : ∀ n ≤ commandBufferLength, Ok n s.receiver) :
    Transfers T k Got words header s ↔ CanTransfer T k Takes words header s := by
  have hok : ∀ {ps}, commandParams words header = some ps →
      Ok (handleItems words (handleWords ps)).length s.receiver := by
    intro ps hps
    have := params_length hps
    refine hr _ ?_
    rw [handleItems, List.length_map]
    omega
  constructor
  · rintro ⟨ps, s', hps, ht, hfor, hmoved⟩
    rw [Translator.translate] at ht
    simp only [if_pos hfit] at ht
    obtain ⟨qs, outs, hqs, hdid, -⟩ := Translator.translateParams_success hreads htm _ hw ht
    obtain rfl := Option.some.inj (hps.symm.trans hqs)
    rw [forall₂_written hdid.written] at hfor
    obtain ⟨hl, htakes⟩ := hT.takes_of_sendAll (hok hps) (moved_nil s.src) hdid.handles
      (by simpa using hmoved) hfor
    exact ⟨ps, hps, by rw [hdid.buffers]; rfl, hl, htakes⟩
  · rintro ⟨ps, hps, hbuf, hl, htakes⟩
    obtain ⟨outs, t', r', hall, hmoved, hfor⟩ :=
      hT.sendAll_of_takes (hok hps) (moved_nil s.src) hl htakes
    obtain ⟨mem, hmem⟩ := Option.isSome_iff_exists.1 hbuf
    obtain ⟨s', hs'⟩ := Translator.translateParams_exists hreads _ hw hps hmem hall
    obtain ⟨qs, outs', hqs, hdid, -⟩ := Translator.translateParams_success hreads htm _ hw hs'
    obtain rfl := Option.some.inj (hps.symm.trans hqs)
    have hsame := Option.some.inj (hall.symm.trans hdid.handles)
    simp only [Prod.mk.injEq] at hsame
    obtain ⟨rfl, rfl, rfl⟩ := hsame
    refine ⟨ps, s', hps, ?_, (forall₂_written hdid.written).2 hfor, by simpa using hmoved⟩
    rw [Translator.translate]
    simp only [if_pos hfit]
    exact hs'

/-! ## The two paths -/

section Paths

variable {Obj Mem : Type}

/-- A word of the receiving process: the handle of the object, or zero for none. -/
def GotHandle (dst : HandleTable Obj) (word : UInt32) : Option Obj → Prop
  | none => word = 0
  | some object => word ≠ 0 ∧ dst.lookup word = some object

/-- The receiving process has an empty slot for every object. -/
def HasSlots (dst : HandleTable Obj) (ns : List (Handle × Option Obj)) : Prop :=
  ns.countP (·.2.isSome) ≤ dst.freeSlots

/-- A word of the service: the index of the object. -/
def GotIndex (requestHandles : List (Option Obj)) (word : UInt32) (object : Option Obj) : Prop :=
  requestHandles[word.toNat]? = some object

/-- No word is a handle that names nothing. -/
def AllNamed (_ : List (Option Obj)) (ns : List (Handle × Option Obj)) : Prop :=
  ∀ n ∈ ns, n.1 ≠ 0 → n.2 ≠ none

/-- The pseudo-handles of a sender. -/
def Sender.context (sender : Sender Obj) : KernelContext Obj :=
  ⟨some sender.thread, some sender.process⟩

theorem takeObject_eq (sender : Sender Obj) (d : UInt32) (h : Handle) (t : HandleTable Obj) :
    takeObject sender d h t = (t.named sender.context h, closes d h t) := by
  have hpseudo : IsPseudo h → closes d h t = t := by
    intro hp
    unfold closes
    split
    · exact t.closeQuietly_pseudo hp
    · rfl
  unfold takeObject
  split
  · next hh => rw [hpseudo (.inl hh), hh]; rfl
  split
  · next hh => rw [hpseudo (.inr hh), hh]; rfl
  split
  · next h0 => simp [HandleTable.named, h0, closes, Sender.context]
  · next h0 =>
      rw [not_not] at h0
      simp [HandleTable.named, h0, closes]

theorem kernel_receives (sender : Sender Obj) (processId : UInt32)
    (buffer : Mem → UInt32 → UInt32 → Option (UInt32 × Mem)) :
    Receives (kernelTranslator sender processId buffer) sender.context
      (fun _ dst => dst.Ok) GotHandle HasSlots where
  takes_nil := fun _ => Nat.zero_le _
  send_some := by
    intro _ dst dst' d w h t t' hok hsend
    simp only [kernelTranslator, sendToProcess, takeObject_eq] at hsend
    cases ho : t.named sender.context h with
    | none =>
      simp only [ho, Option.some.injEq, Prod.mk.injEq] at hsend
      obtain ⟨rfl, rfl, rfl⟩ := hsend
      exact ⟨rfl, hok, rfl, fun _ _ hg => hg, fun rest => by simp [HasSlots]⟩
    | some o =>
      simp only [ho] at hsend
      cases hc : dst.create o with
      | error e => simp [hc] at hsend
      | ok p =>
        obtain ⟨w', dst₁⟩ := p
        simp only [hc, Option.some.injEq, Prod.mk.injEq] at hsend
        obtain ⟨rfl, rfl, rfl⟩ := hsend
        obtain ⟨hnew, h0, hold⟩ := HandleTable.lookup_create hok hc
        refine ⟨rfl, hok.create hc, ⟨h0, hnew⟩, ?_, fun rest => ?_⟩
        · rintro w (_ | o') hg
          · exact hg
          · exact ⟨hg.1, hold w o' hg.2⟩
        · have := HandleTable.freeSlots_create hok hc
          simp only [HasSlots, List.countP_cons, Option.isSome_some, if_true]
          omega
  send_exists := by
    intro _ dst d h t rest hok htakes
    simp only [kernelTranslator, sendToProcess, takeObject_eq]
    cases ho : t.named sender.context h with
    | none => rfl
    | some o =>
      have hlt : dst.nextFreeSlot < maxCount := by
        refine HandleTable.nextFreeSlot_lt hok ?_
        simp only [ho, HasSlots, List.countP_cons, Option.isSome_some, if_true] at htakes
        omega
      simp [HandleTable.create, hlt]
  got_none := fun hg h0 => hg.1 h0

theorem hle_receives (srcCmdbuf : Nat → UInt32) (k : KernelContext Obj) (processId : UInt32)
    (buffer : Mem → UInt32 → UInt32 → Option (UInt32 × Mem)) :
    Receives (hleTranslator srcCmdbuf k processId buffer) k
      (fun n requestHandles => requestHandles.length + n ≤ 2 ^ 32) GotIndex AllNamed where
  takes_nil := by simp [AllNamed]
  send_some := by
    intro n rs rs' d w h t t' hok hsend
    have hidx : (UInt32.ofNat rs.length).toNat = rs.length :=
      UInt32.toNat_ofNat_of_lt' (show _ < 2 ^ 32 by omega)
    have hkeep : ∀ (o : Option Obj) w o', GotIndex rs w o' → GotIndex (rs ++ [o]) w o' := by
      intro o w o' hg
      unfold GotIndex at hg ⊢
      rw [List.getElem?_append_left (List.getElem?_eq_some_iff.1 hg).1, hg]
    simp only [hleTranslator, sendToService] at hsend
    by_cases h0 : h = 0
    · simp only [h0, ne_eq, not_true, if_false, Option.some.injEq, Prod.mk.injEq] at hsend
      obtain ⟨rfl, rfl, rfl⟩ := hsend
      refine ⟨by simp [closes, h0], by simp; omega, ?_, hkeep none, fun rest => by simp [AllNamed, h0]⟩
      simp [GotIndex, hidx, HandleTable.named, h0]
    · rw [if_pos h0] at hsend
      cases ho : t.getGeneric k h with
      | none => simp [ho] at hsend
      | some o =>
        simp only [ho, Option.some.injEq, Prod.mk.injEq] at hsend
        obtain ⟨rfl, rfl, rfl⟩ := hsend
        have hnamed : t.named k h = some o := by rw [HandleTable.named, if_neg h0, ho]
        refine ⟨by simp [closes, h0], by simp; omega, ?_, hkeep (some o), fun rest => ?_⟩
        · simp [GotIndex, hidx, hnamed]
        · simp [AllNamed, hnamed]
  send_exists := by
    intro n rs d h t rest _ htakes
    simp only [hleTranslator, sendToService]
    by_cases h0 : h = 0
    · simp [h0]
    · rw [if_pos h0]
      cases ho : t.getGeneric k h with
      | none =>
        have hnone : t.named k h = none := by rw [HandleTable.named, if_neg h0, ho]
        exact absurd hnone (htakes (h, t.named k h) (by simp) h0)
      | some o => rfl
  got_none := fun hg hn => by
    unfold GotIndex at hg hn
    rw [hg] at hn
    exact absurd hn (by simp)

/-- For which commands `TranslateCommandBuffer` transfers the handles. -/
theorem kernel_transfers_iff (sender : Sender Obj) (processId : UInt32)
    (buffer : Mem → UInt32 → UInt32 → Option (UInt32 × Mem)) {header : UInt32}
    {s : Translation Obj (HandleTable Obj) Mem}
    (hfit : 1 + normalParamsSize header + translateParamsSize header ≤ commandBufferLength)
    (hdst : s.receiver.Ok) :
    Transfers (kernelTranslator sender processId buffer) sender.context GotHandle s.cmdBuf header s ↔
      CanTransfer (kernelTranslator sender processId buffer) sender.context HasSlots s.cmdBuf header
        s := by
  refine (kernel_receives sender processId buffer).transfers_iff ?_ (by simp [kernelTranslator])
    hfit (fun _ _ => rfl) fun _ _ => hdst
  exact fun cmdBuf i word p hp => Function.update_of_ne hp ..

/-- For which commands `PopulateFromIncomingCommandBuffer` transfers the handles. -/
theorem hle_transfers_iff (srcCmdbuf : Nat → UInt32) (k : KernelContext Obj) (processId : UInt32)
    (buffer : Mem → UInt32 → UInt32 → Option (UInt32 × Mem)) {header : UInt32}
    {s : Translation Obj (List (Option Obj)) Mem}
    (hfit : 1 + normalParamsSize header + translateParamsSize header ≤ commandBufferLength)
    (hreq : s.receiver.length + commandBufferLength ≤ 2 ^ 32) :
    Transfers (hleTranslator srcCmdbuf k processId buffer) k GotIndex srcCmdbuf header s ↔
      CanTransfer (hleTranslator srcCmdbuf k processId buffer) k AllNamed srcCmdbuf header s := by
  refine (hle_receives srcCmdbuf k processId buffer).transfers_iff (fun _ _ _ _ _ => rfl)
    (by simp [hleTranslator]) hfit (fun _ _ => rfl) fun n hn => ?_
  omega

/-- For which commands the two functions give the receiver what every handle word names,
close the moved handles of the sender and change no other: the descriptors and their words
have to be in the command, the receiver needs room for the handles, and an open handle has
to be moved by a descriptor that is the number `0x10`. -/
theorem handles_transferred_iff (sender : Sender Obj) (k : KernelContext Obj) (processId : UInt32)
    (buffer : Mem → UInt32 → UInt32 → Option (UInt32 × Mem)) (srcCmdbuf : Nat → UInt32)
    (header : UInt32) (s : Translation Obj (HandleTable Obj) Mem)
    (sHle : Translation Obj (List (Option Obj)) Mem)
    (hfit : 1 + normalParamsSize header + translateParamsSize header ≤ commandBufferLength)
    (hdst : s.receiver.Ok) (hreq : sHle.receiver.length + commandBufferLength ≤ 2 ^ 32) :
    (Transfers (kernelTranslator sender processId buffer) sender.context GotHandle s.cmdBuf header
        s ↔
      CanTransfer (kernelTranslator sender processId buffer) sender.context HasSlots s.cmdBuf header
        s) ∧
    (Transfers (hleTranslator srcCmdbuf k processId buffer) k GotIndex srcCmdbuf header sHle ↔
      CanTransfer (hleTranslator srcCmdbuf k processId buffer) k AllNamed srcCmdbuf header sHle) :=
  ⟨kernel_transfers_iff sender processId buffer hfit hdst,
    hle_transfers_iff srcCmdbuf k processId buffer hfit hreq⟩

end Paths

/-- A table with two open handles, `0x1` and `0x8002`. -/
def twoHandles : HandleTable Nat := (Session.run [.create 10, .create 20]).table

/-- A thread and its process. -/
def exampleSender : Sender Nat := ⟨100, 101⟩

/-- A command with one descriptor and two handle words. -/
def twoHandleWords (header descriptor : UInt32) : Nat → UInt32
  | 0 => header
  | 1 => descriptor
  | 2 => 0x1
  | 3 => 0x8002
  | _ => 0

/-- A memory without buffers. -/
def noBuffer : Unit → UInt32 → UInt32 → Option (UInt32 × Unit) := fun m _ _ => some (0, m)

/-- The command on its way to a process with an empty table. -/
def toProcess (words : Nat → UInt32) : Translation Nat (HandleTable Nat) Unit :=
  ⟨words, twoHandles, HandleTable.init, ()⟩

/-- The command on its way to a service. -/
def toService : Translation Nat (List (Option Nat)) Unit := ⟨fun _ => 0, twoHandles, [], ()⟩

theorem freeSlots_init {Obj : Type} : (HandleTable.init : HandleTable Obj).freeSlots = maxCount := by
  have hall : ∀ s ∈ Finset.range maxCount,
      (((HandleTable.init : HandleTable Obj).objects s).isNone = true) := fun _ _ => rfl
  rw [HandleTable.freeSlots, Finset.filter_true_of_mem hall, Finset.card_range]

/-- A command that moves `0x1` by itself is transferred on both paths. -/
theorem handles_transferred_single :
    Transfers (kernelTranslator exampleSender 7 noBuffer) exampleSender.context GotHandle
      (twoHandleWords 0x00010002 0x10) 0x00010002 (toProcess (twoHandleWords 0x00010002 0x10)) ∧
    Transfers (hleTranslator (twoHandleWords 0x00010002 0x10) exampleSender.context 7 noBuffer)
      exampleSender.context GotIndex (twoHandleWords 0x00010002 0x10) 0x00010002 toService := by
  have h := handles_transferred_iff exampleSender exampleSender.context 7 noBuffer
    (twoHandleWords 0x00010002 0x10) 0x00010002 (toProcess (twoHandleWords 0x00010002 0x10))
    toService (by decide) HandleTable.ok_init (by decide)
  have hps : commandParams (twoHandleWords 0x00010002 0x10) 0x00010002 =
      some [.handles 0x10 2 1] := rfl
  have hcloses : ClosesMoved twoHandles [] [(0x10, 0x1)] :=
    closesMoved_cons.2 ⟨fun hl => hl.2.1 rfl, closesMoved_nil _ _⟩
  refine ⟨h.1.2 ⟨_, hps, rfl, hcloses, ?_⟩, h.2.2 ⟨_, hps, rfl, hcloses, ?_⟩⟩
  · show _ ≤ HandleTable.freeSlots HandleTable.init
    rw [freeSlots_init]
    decide
  · show ∀ n ∈ namedAll _ _ _ _, _
    decide

/-- A command that moves `0x1` and `0x8002` with one descriptor is not: the two handles stay
open. -/
theorem handles_not_transferred_pair :
    ¬ Transfers (kernelTranslator exampleSender 7 noBuffer) exampleSender.context GotHandle
      (twoHandleWords 0x00010003 0x04000010) 0x00010003
      (toProcess (twoHandleWords 0x00010003 0x04000010)) ∧
    ¬ Transfers (hleTranslator (twoHandleWords 0x00010003 0x04000010) exampleSender.context 7
      noBuffer) exampleSender.context GotIndex (twoHandleWords 0x00010003 0x04000010) 0x00010003
      toService := by
  have hps : commandParams (twoHandleWords 0x00010003 0x04000010) 0x00010003 =
      some [.handles 0x04000010 2 2] := rfl
  have hopen : ¬ ClosesMoved twoHandles [] [(0x04000010, 0x1), (0x04000010, 0x8002)] := by
    intro hc
    exact (closesMoved_cons.1 hc).1 ⟨by decide, by decide, by decide, by decide, by decide⟩
  constructor
  · intro h
    have hfit : 1 + normalParamsSize 0x00010003 + translateParamsSize 0x00010003 ≤
        commandBufferLength := by decide
    obtain ⟨ps, hps', -, hc, -⟩ := (kernel_transfers_iff exampleSender 7 noBuffer
      (s := toProcess (twoHandleWords 0x00010003 0x04000010)) hfit HandleTable.ok_init).1 h
    rw [Option.some.inj (hps'.symm.trans hps)] at hc
    exact hopen hc
  · intro h
    obtain ⟨ps, hps', -, hc, -⟩ := (hle_transfers_iff (twoHandleWords 0x00010003 0x04000010)
      exampleSender.context 7 noBuffer (by decide) (by decide)).1 h
    rw [Option.some.inj (hps'.symm.trans hps)] at hc
    exact hopen hc

end AzaharPlus.Kernel
