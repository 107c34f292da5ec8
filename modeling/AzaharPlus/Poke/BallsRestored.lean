import AzaharPlus.Poke.Pocket
import Mathlib.Data.Multiset.Filter

/-!
# Taking the Poké Balls out and putting them back

`RestorePokeballs` after `RemovePokeballs`, with `g_RemovedPokeBalls` empty before, as the
start of the program and `RestorePokeballs` leave it.  The table has an entry for each of the
items 1 to 16, and one that nothing uses; the item 576 is put in the entry of item 16.

Main results:

* `balls_restored_iff`: the balls come back exactly if the pocket does not hold items 16 and
  576 at once, the one in front not with the quantity zero; and a pocket that was changed in
  between keeps its other items exactly if they leave the last slots empty.
* `balls_not_restored`: a pocket that holds both loses one of them.
-/

namespace AzaharPlus.Poke

open BlockMemory

/-- `g_RemovedPokeBalls` while nothing is taken out. -/
def noneRemoved : RemovedPokeBalls := fun _ => ItemEntry.zero

/-- A slot that holds something. -/
def ItemEntry.isUsed (e : ItemEntry) : Bool := e.id != 0 && e.qty != 0

/-- The entries with an item and a quantity. -/
def usedEntries (slots : List ItemEntry) : Multiset ItemEntry := ↑(slots.filter ItemEntry.isUsed)

/-- Those of them that are no balls. -/
def otherEntries (slots : List ItemEntry) : Multiset ItemEntry :=
  ↑(slots.filter fun e => !e.isBall && e.isUsed)

/-- No item stands in two slots. -/
def IdsDistinct (slots : List ItemEntry) : Prop :=
  slots.Pairwise fun e f => e.id ≠ 0 → e.id ≠ f.id

/-- Two different items that go to the same entry of `g_RemovedPokeBalls`. -/
def Compete (e f : ItemEntry) : Prop := (e.id = 16 ∧ f.id = 576) ∨ (e.id = 576 ∧ f.id = 16)

instance (e f : ItemEntry) : Decidable (Compete e f) := inferInstanceAs (Decidable (_ ∨ _))

/-- Of two slots that compete the first one has the quantity zero. -/
def Uncontested (slots : List ItemEntry) : Prop :=
  slots.Pairwise fun e f => Compete e f → e.qty = 0

/-! ## Entries of the table -/

theorem isBall_iff (e : ItemEntry) : e.isBall = true ↔ (1 ≤ e.id ∧ e.id ≤ 16) ∨ e.id = 576 := by
  have hpos : e.id ≠ 0 ↔ 1 ≤ e.id := by
    rw [ne_eq, ← UInt16.toNat_inj, UInt16.le_iff_toNat_le]
    simp only [UInt16.toNat_zero, UInt16.toNat_one]
    omega
  simp only [ItemEntry.isBall, ballIndex, hpos]
  split_ifs with h₁ h₂
  · simp [h₁]
  · simp [h₂]
  · simp [h₁, h₂]

theorem ballIndex_eq_some {id : UInt16} {k : Fin 17} (h : ballIndex id = some k) :
    id.toNat = k.val ∧ id ≠ 576 ∨ id = 576 ∧ k = 16 := by
  rw [ballIndex] at h
  split_ifs at h with h₁ h₂
  · left
    have hle := UInt16.le_iff_toNat_le.1 h₁.2
    obtain rfl := Option.some.inj h
    refine ⟨?_, ?_⟩
    · simp only [Fin.ofNat]
      rw [Nat.mod_eq_of_lt]
      simp at hle
      omega
    · rintro rfl
      exact absurd hle (by decide)
  · exact Or.inr ⟨h₂, (Option.some.inj h).symm⟩

/-- Two items for one entry are the same or compete. -/
theorem eq_or_compete {e f : ItemEntry} {k : Fin 17} (he : ballIndex e.id = some k)
    (hf : ballIndex f.id = some k) : e.id = f.id ∨ Compete e f := by
  rcases ballIndex_eq_some he with ⟨he', -⟩ | ⟨he', rfl⟩ <;>
    rcases ballIndex_eq_some hf with ⟨hf', -⟩ | ⟨hf', hk⟩
  · exact Or.inl (UInt16.toNat_inj.1 (he'.trans hf'.symm))
  · subst hk
    exact Or.inr (Or.inl ⟨UInt16.toNat_inj.1 he', hf'⟩)
  · exact Or.inr (Or.inr ⟨he', UInt16.toNat_inj.1 hf'⟩)
  · exact Or.inl (he'.trans hf'.symm)

theorem Compete.ballIndex_eq {e f : ItemEntry} (h : Compete e f) :
    ballIndex e.id = some 16 ∧ ballIndex f.id = some 16 := by
  rcases h with ⟨he, hf⟩ | ⟨he, hf⟩
  · rw [he, hf]
    decide
  · rw [he, hf]
    decide

theorem takeBalls_append (l₁ l₂ : List ItemEntry) (removed : RemovedPokeBalls) :
    (takeBalls (l₁ ++ l₂) removed).2 = (takeBalls l₂ (takeBalls l₁ removed).2).2 := by
  induction l₁ generalizing removed with
  | nil => rfl
  | cons e l ih =>
    rw [List.cons_append, takeBalls, takeBalls]
    cases ballIndex e.id with
    | some k => exact ih _
    | none => exact ih _

/-- The last slot that goes to an entry is the one it holds. -/
theorem takeBalls_last {pre post : List ItemEntry} {e : ItemEntry} {k : Fin 17}
    (removed : RemovedPokeBalls) (he : ballIndex e.id = some k)
    (hpost : ∀ f ∈ post, ballIndex f.id ≠ some k) :
    (takeBalls (pre ++ e :: post) removed).2 k = e := by
  rw [takeBalls_append, takeBalls, he]
  show (takeBalls post (Function.update (takeBalls pre removed).2 k e)).2 k = e
  rw [takeBalls_snd_of_ne _ _ hpost, Function.update_self]

/-- An entry holds a slot that goes to it, or what it held before. -/
theorem takeBalls_origin (slots : List ItemEntry) (removed : RemovedPokeBalls) (k : Fin 17) :
    (takeBalls slots removed).2 k = removed k ∨
      ∃ e ∈ slots, ballIndex e.id = some k ∧ (takeBalls slots removed).2 k = e := by
  induction slots generalizing removed with
  | nil => exact Or.inl rfl
  | cons e slots ih =>
    rw [takeBalls]
    cases hk : ballIndex e.id with
    | none =>
      rcases ih removed with h | ⟨f, hf, hfk, h⟩
      · exact Or.inl h
      · exact Or.inr ⟨f, List.mem_cons_of_mem e hf, hfk, h⟩
    | some k' =>
      rcases ih (Function.update removed k' e) with h | ⟨f, hf, hfk, h⟩
      · by_cases hkk : k = k'
        · subst hkk
          rw [Function.update_self] at h
          exact Or.inr ⟨e, List.mem_cons_self, hk, h⟩
        · rw [Function.update_of_ne hkk] at h
          exact Or.inl h
      · exact Or.inr ⟨f, List.mem_cons_of_mem e hf, hfk, h⟩

/-- What is held after the balls of some slots were taken out. -/
def heldOf (slots : List ItemEntry) : List ItemEntry := held (takeBalls slots noneRemoved).2

theorem mem_heldOf_origin {slots : List ItemEntry} {e : ItemEntry} (h : e ∈ heldOf slots) :
    e ∈ slots ∧ e.isBall = true ∧ e.qty ≠ 0 ∧
      ∃ k, ballIndex e.id = some k ∧ (takeBalls slots noneRemoved).2 k = e := by
  obtain ⟨⟨k, hk⟩, hqty⟩ := mem_held.1 h
  rcases takeBalls_origin slots noneRemoved k with h | ⟨f, hf, hfk, h⟩
  · rw [← hk, h] at hqty
    exact absurd rfl hqty
  · obtain rfl : f = e := h.symm.trans hk
    exact ⟨hf, by rw [ItemEntry.isBall, hfk]; rfl, hqty, k, hfk, hk⟩

theorem nodup_heldOf (slots : List ItemEntry) : (heldOf slots).Nodup := by
  rw [heldOf, held, List.filter_map]
  refine List.Nodup.map_on ?_ ((List.nodup_finRange 17).filter _)
  intro k hk k' hk' heq
  rw [List.mem_filter] at hk hk'
  have hmem : ∀ j, (((fun e : ItemEntry => e.qty != 0) ∘ (takeBalls slots noneRemoved).2) j) = true →
      ballIndex ((takeBalls slots noneRemoved).2 j).id = some j := by
    intro j hj
    rcases takeBalls_origin slots noneRemoved j with h | ⟨f, -, hfj, h⟩
    · rw [Function.comp_apply, h] at hj
      simp [noneRemoved, ItemEntry.zero] at hj
    · rw [h, hfj]
  have h₁ := hmem k hk.2
  have h₂ := hmem k' hk'.2
  rw [heq, h₂] at h₁
  exact (Option.some.inj h₁).symm

/-- Every slot that is held is one of the balls taken out. -/
theorem length_heldOf_le (slots : List ItemEntry) : (heldOf slots).length ≤ (balls slots).length := by
  refine ((nodup_heldOf slots).subperm fun e he => ?_).length_le
  obtain ⟨hmem, hball, -⟩ := mem_heldOf_origin he
  exact List.mem_filter.2 ⟨hmem, hball⟩

/-! ## The balls come back -/

theorem IdsDistinct.split {pre post : List ItemEntry} {e : ItemEntry}
    (h : IdsDistinct (pre ++ e :: post)) (he : e.id ≠ 0) : ∀ f ∈ post, e.id ≠ f.id := by
  intro f hf
  have hpair := (List.pairwise_append.1 h).2.1
  exact (List.pairwise_cons.1 hpair).1 f hf he

theorem ne_zero_of_isBall {e : ItemEntry} (h : e.isBall = true) : e.id ≠ 0 := by
  intro h0
  rw [ItemEntry.isBall, h0] at h
  exact absurd h (by decide)

/-- The balls with a quantity. -/
def usedBalls (slots : List ItemEntry) : List ItemEntry := (balls slots).filter ItemEntry.isUsed

theorem mem_usedBalls {slots : List ItemEntry} {e : ItemEntry} :
    e ∈ usedBalls slots ↔ e ∈ slots ∧ e.isBall = true ∧ e.qty ≠ 0 := by
  rw [usedBalls, balls, List.mem_filter, List.mem_filter, and_assoc]
  refine and_congr_right fun _ => and_congr_right fun hball => ?_
  simp [ItemEntry.isUsed, ne_zero_of_isBall hball]

theorem nodup_usedBalls {slots : List ItemEntry} (h : IdsDistinct slots) :
    (usedBalls slots).Nodup := by
  have hall : ∀ e ∈ usedBalls slots, e.id ≠ 0 := fun e he =>
    ne_zero_of_isBall (mem_usedBalls.1 he).2.1
  have hsub : (usedBalls slots).Sublist slots :=
    List.filter_sublist.trans List.filter_sublist
  refine List.Pairwise.imp_of_mem (fun {e f} he _ hne => ?_) (List.Pairwise.sublist hsub h)
  rintro rfl
  exact hne (hall e he) rfl

/-- The balls held are all that were taken out, exactly if no two compete. -/
theorem heldOf_eq_iff {slots : List ItemEntry} (h : IdsDistinct slots) :
    ((heldOf slots : List ItemEntry) : Multiset ItemEntry) = ↑(usedBalls slots) ↔
      Uncontested slots := by
  constructor
  · intro heq
    rw [Uncontested, List.pairwise_iff_forall_sublist]
    intro e f hsub hcompete
    by_contra hqty
    obtain ⟨hek, hfk⟩ := hcompete.ballIndex_eq
    obtain ⟨pre, post, rfl, hf⟩ : ∃ pre post, slots = pre ++ e :: post ∧ f ∈ post := by
      obtain ⟨r₁, r₂, rfl, he, hf⟩ := List.cons_sublist_iff.1 hsub
      obtain ⟨pre, mid, rfl⟩ := List.append_of_mem he
      refine ⟨pre, mid ++ r₂, by simp, List.mem_append_right _ (List.singleton_sublist.1 hf)⟩
    obtain ⟨mid, post', rfl⟩ := List.append_of_mem hf
    have he₀ : e.id ≠ 0 := ne_zero_of_isBall (by rw [ItemEntry.isBall, hek]; rfl)
    have hf₀ : f.id ≠ 0 := ne_zero_of_isBall (by rw [ItemEntry.isBall, hfk]; rfl)
    have hafter := h.split he₀
    have hafter' : ∀ g ∈ post', f.id ≠ g.id := by
      have h' : IdsDistinct (((pre ++ [e]) ++ mid) ++ f :: post') := by simpa using h
      exact h'.split hf₀
    -- the later one takes the entry, and the earlier one is not held
    have hlast : (takeBalls (pre ++ e :: (mid ++ f :: post')) noneRemoved).2 16 = f := by
      have happ : pre ++ e :: (mid ++ f :: post') = (pre ++ e :: mid) ++ f :: post' := by simp
      rw [happ]
      refine takeBalls_last noneRemoved hfk fun g hg hgk => ?_
      rcases eq_or_compete hfk hgk with hid | hcomp
      · exact hafter' g hg hid
      · refine hafter g (by simp [hg]) ?_
        rcases hcompete with ⟨h₁, h₂⟩ | ⟨h₁, h₂⟩ <;> rcases hcomp with ⟨h₃, h₄⟩ | ⟨h₃, h₄⟩
        · rw [h₂] at h₃
          exact absurd h₃ (by decide)
        · rw [h₁, h₄]
        · rw [h₁, h₄]
        · rw [h₂] at h₃
          exact absurd h₃ (by decide)
    have hheld : e ∈ heldOf (pre ++ e :: (mid ++ f :: post')) := by
      rw [← Multiset.mem_coe, heq, Multiset.mem_coe, mem_usedBalls]
      exact ⟨by simp, by rw [ItemEntry.isBall, hek]; rfl, hqty⟩
    obtain ⟨-, -, -, k, hk, hkeep⟩ := mem_heldOf_origin hheld
    rw [hek] at hk
    obtain rfl := Option.some.inj hk
    rw [hlast] at hkeep
    exact hafter f (by simp) (by rw [hkeep])
  · intro hu
    rw [Multiset.coe_eq_coe, List.perm_ext_iff_of_nodup (nodup_heldOf slots) (nodup_usedBalls h)]
    intro e
    rw [mem_usedBalls]
    constructor
    · intro he
      obtain ⟨hmem, hball, hqty, -⟩ := mem_heldOf_origin he
      exact ⟨hmem, hball, hqty⟩
    · rintro ⟨hmem, hball, hqty⟩
      obtain ⟨k, hk⟩ := Option.isSome_iff_exists.1 hball
      obtain ⟨pre, post, rfl⟩ := List.append_of_mem hmem
      refine mem_held.2 ⟨⟨k, takeBalls_last noneRemoved hk fun f hf hfk => ?_⟩, hqty⟩
      rcases eq_or_compete hk hfk with hid | hcompete
      · exact h.split (ne_zero_of_isBall hball) f hf hid
      · have hpair := (List.pairwise_append.1 hu).2.1
        exact hqty ((List.pairwise_cons.1 hpair).1 f hf hcompete)

theorem balls_add_stays_le (slots : List ItemEntry) :
    (balls slots).length + (slots.filter stays).length ≤ slots.length := by
  induction slots with
  | nil => simp [balls]
  | cons e slots ih =>
    rw [balls, List.filter_cons, List.filter_cons]
    by_cases hb : e.isBall = true
    · have hs : ¬ stays e = true := by simp [stays, hb]
      rw [if_pos hb, if_neg hs, List.length_cons, List.length_cons]
      rw [balls] at ih
      omega
    · rw [if_neg hb]
      rw [balls] at ih
      split_ifs
      · rw [List.length_cons, List.length_cons]
        omega
      · rw [List.length_cons]
        omega

/-- What the pocket holds when nothing was changed in between. -/
theorem readPocket_restored (mem : Memory) :
    readPocket (putBack (takeOut mem noneRemoved).1 (takeOut mem noneRemoved).2.2) =
      heldOf (readPocket mem) ++ (readPocket mem).filter stays ++
        List.replicate (slotCount - (heldOf (readPocket mem)).length -
          ((readPocket mem).filter stays).length) ItemEntry.zero := by
  have h₁ := balls_add_stays_le (readPocket mem)
  have h₂ := length_heldOf_le (readPocket mem)
  rw [length_readPocket] at h₁
  rw [readPocket_putBack, takeOut_table, readPocket_takeOut, List.append_assoc]
  show heldOf (readPocket mem) ++ _ = _
  rw [heldOf] at h₂ ⊢
  rw [List.take_append, List.take_of_length_le (by omega), List.take_replicate]
  congr 3
  omega

theorem usedEntries_eq (slots : List ItemEntry) :
    usedEntries slots = ↑(usedBalls slots) + otherEntries slots := by
  have hsplit := Multiset.filter_add_not (fun e : ItemEntry => e.isBall = true) (usedEntries slots)
  rw [← hsplit, usedEntries, Multiset.filter_coe, Multiset.filter_coe, List.filter_filter,
    List.filter_filter, usedBalls, balls, otherEntries, List.filter_filter]
  congr 2
  · congr 1
    funext e
    simp [Bool.and_comm]
  · refine List.filter_congr fun e _ => ?_
    simp

theorem otherEntries_append (l₁ l₂ : List ItemEntry) :
    otherEntries (l₁ ++ l₂) = otherEntries l₁ + otherEntries l₂ := by
  rw [otherEntries, List.filter_append, ← Multiset.coe_add]
  rfl

theorem otherEntries_heldOf (slots : List ItemEntry) : otherEntries (heldOf slots) = 0 := by
  rw [otherEntries, Multiset.coe_eq_zero, List.filter_eq_nil_iff]
  intro e he
  simp [(mem_heldOf_origin he).2.1]

theorem otherEntries_stays (slots : List ItemEntry) :
    otherEntries (slots.filter stays) = otherEntries slots := by
  rw [otherEntries, otherEntries, List.filter_filter]
  congr 1
  refine List.filter_congr fun e _ => ?_
  simp only [stays, ItemEntry.isUsed]
  cases e.isBall <;> cases e.id != 0 <;> cases e.qty != 0 <;> rfl

/-- Without a change in between the pocket holds what it held, exactly if no two slots
compete. -/
theorem usedEntries_restored_iff {mem : Memory} (h : IdsDistinct (readPocket mem)) :
    usedEntries (readPocket (putBack (takeOut mem noneRemoved).1 (takeOut mem noneRemoved).2.2)) =
      usedEntries (readPocket mem) ↔ Uncontested (readPocket mem) := by
  have hballs : usedBalls (heldOf (readPocket mem)) = heldOf (readPocket mem) := by
    rw [usedBalls, balls, List.filter_filter]
    refine List.filter_eq_self.2 fun e he => ?_
    obtain ⟨-, hball, hqty, -⟩ := mem_heldOf_origin he
    simp [ItemEntry.isUsed, hball, ne_zero_of_isBall hball, hqty]
  have hothers : otherEntries (List.replicate (slotCount - (heldOf (readPocket mem)).length -
      ((readPocket mem).filter stays).length) ItemEntry.zero) = 0 := by
    rw [otherEntries, Multiset.coe_eq_zero, List.filter_eq_nil_iff]
    intro e he
    rw [List.eq_of_mem_replicate he]
    decide
  have hused : usedEntries (readPocket (putBack (takeOut mem noneRemoved).1
      (takeOut mem noneRemoved).2.2)) =
        ↑(heldOf (readPocket mem)) + otherEntries (readPocket mem) := by
    have hnone : ∀ l : List ItemEntry, (∀ e ∈ l, e.isBall = false) → usedBalls l = [] := by
      intro l hl
      rw [usedBalls, balls, List.filter_filter, List.filter_eq_nil_iff]
      intro e he
      simp [hl e he]
    rw [readPocket_restored, usedEntries_eq, otherEntries_append, otherEntries_append, hothers,
      otherEntries_heldOf, otherEntries_stays, zero_add, add_zero]
    congr 1
    rw [usedBalls, balls, List.filter_append, List.filter_append, List.filter_append,
      List.filter_append]
    have hstay := hnone ((readPocket mem).filter stays) fun e he => by
      have hs := (List.mem_filter.1 he).2
      simp only [stays, Bool.and_eq_true, Bool.not_eq_true'] at hs
      exact hs.1
    have hzero := hnone (List.replicate (slotCount - (heldOf (readPocket mem)).length -
      ((readPocket mem).filter stays).length) ItemEntry.zero) fun e he => by
        rw [List.eq_of_mem_replicate he]
        exact not_isBall_zero
    rw [usedBalls, balls] at hballs hstay hzero
    rw [hballs, hstay, hzero, List.append_nil, List.append_nil]
  rw [hused, usedEntries_eq, add_left_inj]
  exact heldOf_eq_iff h

/-! ## A pocket that was changed in between -/

/-- The slots of a changed pocket that fall out when the balls are put back. -/
def lastSlots (mem mem' : Memory) : List ItemEntry :=
  (readPocket mem').drop (slotCount - (usedBalls (readPocket mem)).length)

/-- A changed pocket has an empty slot for every ball that was taken out. -/
def LeavesRoom (mem mem' : Memory) : Prop :=
  (usedBalls (readPocket mem)).length ≤ (readPocket mem').countP fun e => e.id == 0

theorem otherEntries_putBack_iff {mem : Memory} (h : IdsDistinct (readPocket mem))
    (hu : Uncontested (readPocket mem)) (mem' : Memory) :
    otherEntries (readPocket (putBack mem' (takeOut mem noneRemoved).2.2)) =
      otherEntries (readPocket mem') ↔ otherEntries (lastSlots mem mem') = 0 := by
  have hlen : (heldOf (readPocket mem)).length = (usedBalls (readPocket mem)).length :=
    (Multiset.coe_eq_coe.1 ((heldOf_eq_iff h).2 hu)).length_eq
  have hput : readPocket (putBack mem' (takeOut mem noneRemoved).2.2) =
      heldOf (readPocket mem) ++
        (readPocket mem').take (slotCount - (usedBalls (readPocket mem)).length) := by
    rw [← hlen, readPocket_putBack, takeOut_table]
    rfl
  have hsplit : otherEntries (readPocket mem') =
      otherEntries ((readPocket mem').take (slotCount - (usedBalls (readPocket mem)).length)) +
        otherEntries (lastSlots mem mem') := by
    rw [← otherEntries_append, lastSlots, List.take_append_drop]
  rw [hput, otherEntries_append, otherEntries_heldOf, zero_add, hsplit]
  exact left_eq_add

/-- `RestorePokeballs` undoes `RemovePokeballs`, for a pocket in which no item stands twice.
While the balls are taken out none is in the pocket; they come back exactly if no two of the
pocket's slots compete for an entry of `g_RemovedPokeBalls`; and a pocket that was changed in
between, with an empty slot for every ball, keeps its other items exactly if none of them
stands in the last slots. -/
theorem balls_restored_iff (mem mem' : Memory) (h : IdsDistinct (readPocket mem)) :
    ((∀ e ∈ readPocket (takeOut mem noneRemoved).1, ¬ ((1 ≤ e.id ∧ e.id ≤ 16) ∨ e.id = 576)) ∧
      usedEntries (readPocket
          (putBack (takeOut mem noneRemoved).1 (takeOut mem noneRemoved).2.2)) =
        usedEntries (readPocket mem) ∧
      (LeavesRoom mem mem' →
        otherEntries (readPocket (putBack mem' (takeOut mem noneRemoved).2.2)) =
          otherEntries (readPocket mem'))) ↔
    (Uncontested (readPocket mem) ∧
      (LeavesRoom mem mem' → otherEntries (lastSlots mem mem') = 0)) := by
  rw [usedEntries_restored_iff h]
  constructor
  · rintro ⟨-, hu, hkeep⟩
    exact ⟨hu, fun hroom => (otherEntries_putBack_iff h hu mem').1 (hkeep hroom)⟩
  · rintro ⟨hu, htail⟩
    refine ⟨fun e he hball => ?_, hu, fun hroom => (otherEntries_putBack_iff h hu mem').2 (htail hroom)⟩
    have hno := no_ball_takeOut mem noneRemoved e he
    rw [(isBall_iff e).2 hball] at hno
    cases hno

/-- Guest memory with a main pocket. -/
def memoryWithPocket (slots : List ItemEntry) : Memory :=
  writeSlots (fun _ => 0) pocketStart slotCount
    (slots ++ List.replicate (slotCount - slots.length) ItemEntry.zero)

theorem readPocket_memoryWithPocket (slots : List ItemEntry) (h : slots.length ≤ slotCount) :
    readPocket (memoryWithPocket slots) =
      slots ++ List.replicate (slotCount - slots.length) ItemEntry.zero :=
  readSlots_writeSlots _ _ (by simp [h])

/-- Empty slots behind the others hold no item twice. -/
theorem idsDistinct_append_zero {slots : List ItemEntry} (h : IdsDistinct slots)
    (h₀ : ∀ e ∈ slots, e.id ≠ 0) (n : Nat) :
    IdsDistinct (slots ++ List.replicate n ItemEntry.zero) := by
  rw [IdsDistinct, List.pairwise_append]
  refine ⟨h, List.pairwise_replicate.2 (Or.inr fun hne => absurd rfl hne), ?_⟩
  intro e he f hf _
  rw [List.eq_of_mem_replicate hf]
  exact h₀ e he

/-- A pocket with five Poké Balls and a potion: the balls come back. -/
theorem balls_restored_pokeBalls :
    usedEntries (readPocket (putBack (takeOut (memoryWithPocket [⟨4, 5⟩, ⟨17, 1⟩]) noneRemoved).1
        (takeOut (memoryWithPocket [⟨4, 5⟩, ⟨17, 1⟩]) noneRemoved).2.2)) =
      usedEntries (readPocket (memoryWithPocket [⟨4, 5⟩, ⟨17, 1⟩])) := by
  have hread := readPocket_memoryWithPocket [⟨4, 5⟩, ⟨17, 1⟩] (by decide)
  have hd : IdsDistinct (readPocket (memoryWithPocket [⟨4, 5⟩, ⟨17, 1⟩])) := by
    rw [hread]
    exact idsDistinct_append_zero (by simp [IdsDistinct]) (by simp) _
  have hu : Uncontested (readPocket (memoryWithPocket [⟨4, 5⟩, ⟨17, 1⟩])) := by
    rw [hread, Uncontested, List.pairwise_append]
    refine ⟨by simp [Compete], List.pairwise_replicate.2 (Or.inr fun _ => rfl), ?_⟩
    intro e he f hf hc
    rw [List.eq_of_mem_replicate hf] at hc
    simp [Compete, ItemEntry.zero] at hc
  refine ((balls_restored_iff _ (memoryWithPocket []) hd).2 ⟨hu, fun _ => ?_⟩).2.1
  rw [otherEntries, Multiset.coe_eq_zero, List.filter_eq_nil_iff]
  intro e he
  have he' := List.mem_of_mem_drop he
  rw [readPocket_memoryWithPocket [] (by decide), List.nil_append] at he'
  rw [List.eq_of_mem_replicate he']
  decide

/-- A pocket with one Cherish Ball and one Dream Ball: only the second comes back. -/
theorem balls_not_restored :
    ¬ ∀ mem : Memory, IdsDistinct (readPocket mem) →
      usedEntries (readPocket
          (putBack (takeOut mem noneRemoved).1 (takeOut mem noneRemoved).2.2)) =
        usedEntries (readPocket mem) := by
  intro hall
  have hread := readPocket_memoryWithPocket [⟨16, 1⟩, ⟨576, 1⟩] (by decide)
  have hd : IdsDistinct (readPocket (memoryWithPocket [⟨16, 1⟩, ⟨576, 1⟩])) := by
    rw [hread]
    exact idsDistinct_append_zero (by simp [IdsDistinct]) (by simp) _
  have hu := (usedEntries_restored_iff hd).1 (hall _ hd)
  rw [hread, Uncontested, List.pairwise_append] at hu
  exact absurd ((List.pairwise_cons.1 hu.1).1 ⟨576, 1⟩ (by simp)) (by decide)

end AzaharPlus.Poke
