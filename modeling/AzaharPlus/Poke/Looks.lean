import AzaharPlus.Poke.Monitor

/-!
# What one look of the monitor does

The monitor writes to the party and to the medicine pocket at almost any time.  Both lie
apart from the main pocket and from the wild Pokémon (`eqOn_levelCapAdjustment`,
`eqOn_deleteSlots`), so that a look is one of three things: the start of a battle
(`exportParty_start`), its end (`exportParty_end`), or neither (`exportParty_other`).
-/

namespace AzaharPlus.Poke

open Bytes BlockMemory

/-! ## The memory that is left alone -/

/-- The addresses outside the party and the medicine pocket. -/
def outsideParty : Set Nat :=
  {a | (a < medicinePocketStart ∨ medicinePocketStart + slotSize * medicineSlotCount ≤ a) ∧
    (a < partyOras ∨ partyOras + partySize * pokemonSlotStride ≤ a)}

theorem wild_subset_outsideParty : Set.Ico wildOras (wildOras + pkmBoxSize) ⊆ outsideParty := by
  intro a ha
  have h₁ : a < 0x81FFA6C + 232 := ha.2
  have h₂ : a < medicinePocketStart := h₁.trans (by decide)
  have h₃ : a < partyOras := h₁.trans (by decide)
  exact ⟨Or.inl h₂, Or.inl h₃⟩

theorem pocket_subset_outsideParty :
    Set.Ico pocketStart (pocketStart + slotSize * slotCount) ⊆ outsideParty := by
  intro a ha
  have h₁ : a < 0x8C6AC80 + 4 * 305 := ha.2
  have h₂ : a < medicinePocketStart := h₁.trans (by decide)
  have h₃ : a < partyOras := h₁.trans (by decide)
  exact ⟨Or.inl h₂, Or.inl h₃⟩

theorem eqOn_removeCandies (mem : Memory) : Set.EqOn (removeCandies mem) mem outsideParty :=
  eqOn_writeBlock fun _ ha => ha.1

/-- A write to a party slot. -/
theorem eqOn_writeParty (mem : Memory) (slot : Fin partySize) (data : List UInt8) {n : Nat}
    (hn : n ≤ pokemonSlotStride) :
    Set.EqOn (writeBlock mem (partySlotAddr slot) data n) mem outsideParty := by
  refine eqOn_writeBlock fun a ha => ?_
  have hslot : (slot : Nat) * pokemonSlotStride + pokemonSlotStride ≤ partySize * pokemonSlotStride := by
    rw [← Nat.succ_mul]
    exact Nat.mul_le_mul_right _ slot.isLt
  unfold partySlotAddr
  rcases ha.2 with h | h
  · exact Or.inl (by omega)
  · exact Or.inr (by omega)

theorem eqOn_capSlots (env : Env) (partyData : Fin partySize → Pk6FullData)
    (slots : List (Fin partySize)) (mem : Memory) :
    Set.EqOn (capSlots env partyData slots mem) mem outsideParty := by
  induction slots generalizing mem with
  | nil => exact Set.eqOn_refl _ _
  | cons slot slots ih =>
    rw [capSlots]
    dsimp only
    split_ifs
    · exact Set.eqOn_refl _ _
    · exact (ih _).trans ((eqOn_writeParty _ _ _ (Nat.le_refl _)).trans (eqOn_removeCandies mem))
    · exact (ih _).trans (eqOn_removeCandies mem)
    · exact eqOn_removeCandies mem
    · exact (ih _).trans (eqOn_writeParty _ _ _ (Nat.le_refl _))
    · exact ih mem
    · exact Set.eqOn_refl _ _
    · exact ih mem

theorem eqOn_levelCapAdjustment (env : Env) (partyData : Fin partySize → Pk6FullData) (mem : Memory) :
    Set.EqOn (levelCapAdjustment env partyData mem) mem outsideParty := by
  unfold levelCapAdjustment
  split_ifs
  · exact Set.eqOn_refl _ _
  · exact Set.eqOn_refl _ _
  · exact eqOn_capSlots env partyData _ mem

theorem eqOn_deleteSlots (env : Env) (s : Monitor) (slots : List (Fin partySize)) (mem : Memory) :
    Set.EqOn (deleteSlots env s slots mem).1 mem outsideParty := by
  induction slots generalizing mem with
  | nil => exact Set.eqOn_refl _ _
  | cons battleSlot slots ih =>
    rw [deleteSlots]
    split_ifs
    · split
      · exact ih mem
      · dsimp only
        split
        · exact ih mem
        · exact (ih _).trans (eqOn_writeParty _ _ _ (by decide))
    · exact ih mem

theorem isBattle_congr {mem mem' : Memory} (h : Set.EqOn mem' mem outsideParty) :
    isBattle mem' = isBattle mem := by
  rw [isBattle, isBattle, readBlock_congr (h.mono wild_subset_outsideParty)]

theorem readPocket_congr {mem mem' : Memory} (h : Set.EqOn mem' mem outsideParty) :
    readPocket mem' = readPocket mem :=
  readSlots_congr (h.mono pocket_subset_outsideParty)

/-! ## The three kinds of look -/

section

variable (env : Env) (host : Host) {mem : Memory} {s : Monitor}

/-- Out of a battle before and in one now: the balls are removed from the pocket, or not. -/
theorem exportParty_start (hwas : s.wasInBattle = false) (hnow : isBattle mem = true) :
    exportParty env host mem s =
      let removed := removePokeballs host mem (exportWild mem (s.readSlots mem))
      ({ removed.2.1 with wasInBattle := true }, removed.2.2) := by
  have hcap : levelCapAdjustment env (s.readSlots mem).partyData mem = mem := if_pos hnow
  have hwas' : (s.readSlots mem).wasInBattle = false := hwas
  rw [exportParty]
  dsimp only
  rw [hcap, checkBattleTransition]
  simp only [hwas', hnow]
  rfl

/-- In a battle before and out of it now: the balls held are put back. -/
theorem exportParty_end (hwas : s.wasInBattle = true) (hnow : isBattle mem = false) :
    exportParty env host mem s =
      let ended := onBattleEnded env (levelCapAdjustment env (s.readSlots mem).partyData mem)
        (s.readSlots mem)
      ({ ended.1 with wasInBattle := false }, ended.2) := by
  have hnow' := (isBattle_congr (eqOn_levelCapAdjustment env (s.readSlots mem).partyData mem)).trans hnow
  have hwas' : (s.readSlots mem).wasInBattle = true := hwas
  rw [exportParty]
  dsimp only
  rw [checkBattleTransition]
  simp only [hwas', hnow']
  rfl

/-- Nothing changed since the last look. -/
theorem exportParty_other (h : isBattle mem = s.wasInBattle) :
    exportParty env host mem s =
      (s.readSlots mem, levelCapAdjustment env (s.readSlots mem).partyData mem) := by
  have hnow := (isBattle_congr (eqOn_levelCapAdjustment env (s.readSlots mem).partyData mem)).trans h
  have hwas : (s.readSlots mem).wasInBattle = s.wasInBattle := rfl
  rw [exportParty, checkBattleTransition]
  simp only [hnow, hwas, Bool.not_and_self, Bool.and_not_self]
  rfl

end

/-! ## Wild Pokémon in guest memory

Under the key zero the blocks of a Pokémon are not moved, so that guest memory with given
Pokémon in it can be written down byte by byte. -/

/-- Byte `i` of a Pokémon under the key zero, from its clear bytes. -/
def enciphered (clear : Nat → UInt8) (i : Nat) : UInt8 :=
  if pkmEncryptedStart ≤ i ∧ i < pkmEncryptedStart + pkmMainEncryptedSize then
    clear i ^^^ keyByte lcgNextU16 0 (i - pkmEncryptedStart)
  else 0

/-- Guest memory with the same wild Pokémon in every slot, a main pocket, and an ability
where the opponent of a wild battle has one. -/
def guestMemory (clear : Nat → UInt8) (slots : List ItemEntry) : Memory := fun a =>
  if wildOras ≤ a ∧ a < wildOras + maxWilds * pokemonSlotStride then
    enciphered clear ((a - wildOras) % pokemonSlotStride)
  else if pocketStart ≤ a ∧ a < pocketStart + slotSize * slotCount then
    byteAt (slots.flatMap slotBytes) (a - pocketStart)
  else if a = battleHpSlotWild + 0x006 then 1
  else 0

theorem guestMemory_apart (clear : Nat → UInt8) (slots : List ItemEntry) {a : Nat}
    (hw : ¬ (wildOras ≤ a ∧ a < wildOras + maxWilds * pokemonSlotStride))
    (hp : ¬ (pocketStart ≤ a ∧ a < pocketStart + slotSize * slotCount)) :
    guestMemory clear slots a = if a = battleHpSlotWild + 0x006 then 1 else 0 := by
  rw [guestMemory, if_neg hw, if_neg hp]

theorem readWord_eq (mem : Memory) (addr : Nat) : readWord mem addr = word (mem addr) (mem (addr + 1)) := by
  rw [readWord, readLE16, byteAt_readBlock _ _ (by decide), byteAt_readBlock _ _ (by decide)]
  rfl

/-- A buffer that begins with enciphered bytes is deciphered to the clear ones. -/
theorem decrypt_enciphered (clear : Nat → UInt8) {b : List UInt8} {size : Nat} (p : Bool)
    (h : pkmBoxSize ≤ size) (hb : size ≤ b.length)
    (hbytes : ∀ i < pkmBoxSize, byteAt b i = enciphered clear i) :
    ∃ d, decryptPk6InPlace b size p = (true, d) ∧
      ∀ i, pkmEncryptedStart ≤ i → i < pkmBoxSize → byteAt d i = clear i := by
  obtain ⟨d, hd, hdec⟩ := decryptPk6InPlace_spec p h hb
  have hzero : ∀ i < 4, byteAt b i = 0 := by
    intro i hi
    rw [hbytes i (Nat.lt_trans hi (by decide)), enciphered, if_neg]
    rintro ⟨h₁, -⟩
    have : 8 ≤ i := h₁
    omega
  have hkey : readLE32 b 0 = 0 := by
    rw [readLE32, hzero _ (by decide), hzero _ (by decide), hzero _ (by decide),
      hzero _ (by decide)]
    rfl
  have horder : ∀ j < 4, foundIndex (blockOrder 0) j = j := by decide
  refine ⟨d, hd, fun i hlo hhi => ?_⟩
  obtain ⟨j, hj, r, hr, rfl⟩ := exists_block hlo hhi
  rw [hdec.main j hj r hr, hkey, horder j hj, hbytes _ hhi, enciphered, if_pos ⟨hlo, hhi⟩,
    Nat.add_sub_cancel_left, xor_xor_cancel]

theorem byteAt_wildSlot (clear : Nat → UInt8) (slots : List ItemEntry) (slot : Fin maxWilds) {n i : Nat}
    (hi : i < n) (hn : n ≤ pokemonSlotStride) :
    byteAt (readBlock (guestMemory clear slots) (wildOras + slot * pokemonSlotStride) n) i =
      enciphered clear i := by
  have hslot : (slot : Nat) * pokemonSlotStride + pokemonSlotStride ≤ maxWilds * pokemonSlotStride := by
    rw [← Nat.succ_mul]
    exact Nat.mul_le_mul_right _ slot.isLt
  have hmod : (wildOras + slot * pokemonSlotStride + i - wildOras) % pokemonSlotStride = i := by
    rw [Nat.add_assoc, Nat.add_sub_cancel_left, Nat.mul_add_mod', Nat.mod_eq_of_lt (by omega)]
  rw [byteAt_readBlock _ _ hi, guestMemory, if_pos (by omega), hmod]

theorem battleTests_congr {d d' : List UInt8}
    (h : ∀ i, pkmEncryptedStart ≤ i → i < pkmBoxSize → byteAt d i = byteAt d' i) :
    battleTests d = battleTests d' := by
  have hev : ((List.range 6).map fun i => (byteAt d (0x1E + i)).toNat) =
      (List.range 6).map fun i => (byteAt d' (0x1E + i)).toNat := by
    refine List.map_congr_left fun i hi => ?_
    have h₆ : i < 6 := List.mem_range.1 hi
    have hlo : 8 ≤ 0x1E + i := by omega
    have hhi : 0x1E + i < 232 := by omega
    rw [h _ hlo hhi]
  unfold battleTests
  rw [readLE16, readLE16, hev, h 0x08 (by decide) (by decide), h (0x08 + 1) (by decide) (by decide),
    h 0x1C (by decide) (by decide), h 0x15 (by decide) (by decide), h 0xDC (by decide) (by decide),
    h 0xE3 (by decide) (by decide)]

/-- Whether a battle is seen depends on the clear bytes. -/
theorem isBattle_guestMemory (clear : Nat → UInt8) (slots : List ItemEntry) :
    isBattle (guestMemory clear slots) =
      decide (5 ≤ (battleTests ((List.range pkmBoxSize).map clear)).count true) := by
  have hblock : readBlock (guestMemory clear slots) wildOras pkmBoxSize =
      readBlock (guestMemory clear slots) (wildOras + (0 : Fin maxWilds) * pokemonSlotStride) pkmBoxSize := rfl
  obtain ⟨d, hd, hclear⟩ := decrypt_enciphered clear
    (b := readBlock (guestMemory clear slots) wildOras pkmBoxSize) false (Nat.le_refl pkmBoxSize)
    (by rw [length_readBlock])
    (fun i hi => by rw [hblock]; exact byteAt_wildSlot clear slots 0 hi (by decide))
  rw [isBattle, hd, Bool.true_and, battleTests_congr fun i hlo hhi => ?_]
  rw [hclear i hlo hhi, byteAt_eq_getElem (by simpa using hhi), List.getElem_map, List.getElem_range]

end AzaharPlus.Poke
