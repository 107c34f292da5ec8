import AzaharPlus.Poke.DeathsOnce
import AzaharPlus.Poke.Looks

/-!
# The level cap

Outside battle `LevelCapAdjustment` of `core/poke_export.cpp` goes through the party and takes
the experience of every Pokémon above the level cap back to the experience of the cap.  A slot
is read from guest memory, deciphered, edited, enciphered and written back, and rare candies are
taken from the medicine pocket.

* `capSlot_spec` says what one slot of the loop does to guest memory, `capSlots_spec` what the
  whole loop does;
* `level_cap_kept` says that every party slot ends up at most at the cap and what else changes.
  The experience of the tables is signed, that of a record is not, and the code compares them as
  unsigned numbers;
* `look_writes` says which bytes of guest memory a whole look of the monitor leaves alone.
-/

namespace AzaharPlus.Poke

open Bytes BlockMemory

/-! ## Party slots in guest memory -/

/-- The bytes of the record in a party slot. -/
def partyRaw (mem : Memory) (slot : Fin partySize) : List UInt8 :=
  readBlock mem (partySlotAddr slot) pkmPartySize

/-- The deciphered record in a party slot. -/
def partyRecord (mem : Memory) (slot : Fin partySize) : List UInt8 :=
  (decryptPk6InPlace (partyRaw mem slot) pkmPartySize true).2

/-- The addresses of the record in a party slot. -/
def partyRange (slot : Fin partySize) : Set Nat :=
  Set.Ico (partySlotAddr slot) (partySlotAddr slot + pkmPartySize)

/-- The addresses of the medicine pocket. -/
def medicinePocket : Set Nat :=
  Set.Ico medicinePocketStart (medicinePocketStart + slotSize * medicineSlotCount)

theorem partyRange_disjoint {slot slot' : Fin partySize} (h : slot ≠ slot') {a : Nat}
    (ha : a ∈ partyRange slot) : a ∉ partyRange slot' := by
  intro ha'
  simp only [partyRange, partySlotAddr, pokemonSlotStride, pkmPartySize, Set.mem_Ico] at ha ha'
  exact h (Fin.ext (by omega))

theorem not_mem_medicinePocket {slot : Fin partySize} {a : Nat} (ha : a ∈ partyRange slot) :
    a ∉ medicinePocket := by
  intro ha'
  simp only [partyRange, medicinePocket, partySlotAddr, partyOras, medicinePocketStart, slotSize,
    medicineSlotCount, Set.mem_Ico] at ha ha'
  omega

theorem partyRaw_congr {mem mem' : Memory} {slot : Fin partySize}
    (h : ∀ a ∈ partyRange slot, mem' a = mem a) : partyRaw mem' slot = partyRaw mem slot :=
  readBlock_congr h

theorem removeCandies_outside (mem : Memory) {a : Nat} (ha : a ∉ medicinePocket) :
    removeCandies mem a = mem a := by
  rw [removeCandies, writeSlots, writeBlock, if_neg]
  exact ha

/-! ## The record of a capped Pokémon -/

/-- The clear record with its experience replaced and its checksum brought up to date. -/
def capRecord (d : List UInt8) (experienceMax : UInt32) : List UInt8 :=
  writeLE16 (writeLE32 d 0x10 experienceMax) 0x06 (checksumMain (writeLE32 d 0x10 experienceMax))

/-- The bytes written back for the bytes `raw` of a slot. -/
def capRaw (raw : List UInt8) (experienceMax : UInt32) : List UInt8 :=
  (encryptPk6InPlace (capRecord (decryptPk6InPlace raw pkmPartySize true).2 experienceMax)
    pkmPartySize true).2

/-- A capped record differs from the record in experience and checksum only, and the checksum
is valid. -/
structure IsCapped (d d' : List UInt8) : Prop where
  length : d'.length = d.length
  other : ∀ i, ¬ (0x10 ≤ i ∧ i < 0x14) → ¬ (0x06 ≤ i ∧ i < 0x08) → byteAt d' i = byteAt d i
  checksum : readLE16 d' 0x06 = checksumMain d'

theorem capRecord_spec {d : List UInt8} (hd : d.length = pkmPartySize) (v : UInt32) :
    IsCapped d (capRecord d v) ∧ readLE32 (capRecord d v) 0x10 = v := by
  have h6 : 0x06 + 1 < (writeLE32 d 0x10 v).length := by rw [length_writeLE32, hd]; decide
  have h10 : 0x10 + 3 < d.length := by rw [hd]; decide
  have hother : ∀ i, ¬ (0x06 ≤ i ∧ i < 0x08) →
      byteAt (capRecord d v) i = byteAt (writeLE32 d 0x10 v) i := by
    intro i hi
    rw [capRecord, byteAt_writeLE16 _ h6, if_neg (by omega), if_neg (by omega)]
  refine ⟨⟨?_, fun i h₁ h₂ => ?_, ?_⟩, ?_⟩
  · rw [capRecord, length_writeLE16, length_writeLE32]
  · rw [hother i h₂, byteAt_writeLE32 v h10, if_neg (by omega), if_neg (by omega),
      if_neg (by omega), if_neg (by omega)]
  · rw [capRecord, readLE16_writeLE16 _ h6, checksumMain_writeLE16 h6]
  · rw [readLE32_congr fun i _ hi => hother i (by omega), readLE32_writeLE32 v h10]

/-- Deciphering what was written back gives the capped record. -/
theorem decrypt_capRaw {raw : List UInt8} (h : raw.length = pkmPartySize) (v : UInt32) :
    (capRaw raw v).length = pkmPartySize ∧
    (decryptPk6InPlace raw pkmPartySize true).1 = true ∧
    (encryptPk6InPlace (capRecord (decryptPk6InPlace raw pkmPartySize true).2 v)
      pkmPartySize true).1 = true ∧
    (decryptPk6InPlace (capRaw raw v) pkmPartySize true).2 =
      capRecord (decryptPk6InPlace raw pkmPartySize true).2 v := by
  have hbox : pkmBoxSize ≤ pkmPartySize := by decide
  obtain ⟨d, hdd, hd⟩ := decryptPk6InPlace_spec (b := raw) true hbox (le_of_eq h.symm)
  have hdl : d.length = pkmPartySize := hd.length.trans h
  have hcap := (capRecord_spec hdl v).1
  have hcl : (capRecord d v).length = pkmPartySize := hcap.length.trans hdl
  have hok : encryptSizeOk pkmPartySize true :=
    ⟨fun _ => le_refl _, fun h => absurd h (by decide)⟩
  obtain ⟨e, hee, he⟩ := encryptPk6InPlace_spec hok (le_of_eq hcl.symm)
  have hel : e.length = pkmPartySize := he.length.trans hcl
  obtain ⟨d', hdd', hd'⟩ := decryptPk6InPlace_spec (b := e) true hbox (le_of_eq hel.symm)
  have hraw : capRaw raw v = e := by rw [capRaw, hdd, hee]
  rw [hraw, hdd, hdd', hee]
  refine ⟨hel, rfl, rfl, ?_⟩
  have hback := decryptPk6InPlace_encryptPk6InPlace (by rw [hcl]; exact hbox) he hd'
  rw [hback, ← hcap.checksum, writeLE16_readLE16 (by rw [hcl]; decide)]

/-! ## One slot of the loop -/

section

variable (env : Env) (partyData : Fin partySize → Pk6FullData)

/-- The loop goes on past a slot that holds a Pokémon of the game. -/
def Pk6FullData.Counts (p : Pk6FullData) : Prop := ¬ (p.species = 0 ∨ p.species > 721)

/-- The slot is above the cap. -/
def aboveCap (slot : Fin partySize) : Prop :=
  (partyData slot).experience >
    env.getExperienceForLevel (partyData slot).species env.currentLevelCap

/-- What the loop does to guest memory at a slot that is above the cap. -/
def capSlot (slot : Fin partySize) (mem : Memory) : Memory :=
  let p := partyData slot
  let mem := if p.experience ≥ env.getExperienceForLevel p.species (env.currentLevelCap + 1) then
    removeCandies mem else mem
  writeBlock mem (partySlotAddr slot)
    (memcpy (readBlock mem (partySlotAddr slot) pokemonSlotStride) 0
      (capRaw (partyRaw mem slot) (env.getExperienceForLevel p.species env.currentLevelCap)))
    pokemonSlotStride

theorem take_readBlock (mem : Memory) (addr : Nat) {n m : Nat} (h : m ≤ n) :
    (readBlock mem addr n).take m = readBlock mem addr m := by
  rw [readBlock, ← List.map_take, List.take_range, Nat.min_eq_left h, readBlock]

/-- Neither cipher fails on a party slot, so the loop only stops at a slot that does not count. -/
theorem capSlots_cons (slot : Fin partySize) (slots : List (Fin partySize)) (mem : Memory)
    (hc : (partyData slot).Counts) :
    (aboveCap env partyData slot → capSlots env partyData (slot :: slots) mem =
      capSlots env partyData slots (capSlot env partyData slot mem)) ∧
    (¬ aboveCap env partyData slot → capSlots env partyData (slot :: slots) mem =
      capSlots env partyData slots mem) := by
  refine ⟨fun ha => ?_, fun ha => ?_⟩
  · rw [capSlots, if_neg hc]
    simp only [if_pos (show _ > _ from ha), take_readBlock _ _ (show pkmPartySize ≤ pokemonSlotStride by decide)]
    have hcap := decrypt_capRaw (length_readBlock
      (if (partyData slot).experience ≥ env.getExperienceForLevel (partyData slot).species
        (env.currentLevelCap + 1) then removeCandies mem else mem) (partySlotAddr slot) pkmPartySize)
      (env.getExperienceForLevel (partyData slot).species env.currentLevelCap)
    rw [if_pos hcap.2.1]
    simp only [capRecord] at hcap
    rw [if_pos hcap.2.2.1]
    rfl
  · rw [capSlots, if_neg hc]
    simp only [if_neg (show ¬ _ > _ from ha)]

/-- A capped slot holds the capped record, and nothing changes outside the slot and the medicine
pocket. -/
theorem capSlot_spec (slot : Fin partySize) (mem : Memory) :
    partyRaw (capSlot env partyData slot mem) slot = capRaw (partyRaw mem slot)
        (env.getExperienceForLevel (partyData slot).species env.currentLevelCap) ∧
      ∀ a, a ∉ medicinePocket → a ∉ partyRange slot → capSlot env partyData slot mem a = mem a := by
  set mem₁ := if (partyData slot).experience ≥ env.getExperienceForLevel (partyData slot).species
    (env.currentLevelCap + 1) then removeCandies mem else mem with hmem₁
  have hout : ∀ a, a ∉ medicinePocket → mem₁ a = mem a := by
    intro a ha
    rw [hmem₁]
    split
    · exact removeCandies_outside mem ha
    · rfl
  have hraw : partyRaw mem₁ slot = partyRaw mem slot :=
    partyRaw_congr fun a ha => hout a (not_mem_medicinePocket ha)
  set v := env.getExperienceForLevel (partyData slot).species env.currentLevelCap with hv
  have hlen : (capRaw (partyRaw mem slot) v).length = pkmPartySize :=
    (decrypt_capRaw (length_readBlock ..) v).1
  have hroom : 0 + (capRaw (partyRaw mem slot) v).length ≤
      (readBlock mem₁ (partySlotAddr slot) pokemonSlotStride).length := by
    rw [hlen, length_readBlock]
    decide
  have hstep : capSlot env partyData slot mem = writeBlock mem₁ (partySlotAddr slot)
      (memcpy (readBlock mem₁ (partySlotAddr slot) pokemonSlotStride) 0
        (capRaw (partyRaw mem slot) v)) pokemonSlotStride := by
    rw [← hraw]
    rfl
  have hsize : pkmPartySize ≤ pokemonSlotStride := by decide
  constructor
  · refine ext_byteAt (by rw [hlen]; exact length_readBlock ..) fun i hi => ?_
    have hi' : i < pkmPartySize := by rwa [partyRaw, length_readBlock] at hi
    rw [partyRaw, byteAt_readBlock _ _ hi', hstep, writeBlock, if_pos (by omega),
      Nat.add_sub_cancel_left, byteAt_memcpy hroom, if_pos (by omega), Nat.sub_zero]
  · intro a ha hr
    rw [hstep, writeBlock]
    by_cases hin : partySlotAddr slot ≤ a ∧ a < partySlotAddr slot + pokemonSlotStride
    · -- behind the record the slot is written back as it was read
      have hge : partySlotAddr slot + pkmPartySize ≤ a := by
        by_contra hlt
        exact hr ⟨hin.1, by omega⟩
      rw [if_pos hin, byteAt_memcpy hroom, if_neg (by omega), byteAt_readBlock _ _ (by omega),
        show partySlotAddr slot + (a - partySlotAddr slot) = a by omega]
      exact hout a ha
    · rw [if_neg hin]
      exact hout a ha

/-! ## The whole loop -/

/-- The loop over `slots` reaches the slot and finds it above the cap. -/
structure CappedIn (slots : List (Fin partySize)) (slot : Fin partySize) : Prop where
  mem : slot ∈ slots
  reached : ∀ j ∈ slots, j ≤ slot → (partyData j).Counts
  above : aboveCap env partyData slot

variable {env partyData}

theorem CappedIn.tail {slot₀ slot : Fin partySize} {slots : List (Fin partySize)}
    (h : CappedIn env partyData (slot₀ :: slots) slot) (hne : slot ≠ slot₀) :
    CappedIn env partyData slots slot :=
  ⟨List.mem_of_ne_of_mem hne h.mem, fun j hj => h.reached j (List.mem_cons_of_mem _ hj), h.above⟩

theorem CappedIn.cons {slot₀ slot : Fin partySize} {slots : List (Fin partySize)}
    (h : CappedIn env partyData slots slot) (hc : (partyData slot₀).Counts) :
    CappedIn env partyData (slot₀ :: slots) slot := by
  refine ⟨List.mem_cons_of_mem _ h.mem, fun j hj hle => ?_, h.above⟩
  rcases List.mem_cons.1 hj with rfl | hj
  · exact hc
  · exact h.reached j hj hle

variable (env partyData)

/-- The slots the loop finds above the cap are capped, and everything else outside the medicine
pocket stays. -/
theorem capSlots_spec {slots : List (Fin partySize)} (hs : slots.Pairwise (· < ·)) (mem : Memory) :
    (∀ slot, CappedIn env partyData slots slot →
      partyRaw (capSlots env partyData slots mem) slot = capRaw (partyRaw mem slot)
        (env.getExperienceForLevel (partyData slot).species env.currentLevelCap)) ∧
    ∀ a, a ∉ medicinePocket → (∀ slot, CappedIn env partyData slots slot → a ∉ partyRange slot) →
      capSlots env partyData slots mem a = mem a := by
  induction slots generalizing mem with
  | nil => exact ⟨fun slot h => absurd h.mem (List.not_mem_nil), fun a _ _ => rfl⟩
  | cons slot₀ slots ih =>
    obtain ⟨hlt, hs'⟩ := List.pairwise_cons.1 hs
    by_cases hc : (partyData slot₀).Counts
    · obtain ⟨habove, hbelow⟩ := capSlots_cons env partyData slot₀ slots mem hc
      by_cases ha : aboveCap env partyData slot₀
      · rw [habove ha]
        obtain ⟨hraw, hframe⟩ := capSlot_spec env partyData slot₀ mem
        obtain ⟨ihraw, ihframe⟩ := ih hs' (capSlot env partyData slot₀ mem)
        have h₀ : CappedIn env partyData (slot₀ :: slots) slot₀ := by
          refine ⟨List.mem_cons_self .., fun j hj hle => ?_, ha⟩
          rcases List.mem_cons.1 hj with rfl | hj
          · exact hc
          · exact absurd (hlt j hj) (not_lt_of_ge hle)
        constructor
        · intro slot h
          by_cases heq : slot = slot₀
          · -- the later slots leave the first one alone
            subst heq
            rw [← hraw]
            apply partyRaw_congr
            intro a hin
            apply ihframe a (not_mem_medicinePocket hin)
            intro slot' h'
            exact partyRange_disjoint (ne_of_lt (hlt slot' h'.mem)) hin
          · have hsame : partyRaw (capSlot env partyData slot₀ mem) slot = partyRaw mem slot := by
              apply partyRaw_congr
              intro a hin
              exact hframe a (not_mem_medicinePocket hin) (partyRange_disjoint heq hin)
            rw [ihraw slot (h.tail heq), hsame]
        · intro a hp hr
          rw [ihframe a hp fun slot h => hr slot (h.cons hc)]
          exact hframe a hp (hr slot₀ h₀)
      · rw [hbelow ha]
        obtain ⟨ihraw, ihframe⟩ := ih hs' mem
        constructor
        · intro slot h
          apply ihraw slot
          apply h.tail
          rintro rfl
          exact ha h.above
        · intro a hp hr
          exact ihframe a hp fun slot h => hr slot (h.cons hc)
    · -- the loop stops here, and no later slot is reached
      rw [capSlots, if_pos (not_not.1 hc)]
      refine ⟨fun slot h => ?_, fun a _ _ => rfl⟩
      refine absurd (h.reached slot₀ (List.mem_cons_self ..) ?_) hc
      rcases List.mem_cons.1 h.mem with rfl | hm
      · exact le_refl _
      · exact le_of_lt (hlt slot hm)

end

/-! ## The level cap is kept -/

/-- The experience of every level, for every species: the numbers in the files under
`GrowthRates`. -/
abbrev GrowthTable := UInt16 → Nat → Int32

/-- The monitor beside a given growth table.  The loop converts its numbers to `uint32_t` where it
compares and where it stores them. -/
def Env.withTable (env : Env) (table : GrowthTable) : Env :=
  { env with getExperienceForLevel := fun species level => (table species level).toUInt32 }

/-- The species in a party slot. -/
def partySpecies (mem : Memory) (slot : Fin partySize) : UInt16 := readLE16 (partyRecord mem slot) 0x08

/-- The experience in a party slot. -/
def partyExperience (mem : Memory) (slot : Fin partySize) : Int :=
  (readLE32 (partyRecord mem slot) 0x10).toNat

/-- The slot is before the first one whose species is 0 or above 721. -/
def InParty (mem : Memory) (slot : Fin partySize) : Prop :=
  ∀ j ≤ slot, partySpecies mem j ≠ 0 ∧ partySpecies mem j ≤ 721

/-- The slot is one of the party and above the cap that is set for it. -/
def ExceedsCap (cap : Fin partySize → Int) (mem : Memory) (slot : Fin partySize) : Prop :=
  InParty mem slot ∧ cap slot < partyExperience mem slot

/-- What a cap on the experience of the party slots asks of guest memory `mem'`, where it was `mem`
before. -/
structure LevelCapKept (cap : Fin partySize → Int) (mem mem' : Memory) : Prop where
  /-- No Pokémon of the party is above the cap. -/
  capped : ∀ slot, InParty mem slot → partyExperience mem' slot ≤ cap slot
  /-- A Pokémon that was above it only lost experience. -/
  record : ∀ slot, ExceedsCap cap mem slot → IsCapped (partyRecord mem slot) (partyRecord mem' slot)
  /-- Everything else outside the medicine pocket is as it was. -/
  frame : ∀ a, a ∉ medicinePocket → (∀ slot, ExceedsCap cap mem slot → a ∉ partyRange slot) →
    mem' a = mem a

section

variable (env : Env) (table : GrowthTable) (mem : Memory)

/-- The experience the table gives for the level cap and the species in a slot. -/
def tableCap (slot : Fin partySize) : Int :=
  (table (partySpecies mem slot) env.currentLevelCap).toInt

/-- The same number converted to `uint32_t`. -/
def unsignedCap (slot : Fin partySize) : Int :=
  (table (partySpecies mem slot) env.currentLevelCap).toUInt32.toNat

/-- A number of the table that is not negative survives the conversion. -/
theorem unsignedCap_eq {slot : Fin partySize} (h : 0 ≤ tableCap env table mem slot) :
    unsignedCap env table mem slot = tableCap env table mem slot := by
  rw [tableCap] at h
  rw [unsignedCap, Int32.toNat_toUInt32_of_le (Int32.le_iff_toInt_le.2 h), Int32.toNatClampNeg,
    Int.toNat_of_nonneg h, tableCap]

theorem length_partyRecord (slot : Fin partySize) : (partyRecord mem slot).length = pkmPartySize := by
  have hlen : (partyRaw mem slot).length = pkmPartySize := length_readBlock ..
  obtain ⟨d, hdd, hd⟩ := decryptPk6InPlace_spec (b := partyRaw mem slot) true
    (show pkmBoxSize ≤ pkmPartySize by decide) (le_of_eq hlen.symm)
  rw [partyRecord, hdd]
  exact hd.length.trans hlen

/-- What `g_partyData` holds after guest memory was read. -/
theorem partyData_readParty (s : Monitor) (slot : Fin partySize) :
    ((s.readParty mem).partyData slot).species = partySpecies mem slot ∧
      ((s.readParty mem).partyData slot).experience = readLE32 (partyRecord mem slot) 0x10 := by
  have hdec := (decrypt_capRaw (length_readBlock mem (partySlotAddr slot) pkmPartySize) 0).2.1
  have hread : (readPk6Slot mem slot (s.partyData slot) false).2 =
      pk6FullData mem (partyRecord mem slot) false := by
    rw [readPk6Slot, if_neg (not_le.2 slot.isLt)]
    exact congrArg Prod.snd (if_pos hdec)
  rw [Monitor.readParty]
  simp only [hread]
  exact ⟨rfl, rfl⟩

/-- The slots the loop caps are the ones of the party above the cap. -/
theorem cappedIn_iff (s : Monitor) (slot : Fin partySize) :
    CappedIn (env.withTable table) (s.readParty mem).partyData (List.finRange partySize) slot ↔
      ExceedsCap (unsignedCap env table mem) mem slot := by
  have hin : (∀ j ∈ List.finRange partySize, j ≤ slot →
      ((s.readParty mem).partyData j).Counts) ↔ InParty mem slot := by
    simp only [List.mem_finRange, true_implies, Pk6FullData.Counts, InParty,
      (partyData_readParty mem s _).1, not_or, not_lt, gt_iff_lt, ne_eq]
  have habove : aboveCap (env.withTable table) (s.readParty mem).partyData slot ↔
      unsignedCap env table mem slot < partyExperience mem slot := by
    rw [aboveCap, (partyData_readParty mem s slot).1, (partyData_readParty mem s slot).2,
      gt_iff_lt, UInt32.lt_iff_toNat_lt, unsignedCap, partyExperience, Int.ofNat_lt]
    exact Iff.rfl
  constructor
  · intro h
    exact ⟨hin.1 h.reached, habove.1 h.above⟩
  · intro h
    exact ⟨List.mem_finRange slot, hin.2 h.1, habove.2 h.2⟩

end

/-- Outside battle and below level 100, `LevelCapAdjustment` keeps every Pokémon of the party at
the experience of the cap, which it takes as an unsigned number: the number of the table itself
unless that is negative. -/
theorem level_cap_kept (env : Env) (table : GrowthTable) (s : Monitor) (mem : Memory)
    (hb : isBattle mem = false) (hcap : env.currentLevelCap < 100) :
    LevelCapKept (unsignedCap env table mem) mem
        (levelCapAdjustment (env.withTable table) (s.readParty mem).partyData mem) ∧
      ∀ slot, 0 ≤ tableCap env table mem slot →
        unsignedCap env table mem slot = tableCap env table mem slot := by
  refine ⟨?_, fun slot h => unsignedCap_eq env table mem h⟩
  have hloop : levelCapAdjustment (env.withTable table) (s.readParty mem).partyData mem =
      capSlots (env.withTable table) (s.readParty mem).partyData (List.finRange partySize) mem := by
    rw [levelCapAdjustment, if_neg (by rw [hb]; decide), if_neg]
    exact ne_of_lt hcap
  obtain ⟨hraw, hframe⟩ := capSlots_spec (env.withTable table) (s.readParty mem).partyData
    (List.pairwise_lt_finRange partySize) mem
  rw [← hloop] at hraw hframe
  set mem' := levelCapAdjustment (env.withTable table) (s.readParty mem).partyData mem with hmem'
  have hiff := cappedIn_iff env table mem s
  have hrecord : ∀ slot, ExceedsCap (unsignedCap env table mem) mem slot →
      partyRecord mem' slot = capRecord (partyRecord mem slot)
        (table (partySpecies mem slot) env.currentLevelCap).toUInt32 := by
    intro slot h
    rw [partyRecord, hraw slot ((hiff slot).2 h), (partyData_readParty mem s slot).1]
    exact (decrypt_capRaw (length_readBlock ..) _).2.2.2
  refine ⟨fun slot hin => ?_, fun slot h => ?_, fun a hp hr => ?_⟩
  · by_cases hex : unsignedCap env table mem slot < partyExperience mem slot
    · rw [partyExperience, hrecord slot ⟨hin, hex⟩,
        (capRecord_spec (length_partyRecord mem slot) _).2, unsignedCap]
    · -- a slot at or below the cap is not touched
      have hsame : partyRaw mem' slot = partyRaw mem slot := by
        apply partyRaw_congr
        intro a ha
        apply hframe a (not_mem_medicinePocket ha)
        intro slot' h'
        have hne : slot ≠ slot' := by
          rintro rfl
          exact hex ((hiff slot).1 h').2
        exact partyRange_disjoint hne ha
      rw [partyExperience, partyRecord, hsame, ← partyRecord, ← partyExperience]
      omega
  · rw [hrecord slot h]
    exact (capRecord_spec (length_partyRecord mem slot) _).1
  · apply hframe a hp
    intro slot h
    exact hr slot ((hiff slot).1 h)

/-- Guest memory with one Zigzagoon in the party, enciphered with key 0, and nothing else. -/
def oneZigzagoon : Memory := fun a =>
  if a = partyOras + 0x08 then 0x07 else if a = partyOras + 0x09 then 0x01 else 0

theorem inParty_oneZigzagoon : InParty oneZigzagoon 0 := by
  intro j hj
  rw [Fin.le_zero_iff.1 hj]
  decide +kernel

/-- The level cap of a fresh game. -/
def capOf15 : Env := ⟨15, fun _ _ => 0, fun _ => none⟩

/-- A table with 3375 points for every species and level. -/
theorem level_cap_kept_oneZigzagoon :
    isBattle oneZigzagoon = false ∧ capOf15.currentLevelCap < 100 ∧ InParty oneZigzagoon 0 ∧
      LevelCapKept (unsignedCap capOf15 (fun _ _ => 3375) oneZigzagoon) oneZigzagoon
        (levelCapAdjustment (capOf15.withTable fun _ _ => 3375)
          (twoZigzagoon.readParty oneZigzagoon).partyData oneZigzagoon) := by
  have hb : isBattle oneZigzagoon = false := by decide +kernel
  have hcap : capOf15.currentLevelCap < 100 := by decide
  exact ⟨hb, hcap, inParty_oneZigzagoon,
    (level_cap_kept capOf15 (fun _ _ => 3375) twoZigzagoon oneZigzagoon hb hcap).1⟩

/-- A table with a negative experience at the cap: the Zigzagoon keeps its experience, which is
above that of the table, because the loop takes the cap for a number above `2 ^ 31`. -/
theorem table_cap_not_kept :
    ¬ ∀ (env : Env) (table : GrowthTable) (s : Monitor) (mem : Memory),
      isBattle mem = false → env.currentLevelCap < 100 →
      LevelCapKept (tableCap env table mem) mem
        (levelCapAdjustment (env.withTable table) (s.readParty mem).partyData mem) := by
  intro h
  have hkept := h capOf15 (fun _ _ => -1) twoZigzagoon oneZigzagoon (by decide +kernel) (by decide)
  have hle := hkept.capped 0 inParty_oneZigzagoon
  have hneg : tableCap capOf15 (fun _ _ => -1) oneZigzagoon 0 = -1 := by
    rw [tableCap]
    decide
  have hpos : 0 ≤ partyExperience (levelCapAdjustment (capOf15.withTable fun _ _ => -1)
      (twoZigzagoon.readParty oneZigzagoon).partyData oneZigzagoon) 0 := Int.natCast_nonneg _
  omega

/-! ## What a look writes -/

/-- The addresses that a look may write to: the records of the party and the medicine pocket out of
battles, and the main pocket where a battle starts or ends. -/
def mayWrite (mem : Memory) (s : Monitor) : Set Nat :=
  {a | isBattle mem = false ∧ ((∃ slot, a ∈ partyRange slot) ∨ a ∈ medicinePocket) ∨
    isBattle mem ≠ s.wasInBattle ∧ a ∈ Set.Ico pocketStart (pocketStart + slotSize * slotCount)}

theorem deleteSlots_outside (env : Env) (s : Monitor) (slots : List (Fin partySize)) (mem : Memory)
    {a : Nat} (ha : ∀ slot, a ∉ partyRange slot) : (deleteSlots env s slots mem).1 a = mem a := by
  induction slots generalizing mem with
  | nil => rfl
  | cons battleSlot slots ih =>
    rw [deleteSlots]
    split_ifs
    · split
      · exact ih mem
      · rename_i partySlot _
        dsimp only
        split
        · exact ih mem
        · exact (ih _).trans (if_neg (ha partySlot))
    · exact ih mem

theorem levelCapAdjustment_outside (env : Env) (partyData : Fin partySize → Pk6FullData)
    (mem : Memory) {a : Nat} (hparty : ∀ slot, a ∉ partyRange slot) (hmedicine : a ∉ medicinePocket) :
    levelCapAdjustment env partyData mem a = mem a := by
  unfold levelCapAdjustment
  split_ifs
  · rfl
  · rfl
  · exact (capSlots_spec env partyData (List.pairwise_lt_finRange _) mem).2 a hmedicine
      fun slot _ => hparty slot

theorem removePokeballs_outside (host : Host) (mem : Memory) (s : Monitor) {a : Nat}
    (ha : a ∉ Set.Ico pocketStart (pocketStart + slotSize * slotCount)) :
    (removePokeballs host mem s).2.2 a = mem a := by
  unfold removePokeballs
  dsimp only
  split
  · exact if_neg ha
  · rfl

theorem putBack_outside (mem : Memory) (removed : RemovedPokeBalls) {a : Nat}
    (ha : a ∉ Set.Ico pocketStart (pocketStart + slotSize * slotCount)) :
    putBack mem removed a = mem a := by
  unfold putBack
  dsimp only
  split
  · rfl
  · exact if_neg ha

/-- **What the monitor leaves alone.**  Whatever the game has in memory and the monitor remembers, a
look writes to the party, the medicine pocket and the main pocket only, to the first two never
during a battle, and to the last one only where a battle starts or ends. -/
theorem look_writes (env : Env) (host : Host) (exportDue : Bool) (mem : Memory) (s : Monitor) :
    Set.EqOn (maybeExportParty env host exportDue mem s).2 mem (mayWrite mem s)ᶜ := by
  intro a ha
  have hwas : (checkDeadPokemon mem s).wasInBattle = s.wasInBattle := by
    unfold checkDeadPokemon
    split <;> rfl
  unfold maybeExportParty
  dsimp only
  split
  case isFalse => rfl
  simp only [mayWrite, Set.mem_compl_iff, Set.mem_ofPred_eq, not_or, not_and] at ha
  obtain ⟨hparty, hpocket⟩ := ha
  rw [← hwas] at hpocket
  generalize checkDeadPokemon mem s = s at hpocket
  have hcap : levelCapAdjustment env (s.readSlots mem).partyData mem a = mem a := by
    cases hnow : isBattle mem with
    | false =>
      obtain ⟨hslots, hmedicine⟩ := hparty hnow
      exact levelCapAdjustment_outside env _ mem (not_exists.mp hslots) hmedicine
    | true => exact congrFun (if_pos hnow) a
  cases hnow : isBattle mem with
  | false =>
    obtain ⟨hslots, -⟩ := hparty hnow
    cases hs : s.wasInBattle with
    | false =>
      rw [exportParty_other env host (hnow.trans hs.symm)]
      exact hcap
    | true =>
      rw [exportParty_end env host hs hnow]
      refine (deleteSlots_outside env _ _ _ (not_exists.mp hslots)).trans ?_
      exact (putBack_outside _ _ (hpocket (by simp [hnow, hs]))).trans hcap
  | true =>
    cases hs : s.wasInBattle with
    | false =>
      rw [exportParty_start env host hs hnow]
      exact removePokeballs_outside host mem _ (hpocket (by simp [hnow, hs]))
    | true =>
      rw [exportParty_other env host (hnow.trans hs.symm)]
      exact hcap

end AzaharPlus.Poke
