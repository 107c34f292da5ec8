import AzaharPlus.Lib.Edits
import AzaharPlus.Poke.Pk6

/-!
# A dead Pokémon becomes a Shedinja

The model of `ConvertToDeadShedinjaInPlace` of `core/poke_export.cpp`.  A fainted
party slot is overwritten by a Shedinja without moves and with no HP left.  The
function first tries the file `shd.pk6`; where the file is missing, of a wrong
size or a box record, it edits the record of the slot itself.

* `dead_shedinja_iff` says exactly when the buffer left behind deciphers to such
  a Shedinja: whenever the file is not a record of 260 bytes.  Then the record
  is taken from the file, and it is never enciphered;
* `lcg_words_not_zero` is why no file of that size works by accident: no state of
  the generator leaves level, HP and maximum HP as they are.
-/

namespace AzaharPlus.Poke

open Bytes

/-! ## The edits -/

/-- `OFF_PID`. -/
def offPid : Nat := 0x18

/-- `OFF_SPECIES`. -/
def offSpecies : Nat := 0x08

/-- `OFF_METLOCATION`. -/
def offMetLocation : Nat := 0xDA

/-- `OFF_CURRENT_HP`. -/
def offCurrentHp : Nat := 0xF0

/-- `shedinja_name`. -/
def shedinjaName : List UInt8 :=
  [0x8C, 0x87, 0x84, 0x83, 0x92, 0x8C, 0x8D, 0x80, 0x00, 0x00, 0x00, 0x00]

/-- `ot_name`. -/
def otName : List UInt8 :=
  [0x80, 0x99, 0x80, 0x87, 0x80, 0x8A, 0x00, 0x00, 0x00, 0x00, 0x00, 0x00]

/-- The assignments `ConvertToDeadShedinjaInPlaceManual` makes to the deciphered
record before it stores the checksum. -/
def manualEdits : List Edit :=
  [.le32 offPid 1,
   .le16 offSpecies 292,
   .byte 0x14 54, .byte 0x15 1,
   .le32 0x10 0,
   .le16 0x5A 0, .le16 0x5C 0, .le16 0x5E 0, .le16 0x60 0,
   .byte 0x62 0, .byte 0x63 0, .byte 0x64 0, .byte 0x65 0,
   .byte 0x66 0,
   .le16 0x6A 0, .le16 0x6C 0, .le16 0x6E 0, .le16 0x70 0,
   .copy 0x40 shedinjaName,
   .copy 0xB0 otName,
   .byte 0x1D 0x04, .mask 0x1D 0xF8, .mask 0x1D 0xFE,
   -- the two loops over `0x1E..0x23` and `0x24..0x29`
   .copy 0x1E (List.replicate 6 0), .copy 0x24 (List.replicate 6 0),
   .byte 0xDC 0x01,
   .le16 offMetLocation 0x7C,
   .byte 0xDD 0x01,
   .le32 0x74 0,
   .byte 0x1C 0x00,
   .byte 0xCA 0,
   .byte 0xEC 1,
   .le16 offCurrentHp 0,
   .le16 0xF2 1,
   .le16 0xF4 1, .le16 0xF6 1, .le16 0xF8 1, .le16 0xFA 1, .le16 0xFC 1]

/-- The assignments `PrepareShedinjaFromFile` makes to the record of the file. -/
def fileEdits (isParty : Bool) : List Edit :=
  (if isParty then
    [.byte 0xEC 1, .le16 0xF0 0, .le16 0xF2 1,
     .le16 0xF4 1, .le16 0xF6 1, .le16 0xF8 1, .le16 0xFA 1, .le16 0xFC 1]
   else []) ++
  [.le16 offSpecies 292,
   .byte 0x14 54, .byte 0x15 1,
   .le16 0x5A 0, .le16 0x5C 0, .le16 0x5E 0, .le16 0x60 0,
   .byte 0x62 0, .byte 0x63 0, .byte 0x64 0, .byte 0x65 0]

/-- The edits of a record followed by the checksum of what they leave. -/
def editAndSum (es : List Edit) (b : List UInt8) : List UInt8 :=
  writeLE16 (applyEdits es b) 0x06 (checksumMain (applyEdits es b))

/-! ## The three functions

Each returns its result code together with the buffer it leaves behind. -/

/-- `ConvertToDeadShedinjaInPlaceManual`. -/
def convertToDeadShedinjaInPlaceManual (pkmData : List UInt8) (size : Nat) (isParty : Bool) :
    Bool × List UInt8 :=
  if size < pkmPartySize then (false, pkmData)
  else
    match decryptPk6InPlace pkmData size isParty with
    | (false, pkmData) => (false, pkmData)
    | (true, pkmData) =>
        match decryptBattleStats pkmData size isParty with
        | (false, pkmData) => (false, pkmData)
        | (true, pkmData) =>
            match encryptPk6InPlace (editAndSum manualEdits pkmData) size isParty with
            | (false, pkmData) => (false, pkmData)
            | (true, pkmData) => encryptBattleStats pkmData size isParty

/-- `LoadShedinjaFromFile`: the contents of `shd.pk6`, nothing where the file
cannot be opened or read. -/
def loadShedinjaFromFile (file : Option (List UInt8)) : List UInt8 := file.getD []

/-- `PrepareShedinjaFromFile`. -/
def prepareShedinjaFromFile (pkmData : List UInt8) (size : Nat) (isParty : Bool)
    (file : Option (List UInt8)) : Bool × List UInt8 :=
  if size < pkmPartySize then (false, pkmData)
  else
    let shedinjaData := loadShedinjaFromFile file
    if shedinjaData.isEmpty then (false, pkmData)
    else if shedinjaData.length ≠ pkmPartySize ∧ shedinjaData.length ≠ pkmBoxSize then
      (false, pkmData)
    else if shedinjaData.length = pkmBoxSize ∧ isParty = true then
      convertToDeadShedinjaInPlaceManual pkmData size isParty
    else
      -- the buffer is resized to the file and overwritten by it
      (true, editAndSum (fileEdits isParty) shedinjaData)

/-- `ConvertToDeadShedinjaInPlace`. -/
def convertToDeadShedinjaInPlace (pkmData : List UInt8) (size : Nat) (isParty : Bool)
    (file : Option (List UInt8)) : Bool × List UInt8 :=
  match prepareShedinjaFromFile pkmData size isParty file with
  | (true, pkmData) => (true, pkmData)
  | (false, pkmData) => convertToDeadShedinjaInPlaceManual pkmData size isParty

/-! ## What a dead Shedinja is -/

/-- The record the game reads: both parts deciphered. -/
def decipher (b : List UInt8) : List UInt8 :=
  (decryptBattleStats (decryptPk6InPlace b b.length true).2 b.length true).2

/-- A clear record of a Shedinja with Truant, no moves, level 1 and no HP left,
under a valid checksum. -/
structure IsDeadShedinja (d : List UInt8) : Prop where
  species : readLE16 d 0x08 = 292
  ability : byteAt d 0x14 = 54
  moves : ∀ k < 4, readLE16 d (0x5A + 2 * k) = 0
  pp : ∀ k < 4, byteAt d (0x62 + k) = 0
  level : byteAt d 0xEC = 1
  currentHp : readLE16 d 0xF0 = 0
  maxHp : readLE16 d 0xF2 = 1
  checksum : readLE16 d 0x06 = checksumMain d

/-! ## The clear record -/

theorem checksumMain_congr {a b : List UInt8}
    (h : ∀ i, pkmEncryptedStart ≤ i → byteAt a i = byteAt b i) : checksumMain a = checksumMain b := by
  have hword : ∀ k, readLE16 a (pkmEncryptedStart + 2 * k) = readLE16 b (pkmEncryptedStart + 2 * k) := by
    intro k
    exact readLE16_congr (h _ (by omega)) (h _ (by omega))
  simp only [checksumMain, hword]

/-- The checksum does not cover its own two bytes. -/
theorem checksumMain_writeLE16 {b : List UInt8} (hb : 0x06 + 1 < b.length) (v : UInt16) :
    checksumMain (writeLE16 b 0x06 v) = checksumMain b := by
  refine checksumMain_congr fun i hi => ?_
  rw [pkmEncryptedStart] at hi
  rw [byteAt_writeLE16 v hb, if_neg (by omega), if_neg (by omega)]

theorem length_editAndSum {es : List Edit} {b : List UInt8} (h : ∀ e ∈ es, e.stop ≤ b.length) :
    (editAndSum es b).length = b.length := by
  rw [editAndSum, length_writeLE16, length_applyEdits h]

theorem byteAt_editAndSum {es : List Edit} {b : List UInt8} (h : ∀ e ∈ es, e.stop ≤ b.length)
    (hb : 0x06 + 1 < b.length) {i : Nat} (h₁ : i ≠ 0x06) (h₂ : i ≠ 0x06 + 1) {v : UInt8}
    (hv : written es i = some v) : byteAt (editAndSum es b) i = v := by
  rw [editAndSum, byteAt_writeLE16 _ (by rw [length_applyEdits h]; exact hb), if_neg h₁, if_neg h₂]
  exact byteAt_applyEdits h hv

theorem readLE16_editAndSum {es : List Edit} {b : List UInt8} (h : ∀ e ∈ es, e.stop ≤ b.length)
    (hb : 0x06 + 1 < b.length) :
    readLE16 (editAndSum es b) 0x06 = checksumMain (editAndSum es b) := by
  have hl : 0x06 + 1 < (applyEdits es b).length := by rw [length_applyEdits h]; exact hb
  rw [editAndSum, readLE16_writeLE16 _ hl, checksumMain_writeLE16 hl]

theorem manualEdits_fit {b : List UInt8} (hb : pkmPartySize ≤ b.length) :
    ∀ e ∈ manualEdits, e.stop ≤ b.length := by
  have hall : ∀ e ∈ manualEdits, e.stop ≤ pkmPartySize := by decide
  intro e he
  exact le_trans (hall e he) hb

theorem fileEdits_fit {b : List UInt8} (hb : pkmPartySize ≤ b.length) :
    ∀ e ∈ fileEdits true, e.stop ≤ b.length := by
  have hall : ∀ e ∈ fileEdits true, e.stop ≤ pkmPartySize := by decide
  intro e he
  exact le_trans (hall e he) hb

/-- The edits of the manual conversion make a dead Shedinja of every clear
record. -/
theorem isDeadShedinja_manualEdits {b : List UInt8} (hb : pkmPartySize ≤ b.length) :
    IsDeadShedinja (editAndSum manualEdits b) := by
  have hfit := manualEdits_fit hb
  have h6 : 0x06 + 1 < b.length := by rw [pkmPartySize] at hb; omega
  have hbyte : ∀ {i v}, i ≠ 0x06 ∧ i ≠ 0x06 + 1 ∧ written manualEdits i = some v →
      byteAt (editAndSum manualEdits b) i = v :=
    fun h => byteAt_editAndSum hfit h6 h.1 h.2.1 h.2.2
  have hmoves : ∀ k < 4, readLE16 (editAndSum manualEdits b) (0x5A + 2 * k) = 0 := by
    intro k hk
    apply readLE16_eq_iff.2
    constructor
    · exact hbyte (by revert k; decide)
    · exact hbyte (by revert k; decide)
  have hpp : ∀ k < 4, byteAt (editAndSum manualEdits b) (0x62 + k) = 0 := by
    intro k hk
    exact hbyte (by revert k; decide)
  refine ⟨?_, hbyte (by decide), hmoves, hpp, hbyte (by decide), ?_, ?_, readLE16_editAndSum hfit h6⟩
  · exact readLE16_eq_iff.2 ⟨hbyte (by decide), hbyte (by decide)⟩
  · exact readLE16_eq_iff.2 ⟨hbyte (by decide), hbyte (by decide)⟩
  · exact readLE16_eq_iff.2 ⟨hbyte (by decide), hbyte (by decide)⟩

/-! ## The manual conversion -/

theorem byteAt_xorBattleStats {b : List UInt8} (hb : b.length = pkmPartySize) (i : Nat) :
    byteAt (xorBattleStats b pkmPartySize true).2 i =
      if 0xE8 ≤ i ∧ i < 0xE8 + 2 * 14 then
        byteAt b i ^^^ keyByte lcgNextU16 (skipWords lcgNextU16 112 (readLE32 b 0)) (i - 0xE8)
      else byteAt b i := by
  have hgo : (xorBattleStats b pkmPartySize true).2 = xorWords lcgNextU16 pkmPartySize 14 0xE8
      (skipWords lcgNextU16 112 (readLE32 b 0)) b := by
    rw [xorBattleStats, if_neg (by simp)]
  rw [hgo, byteAt_xorWords lcgNextU16 (by decide) (le_of_eq hb.symm)]

theorem xorBattleStats_succeeds (b : List UInt8) :
    xorBattleStats b pkmPartySize true = (true, (xorBattleStats b pkmPartySize true).2) := by
  rw [xorBattleStats, if_neg (by simp)]

theorem length_xorBattleStats (b : List UInt8) (size : Nat) (p : Bool) :
    (xorBattleStats b size p).2.length = b.length := by
  rw [xorBattleStats]
  split
  · rfl
  · exact length_xorWords ..

/-- The two ciphers work on different bytes, so the battle statistics may be
deciphered after the main part although they were enciphered after it. -/
theorem IsDecryption.battleStats {e d : List UInt8} (he : e.length = pkmPartySize)
    (h : IsDecryption (encryptBattleStats e pkmPartySize true).2 d) :
    IsDecryption e (decryptBattleStats d pkmPartySize true).2 := by
  have hlen : (encryptBattleStats e pkmPartySize true).2.length = pkmPartySize :=
    (length_xorBattleStats ..).trans he
  have hd : d.length = pkmPartySize := h.length.trans hlen
  have hout : ∀ {i}, i < 0xE8 → byteAt (encryptBattleStats e pkmPartySize true).2 i = byteAt e i :=
    fun hi => xorBattleStats_outside true (le_refl _) (le_of_eq he.symm) (Or.inl hi)
  have hkey : readLE32 (encryptBattleStats e pkmPartySize true).2 0 = readLE32 e 0 :=
    readLE32_congr fun i _ hi => hout (by omega)
  refine ⟨?_, fun i hi => ?_, fun j hj r hr => ?_⟩
  · rw [decryptBattleStats, length_xorBattleStats, hd, he]
  · have hdi := h.outside i hi
    rw [decryptBattleStats, byteAt_xorBattleStats hd, h.readLE32_eq, hkey, hdi, encryptBattleStats,
      byteAt_xorBattleStats he]
    by_cases hin : 0xE8 ≤ i ∧ i < 0xE8 + 2 * 14
    · rw [if_pos hin, if_pos hin, xor_xor_cancel]
    · rw [if_neg hin, if_neg hin]
  · have hfound := block_index_lt ((isBlockOrder_blockOrder (readLE32 e 0)).found_lt j hj) hr
    have hjr := block_index_lt hj hr
    simp only [pkmEncryptedStart, pkmMainEncryptedSize] at hfound hjr ⊢
    have hm := h.main j hj r hr
    rw [hkey, hout (by simp only [pkmEncryptedStart]; omega)] at hm
    rw [decryptBattleStats, byteAt_xorBattleStats hd, if_neg (by omega)]
    exact hm

/-- The manual conversion of a party slot succeeds and leaves a record that
deciphers to a dead Shedinja. -/
theorem convertManual_spec {slot : List UInt8} (hs : slot.length = pkmPartySize) :
    ∃ out, convertToDeadShedinjaInPlaceManual slot pkmPartySize true = (true, out) ∧
      IsDeadShedinja (decipher out) := by
  obtain ⟨d, hdd, hd⟩ := decryptPk6InPlace_spec (b := slot) true
    (show pkmBoxSize ≤ pkmPartySize by decide) (le_of_eq hs.symm)
  have hdl : d.length = pkmPartySize := hd.length.trans hs
  set c := (decryptBattleStats d pkmPartySize true).2 with hc
  have hcl : c.length = pkmPartySize := (length_xorBattleStats ..).trans hdl
  have hcc : decryptBattleStats d pkmPartySize true = (true, c) := by
    rw [hc]
    exact xorBattleStats_succeeds d
  set w := editAndSum manualEdits c with hw
  have hwl : w.length = pkmPartySize :=
    (length_editAndSum (manualEdits_fit (le_of_eq hcl.symm))).trans hcl
  have hok : encryptSizeOk pkmPartySize true :=
    ⟨fun _ => le_refl _, fun h => absurd h (by decide)⟩
  obtain ⟨e, hee, he⟩ := encryptPk6InPlace_spec hok (le_of_eq hwl.symm)
  have hel : e.length = pkmPartySize := he.length.trans hwl
  have hol : (encryptBattleStats e pkmPartySize true).2.length = pkmPartySize :=
    (length_xorBattleStats ..).trans hel
  refine ⟨(encryptBattleStats e pkmPartySize true).2, ?_, ?_⟩
  · rw [convertToDeadShedinjaInPlaceManual, if_neg (lt_irrefl _), hdd]
    simp only [hcc, ← hw, hee]
    exact xorBattleStats_succeeds e
  · obtain ⟨d', hdd', hd'⟩ := decryptPk6InPlace_spec
      (b := (encryptBattleStats e pkmPartySize true).2) true
      (show pkmBoxSize ≤ pkmPartySize by decide) (le_of_eq hol.symm)
    have h6 : 0x06 + 1 < w.length := by rw [hwl]; decide
    have hback := decryptPk6InPlace_encryptPk6InPlace (by rw [hwl]; decide) he
      (hd'.battleStats hel)
    have hdone := isDeadShedinja_manualEdits (b := c) (le_of_eq hcl.symm)
    rw [← hw] at hdone
    rw [decipher, hol, hdd', hback, ← hdone.checksum, writeLE16_readLE16 h6]
    exact hdone

/-! ## The record of the file -/

/-- Only two states of the generator below `2 ^ 16` are followed by another one. -/
theorem two_small_states {l : Nat} (hl : l < 2 ^ 16)
    (h : (l * 0x41C64E6D + 0x6073) % 2 ^ 32 < 2 ^ 16) : l = 0 ∨ l = 0x67D3 := by
  obtain ⟨q, hq⟩ : ∃ q, q = (l * 0x41C64E6D + 0x6073) / 2 ^ 32 := ⟨_, rfl⟩
  have hdiv := Nat.div_add_mod (l * 0x41C64E6D + 0x6073) (2 ^ 32)
  rw [← hq] at hdiv
  -- `l` and `q` in a reduced basis of the lattice of the multiplier
  obtain ⟨a, ha⟩ : ∃ a : Int, a = 76347 * q - 19616 * l := ⟨_, rfl⟩
  obtain ⟨b, hb⟩ : ∃ b : Int, b = 6829 * l - 26579 * q := ⟨_, rfl⟩
  have hl' : (l : Int) = -26579 * a - 76347 * b := by omega
  have hq' : (q : Int) = -6829 * a - 19616 * b := by omega
  have hb0 : b = 0 := by omega
  have ha0 : a = 0 ∨ a = -1 := by omega
  omega

theorem toNat_lcgNextU16_fst (s : UInt32) :
    (lcgNextU16 s).1.toNat = (s.toNat * 0x41C64E6D + 0x6073) % 2 ^ 32 := by
  simp only [lcgNextU16, lcgA, lcgC, UInt32.toNat_add, UInt32.toNat_mul, Nat.mod_add_mod]
  rfl

theorem toNat_lcgNextU16_snd (s : UInt32) :
    (lcgNextU16 s).2.toNat = (lcgNextU16 s).1.toNat / 2 ^ 16 := by
  simp only [lcgNextU16]
  generalize s * lcgA + lcgC = x
  have hlt := x.toNat_lt
  have hmask : x.toNat / 2 ^ 16 &&& 0xFFFF = x.toNat / 2 ^ 16 := by
    rw [show 0xFFFF = 2 ^ 16 - 1 by rfl, Nat.and_two_pow_sub_one_eq_mod, Nat.mod_eq_of_lt (by omega)]
  rw [UInt32.toNat_toUInt16, UInt32.toNat_and, UInt32.toNat_shiftRight, Nat.shiftRight_eq_div_pow,
    show (16 : UInt32).toNat % 32 = 16 by decide, show (0xFFFF : UInt32).toNat = 0xFFFF by decide,
    hmask, Nat.mod_eq_of_lt (by omega)]

/-- A state whose word is zero fits in 16 bits. -/
theorem toNat_lt_of_word_eq_zero {s : UInt32} (h : (lcgNextU16 s).2 = 0) :
    (lcgNextU16 s).1.toNat < 2 ^ 16 := by
  have hz := toNat_lcgNextU16_snd s
  rw [h, UInt16.toNat_zero] at hz
  omega

/-- Two steps of the generator are undone by the inverse of its multiplier. -/
theorem eq_of_lcgNextU16_lcgNextU16 {s t : UInt32}
    (h : (lcgNextU16 (lcgNextU16 s).1).1 = t) :
    s = ((t - 0x6073) * 0xEEB9EB65 - 0x6073) * 0xEEB9EB65 := by
  subst h
  simp only [lcgNextU16, lcgA, lcgC]
  have h1 : (0x41C64E6D : UInt32) * 0xEEB9EB65 = 1 := by decide
  grind

/-- No state of the generator leaves the low byte of one word and both words
after the next one as they are. -/
theorem lcg_words_not_zero (s : UInt32) :
    ¬ (keyByte lcgNextU16 s 4 = 0 ∧ keyByte lcgNextU16 s 8 = 0 ∧ keyByte lcgNextU16 s 9 = 0 ∧
      keyByte lcgNextU16 s 10 = 0 ∧ keyByte lcgNextU16 s 11 = 0) := by
  rintro ⟨h4, h8, h9, h10, h11⟩
  simp only [keyByte, skipWords, Nat.reduceMod, Nat.reduceDiv, if_true, one_ne_zero, if_false]
    at h4 h8 h9 h10 h11
  set s₂ := (lcgNextU16 (lcgNextU16 (lcgNextU16 s).1).1).1 with hs₂
  set s₃ := (lcgNextU16 s₂).1 with hs₃
  set s₄ := (lcgNextU16 s₃).1 with hs₄
  have h₄ : s₄.toNat < 2 ^ 16 := toNat_lt_of_word_eq_zero (eq_iff_bytes.2 ⟨h8, h9⟩)
  have h₅ := toNat_lt_of_word_eq_zero (eq_iff_bytes.2 ⟨h10, h11⟩)
  rw [toNat_lcgNextU16_fst] at h₅
  have hback : s₂ = ((s₄ - 0x6073) * 0xEEB9EB65 - 0x6073) * 0xEEB9EB65 :=
    eq_of_lcgNextU16_lcgNextU16 rfl
  have hw : (lcgNextU16 (lcgNextU16 (lcgNextU16 s).1).1).2 = ((s₂ >>> 16) &&& 0xFFFF).toUInt16 := rfl
  rw [hw, hback] at h4
  rcases two_small_states h₄ h₅ with h | h
  · rw [UInt32.toNat_inj.1 (show s₄.toNat = (0 : UInt32).toNat from h)] at h4
    exact absurd h4 (by decide)
  · rw [UInt32.toNat_inj.1 (show s₄.toNat = (0x67D3 : UInt32).toNat from h)] at h4
    exact absurd h4 (by decide)

/-- A record taken from the file is left in clear, and deciphering it does not
give a dead Shedinja. -/
theorem not_isDeadShedinja_fileEdits {f : List UInt8} (hf : f.length = pkmPartySize) :
    ¬ IsDeadShedinja (decipher (editAndSum (fileEdits true) f)) := by
  intro h
  have hfit := fileEdits_fit (le_of_eq hf.symm)
  have h6 : 0x06 + 1 < f.length := by rw [hf]; decide
  set w := editAndSum (fileEdits true) f with hw
  have hwl : w.length = pkmPartySize := (length_editAndSum hfit).trans hf
  have hbyte : ∀ {i v}, i ≠ 0x06 ∧ i ≠ 0x06 + 1 ∧ written (fileEdits true) i = some v →
      byteAt w i = v :=
    fun h => byteAt_editAndSum hfit h6 h.1 h.2.1 h.2.2
  obtain ⟨d, hdd, hd⟩ := decryptPk6InPlace_spec (b := w) true
    (show pkmBoxSize ≤ pkmPartySize by decide) (le_of_eq hwl.symm)
  have hdl : d.length = pkmPartySize := hd.length.trans hwl
  -- past the main part, deciphering adds the key to the clear bytes
  have hstat : ∀ i, 0xE8 ≤ i ∧ i < 0xE8 + 2 * 14 → byteAt (decipher w) i =
      byteAt w i ^^^ keyByte lcgNextU16 (skipWords lcgNextU16 112 (readLE32 d 0)) (i - 0xE8) := by
    intro i hi
    rw [decipher, hwl, hdd, decryptBattleStats, byteAt_xorBattleStats hdl, if_pos hi, hd.outside]
    right
    exact hi.1
  have hkey : ∀ {i v}, 0xE8 ≤ i ∧ i < 0xE8 + 2 * 14 → byteAt w i = v → byteAt (decipher w) i = v →
      keyByte lcgNextU16 (skipWords lcgNextU16 112 (readLE32 d 0)) (i - 0xE8) = 0 := by
    intro i v hi hwi hdi
    rw [hstat i hi, hwi] at hdi
    rw [← UInt8.xor_right_inj v, UInt8.xor_zero]
    exact hdi
  have hhp := readLE16_eq_iff.1 h.currentHp
  have hmax := readLE16_eq_iff.1 h.maxHp
  exact lcg_words_not_zero _ ⟨hkey (i := 0xEC) (by decide) (hbyte (by decide)) h.level,
    hkey (i := 0xF0) (by decide) (hbyte (by decide)) hhp.1,
    hkey (i := 0xF1) (by decide) (hbyte (by decide)) hhp.2,
    hkey (i := 0xF2) (by decide) (hbyte (by decide)) hmax.1,
    hkey (i := 0xF3) (by decide) (hbyte (by decide)) hmax.2⟩

/-! ## When the slot ends up as a dead Shedinja -/

/-- A party record in the file takes the place of the slot. -/
theorem convertToDeadShedinjaInPlace_partyFile (slot : List UInt8) {f : List UInt8}
    (hf : f.length = pkmPartySize) :
    convertToDeadShedinjaInPlace slot pkmPartySize true (some f) =
      (true, editAndSum (fileEdits true) f) := by
  have hne : f ≠ [] := by
    rintro rfl
    exact absurd hf (by decide)
  have hprep : prepareShedinjaFromFile slot pkmPartySize true (some f) =
      (true, editAndSum (fileEdits true) f) := by
    rw [prepareShedinjaFromFile, if_neg (lt_irrefl _)]
    simp only [loadShedinjaFromFile, Option.getD_some, List.isEmpty_iff]
    rw [if_neg hne, if_neg (fun h => h.1 hf), if_neg (by rw [hf]; decide)]
  rw [convertToDeadShedinjaInPlace, hprep]

/-- With any other file, and with none, the slot itself is edited. -/
theorem convertToDeadShedinjaInPlace_otherFile {slot : List UInt8} {file : Option (List UInt8)}
    (hs : slot.length = pkmPartySize) (hf : ∀ f, file = some f → f.length ≠ pkmPartySize) :
    convertToDeadShedinjaInPlace slot pkmPartySize true file =
      convertToDeadShedinjaInPlaceManual slot pkmPartySize true := by
  obtain ⟨out, hout, -⟩ := convertManual_spec hs
  have hlen : (loadShedinjaFromFile file).length ≠ pkmPartySize := by
    cases file with
    | none => decide
    | some f => exact hf f rfl
  have hprep : prepareShedinjaFromFile slot pkmPartySize true file = (false, slot) ∨
      prepareShedinjaFromFile slot pkmPartySize true file = (true, out) := by
    rw [prepareShedinjaFromFile, if_neg (lt_irrefl _)]
    simp only []
    split_ifs with h₁ h₂ h₃
    · exact Or.inl rfl
    · exact Or.inl rfl
    · exact Or.inr hout
    · -- of the two sizes allowed only that of a box is left, and a party slot is asked for
      exact absurd ⟨by tauto, trivial⟩ h₃
  rcases hprep with h | h
  · rw [convertToDeadShedinjaInPlace, h]
  · rw [convertToDeadShedinjaInPlace, h, hout]

/-- The conversion of a party slot always reports success. -/
theorem convertToDeadShedinjaInPlace_succeeds (slot : List UInt8) (file : Option (List UInt8))
    (hs : slot.length = pkmPartySize) :
    ∃ out, convertToDeadShedinjaInPlace slot slot.length true file = (true, out) := by
  rw [hs]
  by_cases hf : ∀ f, file = some f → f.length ≠ pkmPartySize
  · obtain ⟨out, hout, -⟩ := convertManual_spec hs
    exact ⟨out, (convertToDeadShedinjaInPlace_otherFile hs hf).trans hout⟩
  · push Not at hf
    obtain ⟨f, rfl, hfl⟩ := hf
    exact ⟨editAndSum (fileEdits true) f, convertToDeadShedinjaInPlace_partyFile slot hfl⟩

/-- For every party slot and every outcome of loading `shd.pk6`, the conversion
succeeds, and what it leaves deciphers to a dead Shedinja exactly when the file
is not a record of 260 bytes. -/
theorem dead_shedinja_iff (slot : List UInt8) (file : Option (List UInt8))
    (hs : slot.length = pkmPartySize) :
    ∃ out, convertToDeadShedinjaInPlace slot slot.length true file = (true, out) ∧
      (IsDeadShedinja (decipher out) ↔ ∀ f, file = some f → f.length ≠ pkmPartySize) := by
  rw [hs]
  by_cases hf : ∀ f, file = some f → f.length ≠ pkmPartySize
  · obtain ⟨out, hout, hdead⟩ := convertManual_spec hs
    refine ⟨out, ?_, iff_of_true hdead hf⟩
    rw [convertToDeadShedinjaInPlace_otherFile hs hf, hout]
  · obtain ⟨f, hfile, hfl⟩ : ∃ f, file = some f ∧ f.length = pkmPartySize := by
      push Not at hf
      exact hf
    refine ⟨editAndSum (fileEdits true) f, ?_, ?_⟩
    · rw [hfile]
      exact convertToDeadShedinjaInPlace_partyFile slot hfl
    · exact iff_of_false (not_isDeadShedinja_fileEdits hfl) hf

/-- A blank slot and a missing file: the slot is edited itself, and the edited
record is the dead Shedinja it should be. -/
theorem dead_shedinja_no_file :
    (List.replicate 260 (0 : UInt8)).length = pkmPartySize ∧
      ∃ out, convertToDeadShedinjaInPlace (List.replicate 260 0)
        (List.replicate 260 (0 : UInt8)).length true none = (true, out) ∧
        (IsDeadShedinja (decipher out) ↔
          ∀ f, (none : Option (List UInt8)) = some f → f.length ≠ pkmPartySize) :=
  ⟨List.length_replicate, dead_shedinja_iff (List.replicate 260 0) none List.length_replicate⟩

/-- A blank record of 260 bytes in `shd.pk6`: the conversion reports success, and
the slot the game deciphers is no dead Shedinja. -/
theorem not_dead_shedinja_party_file :
    ¬ ∀ (slot : List UInt8) (file : Option (List UInt8)) (out : List UInt8),
      slot.length = pkmPartySize →
      convertToDeadShedinjaInPlace slot slot.length true file = (true, out) →
      IsDeadShedinja (decipher out) := by
  intro h
  have hl : (List.replicate 260 (0 : UInt8)).length = pkmPartySize := List.length_replicate
  refine not_isDeadShedinja_fileEdits hl
    (h (List.replicate 260 0) (some (List.replicate 260 0)) _ hl ?_)
  decide +kernel

end AzaharPlus.Poke
