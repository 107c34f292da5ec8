import AzaharPlus.Lib.WordStream

/-!
# The PK6 cipher

The model of the encryption of a Pokémon record in `core/poke_export.cpp`.  A
record of 260 bytes (232 in a box) starts with a 32-bit encryption key; the
224 bytes from `0x08` on are cut into four blocks of 56 bytes, the blocks are
permuted in one of 24 orders chosen by key bits, and the result is XOR-ed with
the words of a linear congruential generator started at the key.  The battle
statistics in `0xE8..0x103` are XOR-ed with the continuation of the same word
stream.

* `decryptPk6InPlace_encryptPk6InPlace` and `encryptPk6InPlace_decryptPk6InPlace`
  say what the two functions compose to, in either order, down to the checksum
  that encryption stores in `0x06..0x07`;
* `pk6_cipher_roundtrip` collects the round trips, the frame conditions and the
  battle statistics in one statement.
-/

namespace AzaharPlus.Poke

open Bytes

/-! ## Layout -/

/-- `PKM_ENCRYPTED_START`. -/
def pkmEncryptedStart : Nat := 0x08

/-- `PKM_MAIN_ENCRYPTED_SIZE`. -/
def pkmMainEncryptedSize : Nat := 224

/-- `PKM_BLOCK_SIZE`. -/
def pkmBlockSize : Nat := 56

/-- `PKM_PARTY_SIZE`. -/
def pkmPartySize : Nat := 260

/-- `PKM_BOX_SIZE`. -/
def pkmBoxSize : Nat := 232

/-- `BLOCK_ORDERS`, the 24 orders of the four blocks. -/
def blockOrders : List (List Nat) :=
  [[0, 1, 2, 3], [0, 1, 3, 2], [0, 2, 1, 3], [0, 2, 3, 1], [0, 3, 1, 2],
   [0, 3, 2, 1], [1, 0, 2, 3], [1, 0, 3, 2], [1, 2, 0, 3], [1, 2, 3, 0],
   [1, 3, 0, 2], [1, 3, 2, 0], [2, 0, 1, 3], [2, 0, 3, 1], [2, 1, 0, 3],
   [2, 1, 3, 0], [2, 3, 0, 1], [2, 3, 1, 0], [3, 0, 1, 2], [3, 0, 2, 1],
   [3, 1, 0, 2], [3, 1, 2, 0], [3, 2, 0, 1], [3, 2, 1, 0]]

/-- The index into `BLOCK_ORDERS` a key selects. -/
def shuffleShift (encKey : UInt32) : Nat := (((encKey &&& 0x3E000) >>> 13) % 24).toNat

/-- The order of the blocks a key selects. -/
def blockOrder (encKey : UInt32) : List Nat := blockOrders.getD (shuffleShift encKey) []

/-! ## The word stream -/

/-- `LCG_A`. -/
def lcgA : UInt32 := 0x41C64E6D

/-- `LCG_C`. -/
def lcgC : UInt32 := 0x6073

/-- One step of the generator: `state = state * LCG_A + LCG_C`, and the upper
half of the new state. -/
def lcgNextU16 (state : UInt32) : UInt32 × UInt16 :=
  let state := state * lcgA + lcgC
  (state, ((state >>> 16) &&& 0xFFFF).toUInt16)

/-! ## The block shuffle -/

/-- The blocks in shuffled order: block `k` of the result is block `order[k]`
of the clear text. -/
def shuffleMain (order : List Nat) (mainClear : List UInt8) : List UInt8 :=
  (List.range 4).foldl (fun out k =>
    memcpy out (k * pkmBlockSize)
      (slice mainClear (order.getD k 0 * pkmBlockSize) pkmBlockSize))
    (List.replicate pkmMainEncryptedSize 0)

/-- The blocks in clear order: block `j` of the result is the first block `k`
with `order[k] = j`; the function gives up when there is none. -/
def unshuffleMain (order : List Nat) (encryptedMain : List UInt8) : Option (List UInt8) :=
  (List.range 4).foldlM (fun out j =>
    (order.findIdx? (· == j)).map fun foundIndex =>
      memcpy out (j * pkmBlockSize)
        (slice encryptedMain (foundIndex * pkmBlockSize) pkmBlockSize))
    (List.replicate pkmMainEncryptedSize 0)

/-- The 16-bit sum of the 112 words at `0x08..0xE7`. -/
def checksumMain (buf : List UInt8) : UInt16 :=
  (List.range 112).foldl (fun c k => c + readLE16 buf (pkmEncryptedStart + 2 * k)) 0

/-! ## The four functions

Each returns its result code together with the buffer it leaves behind. -/

/-- `DecryptPk6InPlace`. -/
def decryptPk6InPlace (buf : List UInt8) (size : Nat) (_isParty : Bool) : Bool × List UInt8 :=
  if size < 232 then (false, buf)
  else
    let encKey := readLE32 buf 0
    let buf := xorWords lcgNextU16 size 112 pkmEncryptedStart encKey buf
    if size ≥ pkmEncryptedStart + pkmMainEncryptedSize then
      match unshuffleMain (blockOrder encKey) (slice buf pkmEncryptedStart pkmMainEncryptedSize) with
      | none => (false, buf)
      | some unshuffledMain => (true, memcpy buf pkmEncryptedStart unshuffledMain)
    else (true, buf)

/-- `EncryptPk6InPlace`. -/
def encryptPk6InPlace (buf : List UInt8) (size : Nat) (isParty : Bool) : Bool × List UInt8 :=
  if (isParty = true ∧ size < pkmPartySize) ∨ (isParty = false ∧ size < pkmBoxSize) then (false, buf)
  else
    let buf := writeLE16 buf 0x06 (checksumMain buf)
    let mainClear := slice buf pkmEncryptedStart pkmMainEncryptedSize
    let encKey := readLE32 buf 0
    let buf := memcpy buf pkmEncryptedStart (shuffleMain (blockOrder encKey) mainClear)
    (true, xorWords lcgNextU16 size 112 pkmEncryptedStart encKey buf)

/-- The common body of `EncryptBattleStats` and `DecryptBattleStats`: skip the
112 words of the main part, then XOR the 14 words at `0xE8..0x103`. -/
def xorBattleStats (buf : List UInt8) (size : Nat) (isParty : Bool) : Bool × List UInt8 :=
  if size < pkmPartySize ∨ isParty = false then (false, buf)
  else (true, xorWords lcgNextU16 size 14 0xE8 (skipWords lcgNextU16 112 (readLE32 buf 0)) buf)

/-- `EncryptBattleStats`. -/
def encryptBattleStats (buf : List UInt8) (size : Nat) (isParty : Bool) : Bool × List UInt8 :=
  xorBattleStats buf size isParty

/-- `DecryptBattleStats`. -/
def decryptBattleStats (buf : List UInt8) (size : Nat) (isParty : Bool) : Bool × List UInt8 :=
  xorBattleStats buf size isParty

/-! ## The block orders are permutations -/

theorem shuffleShift_lt (encKey : UInt32) : shuffleShift encKey < 24 := by
  rw [shuffleShift, UInt32.toNat_mod]
  exact Nat.mod_lt _ (by decide)

/-- The position of block `j` in an order, where there is one. -/
def foundIndex (order : List Nat) (j : Nat) : Nat := (order.findIdx? (· == j)).getD 0

/-- What makes an order of the four blocks invertible. -/
structure IsBlockOrder (order : List Nat) : Prop where
  order_lt : ∀ k < 4, order.getD k 0 < 4
  found : ∀ j < 4, order.findIdx? (· == j) = some (foundIndex order j)
  found_lt : ∀ j < 4, foundIndex order j < 4
  order_found : ∀ j < 4, order.getD (foundIndex order j) 0 = j
  found_order : ∀ k < 4, foundIndex order (order.getD k 0) = k

/-- Every row of the table is a permutation of the four blocks. -/
theorem isBlockOrder_getD {s : Nat} (hs : s < 24) : IsBlockOrder (blockOrders.getD s []) where
  order_lt := by revert s; decide
  found := by revert s; decide
  found_lt := by revert s; decide
  order_found := by revert s; decide
  found_order := by revert s; decide

theorem isBlockOrder_blockOrder (encKey : UInt32) : IsBlockOrder (blockOrder encKey) :=
  isBlockOrder_getD (shuffleShift_lt encKey)

/-! ## The shuffles, byte by byte -/

/-- Copying the four blocks `src 0`, …, `src 3` of `m` one after the other. -/
def copyBlocks (src : Nat → Nat) (m : List UInt8) : List UInt8 :=
  (List.range 4).foldl (fun out k =>
    memcpy out (k * pkmBlockSize) (slice m (src k * pkmBlockSize) pkmBlockSize))
    (List.replicate pkmMainEncryptedSize 0)

theorem shuffleMain_eq (order : List Nat) (m : List UInt8) :
    shuffleMain order m = copyBlocks (fun k => order.getD k 0) m := rfl

theorem unshuffleMain_eq {order : List Nat} (h : IsBlockOrder order) (m : List UInt8) :
    unshuffleMain order m = some (copyBlocks (foundIndex order) m) := by
  simp only [unshuffleMain, copyBlocks, show List.range 4 = [0, 1, 2, 3] from rfl,
    List.foldlM_cons, List.foldlM_nil, List.foldl_cons, List.foldl_nil]
  rw [h.found 0 (by omega), h.found 1 (by omega), h.found 2 (by omega), h.found 3 (by omega)]
  rfl

/-- Copying a prefix of the blocks fills exactly these blocks. -/
theorem copyBlocks_first {src : Nat → Nat} {m : List UInt8} (hm : m.length = pkmMainEncryptedSize)
    (hsrc : ∀ k < 4, src k < 4) {n : Nat} (hn : n ≤ 4) :
    let out := (List.range n).foldl (fun out k =>
      memcpy out (k * pkmBlockSize) (slice m (src k * pkmBlockSize) pkmBlockSize))
      (List.replicate pkmMainEncryptedSize 0)
    out.length = pkmMainEncryptedSize ∧
      ∀ k < n, ∀ r < pkmBlockSize,
        byteAt out (k * pkmBlockSize + r) = byteAt m (src k * pkmBlockSize + r) := by
  induction n with
  | zero => exact ⟨by simp, fun k hk => absurd hk (Nat.not_lt_zero k)⟩
  | succ n ih =>
    obtain ⟨hlen, hbytes⟩ := ih (by omega)
    have hs : (slice m (src n * pkmBlockSize) pkmBlockSize).length = pkmBlockSize := by
      refine length_slice ?_
      have := hsrc n (by omega)
      simp only [pkmBlockSize, pkmMainEncryptedSize] at *
      omega
    simp only [List.range_succ, List.foldl_append, List.foldl_cons, List.foldl_nil]
    have hroom : n * pkmBlockSize + (slice m (src n * pkmBlockSize) pkmBlockSize).length
        ≤ ((List.range n).foldl (fun out k =>
          memcpy out (k * pkmBlockSize) (slice m (src k * pkmBlockSize) pkmBlockSize))
          (List.replicate pkmMainEncryptedSize 0)).length := by
      rw [hs, hlen]
      simp only [pkmBlockSize, pkmMainEncryptedSize]
      omega
    refine ⟨by rw [length_memcpy hroom, hlen], fun k hk r hr => ?_⟩
    rw [byteAt_memcpy hroom, hs]
    by_cases hkn : k = n
    · subst hkn
      rw [if_pos (by omega), Nat.add_sub_cancel_left, byteAt_slice m _ hr]
    · -- an earlier block ends before block `n` starts
      have hlt : k * pkmBlockSize + r < n * pkmBlockSize := by
        have : (k + 1) * pkmBlockSize ≤ n * pkmBlockSize := Nat.mul_le_mul_right _ (by omega)
        rw [Nat.add_mul, Nat.one_mul] at this
        omega
      rw [if_neg (by omega)]
      exact hbytes k (by omega) r hr

theorem length_copyBlocks {src : Nat → Nat} {m : List UInt8}
    (hm : m.length = pkmMainEncryptedSize) (hsrc : ∀ k < 4, src k < 4) :
    (copyBlocks src m).length = pkmMainEncryptedSize :=
  (copyBlocks_first hm hsrc (le_refl 4)).1

theorem byteAt_copyBlocks {src : Nat → Nat} {m : List UInt8}
    (hm : m.length = pkmMainEncryptedSize) (hsrc : ∀ k < 4, src k < 4) {k r : Nat} (hk : k < 4)
    (hr : r < pkmBlockSize) :
    byteAt (copyBlocks src m) (k * pkmBlockSize + r) = byteAt m (src k * pkmBlockSize + r) :=
  (copyBlocks_first hm hsrc (le_refl 4)).2 k hk r hr

/-- Every offset of the main part is a place inside one of the four blocks. -/
theorem exists_block {i : Nat} (h₁ : pkmEncryptedStart ≤ i)
    (h₂ : i < pkmEncryptedStart + pkmMainEncryptedSize) :
    ∃ k < 4, ∃ r < pkmBlockSize, i = pkmEncryptedStart + (k * pkmBlockSize + r) := by
  simp only [pkmEncryptedStart, pkmMainEncryptedSize, pkmBlockSize] at *
  exact ⟨(i - 8) / 56, by omega, (i - 8) % 56, by omega, by omega⟩

theorem block_index_lt {k r : Nat} (hk : k < 4) (hr : r < pkmBlockSize) :
    k * pkmBlockSize + r < pkmMainEncryptedSize := by
  simp only [pkmMainEncryptedSize, pkmBlockSize] at *
  omega

/-! ## What the two functions do to each byte -/

/-- A result of `DecryptPk6InPlace`: the main part is deciphered and put back
in order, everything else is as it was. -/
structure IsDecryption (b d : List UInt8) : Prop where
  length : d.length = b.length
  outside : ∀ i, i < pkmEncryptedStart ∨ pkmEncryptedStart + pkmMainEncryptedSize ≤ i →
    byteAt d i = byteAt b i
  main : ∀ j < 4, ∀ r < pkmBlockSize,
    byteAt d (pkmEncryptedStart + (j * pkmBlockSize + r)) =
      byteAt b (pkmEncryptedStart + (foundIndex (blockOrder (readLE32 b 0)) j * pkmBlockSize + r)) ^^^
        keyByte lcgNextU16 (readLE32 b 0)
          (foundIndex (blockOrder (readLE32 b 0)) j * pkmBlockSize + r)

/-- A result of `EncryptPk6InPlace`: the checksum is stored, the main part is
shuffled and enciphered, everything else is as it was. -/
structure IsEncryption (b e : List UInt8) : Prop where
  length : e.length = b.length
  outside : ∀ i, i < 0x06 ∨ pkmEncryptedStart + pkmMainEncryptedSize ≤ i → byteAt e i = byteAt b i
  checksum : readLE16 e 0x06 = checksumMain b
  main : ∀ k < 4, ∀ r < pkmBlockSize,
    byteAt e (pkmEncryptedStart + (k * pkmBlockSize + r)) =
      byteAt b (pkmEncryptedStart + ((blockOrder (readLE32 b 0)).getD k 0 * pkmBlockSize + r)) ^^^
        keyByte lcgNextU16 (readLE32 b 0) (k * pkmBlockSize + r)

theorem length_mainPart {b : List UInt8} (hb : pkmEncryptedStart + pkmMainEncryptedSize ≤ b.length) :
    (slice b pkmEncryptedStart pkmMainEncryptedSize).length = pkmMainEncryptedSize :=
  length_slice hb

theorem decryptPk6InPlace_spec {b : List UInt8} {size : Nat} (p : Bool) (h : pkmBoxSize ≤ size)
    (hb : size ≤ b.length) :
    ∃ d, decryptPk6InPlace b size p = (true, d) ∧ IsDecryption b d := by
  have hbox : pkmEncryptedStart + pkmMainEncryptedSize ≤ size := h
  have hord := isBlockOrder_blockOrder (readLE32 b 0)
  set x := xorWords lcgNextU16 size 112 pkmEncryptedStart (readLE32 b 0) b with hx
  have hxl : x.length = b.length := length_xorWords ..
  have hml := length_mainPart (b := x) (by omega)
  set m := copyBlocks (foundIndex (blockOrder (readLE32 b 0)))
    (slice x pkmEncryptedStart pkmMainEncryptedSize) with hm
  have hmlen : m.length = pkmMainEncryptedSize := length_copyBlocks hml hord.found_lt
  have hroom : pkmEncryptedStart + m.length ≤ x.length := by omega
  refine ⟨memcpy x pkmEncryptedStart m, ?_, ?_⟩
  · rw [decryptPk6InPlace, if_neg (by rw [pkmBoxSize] at h; omega)]
    simp only [← hx, if_pos (show size ≥ _ from hbox), unshuffleMain_eq hord, ← hm]
  · refine ⟨by rw [length_memcpy hroom, hxl], fun i hi => ?_, fun j hj r hr => ?_⟩
    · rw [byteAt_memcpy hroom, if_neg (by omega)]
      exact byteAt_xorWords_outside _ hbox hb (by simpa [pkmMainEncryptedSize] using hi)
    · have hjr := block_index_lt (hord.found_lt j hj) hr
      rw [byteAt_memcpy hroom, if_pos ⟨by omega, by have := block_index_lt hj hr; omega⟩,
        Nat.add_sub_cancel_left, hm, byteAt_copyBlocks hml hord.found_lt hj hr,
        byteAt_slice x _ hjr, hx, byteAt_xorWords lcgNextU16 hbox hb,
        if_pos ⟨by omega, by rw [pkmMainEncryptedSize] at hjr; omega⟩, Nat.add_sub_cancel_left]

/-- The size check `EncryptPk6InPlace` makes. -/
def encryptSizeOk (size : Nat) (isParty : Bool) : Prop :=
  (isParty = true → pkmPartySize ≤ size) ∧ (isParty = false → pkmBoxSize ≤ size)

theorem encryptPk6InPlace_spec {b : List UInt8} {size : Nat} {p : Bool} (h : encryptSizeOk size p)
    (hb : size ≤ b.length) :
    ∃ e, encryptPk6InPlace b size p = (true, e) ∧ IsEncryption b e := by
  have hsize : pkmBoxSize ≤ size := by
    cases p
    · exact h.2 rfl
    · exact le_trans (by decide) (h.1 rfl)
  have hbox : pkmEncryptedStart + pkmMainEncryptedSize ≤ size := hsize
  have h6 : 0x06 + 1 < b.length := by simp only [pkmBoxSize] at hsize; omega
  set c := writeLE16 b 0x06 (checksumMain b) with hc
  have hcl : c.length = b.length := length_writeLE16 ..
  have hcb : ∀ i, i ≠ 0x06 → i ≠ 0x07 → byteAt c i = byteAt b i := fun i h₁ h₂ => by
    rw [hc, byteAt_writeLE16 _ h6, if_neg h₁, if_neg h₂]
  have hkey : readLE32 c 0 = readLE32 b 0 :=
    readLE32_congr fun i _ hi => hcb i (by omega) (by omega)
  have hord := isBlockOrder_blockOrder (readLE32 b 0)
  have hml := length_mainPart (b := c) (by omega)
  set m := copyBlocks (fun k => (blockOrder (readLE32 b 0)).getD k 0)
    (slice c pkmEncryptedStart pkmMainEncryptedSize) with hm
  have hmlen : m.length = pkmMainEncryptedSize := length_copyBlocks hml hord.order_lt
  have hroom : pkmEncryptedStart + m.length ≤ c.length := by omega
  have hsl : size ≤ (memcpy c pkmEncryptedStart m).length := by
    rw [length_memcpy hroom]; omega
  refine ⟨xorWords lcgNextU16 size 112 pkmEncryptedStart (readLE32 b 0)
    (memcpy c pkmEncryptedStart m), ?_, ?_⟩
  · rw [encryptPk6InPlace, if_neg]
    · simp only [← hc, hkey, shuffleMain_eq, ← hm]
    · rintro (⟨hp, hlt⟩ | ⟨hp, hlt⟩)
      · exact absurd (h.1 hp) (by omega)
      · exact absurd (h.2 hp) (by omega)
  · refine ⟨?_, fun i hi => ?_, ?_, fun k hk r hr => ?_⟩
    · rw [length_xorWords, length_memcpy hroom, hcl]
    · simp only [pkmEncryptedStart, pkmMainEncryptedSize] at hi
      rw [byteAt_xorWords_outside _ hbox hsl (by simp only [pkmEncryptedStart]; omega),
        byteAt_memcpy hroom, if_neg (by simp only [pkmEncryptedStart, hmlen, pkmMainEncryptedSize]; omega)]
      exact hcb i (by omega) (by omega)
    · -- the two checksum bytes lie before the enciphered part
      have hout : ∀ i < pkmEncryptedStart, byteAt (xorWords lcgNextU16 size 112 pkmEncryptedStart
          (readLE32 b 0) (memcpy c pkmEncryptedStart m)) i = byteAt c i := fun i hi => by
        rw [byteAt_xorWords_outside _ hbox hsl (Or.inl hi), byteAt_memcpy hroom,
          if_neg (by omega)]
      rw [readLE16_congr (hout 6 (by decide)) (hout 7 (by decide)), hc, readLE16_writeLE16 _ h6]
    · have hjr := block_index_lt hk hr
      have hor := block_index_lt (hord.order_lt k hk) hr
      rw [byteAt_xorWords lcgNextU16 hbox hsl,
        if_pos ⟨by omega, by rw [pkmMainEncryptedSize] at hjr; omega⟩, Nat.add_sub_cancel_left,
        byteAt_memcpy hroom, if_pos ⟨by omega, by omega⟩, Nat.add_sub_cancel_left, hm,
        byteAt_copyBlocks hml hord.order_lt hk hr, byteAt_slice c _ hor,
        hcb _ (by simp only [pkmEncryptedStart]; omega) (by simp only [pkmEncryptedStart]; omega)]

/-! ## Round trips -/

theorem IsEncryption.readLE32_eq {b e : List UInt8} (h : IsEncryption b e) :
    readLE32 e 0 = readLE32 b 0 :=
  readLE32_congr fun i _ hi => h.outside i (Or.inl (by omega))

theorem IsDecryption.readLE32_eq {b d : List UInt8} (h : IsDecryption b d) :
    readLE32 d 0 = readLE32 b 0 :=
  readLE32_congr fun i _ hi => h.outside i (Or.inl (by simp only [pkmEncryptedStart]; omega))

/-- A buffer that agrees with `b` outside the checksum and holds `v` there is
`b` with `v` written into it. -/
theorem eq_writeLE16_checksum {a b : List UInt8} {v : UInt16} (hl : a.length = b.length)
    (hb : 0x06 + 1 < b.length) (hv : readLE16 a 0x06 = v)
    (h : ∀ i, i ≠ 0x06 → i ≠ 0x07 → byteAt a i = byteAt b i) : a = writeLE16 b 0x06 v := by
  refine ext_byteAt (by simpa using hl) fun i _ => ?_
  rw [byteAt_writeLE16 _ hb, ← hv, readLE16, loByte_word, hiByte_word]
  by_cases h₁ : i = 0x06
  · rw [if_pos h₁, h₁]
  · rw [if_neg h₁]
    by_cases h₂ : i = 0x06 + 1
    · rw [if_pos h₂, h₂]
    · rw [if_neg h₂]
      exact h i h₁ h₂

/-- Deciphering an enciphered record gives the record back, with its checksum
filled in. -/
theorem decryptPk6InPlace_encryptPk6InPlace {b e d : List UInt8} (hb : pkmBoxSize ≤ b.length)
    (he : IsEncryption b e) (hd : IsDecryption e d) : d = writeLE16 b 0x06 (checksumMain b) := by
  have hord := isBlockOrder_blockOrder (readLE32 b 0)
  refine eq_writeLE16_checksum (hd.length.trans he.length) (by simp only [pkmBoxSize] at hb; omega)
    ?_ fun i h₁ h₂ => ?_
  · rw [← he.checksum]
    exact readLE16_congr (hd.outside _ (Or.inl (by decide))) (hd.outside _ (Or.inl (by decide)))
  · by_cases hi : pkmEncryptedStart ≤ i ∧ i < pkmEncryptedStart + pkmMainEncryptedSize
    · obtain ⟨j, hj, r, hr, rfl⟩ := exists_block hi.1 hi.2
      rw [hd.main j hj r hr, he.readLE32_eq, he.main _ (hord.found_lt j hj) r hr,
        hord.order_found j hj, xor_xor_cancel]
    · simp only [pkmEncryptedStart, pkmMainEncryptedSize] at hi
      rw [hd.outside i (by simp only [pkmEncryptedStart, pkmMainEncryptedSize]; omega),
        he.outside i (by simp only [pkmEncryptedStart, pkmMainEncryptedSize]; omega)]

/-- Enciphering a deciphered record gives the record back, with the checksum of
the clear text in place of the stored one. -/
theorem encryptPk6InPlace_decryptPk6InPlace {c d e : List UInt8} (hc : pkmBoxSize ≤ c.length)
    (hd : IsDecryption c d) (he : IsEncryption d e) : e = writeLE16 c 0x06 (checksumMain d) := by
  have hord := isBlockOrder_blockOrder (readLE32 c 0)
  refine eq_writeLE16_checksum (he.length.trans hd.length) (by simp only [pkmBoxSize] at hc; omega)
    he.checksum fun i h₁ h₂ => ?_
  by_cases hi : pkmEncryptedStart ≤ i ∧ i < pkmEncryptedStart + pkmMainEncryptedSize
  · obtain ⟨k, hk, r, hr, rfl⟩ := exists_block hi.1 hi.2
    rw [he.main k hk r hr, hd.readLE32_eq, hd.main _ (hord.order_lt k hk) r hr,
      hord.found_order k hk, xor_xor_cancel]
  · simp only [pkmEncryptedStart, pkmMainEncryptedSize] at hi
    rw [he.outside i (by simp only [pkmEncryptedStart, pkmMainEncryptedSize]; omega),
      hd.outside i (by simp only [pkmEncryptedStart, pkmMainEncryptedSize]; omega)]

theorem xorBattleStats_outside {b : List UInt8} {size : Nat} (p : Bool) (h : pkmPartySize ≤ size)
    (hb : size ≤ b.length) {i : Nat} (hi : i < 0xE8 ∨ 0x104 ≤ i) :
    byteAt (xorBattleStats b size p).2 i = byteAt b i := by
  rw [xorBattleStats]
  split
  · rfl
  · exact byteAt_xorWords_outside _ (by simp only [pkmPartySize] at h; omega) hb (by omega)

/-- The battle statistics are enciphered by an involution. -/
theorem xorBattleStats_xorBattleStats {b : List UInt8} {size : Nat} (p : Bool)
    (h : pkmPartySize ≤ size) (hb : size ≤ b.length) :
    (xorBattleStats (xorBattleStats b size p).2 size p).2 = b := by
  have hkey : readLE32 (xorBattleStats b size p).2 0 = readLE32 b 0 :=
    readLE32_congr fun i _ hi => xorBattleStats_outside p h hb (Or.inl (by omega))
  have hsz : 0xE8 + 2 * 14 ≤ size := by simp only [pkmPartySize] at h; omega
  cases p with
  | false => simp [xorBattleStats]
  | true =>
    have hgo : ∀ c : List UInt8, (xorBattleStats c size true).2 =
        xorWords lcgNextU16 size 14 0xE8 (skipWords lcgNextU16 112 (readLE32 c 0)) c := fun c => by
      rw [xorBattleStats, if_neg (by simp only [Bool.true_eq_false, or_false]; omega)]
    rw [hgo (xorBattleStats b size true).2, hkey, hgo b, xorWords_xorWords _ hsz hb]

/-- What it means that the cipher loses nothing of a record `b` of which `size`
bytes are handed to the functions. -/
structure Pk6RoundTrip (b : List UInt8) (size : Nat) (p q : Bool) : Prop where
  /-- Deciphering undoes enciphering up to the checksum of the clear words. -/
  decrypt_encrypt : ∃ e d, encryptPk6InPlace b size p = (true, e) ∧
    decryptPk6InPlace e size q = (true, d) ∧ d = writeLE16 b 0x06 (checksumMain b)
  /-- Enciphering undoes deciphering up to the checksum of the clear words, so
  exactly when the stored checksum was right. -/
  encrypt_decrypt : ∃ d e, decryptPk6InPlace b size q = (true, d) ∧
    encryptPk6InPlace d size p = (true, e) ∧ e = writeLE16 b 0x06 (checksumMain d) ∧
    (e = b ↔ readLE16 b 0x06 = checksumMain d)
  /-- No byte outside `0x06..0xE7` changes, and the length does not. -/
  frame : ∀ c ∈ [(encryptPk6InPlace b size p).2, (decryptPk6InPlace b size q).2],
    c.length = b.length ∧ ∀ i, i < 0x06 ∨ 0xE8 ≤ i → byteAt c i = byteAt b i
  /-- The battle statistics come back. -/
  battleStats : (encryptBattleStats b size true).1 = true ∧
    (decryptBattleStats (encryptBattleStats b size p).2 size p).2 = b
  /-- Nothing outside `0xE8..0x103` is touched on the way. -/
  battleStats_frame : ∀ c ∈ [(encryptBattleStats b size p).2, (decryptBattleStats b size p).2],
    ∀ i, i < 0xE8 ∨ 0x104 ≤ i → byteAt c i = byteAt b i

/-- For every record of at least 260 bytes and every key in it, the PK6 cipher
and the cipher of the battle statistics can be undone. -/
theorem pk6_cipher_roundtrip (b : List UInt8) (size : Nat) (p q : Bool) (hs : pkmPartySize ≤ size)
    (hb : size ≤ b.length) : Pk6RoundTrip b size p q := by
  have hbox : pkmBoxSize ≤ size := le_trans (by decide) hs
  have hok : encryptSizeOk size p := ⟨fun _ => hs, fun _ => hbox⟩
  obtain ⟨e, hee, he⟩ := encryptPk6InPlace_spec hok hb
  obtain ⟨d, hdd, hd⟩ := decryptPk6InPlace_spec q hbox hb
  obtain ⟨d', hdd', hd'⟩ := decryptPk6InPlace_spec q hbox (he.length ▸ hb)
  obtain ⟨e', hee', he'⟩ := encryptPk6InPlace_spec hok (hd.length ▸ hb)
  have hback := encryptPk6InPlace_decryptPk6InPlace (le_trans hbox hb) hd he'
  have h6 : 0x06 + 1 < b.length := by simp only [pkmBoxSize] at hbox; omega
  refine ⟨⟨e, d', hee, hdd', decryptPk6InPlace_encryptPk6InPlace (le_trans hbox hb) he hd'⟩,
    ⟨d, e', hdd, hee', hback, fun h => ?_, fun h => ?_⟩, fun c hc => ?_,
    ⟨?_, xorBattleStats_xorBattleStats p hs hb⟩, fun c hc i hi => ?_⟩
  · rw [← readLE16_writeLE16 (checksumMain d) h6, ← hback, h]
  · rw [hback, ← h, writeLE16_readLE16 h6]
  · simp only [hee, hdd, List.mem_cons, List.not_mem_nil, or_false] at hc
    rcases hc with rfl | rfl
    · exact ⟨he.length, he.outside⟩
    · refine ⟨hd.length, fun i hi => hd.outside i ?_⟩
      simp only [pkmEncryptedStart, pkmMainEncryptedSize]
      omega
  · rw [encryptBattleStats, xorBattleStats, if_neg (by simp only [Bool.true_eq_false, or_false]; omega)]
  · simp only [encryptBattleStats, decryptBattleStats, List.mem_cons, List.not_mem_nil,
      or_false, or_self] at hc
    rw [hc]
    exact xorBattleStats_outside p hs hb hi

/-- The round trip on a party record of ones: its key `0x01010101` selects the
order `1, 2, 0, 3`, which is not its own inverse. -/
theorem pk6_cipher_roundtrip_ones :
    blockOrder 0x01010101 = [1, 2, 0, 3] ∧
      Pk6RoundTrip (List.replicate 260 1) 260 true false :=
  ⟨by decide, pk6_cipher_roundtrip (List.replicate 260 1) 260 true false (le_refl 260)
    (by rw [List.length_replicate])⟩

end AzaharPlus.Poke
