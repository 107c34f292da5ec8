import AzaharPlus.Video.MortonCopy

/-!
# Textures

The two decoders of a texture agree, and what the cache swizzles back to the guest's memory is what
it unswizzled from there.

* `readBlock_mortonCopy_eq_lookupTexture`: the rows `MortonCopy` writes hold the texels
  `LookupTexture` finds;
* `mortonCopy_roundTrip_and_slices`: swizzling restores the tiled bytes, and a part of a texture is
  swizzled to that part of the whole.
-/

namespace AzaharPlus.Video

open Bytes BlockMemory Updates

/-! ## The two decoders -/

/-- `PixelFormatFromTextureFormat`. -/
def pixelFormatFromTextureFormat : TextureFormat → PixelFormat
  | .rgba8 => .rgba8
  | .rgb8 => .rgb8
  | .rgb5a1 => .rgb5a1
  | .rgb565 => .rgb565
  | .rgba4 => .rgba4
  | .ia8 => .ia8
  | .rg8 => .rg8
  | .i8 => .i8
  | .a8 => .a8
  | .ia4 => .ia4
  | .i4 => .i4
  | .a4 => .a4
  | .etc1 => .etc1
  | .etc1a4 => .etc1a4

/-- The table whose entry yields RGBA8: that of the conversions for the five formats that are not
converted regardless. -/
def yieldsRGBA8 : TextureFormat → Bool
  | .rgba8 => true
  | .rgb8 => true
  | .rgb5a1 => true
  | .rgb565 => true
  | .rgba4 => true
  | _ => false

theorem calculateTileSize_eq (format : TextureFormat) :
    calculateTileSize format = tileSize (pixelFormatFromTextureFormat format) := by
  cases format <;> rfl

theorem linearBytesPerPixel_texture (format : TextureFormat) :
    linearBytesPerPixel (pixelFormatFromTextureFormat format) (yieldsRGBA8 format) = 4 := by
  cases format <;> rfl

theorem decodedBytes_texture (format : TextureFormat) :
    decodedBytes (pixelFormatFromTextureFormat format) (yieldsRGBA8 format) = 4 := by
  cases format <;> rfl

theorem noFloat_texture (format : TextureFormat) :
    noFloat (pixelFormatFromTextureFormat format) (yieldsRGBA8 format) := by
  cases format <;> decide

theorem decodePixel4_eq_lookupNibble {format : PixelFormat} (h4 : is4bit format) (memory : Memory)
    (base x y : Nat) :
    decodePixel4 format x y memory ⟨base, tileSize format⟩ =
      some (if format = .i4 then [lookupNibble memory base x y, lookupNibble memory base x y,
        lookupNibble memory base x y, 255] else [0, 0, 0, lookupNibble memory base x y]) := by
  have hlt := mortonInterleave_lt x y
  have hsize : mortonInterleave x y / 2 + 1 ≤ tileSize format := by
    rw [nibbles_eq_tileSize h4]
    omega
  have hhigh : ∀ v : UInt8, (v &&& 0xF0) >>> 4 = v >>> 4 := forall_uint8 (by decide +kernel)
  rw [decodePixel4, subspan_eq hsize]
  simp only [lookupNibble, hhigh, Option.bind_eq_bind, Option.bind_some]
  rfl

theorem decodePixelETC1_eq_lookupETC1 {format : PixelFormat} (hc : isCompressed format) (memory : Memory)
    (base : Nat) {x y : Nat} (hx : x < 8) (hy : y < 8) :
    decodePixelETC1 format x y memory ⟨base, tileSize format⟩ =
      some (lookupETC1 memory base x y (format = .etc1a4) false).asArray := by
  simp only [decodePixelETC1]
  rw [subspan_eq (subtile_le hc hx hy)]
  simp only [lookupETC1, decide_eq_true_eq]
  rfl

/-- The two decoders agree on a texel of a tile. -/
theorem decodeTexel_eq_lookupTexel (float : FloatDepth) (format : TextureFormat) (memory : Memory)
    (base : Nat) {x y : Nat} (hx : x < 8) (hy : y < 8) (stride : Nat) :
    decodeTexel float (pixelFormatFromTextureFormat format) (yieldsRGBA8 format) memory base x y =
      some (lookupTexelInTile memory base x y ⟨stride, format⟩ false).asArray := by
  cases format
  case i4 => exact decodePixel4_eq_lookupNibble (by decide) memory base x y
  case a4 => exact decodePixel4_eq_lookupNibble (by decide) memory base x y
  case etc1 => exact decodePixelETC1_eq_lookupETC1 (by decide) memory base hx hy
  case etc1a4 => exact decodePixelETC1_eq_lookupETC1 (by decide) memory base hx hy
  all_goals
    rw [decodeTexel, decodeTiledPixel, load_eq _ (le_refl _)]
    rfl

/-- The place of a texel's tile, as a lookup computes it. -/
theorem lookupTexture_default (format : TextureFormat) (memory : Memory) (tw x y : Nat) :
    lookupTexture memory 0 x y (defaultInfo format (8 * tw)) false =
      lookupTexelInTile memory ((y / 8 * tw + x / 8) * calculateTileSize format) (x % 8) (y % 8)
        (defaultInfo format (8 * tw)) false := by
  have hplace : 0 + y / 8 * (calculateTileSize format * (8 * tw / 8)) + x / 8 * calculateTileSize format =
      (y / 8 * tw + x / 8) * calculateTileSize format := by
    rw [Nat.mul_div_cancel_left _ (by decide)]
    ring
  simp only [lookupTexture, defaultInfo]
  rw [hplace]

/-- The rows `MortonCopy` writes for a texture of `tw` by `th` tiles hold at row `height - 1 - y` and
column `x` what `LookupTexture` finds at `x` and `y`. -/
theorem readBlock_mortonCopy_eq_lookupTexture (float : FloatDepth) (format : TextureFormat) (tw th : Nat)
    (tmp : Memory × Memory) (b : Buffers) :
    ∃ b', mortonCopy float true (pixelFormatFromTextureFormat format) (yieldsRGBA8 format) (8 * tw) (8 * th)
        0 (tw * th * calculateTileSize format) ⟨0, 8 * tw * (8 * th) * 4⟩
        ⟨0, tw * th * calculateTileSize format⟩ tmp b = some b' ∧
      ∀ x < 8 * tw, ∀ y < 8 * th,
        readBlock b'.linear (((8 * th - 1 - y) * (8 * tw) + x) * 4) 4 =
          (lookupTexture b.tile 0 x y (defaultInfo format (8 * tw)) false).asArray := by
  obtain ⟨b', hrun, -, hpixels, -⟩ :=
    writes_mortonCopy_decode float tw th (noFloat_texture format) b.tile tmp b rfl
  rw [linearBytesPerPixel_texture, ← calculateTileSize_eq] at hrun
  refine ⟨b', hrun, ?_⟩
  intro x hx y hy
  have hp : (8 * th - 1 - y) * (8 * tw) + x < 8 * tw * (8 * th) := by
    calc (8 * th - 1 - y) * (8 * tw) + x < (8 * th - 1 - y) * (8 * tw) + 8 * tw := by omega
      _ = (8 * th - 1 - y + 1) * (8 * tw) := by ring
      _ ≤ 8 * th * (8 * tw) := Nat.mul_le_mul_right _ (by omega)
      _ = 8 * tw * (8 * th) := Nat.mul_comm ..
  have hmod : ((8 * th - 1 - y) * (8 * tw) + x) % (8 * tw) = x := by
    rw [Nat.mul_comm]
    exact tile_mod hx _
  have hdiv : ((8 * th - 1 - y) * (8 * tw) + x) / (8 * tw) = 8 * th - 1 - y := by
    rw [Nat.mul_comm]
    exact tile_div hx _
  have hpixel := hpixels _ hp
  simp only [pixelAt, sourcePixel, linearBytesPerPixel_texture, decodedBytes_texture, texelOfPixel] at hpixel
  rw [hpixel, hmod, hdiv, show 8 * th - 1 - (8 * th - 1 - y) = y by omega, ← calculateTileSize_eq,
    decodeTexel_eq_lookupTexel float format _ _ (Nat.mod_lt _ (by decide)) (Nat.mod_lt _ (by decide))
      (calculateTileSize format * (8 * tw / 8)), lookupTexture_default]
  rfl

/-! ## Back to the tiles -/

section

variable (float : FloatDepth) {format : PixelFormat} {converted : Bool} {tw th : Nat}

/-- The texel at a place of a tile is read from there. -/
theorem sourcePixel_place {linear tile : Memory}
    (h : ∀ p < 8 * tw * (8 * th), sourcePixel format converted linear p =
      texelOfPixel float format converted tw th tile p) {t place : Nat} (ht : t < tw * th) :
    sourcePixel format converted linear (placeInRows (originAt tw th t) (8 * tw) place) =
      (decodeTexel float format converted tile (t * tileSize format) (mortonX place)
        (mortonY place)).getD [] := by
  have hmem : placeInRows (originAt tw th t) (8 * tw) place ∈ rowsOfTile (originAt tw th t) (8 * tw) :=
    ⟨mortonY place, mortonY_lt place, mortonX place, mortonX_lt place, rfl⟩
  rw [h _ (lt_of_mem_rowsOfTile ht hmem)]
  exact texelOfPixel_tile float ht (mortonX_lt place) (mortonY_lt place)

/-- Encoding the decoded rows gives the bytes of a format of whole bytes back. -/
theorem encodedByte_of_bytes (hexact : isExact format converted) {linear tile : Memory}
    (h : ∀ p < 8 * tw * (8 * th), sourcePixel format converted linear p =
      texelOfPixel float format converted tw th tile p) {t i : Nat} (ht : t < tw * th)
    (hi : i < tileSize format) :
    encodedByte float format converted (8 * tw) linear (originAt tw th t) i =
      tile (t * tileSize format + i) := by
  have h4 := is4bit_of_isExact hexact
  have hc := isCompressed_of_isExact hexact
  have hsize := bytes_eq_tileSize h4 hc
  have hpos : 0 < getFormatBpp format / 8 := by
    apply Nat.pos_of_ne_zero
    intro hzero
    rw [hzero] at hsize
    omega
  have hplace : i / (getFormatBpp format / 8) < 64 := by
    rw [Nat.div_lt_iff_lt_mul hpos]
    omega
  have hdiv := Nat.div_add_mod' i (getFormatBpp format / 8)
  have hmod := Nat.mod_lt i hpos
  simp only [encodedByte, h4, Bool.false_eq_true, if_false]
  rw [sourcePixel_place float h ht, decodeTexel, decodeTiledPixel, load_eq _ (le_refl _), hc, h4]
  simp only [Bool.false_eq_true, if_false, Option.map_some, Option.getD_some]
  rw [mortonInterleave_mortonX_mortonY hplace, encodePixel_decodePixel float hexact (length_readBlock ..),
    byteAt_readBlock _ _ hmod, Nat.add_assoc, hdiv]

/-- The nibble of a decoded nibble. -/
theorem encodedNibble_decodePixel4 (h4 : is4bit format) (tile : Memory) (base : Nat) {place : Nat}
    (hplace : place < 64) :
    encodedNibble format ((decodePixel4 format (mortonX place) (mortonY place) tile
        ⟨base, tileSize format⟩).getD []) =
      if place % 2 = 1 then tile (base + place / 2) >>> 4 else tile (base + place / 2) &&& 0xF := by
  have hhigh : ∀ v : UInt8, v >>> 4 < 16 := forall_uint8 (by decide +kernel)
  have hlow : ∀ v : UInt8, v &&& 0xF < 16 := forall_uint8 (by decide +kernel)
  have hsize : place / 2 + 1 ≤ tileSize format := by
    rw [nibbles_eq_tileSize h4]
    omega
  have hlt : (if place % 2 = 1 then tile (base + place / 2) >>> 4 else tile (base + place / 2) &&& 0xF) < 16 := by
    split_ifs
    · exact hhigh _
    · exact hlow _
  have hnarrow := convert8To4_convert4To8 _ hlt
  rw [decodePixel4, mortonInterleave_mortonX_mortonY hplace, subspan_eq hsize]
  cases format <;> first | exact absurd h4 (by decide) | skip
  · rw [encodedNibble, if_pos rfl, ← hnarrow]
    exact congrArg convert8To4 (averageRgbComponents_grey _ 255)
  · rw [encodedNibble, if_neg (by decide), ← hnarrow]
    rfl

/-- Encoding the decoded rows gives the bytes of a format of nibbles back. -/
theorem encodedByte_of_nibbles (h4 : is4bit format) {linear tile : Memory}
    (h : ∀ p < 8 * tw * (8 * th), sourcePixel format converted linear p =
      texelOfPixel float format converted tw th tile p) {t i : Nat} (ht : t < tw * th)
    (hi : i < tileSize format) :
    encodedByte float format converted (8 * tw) linear (originAt tw th t) i =
      tile (t * tileSize format + i) := by
  have hc : isCompressed format = false := by
    cases format <;> first | rfl | exact absurd h4 (by decide)
  rw [nibbles_eq_tileSize h4] at hi
  simp only [encodedByte, h4, if_true]
  rw [sourcePixel_place float h ht, sourcePixel_place float h ht, decodeTexel, decodeTexel, decodeTiledPixel,
    decodeTiledPixel, hc, h4]
  simp only [Bool.false_eq_true, if_false, if_true]
  rw [encodedNibble_decodePixel4 h4 _ _ (by omega), encodedNibble_decodePixel4 h4 _ _ (by omega),
    if_pos (by omega), if_neg (by omega), show (2 * i + 1) / 2 = i by omega, show 2 * i / 2 = i by omega]
  have hjoin : ∀ v : UInt8, ((v >>> 4) <<< 4) ||| (v &&& 0xF) = v := forall_uint8 (by decide +kernel)
  exact hjoin _

/-- Encoding the decoded rows gives every byte of the texture back. -/
theorem textureByte_of_decoded (hfloat : noFloat format converted) (hc : ¬ isCompressed format)
    {linear tile : Memory}
    (h : ∀ p < 8 * tw * (8 * th), sourcePixel format converted linear p =
      texelOfPixel float format converted tw th tile p) {j : Nat} (hj : j < tw * th * tileSize format) :
    textureByte float format converted tw th linear j = tile j := by
  have ht : j / tileSize format < tw * th := by
    rw [Nat.div_lt_iff_lt_mul (tileSize_pos format)]
    exact hj
  have hi := Nat.mod_lt j (tileSize_pos format)
  have hplace := Nat.div_add_mod' j (tileSize format)
  rw [textureByte]
  by_cases h4 : is4bit format
  · rw [encodedByte_of_nibbles float h4 h ht hi, hplace]
  · rw [encodedByte_of_bytes float (isExact_of_noFloat hfloat hc h4) h ht hi, hplace]

end

/-- Swizzling what was unswizzled restores the tiled bytes, whatever the buffers and the temporary
tiles held; and a part of a texture is swizzled to that part of the whole, with no access outside the
buffers and no write outside the part. -/
theorem mortonCopy_roundTrip_and_slices (float : FloatDepth) (format : PixelFormat) (converted : Bool)
    (hswizzle : hasSwizzle format converted) (hfloat : noFloat format converted) (tw th : Nat)
    (tmp tmp' : Memory × Memory) (b : Buffers) :
    (∀ tile, ∃ b₁ b₂,
      mortonCopy float true format converted (8 * tw) (8 * th) 0 (tw * th * tileSize format)
        ⟨0, 8 * tw * (8 * th) * linearBytesPerPixel format converted⟩ ⟨0, tw * th * tileSize format⟩ tmp
        b = some b₁ ∧
      mortonCopy float false format converted (8 * tw) (8 * th) 0 (tw * th * tileSize format)
        ⟨0, 8 * tw * (8 * th) * linearBytesPerPixel format converted⟩ ⟨0, tw * th * tileSize format⟩ tmp'
        ⟨b₁.linear, tile⟩ = some b₂ ∧
      ∀ j < tw * th * tileSize format, b₂.tile j = b.tile j) ∧
    ∀ startOffset endOffset, startOffset < endOffset → endOffset ≤ tw * th * tileSize format →
      ∀ tile, ∃ whole part,
        mortonCopy float false format converted (8 * tw) (8 * th) 0 (tw * th * tileSize format)
          ⟨0, 8 * tw * (8 * th) * linearBytesPerPixel format converted⟩ ⟨0, tw * th * tileSize format⟩ tmp
          b = some whole ∧
        mortonCopy float false format converted (8 * tw) (8 * th) startOffset endOffset
          ⟨0, 8 * tw * (8 * th) * linearBytesPerPixel format converted⟩ ⟨0, endOffset - startOffset⟩ tmp'
          ⟨b.linear, tile⟩ = some part ∧
        part.linear = b.linear ∧
        (∀ i < endOffset - startOffset, part.tile i = whole.tile (startOffset + i)) ∧
        ∀ i, endOffset - startOffset ≤ i → part.tile i = tile i := by
  have hc : ¬ isCompressed format := by
    intro h
    rw [hasSwizzle, h] at hswizzle
    simp at hswizzle
  have hencode : ∀ (tmp : Memory × Memory) (b : Buffers) {startOffset endOffset : Nat},
      startOffset ≤ endOffset → endOffset ≤ tw * th * tileSize format → ∃ b',
        mortonCopy float false format converted (8 * tw) (8 * th) startOffset endOffset
          ⟨0, 8 * tw * (8 * th) * linearBytesPerPixel format converted⟩ ⟨0, endOffset - startOffset⟩ tmp
          b = some b' ∧ b'.linear = b.linear ∧
        (∀ i < endOffset - startOffset, b'.tile i =
          textureByte float format converted tw th b.linear (startOffset + i)) ∧
        ∀ i, endOffset - startOffset ≤ i → b'.tile i = b.tile i := by
    intro tmp b startOffset endOffset hle hend
    obtain ⟨b', hrun, hlinear, hin, hout⟩ :=
      writes_mortonCopy_encode float tw th hfloat hc b.linear tmp hle hend b rfl
    refine ⟨b', hrun, hlinear, hin, fun i hi => hout i ?_⟩
    rw [Set.mem_ofPred_eq]
    omega
  constructor
  · intro tile
    obtain ⟨b₁, hrun, -, hpixels, -⟩ := writes_mortonCopy_decode float tw th hfloat b.tile tmp b rfl
    obtain ⟨b₂, hrun', -, hbytes, -⟩ := hencode tmp' ⟨b₁.linear, tile⟩ (Nat.zero_le _) (le_refl _)
    rw [Nat.sub_zero] at hrun' hbytes
    refine ⟨b₁, b₂, hrun, hrun', ?_⟩
    intro j hj
    rw [hbytes j hj, Nat.zero_add]
    exact textureByte_of_decoded float hfloat hc hpixels hj
  · intro startOffset endOffset hlt hend tile
    obtain ⟨whole, hwhole, -, hbytes, -⟩ := hencode tmp b (Nat.zero_le _) (le_refl _)
    obtain ⟨part, hpart, hlinear, hin, hout⟩ := hencode tmp' ⟨b.linear, tile⟩ (le_of_lt hlt) hend
    rw [Nat.sub_zero] at hwhole hbytes
    refine ⟨whole, part, hwhole, hpart, hlinear, ?_, hout⟩
    intro i hi
    rw [hin i hi, hbytes (startOffset + i) (by omega), Nat.zero_add]

/-- A texture of nibbles, of one tile. -/
theorem mortonCopy_roundTrip_and_slices_i4 :
    hasSwizzle .i4 false = true ∧ noFloat .i4 false = true ∧
    ∃ b₁ b₂,
      mortonCopy ⟨fun _ => [0, 0, 0, 0], fun _ => 0⟩ true .i4 false 8 8 0 32 ⟨0, 256⟩ ⟨0, 32⟩
        (fun _ => 0, fun _ => 0) ⟨fun _ => 0, fun i => UInt8.ofNat i⟩ = some b₁ ∧
      mortonCopy ⟨fun _ => [0, 0, 0, 0], fun _ => 0⟩ false .i4 false 8 8 0 32 ⟨0, 256⟩ ⟨0, 32⟩
        (fun _ => 0, fun _ => 0) ⟨b₁.linear, fun _ => 0⟩ = some b₂ ∧
      ∀ j < 32, b₂.tile j = UInt8.ofNat j :=
  ⟨by decide, by decide, (mortonCopy_roundTrip_and_slices ⟨fun _ => [0, 0, 0, 0], fun _ => 0⟩ .i4 false
    (by decide) (by decide) 1 1 (fun _ => 0, fun _ => 0) (fun _ => 0, fun _ => 0)
    ⟨fun _ => 0, fun i => UInt8.ofNat i⟩).1 fun _ => 0⟩

end AzaharPlus.Video
