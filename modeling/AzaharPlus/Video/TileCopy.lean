import AzaharPlus.Lib.Updates
import AzaharPlus.Video.TextureCodec

/-!
# One tile

What `MortonCopyTile` leaves in its buffers, in both directions.  A pixel of the linear buffer has
a number: the pixel `p` starts at byte `p * linearBytesPerPixel`.

* `writes_mortonCopyTile_decode`: every pixel of the tile is decoded to its place in the rows;
* `writes_mortonCopyTile_encode`: every byte of the tile is `encodedByte`, whatever it was.
-/

namespace AzaharPlus.Video

open Bytes BlockMemory Updates

/-! ## Spans -/

theorem subspan_eq {s : Span} {offset count : Nat} (h : offset + count ≤ s.size) :
    s.subspan offset count = some ⟨s.base + offset, count⟩ := by
  rw [Span.subspan, if_pos h]

theorem load_eq {s : Span} (memory : Memory) {count : Nat} (h : count ≤ s.size) :
    s.load memory count = some (readBlock memory s.base count) := by
  rw [Span.load, subspan_eq (by omega)]
  rfl

theorem store_eq {s : Span} (memory : Memory) {data : List UInt8} (h : data.length ≤ s.size) :
    s.store memory data = some (writeBlock memory s.base data data.length) := by
  rw [Span.store, subspan_eq (by omega)]
  rfl

/-! ## The order of the texels -/

/-- The column of the texel at a place of the tile. -/
def mortonX (p : Nat) : Nat := p % 2 + 2 * (p / 4 % 2) + 4 * (p / 16 % 2)

/-- The row of the texel at a place of the tile. -/
def mortonY (p : Nat) : Nat := p / 2 % 2 + 2 * (p / 8 % 2) + 4 * (p / 32 % 2)

theorem mortonX_lt (p : Nat) : mortonX p < 8 := by
  unfold mortonX
  omega

theorem mortonY_lt (p : Nat) : mortonY p < 8 := by
  unfold mortonY
  omega

theorem mortonInterleave_lt (x y : Nat) : mortonInterleave x y < 64 := by
  have h : ∀ x < 8, ∀ y < 8, mortonInterleave x y < 64 := by decide
  have hmod := h (x % 8) (Nat.mod_lt _ (by decide)) (y % 8) (Nat.mod_lt _ (by decide))
  rwa [mortonInterleave, Nat.mod_mod, Nat.mod_mod] at hmod

theorem mortonX_mortonInterleave {x y : Nat} (hx : x < 8) (hy : y < 8) :
    mortonX (mortonInterleave x y) = x := by
  have h : ∀ x < 8, ∀ y < 8, mortonX (mortonInterleave x y) = x := by decide
  exact h x hx y hy

theorem mortonY_mortonInterleave {x y : Nat} (hx : x < 8) (hy : y < 8) :
    mortonY (mortonInterleave x y) = y := by
  have h : ∀ x < 8, ∀ y < 8, mortonY (mortonInterleave x y) = y := by decide
  exact h x hx y hy

theorem mortonInterleave_mortonX_mortonY {p : Nat} (hp : p < 64) :
    mortonInterleave (mortonX p) (mortonY p) = p := by
  have h : ∀ p < 64, mortonInterleave (mortonX p) (mortonY p) = p := by decide
  exact h p hp

/-! ## Sizes -/

section

variable (float : FloatDepth) {format : PixelFormat} {converted : Bool}

theorem decodedBytes_le (format : PixelFormat) (converted : Bool) :
    decodedBytes format converted ≤ linearBytesPerPixel format converted := by
  cases format <;> cases converted <;> decide

theorem pixels_le_tileSize (format : PixelFormat) : 64 * (getFormatBpp format / 8) ≤ tileSize format := by
  cases format <;> decide

theorem bytes_eq_tileSize (h : is4bit format = false) (hc : isCompressed format = false) :
    tileSize format = 64 * (getFormatBpp format / 8) := by
  cases format <;> first | rfl | exact absurd h (by decide) | exact absurd hc (by decide)

theorem nibbles_eq_tileSize (h : is4bit format) : tileSize format = 32 := by
  cases format <;> first | rfl | exact absurd h (by decide)

/-- A tiled pixel is inside its tile. -/
theorem tiledPixel_le (format : PixelFormat) (x y : Nat) : mortonInterleave x y * (getFormatBpp format / 8) +
    getFormatBpp format / 8 ≤ tileSize format := by
  have hlt := mortonInterleave_lt x y
  calc mortonInterleave x y * (getFormatBpp format / 8) + getFormatBpp format / 8
      = (mortonInterleave x y + 1) * (getFormatBpp format / 8) := by ring
    _ ≤ 64 * (getFormatBpp format / 8) := Nat.mul_le_mul_right _ (by omega)
    _ ≤ tileSize format := pixels_le_tileSize format

/-- A linear pixel is inside the rows of its tile. -/
theorem linearPixel_le {x y : Nat} (hx : x < 8) (stride a : Nat) :
    ((7 - y) * stride + x) * a + a ≤ (7 * stride + 8) * a := by
  have hrow : (7 - y) * stride ≤ 7 * stride := Nat.mul_le_mul_right _ (by omega)
  calc ((7 - y) * stride + x) * a + a = ((7 - y) * stride + x + 1) * a := by ring
    _ ≤ (7 * stride + 8) * a := Nat.mul_le_mul_right _ (by omega)

theorem length_encodePixel (hexact : isExact format converted) {source : List UInt8}
    (h : source.length = decodedBytes format converted) :
    (encodePixel float format converted source).length = getFormatBpp format / 8 := by
  cases format <;> cases converted <;> simp only [decodedBytes] at h <;>
    simp only [encodePixel, getFormatBpp]
  case d24.true => exact absurd hexact (by decide)
  all_goals first
    | rfl
    | exact length_slice (by omega)

theorem length_decodePixel (hexact : isExact format converted) {source : List UInt8}
    (h : source.length = getFormatBpp format / 8) :
    (decodePixel float format converted source).length = decodedBytes format converted := by
  cases format <;> cases converted <;> simp only [getFormatBpp] at h <;>
    simp only [decodePixel, decodedBytes, getFormatBpp]
  case d24.true => exact absurd hexact (by decide)
  all_goals first
    | rfl
    | exact length_slice (by omega)
    | exact absurd hexact (by decide)

/-! ## From the tile to the rows -/

/-- The bytes one texel of a tile is decoded to. -/
def decodeTexel (float : FloatDepth) (format : PixelFormat) (converted : Bool) (tile : Memory)
    (base x y : Nat) : Option (List UInt8) :=
  decodeTiledPixel float format converted x y tile ⟨base, tileSize format⟩
    ⟨base + mortonInterleave x y * (getFormatBpp format / 8), getFormatBpp format / 8⟩

/-- The conversion of the format does not go through a `float`. -/
def noFloat (format : PixelFormat) (converted : Bool) : Bool := !(format = .d24 && converted)

theorem isExact_of_noFloat (h : noFloat format converted) (hc : ¬ isCompressed format)
    (h4 : ¬ is4bit format) : isExact format converted := by
  rw [isExact, Bool.eq_false_iff.2 hc, Bool.eq_false_iff.2 h4]
  exact h

theorem decodePixel4_eq_some (h4 : is4bit format) (tile : Memory) (base x y : Nat) :
    ∃ pixel, decodePixel4 format x y tile ⟨base, tileSize format⟩ = some pixel ∧ pixel.length = 4 := by
  have hlt := mortonInterleave_lt x y
  have hsize : mortonInterleave x y / 2 + 1 ≤ tileSize format := by
    rw [nibbles_eq_tileSize h4]
    omega
  rw [decodePixel4, subspan_eq hsize]
  refine ⟨_, rfl, ?_⟩
  split <;> rfl

/-- A block is inside its tile. -/
theorem subtile_le (hc : isCompressed format) {x y : Nat} (hx : x < 8) (hy : y < 8) :
    (x / 4 + 2 * (y / 4)) * (if format = .etc1a4 then 16 else 8) +
      (if format = .etc1a4 then 16 else 8) ≤ tileSize format := by
  cases format <;> first | exact absurd hc (by decide) | skip
  · rw [if_neg (by decide), show tileSize .etc1 = 32 from rfl]
    omega
  · rw [if_pos rfl, show tileSize .etc1a4 = 64 from rfl]
    omega

theorem decodePixelETC1_eq_some (hc : isCompressed format) (tile : Memory) (base : Nat) {x y : Nat}
    (hx : x < 8) (hy : y < 8) :
    ∃ pixel, decodePixelETC1 format x y tile ⟨base, tileSize format⟩ = some pixel ∧
      pixel.length = 4 := by
  simp only [decodePixelETC1]
  rw [subspan_eq (subtile_le hc hx hy)]
  exact ⟨_, rfl, rfl⟩

theorem decodeTexel_eq_some (hfloat : noFloat format converted) (tile : Memory) (base : Nat) {x y : Nat}
    (hx : x < 8) (hy : y < 8) :
    ∃ pixel, decodeTexel float format converted tile base x y = some pixel ∧
      pixel.length = decodedBytes format converted := by
  rw [decodeTexel, decodeTiledPixel, load_eq _ (le_refl _)]
  split_ifs with hc h4
  · obtain ⟨pixel, hpixel, hlength⟩ := decodePixelETC1_eq_some hc tile base hx hy
    refine ⟨pixel, hpixel, ?_⟩
    rw [hlength]
    cases format <;> first | rfl | exact absurd hc (by decide)
  · obtain ⟨pixel, hpixel, hlength⟩ := decodePixel4_eq_some h4 tile base x y
    refine ⟨pixel, hpixel, ?_⟩
    rw [hlength]
    cases format <;> first | rfl | exact absurd h4 (by decide)
  · exact ⟨_, rfl, length_decodePixel float (isExact_of_noFloat hfloat hc h4) (length_readBlock ..)⟩

/-- The bytes of a pixel of the rows: what is decoded to it, and what is read to encode it. -/
def sourcePixel (format : PixelFormat) (converted : Bool) (linear : Memory) (p : Nat) : List UInt8 :=
  readBlock linear (p * linearBytesPerPixel format converted) (decodedBytes format converted)

/-- What is seen of a pixel of the linear buffer. -/
def pixelAt (format : PixelFormat) (converted : Bool) (p : Nat) (b : Buffers) : List UInt8 :=
  sourcePixel format converted b.linear p

/-- The place of a pixel in the rows. -/
theorem linearPixel_subspan {stride origin x y : Nat} (hx : x < 8) :
    Span.subspan ⟨origin * linearBytesPerPixel format converted,
        (7 * stride + 8) * linearBytesPerPixel format converted⟩
      (((7 - y) * stride + x) * linearBytesPerPixel format converted)
      (linearBytesPerPixel format converted) =
      some ⟨(origin + (7 - y) * stride + x) * linearBytesPerPixel format converted,
        linearBytesPerPixel format converted⟩ := by
  rw [subspan_eq (linearPixel_le hx stride _), Nat.add_assoc, Nat.add_mul origin]

/-- A decoded pixel is stored in the rows. -/
theorem copyPixel_decode {stride base origin x y : Nat} (hx : x < 8) {b : Buffers} {pixel : List UInt8}
    (hpixel : decodeTexel float format converted b.tile base x y = some pixel)
    (hlength : pixel.length = decodedBytes format converted) :
    copyPixel float true format converted stride ⟨base, tileSize format⟩
        ⟨origin * linearBytesPerPixel format converted,
          (7 * stride + 8) * linearBytesPerPixel format converted⟩ y b x =
      some ⟨writeBlock b.linear
        ((origin + (7 - y) * stride + x) * linearBytesPerPixel format converted) pixel pixel.length,
        b.tile⟩ := by
  have htiled := subspan_eq (s := ⟨base, tileSize format⟩) (tiledPixel_le format x y)
  have hlinear := @linearPixel_subspan format converted stride origin x y hx
  have hle : pixel.length ≤ linearBytesPerPixel format converted := by
    rw [hlength]
    exact decodedBytes_le format converted
  have hstore := store_eq (s := ⟨(origin + (7 - y) * stride + x) *
    linearBytesPerPixel format converted, linearBytesPerPixel format converted⟩) b.linear hle
  rw [decodeTexel] at hpixel
  simp only [copyPixel, htiled, hlinear, Option.bind_eq_bind, Option.bind_some, if_true, hpixel, hstore]
  rfl

/-- Different pixels do not overlap. -/
theorem pixelAt_writeBlock_of_ne {b : Buffers} {p q : Nat} (hne : q ≠ p) {data : List UInt8}
    (hlength : data.length = decodedBytes format converted) :
    pixelAt format converted q ⟨writeBlock b.linear (p * linearBytesPerPixel format converted) data
      data.length, b.tile⟩ = pixelAt format converted q b := by
  have hle := decodedBytes_le format converted
  apply readBlock_congr
  apply eqOn_writeBlock
  intro addr haddr
  obtain ⟨hlo, hhi⟩ := haddr
  rcases Nat.lt_or_gt_of_ne hne with h | h
  · left
    have hmul : (q + 1) * linearBytesPerPixel format converted ≤ p * linearBytesPerPixel format converted :=
      Nat.mul_le_mul_right _ h
    rw [Nat.add_mul] at hmul
    omega
  · right
    have hmul : (p + 1) * linearBytesPerPixel format converted ≤ q * linearBytesPerPixel format converted :=
      Nat.mul_le_mul_right _ h
    rw [Nat.add_mul] at hmul
    omega

/-- The pixel is decoded to its place, and the others stay. -/
theorem writes_copyPixel_decode {tile : Memory} {base stride origin x y : Nat} {value : Nat → List UInt8}
    (hx : x < 8) (hlength : (value (origin + (7 - y) * stride + x)).length = decodedBytes format converted)
    (hvalue : decodeTexel float format converted tile base x y =
      some (value (origin + (7 - y) * stride + x))) :
    Writes (fun b => b.tile = tile) (pixelAt format converted) {origin + (7 - y) * stride + x} value
      fun b => copyPixel float true format converted stride ⟨base, tileSize format⟩
        ⟨origin * linearBytesPerPixel format converted,
          (7 * stride + 8) * linearBytesPerPixel format converted⟩ y b x := by
  rintro b rfl
  refine ⟨_, copyPixel_decode float hx hvalue hlength, rfl, ?_, ?_⟩
  · rintro p rfl
    rw [pixelAt, sourcePixel, ← hlength]
    exact readBlock_writeBlock _ _ rfl
  · intro q hq
    exact pixelAt_writeBlock_of_ne hq hlength

/-- The pixels of a tile in the rows. -/
def rowsOfTile (origin stride : Nat) : Set Nat :=
  {p | ∃ y < 8, ∃ x < 8, p = origin + (7 - y) * stride + x}

/-- Every pixel of the tile is decoded to its place in the rows. -/
theorem writes_mortonCopyTile_decode {tile : Memory} {base stride origin : Nat}
    {value : Nat → List UInt8}
    (hlength : ∀ p ∈ rowsOfTile origin stride, (value p).length = decodedBytes format converted)
    (hvalue : ∀ y < 8, ∀ x < 8, decodeTexel float format converted tile base x y =
      some (value (origin + (7 - y) * stride + x))) :
    Writes (fun b => b.tile = tile) (pixelAt format converted) (rowsOfTile origin stride) value
      fun b => mortonCopyTile float true format converted stride ⟨base, tileSize format⟩
        ⟨origin * linearBytesPerPixel format converted,
          (7 * stride + 8) * linearBytesPerPixel format converted⟩ b := by
  have hrow : ∀ y ∈ List.range 8, ∀ x ∈ List.range 8, Writes (fun b => b.tile = tile)
      (pixelAt format converted) {origin + (7 - y) * stride + x} value
      fun b => copyPixel float true format converted stride ⟨base, tileSize format⟩
        ⟨origin * linearBytesPerPixel format converted,
          (7 * stride + 8) * linearBytesPerPixel format converted⟩ y b x := by
    intro y hy x hx
    rw [List.mem_range] at hy hx
    apply writes_copyPixel_decode float hx (hlength _ ⟨y, hy, x, hx, rfl⟩)
    exact hvalue y hy x hx
  have hall := Writes.foldlM fun y hy => Writes.foldlM (hrow y hy)
  apply hall.congr
  · intro p
    simp only [rowsOfTile, Set.mem_ofPred_eq, List.mem_range, Set.mem_singleton_iff]
  · intro p _
    rfl

/-! ## From the rows to the tile -/

/-- The nibble a pixel is encoded to. -/
def encodedNibble (format : PixelFormat) (source : List UInt8) : UInt8 :=
  convert8To4 (if format = .i4 then averageRgbComponents (Vec4.ofBytes source) else (Vec4.ofBytes source).a)

/-- The number of the pixel at a place of the tile. -/
def placeInRows (origin stride place : Nat) : Nat := origin + (7 - mortonY place) * stride + mortonX place

/-- Byte `i` of the tile the rows are encoded to. -/
def encodedByte (float : FloatDepth) (format : PixelFormat) (converted : Bool) (stride : Nat)
    (linear : Memory) (origin i : Nat) : UInt8 :=
  let source (place : Nat) := sourcePixel format converted linear (placeInRows origin stride place)
  if is4bit format then
    (encodedNibble format (source (2 * i + 1)) <<< 4) ||| encodedNibble format (source (2 * i))
  else
    byteAt (encodePixel float format converted (source (i / (getFormatBpp format / 8))))
      (i % (getFormatBpp format / 8))

theorem placeInRows_mortonInterleave (origin stride : Nat) {x y : Nat} (hx : x < 8) (hy : y < 8) :
    placeInRows origin stride (mortonInterleave x y) = origin + (7 - y) * stride + x := by
  rw [placeInRows, mortonX_mortonInterleave hx hy, mortonY_mortonInterleave hx hy]

/-- A pixel of the rows is read and encoded. -/
theorem copyPixel_encode {stride base origin x y : Nat} (hx : x < 8) {b : Buffers} {tile : Memory}
    (h : encodeTiledPixel float format converted x y
      (sourcePixel format converted b.linear (origin + (7 - y) * stride + x)) b.tile
      ⟨base, tileSize format⟩
      ⟨base + mortonInterleave x y * (getFormatBpp format / 8), getFormatBpp format / 8⟩ = some tile) :
    copyPixel float false format converted stride ⟨base, tileSize format⟩
        ⟨origin * linearBytesPerPixel format converted,
          (7 * stride + 8) * linearBytesPerPixel format converted⟩ y b x =
      some ⟨b.linear, tile⟩ := by
  have htiled := subspan_eq (s := ⟨base, tileSize format⟩) (tiledPixel_le format x y)
  have hlinear := @linearPixel_subspan format converted stride origin x y hx
  have hload := load_eq (s := ⟨(origin + (7 - y) * stride + x) * linearBytesPerPixel format converted,
    linearBytesPerPixel format converted⟩) b.linear (decodedBytes_le format converted)
  rw [sourcePixel] at h
  simp only [copyPixel, htiled, hlinear, Option.bind_eq_bind, Option.bind_some, hload, h,
    Bool.false_eq_true, if_false]
  rfl

/-- The bytes of a tile. -/
def bytesOfTile (base : Nat) (format : PixelFormat) : Set Nat := {j | base ≤ j ∧ j < base + tileSize format}

/-- What is seen of a byte of the tiled buffer. -/
def tiledByte (j : Nat) (b : Buffers) : UInt8 := b.tile j

theorem is4bit_of_isExact (h : isExact format converted) : is4bit format = false := by
  cases h4 : is4bit format
  · rfl
  · rw [isExact, h4] at h
    simp at h

theorem isCompressed_of_isExact (h : isExact format converted) : isCompressed format = false := by
  cases hc : isCompressed format
  · rfl
  · rw [isExact, hc] at h
    simp at h

/-- The bytes of an encoded pixel, at its place in the tile. -/
theorem encodedByte_pixel (h4 : is4bit format = false) {stride origin x y i : Nat} {linear : Memory}
    (hx : x < 8) (hy : y < 8) (hi : i < getFormatBpp format / 8) :
    encodedByte float format converted stride linear origin
        (mortonInterleave x y * (getFormatBpp format / 8) + i) =
      byteAt (encodePixel float format converted
        (sourcePixel format converted linear (origin + (7 - y) * stride + x))) i := by
  have hdiv : (mortonInterleave x y * (getFormatBpp format / 8) + i) / (getFormatBpp format / 8) =
      mortonInterleave x y := by
    rw [Nat.add_comm, Nat.add_mul_div_right _ _ (by omega), Nat.div_eq_of_lt hi, Nat.zero_add]
  have hmod : (mortonInterleave x y * (getFormatBpp format / 8) + i) % (getFormatBpp format / 8) = i := by
    rw [Nat.add_comm, Nat.add_mul_mod_self_right, Nat.mod_eq_of_lt hi]
  simp only [encodedByte, h4, Bool.false_eq_true, if_false]
  rw [hdiv, hmod, placeInRows_mortonInterleave _ _ hx hy]

/-- The bytes of one pixel are encoded to their place. -/
theorem writes_copyPixel_bytes (hexact : isExact format converted) {linear : Memory}
    {base stride origin x y : Nat} (hx : x < 8) (hy : y < 8) :
    Writes (fun b => b.linear = linear) tiledByte
      {j | base + mortonInterleave x y * (getFormatBpp format / 8) ≤ j ∧
        j < base + mortonInterleave x y * (getFormatBpp format / 8) + getFormatBpp format / 8}
      (fun j => encodedByte float format converted stride linear origin (j - base))
      fun b => copyPixel float false format converted stride ⟨base, tileSize format⟩
        ⟨origin * linearBytesPerPixel format converted,
          (7 * stride + 8) * linearBytesPerPixel format converted⟩ y b x := by
  rintro b rfl
  have h4 := is4bit_of_isExact hexact
  have hlength : (encodePixel float format converted (sourcePixel format converted b.linear
      (origin + (7 - y) * stride + x))).length = getFormatBpp format / 8 :=
    length_encodePixel float hexact (length_readBlock ..)
  have hencode : encodeTiledPixel float format converted x y
      (sourcePixel format converted b.linear (origin + (7 - y) * stride + x)) b.tile
      ⟨base, tileSize format⟩
      ⟨base + mortonInterleave x y * (getFormatBpp format / 8), getFormatBpp format / 8⟩ =
      some (writeBlock b.tile (base + mortonInterleave x y * (getFormatBpp format / 8))
        (encodePixel float format converted
          (sourcePixel format converted b.linear (origin + (7 - y) * stride + x)))
        (getFormatBpp format / 8)) := by
    rw [encodeTiledPixel, if_neg (by rw [h4]; decide), store_eq _ (by rw [hlength]), hlength]
  refine ⟨_, copyPixel_encode float hx hencode, rfl, ?_, ?_⟩
  · rintro j ⟨hlo, hhi⟩
    obtain ⟨i, rfl⟩ := Nat.exists_eq_add_of_le hlo
    have hi : i < getFormatBpp format / 8 := by omega
    have hplace : base + mortonInterleave x y * (getFormatBpp format / 8) + i - base =
        mortonInterleave x y * (getFormatBpp format / 8) + i := by
      omega
    simp only [tiledByte]
    rw [writeBlock, if_pos ⟨hlo, hhi⟩, Nat.add_sub_cancel_left, hplace,
      encodedByte_pixel float h4 hx hy hi]
  · intro j hj
    rw [Set.mem_ofPred_eq] at hj
    simp only [tiledByte]
    rw [writeBlock, if_neg hj]

/-! ### Nibbles -/

/-- Nibble `n` of the tiled buffer, the low one of a byte first. -/
def tiledNibble (n : Nat) (b : Buffers) : UInt8 :=
  if n % 2 = 1 then b.tile (n / 2) >>> 4 else b.tile (n / 2) &&& 0xF

/-- A byte is its two nibbles. -/
theorem tiledByte_eq_nibbles (j : Nat) (b : Buffers) :
    tiledByte j b = (tiledNibble (2 * j + 1) b <<< 4) ||| tiledNibble (2 * j) b := by
  have hjoin : ∀ v : UInt8, ((v >>> 4) <<< 4) ||| (v &&& 0xF) = v := forall_uint8 (by decide +kernel)
  rw [tiledNibble, tiledNibble, if_pos (by omega), if_neg (by omega),
    show (2 * j + 1) / 2 = j by omega, show 2 * j / 2 = j by omega, hjoin]
  rfl

theorem toNat_high_nibble (current new : UInt8) (h : new < 16) :
    ((new <<< 4) ||| (current &&& 0x0F)).toNat = 16 * new.toNat + current.toNat % 16 := by
  have hn : new.toNat < 16 := h
  have hmask : (current &&& 0x0F).toNat = current.toNat % 2 ^ 4 := by
    rw [UInt8.toNat_and]
    exact Nat.and_two_pow_sub_one_eq_mod _ 4
  have hshift : (new <<< 4).toNat = 2 ^ 4 * new.toNat := by
    rw [UInt8.toNat_shiftLeft, Nat.shiftLeft_eq]
    simp
    omega
  rw [UInt8.toNat_or, hmask, hshift, ← Nat.two_pow_add_eq_or_of_lt (Nat.mod_lt _ (by decide))]

theorem toNat_low_nibble (current new : UInt8) (h : new < 16) :
    ((current &&& 0xF0) ||| new).toNat = 16 * (current.toNat / 16) + new.toNat := by
  have hn : new.toNat < 16 := h
  have hmask : ∀ v : UInt8, (v &&& 0xF0).toNat = 2 ^ 4 * (v.toNat / 16) := forall_uint8 (by decide +kernel)
  rw [UInt8.toNat_or, hmask, ← Nat.two_pow_add_eq_or_of_lt hn]

theorem toNat_high (v : UInt8) : (v >>> 4).toNat = v.toNat / 16 := by
  rw [UInt8.toNat_shiftRight, Nat.shiftRight_eq_div_pow]
  rfl

theorem toNat_low (v : UInt8) : (v &&& 0xF).toNat = v.toNat % 16 := by
  rw [UInt8.toNat_and]
  exact Nat.and_two_pow_sub_one_eq_mod _ 4

theorem encodedNibble_lt (format : PixelFormat) (source : List UInt8) : encodedNibble format source < 16 := by
  have hlt : ∀ v : UInt8, convert8To4 v < 16 := forall_uint8 (by decide +kernel)
  exact hlt _

/-- The byte `EncodePixel4` stores. -/
def nibbleStored (place : Nat) (current new : UInt8) : UInt8 :=
  if place % 2 = 1 then (new <<< 4) ||| (current &&& 0x0F) else (current &&& 0xF0) ||| new

theorem encodePixel4_eq (h4 : is4bit format) (tile : Memory) (base x y : Nat) (source : List UInt8) :
    encodePixel4 format x y source tile ⟨base, tileSize format⟩ =
      some (writeBlock tile (base + mortonInterleave x y / 2)
        [nibbleStored (mortonInterleave x y) (tile (base + mortonInterleave x y / 2))
          (encodedNibble format source)] 1) := by
  have hlt := mortonInterleave_lt x y
  have hsize : mortonInterleave x y / 2 + 1 ≤ tileSize format := by
    rw [nibbles_eq_tileSize h4]
    omega
  rw [encodePixel4, subspan_eq hsize]
  simp only [Option.bind_eq_bind, Option.bind_some]
  rw [store_eq _ (le_refl _)]
  rfl

/-- The nibble that is stored, and the one beside it. -/
theorem tiledNibble_stored {place base n : Nat} {new : UInt8} (hnew : new < 16) (b : Buffers) :
    tiledNibble n ⟨b.linear, writeBlock b.tile (base + place / 2)
        [nibbleStored place (b.tile (base + place / 2)) new] 1⟩ =
      if n = 2 * base + place then new else tiledNibble n b := by
  have hbyte : writeBlock b.tile (base + place / 2) [nibbleStored place (b.tile (base + place / 2)) new] 1
      (n / 2) = if n / 2 = base + place / 2 then nibbleStored place (b.tile (base + place / 2)) new
        else b.tile (n / 2) := by
    rw [writeBlock]
    by_cases h : n / 2 = base + place / 2
    · rw [if_pos (by omega), if_pos h, h, Nat.sub_self]
      rfl
    · rw [if_neg (by omega), if_neg h]
  rw [tiledNibble, tiledNibble]
  simp only [hbyte]
  by_cases h : n / 2 = base + place / 2
  · rw [if_pos h, h, nibbleStored]
    have hn : new.toNat < 16 := hnew
    -- the stored nibble is read back, and the other one of its byte is as it was
    split_ifs <;> apply UInt8.toNat_inj.1 <;>
      simp only [toNat_high, toNat_low, toNat_high_nibble _ _ hnew, toNat_low_nibble _ _ hnew] <;> omega
  · rw [if_neg h, if_neg (show n ≠ 2 * base + place by omega)]

theorem writes_copyPixel_nibble (h4 : is4bit format) {linear : Memory} {base stride origin x y : Nat}
    (hx : x < 8) (hy : y < 8) :
    Writes (fun b => b.linear = linear) tiledNibble {2 * base + mortonInterleave x y}
      (fun n => encodedNibble format
        (sourcePixel format converted linear (placeInRows origin stride (n - 2 * base))))
      fun b => copyPixel float false format converted stride ⟨base, tileSize format⟩
        ⟨origin * linearBytesPerPixel format converted,
          (7 * stride + 8) * linearBytesPerPixel format converted⟩ y b x := by
  rintro b rfl
  have hencode : encodeTiledPixel float format converted x y
      (sourcePixel format converted b.linear (origin + (7 - y) * stride + x)) b.tile
      ⟨base, tileSize format⟩
      ⟨base + mortonInterleave x y * (getFormatBpp format / 8), getFormatBpp format / 8⟩ =
      encodePixel4 format x y
        (sourcePixel format converted b.linear (origin + (7 - y) * stride + x)) b.tile
        ⟨base, tileSize format⟩ := if_pos h4
  rw [encodePixel4_eq h4] at hencode
  refine ⟨_, copyPixel_encode float hx hencode, rfl, ?_, ?_⟩
  · rintro n rfl
    have hplace : 2 * base + mortonInterleave x y - 2 * base = mortonInterleave x y :=
      Nat.add_sub_cancel_left ..
    simp only [hplace, placeInRows_mortonInterleave _ _ hx hy]
    rw [tiledNibble_stored (encodedNibble_lt _ _), if_pos rfl]
  · intro n hn
    rw [Set.mem_singleton_iff] at hn
    rw [tiledNibble_stored (encodedNibble_lt _ _), if_neg hn]

/-! ### The whole tile -/

theorem mem_bytesOfTile_iff (hexact : isExact format converted) {base j : Nat} :
    j ∈ bytesOfTile base format ↔ ∃ y < 8, ∃ x < 8,
      base + mortonInterleave x y * (getFormatBpp format / 8) ≤ j ∧
        j < base + mortonInterleave x y * (getFormatBpp format / 8) + getFormatBpp format / 8 := by
  have hsize := bytes_eq_tileSize (is4bit_of_isExact hexact) (isCompressed_of_isExact hexact)
  constructor
  · rintro ⟨hlo, hhi⟩
    obtain ⟨i, rfl⟩ := Nat.exists_eq_add_of_le hlo
    have hi : i < 64 * (getFormatBpp format / 8) := by omega
    have hpos : 0 < getFormatBpp format / 8 := by
      apply Nat.pos_of_ne_zero
      intro h
      rw [h] at hi
      omega
    have hplace : i / (getFormatBpp format / 8) < 64 := (Nat.div_lt_iff_lt_mul hpos).2 hi
    have hdiv := Nat.div_add_mod i (getFormatBpp format / 8)
    have hmod := Nat.mod_lt i hpos
    refine ⟨_, mortonY_lt (i / (getFormatBpp format / 8)), _, mortonX_lt (i / (getFormatBpp format / 8)), ?_⟩
    rw [mortonInterleave_mortonX_mortonY hplace, Nat.mul_comm]
    omega
  · rintro ⟨y, _, x, _, hlo, hhi⟩
    have hle := tiledPixel_le format x y
    exact ⟨by omega, by omega⟩

theorem writes_mortonCopyTile_bytes (hexact : isExact format converted) (linear : Memory)
    (base stride origin : Nat) :
    Writes (fun b => b.linear = linear) tiledByte (bytesOfTile base format)
      (fun j => encodedByte float format converted stride linear origin (j - base))
      fun b => mortonCopyTile float false format converted stride ⟨base, tileSize format⟩
        ⟨origin * linearBytesPerPixel format converted,
          (7 * stride + 8) * linearBytesPerPixel format converted⟩ b := by
  have hpixel : ∀ y ∈ List.range 8, ∀ x ∈ List.range 8, Writes (fun b => b.linear = linear) tiledByte
      {j | base + mortonInterleave x y * (getFormatBpp format / 8) ≤ j ∧
        j < base + mortonInterleave x y * (getFormatBpp format / 8) + getFormatBpp format / 8}
      (fun j => encodedByte float format converted stride linear origin (j - base))
      fun b => copyPixel float false format converted stride ⟨base, tileSize format⟩
        ⟨origin * linearBytesPerPixel format converted,
          (7 * stride + 8) * linearBytesPerPixel format converted⟩ y b x := by
    intro y hy x hx
    exact writes_copyPixel_bytes float hexact (List.mem_range.1 hx) (List.mem_range.1 hy)
  have hall := Writes.foldlM fun y hy => Writes.foldlM (hpixel y hy)
  apply hall.congr
  · intro j
    simp only [mem_bytesOfTile_iff hexact, Set.mem_ofPred_eq, List.mem_range]
  · intro j _
    rfl

/-- A loop that writes every nibble of a tile writes its bytes. -/
theorem writes_bytes_of_nibbles (h4 : is4bit format) {linear : Memory} {base stride origin : Nat}
    {f : Buffers → Option Buffers}
    (h : Writes (fun b => b.linear = linear) tiledNibble {n | 2 * base ≤ n ∧ n < 2 * base + 64}
      (fun n => encodedNibble format
        (sourcePixel format converted linear (placeInRows origin stride (n - 2 * base)))) f) :
    Writes (fun b => b.linear = linear) tiledByte (bytesOfTile base format)
      (fun j => encodedByte float format converted stride linear origin (j - base)) f := by
  intro b hb
  obtain ⟨b', hf, hb', hin, hout⟩ := h b hb
  refine ⟨b', hf, hb', ?_, ?_⟩
  · rintro j ⟨hlo, hhi⟩
    rw [nibbles_eq_tileSize h4] at hhi
    rw [tiledByte_eq_nibbles, hin (2 * j + 1) ⟨by omega, by omega⟩, hin (2 * j) ⟨by omega, by omega⟩]
    simp only [encodedByte, h4, if_true]
    rw [show 2 * j + 1 - 2 * base = 2 * (j - base) + 1 by omega,
      show 2 * j - 2 * base = 2 * (j - base) by omega]
  · intro j hj
    have hj' : j < base ∨ base + 32 ≤ j := by
      by_contra hcon
      apply hj
      refine ⟨by omega, ?_⟩
      rw [nibbles_eq_tileSize h4]
      omega
    have hodd : 2 * j + 1 ∉ {n | 2 * base ≤ n ∧ n < 2 * base + 64} := by
      rintro ⟨h₁, h₂⟩
      omega
    have heven : 2 * j ∉ {n | 2 * base ≤ n ∧ n < 2 * base + 64} := by
      rintro ⟨h₁, h₂⟩
      omega
    rw [tiledByte_eq_nibbles, tiledByte_eq_nibbles, hout _ hodd, hout _ heven]

theorem writes_mortonCopyTile_nibbles (h4 : is4bit format) (linear : Memory) (base stride origin : Nat) :
    Writes (fun b => b.linear = linear) tiledByte (bytesOfTile base format)
      (fun j => encodedByte float format converted stride linear origin (j - base))
      fun b => mortonCopyTile float false format converted stride ⟨base, tileSize format⟩
        ⟨origin * linearBytesPerPixel format converted,
          (7 * stride + 8) * linearBytesPerPixel format converted⟩ b := by
  have hpixel : ∀ y ∈ List.range 8, ∀ x ∈ List.range 8, Writes (fun b => b.linear = linear) tiledNibble
      {2 * base + mortonInterleave x y}
      (fun n => encodedNibble format
        (sourcePixel format converted linear (placeInRows origin stride (n - 2 * base))))
      fun b => copyPixel float false format converted stride ⟨base, tileSize format⟩
        ⟨origin * linearBytesPerPixel format converted,
          (7 * stride + 8) * linearBytesPerPixel format converted⟩ y b x := by
    intro y hy x hx
    exact writes_copyPixel_nibble float h4 (List.mem_range.1 hx) (List.mem_range.1 hy)
  have hall := Writes.foldlM fun y hy => Writes.foldlM (hpixel y hy)
  apply writes_bytes_of_nibbles float h4
  apply hall.congr
  · intro n
    simp only [Set.mem_ofPred_eq, List.mem_range, Set.mem_singleton_iff]
    constructor
    · rintro ⟨hlo, hhi⟩
      refine ⟨_, mortonY_lt (n - 2 * base), _, mortonX_lt (n - 2 * base), ?_⟩
      rw [mortonInterleave_mortonX_mortonY (by omega)]
      omega
    · rintro ⟨y, _, x, _, rfl⟩
      have hlt := mortonInterleave_lt x y
      omega
  · intro n _
    rfl

/-- Every byte of the tile is encoded from the rows, whatever it was. -/
theorem writes_mortonCopyTile_encode (hfloat : noFloat format converted) (hc : ¬ isCompressed format)
    (linear : Memory) (base stride origin : Nat) :
    Writes (fun b => b.linear = linear) tiledByte (bytesOfTile base format)
      (fun j => encodedByte float format converted stride linear origin (j - base))
      fun b => mortonCopyTile float false format converted stride ⟨base, tileSize format⟩
        ⟨origin * linearBytesPerPixel format converted,
          (7 * stride + 8) * linearBytesPerPixel format converted⟩ b := by
  by_cases h4 : is4bit format
  · exact writes_mortonCopyTile_nibbles float h4 linear base stride origin
  · exact writes_mortonCopyTile_bytes float (isExact_of_noFloat hfloat hc h4) linear base stride origin

end

end AzaharPlus.Video
