import AzaharPlus.Lib.BlockMemory
import AzaharPlus.Video.PixelCodec

/-!
# Looking up a texel

`video_core/texture/texture_decode.cpp` and `etc1.cpp`: the colour of one texel of a texture,
found from its coordinates.  The texture is a memory and `source` the address its pointer holds.

* `lookupTexture`, `lookupTexelInTile`: the decoder of the software renderer;
* `sampleETC1Subtile`: a texel of a compressed block.
-/

namespace AzaharPlus.Video

open Bytes BlockMemory

/-! ## Order of the texels of a tile -/

/-- `MortonInterleave`: the place of a texel in its tile of eight by eight. -/
def mortonInterleave (x y : Nat) : Nat :=
  [0x00, 0x01, 0x04, 0x05, 0x10, 0x11, 0x14, 0x15].getD (x % 8) 0 +
    [0x00, 0x02, 0x08, 0x0a, 0x20, 0x22, 0x28, 0x2a].getD (y % 8) 0

/-! ## Compressed blocks -/

/-- `Common::Vec3<u8>`. -/
structure Vec3 where
  r : UInt8
  g : UInt8
  b : UInt8
  deriving DecidableEq, Repr

/-- `etc1_modifier_table`. -/
def etc1ModifierTable : List (List Nat) :=
  [[2, 8], [5, 17], [9, 29], [13, 42], [18, 60], [24, 80], [33, 106], [47, 183]]

/-- A `BitField<position, bits, u64>` of the block. -/
def bitField (raw : UInt64) (position bits : Nat) : Nat := raw.toNat / 2 ^ position % 2 ^ bits

/-- A `BitField<position, bits, s64>` of the block. -/
def signedBitField (raw : UInt64) (position bits : Nat) : Int :=
  let value := bitField raw position bits
  if value < 2 ^ (bits - 1) then value else (value : Int) - 2 ^ bits

/-- What is passed on as a `u8`. -/
def castU8 (value : Int) : UInt8 := UInt8.ofNat (value % 256).toNat

/-- `std::clamp(value, 0, 255)`, cast to `u8`. -/
def clampU8 (value : Int) : UInt8 := castU8 (max 0 (min 255 value))

/-- A component of the base colour in differential mode: `Convert5To8` of the base value, with the
delta added in the second half of the block. -/
def differentialBase (raw : UInt64) (delta base : Nat) (second : Bool) : UInt8 :=
  let value : Int := bitField raw base 5
  convert5To8 (castU8 (if second then value + signedBitField raw delta 3 else value))

/-- A component of the base colour in separate mode. -/
def separateBase (raw : UInt64) (first second : Nat) (inSecond : Bool) : UInt8 :=
  convert4To8 (castU8 (bitField raw (if inSecond then second else first) 4))

/-- `ETC1Tile::GetRGB`. -/
def getRGB (raw : UInt64) (x y : Nat) : Vec3 :=
  let texel := 4 * x + y
  let flip := bitField raw 32 1 = 1
  -- the block is cut in two halves along the coordinate that is left
  let half := if flip then y else x
  let second : Bool := !(half < 2)
  let differentialMode := bitField raw 33 1 = 1
  let r := if differentialMode then differentialBase raw 56 59 second
    else separateBase raw 60 56 second
  let g := if differentialMode then differentialBase raw 48 51 second
    else separateBase raw 52 48 second
  let b := if differentialMode then differentialBase raw 40 43 second
    else separateBase raw 44 40 second
  let tableIndex := if half < 2 then bitField raw 37 3 else bitField raw 34 3
  let tableSubIndex := bitField raw texel 1
  let magnitude : Int := ((etc1ModifierTable.getD tableIndex []).getD tableSubIndex 0 : Nat)
  let modifier := if bitField raw (16 + texel) 1 = 1 then -magnitude else magnitude
  ⟨clampU8 (r.toNat + modifier), clampU8 (g.toNat + modifier), clampU8 (b.toNat + modifier)⟩

/-- `SampleETC1Subtile`. -/
def sampleETC1Subtile (value : UInt64) (x y : Nat) : Vec3 := getRGB value x y

/-- The `u64_le` of eight bytes. -/
def readLE64 (bytes : List UInt8) : UInt64 :=
  UInt64.ofNat ((readLE32 bytes 0).toNat + 2 ^ 32 * (readLE32 bytes 4).toNat)

/-! ## Texels -/

/-- `TexturingRegs::TextureFormat`. -/
inductive TextureFormat
  | rgba8 | rgb8 | rgb5a1 | rgb565 | rgba4 | ia8 | rg8 | i8 | a8 | ia4 | i4 | a4 | etc1 | etc1a4
  deriving DecidableEq, Repr

/-- `CalculateTileSize`. -/
def calculateTileSize : TextureFormat → Nat
  | .rgba8 => 4 * 64
  | .rgb8 => 3 * 64
  | .rgb5a1 => 2 * 64
  | .rgb565 => 2 * 64
  | .rgba4 => 2 * 64
  | .ia8 => 2 * 64
  | .rg8 => 2 * 64
  | .i8 => 1 * 64
  | .a8 => 1 * 64
  | .ia4 => 1 * 64
  | .i4 => 64 / 2
  | .a4 => 64 / 2
  | .etc1 => 4 * 8
  | .etc1a4 => 4 * 16

/-- `TextureInfo`, as far as a lookup reads it. -/
structure TextureInfo where
  stride : Nat
  format : TextureFormat

/-- `SetDefaultStride` for a texture of a given width. -/
def defaultInfo (format : TextureFormat) (width : Nat) : TextureInfo :=
  ⟨calculateTileSize format * (width / 8), format⟩

/-- A colour whose alpha is shown or not. -/
def Vec4.showAlpha (color : Vec4) (disableAlpha : Bool) : Vec4 :=
  { color with a := if disableAlpha then 255 else color.a }

/-- The nibble of a texel, widened. -/
def lookupNibble (memory : Memory) (source x y : Nat) : UInt8 :=
  let mortonOffset := mortonInterleave x y
  let value := memory (source + mortonOffset / 2)
  convert4To8 (if mortonOffset % 2 = 1 then (value &&& 0xF0) >>> 4 else value &&& 0xF)

/-- The texel of a tile of blocks of four by four texels. -/
def lookupETC1 (memory : Memory) (source x y : Nat) (hasAlpha disableAlpha : Bool) : Vec4 :=
  let subtileSize := if hasAlpha then 16 else 8
  let subtileIndex := x / 4 + 2 * (y / 4)
  let x := x % 4
  let y := y % 4
  let subtile := source + subtileIndex * subtileSize
  let packedAlpha := readLE64 (readBlock memory subtile 8)
  let alpha := if hasAlpha then convert4To8 (castU8 (bitField packedAlpha (4 * (x * 4 + y)) 4)) else 255
  let data := if hasAlpha then subtile + 8 else subtile
  let rgb := sampleETC1Subtile (readLE64 (readBlock memory data 8)) x y
  ⟨rgb.r, rgb.g, rgb.b, if disableAlpha then 255 else alpha⟩

/-- `LookupTexelInTile`. -/
def lookupTexelInTile (memory : Memory) (source x y : Nat) (info : TextureInfo) (disableAlpha : Bool) :
    Vec4 :=
  let at' (bytes : Nat) : List UInt8 := readBlock memory (source + mortonInterleave x y * bytes) bytes
  match info.format with
  | .rgba8 => (decodeRGBA8 (at' 4)).showAlpha disableAlpha
  | .rgb8 => { decodeRGB8 (at' 3) with a := 255 }
  | .rgb5a1 => (decodeRGB5A1 (at' 2)).showAlpha disableAlpha
  | .rgb565 => { decodeRGB565 (at' 2) with a := 255 }
  | .rgba4 => (decodeRGBA4 (at' 2)).showAlpha disableAlpha
  | .ia8 =>
    let a := byteAt (at' 2) 0
    let i := byteAt (at' 2) 1
    if disableAlpha then ⟨i, a, 0, 255⟩ else ⟨i, i, i, a⟩
  | .rg8 => { decodeRG8 (at' 2) with b := 0, a := 255 }
  | .i8 =>
    let i := byteAt (at' 1) 0
    ⟨i, i, i, 255⟩
  | .a8 =>
    let a := byteAt (at' 1) 0
    if disableAlpha then ⟨a, a, a, 255⟩ else ⟨0, 0, 0, a⟩
  | .ia4 =>
    let i := convert4To8 ((byteAt (at' 1) 0 &&& 0xF0) >>> 4)
    let a := convert4To8 (byteAt (at' 1) 0 &&& 0xF)
    if disableAlpha then ⟨i, a, 0, 255⟩ else ⟨i, i, i, a⟩
  | .i4 =>
    let i := lookupNibble memory source x y
    ⟨i, i, i, 255⟩
  | .a4 =>
    let a := lookupNibble memory source x y
    if disableAlpha then ⟨a, a, a, 255⟩ else ⟨0, 0, 0, a⟩
  | .etc1 => lookupETC1 memory source x y false disableAlpha
  | .etc1a4 => lookupETC1 memory source x y true disableAlpha

/-- `LookupTexture`. -/
def lookupTexture (memory : Memory) (source x y : Nat) (info : TextureInfo) (disableAlpha : Bool) : Vec4 :=
  let line := source + y / 8 * info.stride
  let tile := line + x / 8 * calculateTileSize info.format
  lookupTexelInTile memory tile (x % 8) (y % 8) info disableAlpha

end AzaharPlus.Video
