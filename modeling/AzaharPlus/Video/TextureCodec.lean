import AzaharPlus.Video.TextureDecode

/-!
# Copying between tiles and rows

`MortonCopy` of `video_core/rasterizer_cache/texture_codec.h`: the copy between the tiled memory of
the guest and the rows of a linear buffer, in both directions, with the temporary tile of a copy
that starts or ends inside a tile.

Every access goes through the span the source takes it from, and one that leaves its span is
`none`, as is the failing assertion.  Sizes are natural numbers: a tiled buffer is a part of the
guest's memory, of `2^28` bytes at most, and the 32-bit offsets of the source do not wrap there.
The contents of the uninitialised temporary tiles are parameters.

* `mortonCopy`, with its three sections `copyHead`, `copyMiddle` and `copyTail`;
* `mortonCopyTile`: one tile.
-/

namespace AzaharPlus.Video

open Bytes BlockMemory

/-! ## Spans -/

/-- `std::span<u8>`: a part of a buffer. -/
structure Span where
  base : Nat
  size : Nat
  deriving DecidableEq, Repr

/-- `subspan`, for a part that is inside. -/
def Span.subspan (s : Span) (offset count : Nat) : Option Span :=
  if offset + count ≤ s.size then some ⟨s.base + offset, count⟩ else none

/-- The first `count` bytes of a span. -/
def Span.load (s : Span) (memory : Memory) (count : Nat) : Option (List UInt8) :=
  (s.subspan 0 count).map fun s => readBlock memory s.base count

/-- The memory with bytes copied to the start of a span. -/
def Span.store (s : Span) (memory : Memory) (data : List UInt8) : Option Memory :=
  (s.subspan 0 data.length).map fun s => writeBlock memory s.base data data.length

/-! ## One pixel -/

/-- `linear_bytes_per_pixel`. -/
def linearBytesPerPixel (format : PixelFormat) (converted : Bool) : Nat :=
  if converted then 4 else getFormatBytesPerPixel format

/-- `tile_size`. -/
def tileSize (format : PixelFormat) : Nat := getFormatBpp format * 64 / 8

/-- `DecodePixel4`. -/
def decodePixel4 (format : PixelFormat) (x y : Nat) (tile : Memory) (sourceTile : Span) :
    Option (List UInt8) := do
  let mortonOffset := mortonInterleave x y
  let source ← sourceTile.subspan (mortonOffset / 2) 1
  let value := tile source.base
  let pixel := convert4To8 (if mortonOffset % 2 = 1 then value >>> 4 else value &&& 0xF)
  return if format = .i4 then [pixel, pixel, pixel, 255] else [0, 0, 0, pixel]

/-- `DecodePixelETC1`. -/
def decodePixelETC1 (format : PixelFormat) (x y : Nat) (tile : Memory) (sourceTile : Span) :
    Option (List UInt8) := do
  let hasAlpha := format = .etc1a4
  let subtileSize := if hasAlpha then 16 else 8
  let subtileIndex := x / 4 + 2 * (y / 4)
  let x := x % 4
  let y := y % 4
  let subtile ← sourceTile.subspan (subtileIndex * subtileSize) subtileSize
  let packedAlpha := readLE64 (readBlock tile subtile.base 8)
  let alpha := if hasAlpha then convert4To8 (castU8 (bitField packedAlpha (4 * (x * 4 + y)) 4)) else 255
  let data := if hasAlpha then subtile.base + 8 else subtile.base
  let rgb := sampleETC1Subtile (readLE64 (readBlock tile data 8)) x y
  return [rgb.r, rgb.g, rgb.b, alpha]

/-- `EncodePixel4`: the tile with the nibble of the pixel. -/
def encodePixel4 (format : PixelFormat) (x y : Nat) (source : List UInt8) (tile : Memory)
    (destTile : Span) : Option Memory := do
  let rgba := Vec4.ofBytes source
  let pixel := if format = .i4 then averageRgbComponents rgba else rgba.a
  let mortonOffset := mortonInterleave x y
  let dest ← destTile.subspan (mortonOffset / 2) 1
  let currentValues := tile dest.base
  let newValue := convert8To4 pixel
  let value := if mortonOffset % 2 = 1 then (newValue <<< 4) ||| (currentValues &&& 0x0F)
    else (currentValues &&& 0xF0) ||| newValue
  dest.store tile [value]

/-- The bytes of a linear pixel `DecodePixel` writes and `EncodePixel` reads. -/
def decodedBytes (format : PixelFormat) (converted : Bool) : Nat :=
  match format, converted with
  | .rgba8, _ => 4
  | .rgb8, true => 4
  | .rgb565, true => 4
  | .rgb5a1, true => 4
  | .rgba4, true => 4
  | .d24, true => 4
  | .rgb8, false => 3
  | .rgb565, false => 2
  | .rgb5a1, false => 2
  | .rgba4, false => 2
  | .d24, false => 3
  | .d16, _ => 2
  | _, _ => 4

/-! ## One tile -/

/-- The two buffers of a copy. -/
structure Buffers where
  linear : Memory
  tile : Memory

section

variable (float : FloatDepth) (mortonToLinear : Bool) (format : PixelFormat) (converted : Bool)

/-- The branch of `MortonCopyTile` that decodes a pixel. -/
def decodeTiledPixel (x y : Nat) (tile : Memory) (tileBuffer tiledPixel : Span) : Option (List UInt8) :=
  if isCompressed format then decodePixelETC1 format x y tile tileBuffer
  else if is4bit format then decodePixel4 format x y tile tileBuffer
  else (tiledPixel.load tile (getFormatBpp format / 8)).map (decodePixel float format converted)

/-- The branch of `MortonCopyTile` that encodes a pixel. -/
def encodeTiledPixel (x y : Nat) (source : List UInt8) (tile : Memory) (tileBuffer tiledPixel : Span) :
    Option Memory :=
  if is4bit format then encodePixel4 format x y source tile tileBuffer
  else tiledPixel.store tile (encodePixel float format converted source)

/-- The body of the loops of `MortonCopyTile`. -/
def copyPixel (stride : Nat) (tileBuffer linearBuffer : Span) (y : Nat) (b : Buffers) (x : Nat) :
    Option Buffers := do
  let bytesPerPixel := getFormatBpp format / 8
  let linearBytes := linearBytesPerPixel format converted
  let tiledPixel ← tileBuffer.subspan (mortonInterleave x y * bytesPerPixel) bytesPerPixel
  let linearPixel ← linearBuffer.subspan (((7 - y) * stride + x) * linearBytes) linearBytes
  if mortonToLinear then
    let pixel ← decodeTiledPixel float format converted x y b.tile tileBuffer tiledPixel
    let linear ← linearPixel.store b.linear pixel
    return { b with linear := linear }
  else
    let source ← linearPixel.load b.linear (decodedBytes format converted)
    let tile ← encodeTiledPixel float format converted x y source b.tile tileBuffer tiledPixel
    return { b with tile := tile }

/-- `MortonCopyTile`. -/
def mortonCopyTile (stride : Nat) (tileBuffer linearBuffer : Span) (b : Buffers) : Option Buffers :=
  (List.range 8).foldlM (fun b y =>
    (List.range 8).foldlM
      (copyPixel float mortonToLinear format converted stride tileBuffer linearBuffer y) b) b

/-! ## A range of tiles -/

/-- `Common::AlignDown`. -/
def alignDown (value size : Nat) : Nat := value - value % size

/-- `Common::AlignUp`. -/
def alignUp (value size : Nat) : Nat :=
  if value % size = 0 then value - value % size else value - value % size + size

/-- The variables `x`, `y`, `linear_offset` and `tiled_offset`. -/
structure Walk where
  x : Nat
  y : Nat
  linearOffset : Nat
  tiledOffset : Nat

/-- `linear_next_tile`. -/
def linearNextTile (width height : Nat) (w : Walk) : Walk :=
  let aligned := linearBytesPerPixel format converted
  let x := (w.x + 8) % width
  let linearOffset := w.linearOffset + 8 * aligned
  if x ≠ 0 then { w with x := x, linearOffset := linearOffset }
  else
    let y := (w.y + 8) % height
    if y = 0 then { w with x := x, y := y, linearOffset := linearOffset }
    else { w with x := x, y := y, linearOffset := linearOffset - width * 9 * aligned }

/-- The tile of the linear buffer the walk is at: `linear_buffer.subspan(linear_offset, linear_tile_stride)`. -/
def linearData (width : Nat) (linearBuffer : Span) (w : Walk) : Option Span :=
  linearBuffer.subspan w.linearOffset ((7 * width + 8) * linearBytesPerPixel format converted)

/-- `std::memcpy` of a part of the temporary tile to the tiled buffer. -/
def copyTmp (tmp tiled : Memory) (tmpOffset : Nat) (tiledBuffer : Span) (tiledOffset count : Nat) :
    Option Memory := do
  let source ← (⟨0, tileSize format⟩ : Span).subspan tmpOffset count
  let dest ← tiledBuffer.subspan tiledOffset count
  dest.store tiled (readBlock tmp source.base count)

/-- The section for a first tile that is not copied whole. -/
def copyHead (width height startOffset endOffset : Nat) (linearBuffer tiledBuffer : Span) (tmp : Memory)
    (w : Walk) (b : Buffers) : Option (Walk × Buffers) :=
  let size := tileSize format
  let alignedStartOffset := alignUp startOffset size
  if startOffset < alignedStartOffset && !mortonToLinear then do
    let data ← linearData format converted width linearBuffer w
    let copied ← mortonCopyTile float mortonToLinear format converted width ⟨0, size⟩ data
      { b with tile := tmp }
    let tiled ← copyTmp format copied.tile b.tile (startOffset - alignDown startOffset size) tiledBuffer 0
      (min alignedStartOffset endOffset - startOffset)
    let w := { w with tiledOffset := w.tiledOffset + (alignedStartOffset - startOffset) }
    return (linearNextTile format converted width height w, ⟨copied.linear, tiled⟩)
  else some (w, b)

/-- The loop over the tiles that are copied whole. -/
def copyTiles (width height bufferEnd : Nat) (linearBuffer tiledBuffer : Span) :
    Nat → Walk → Buffers → Option (Walk × Buffers)
  | 0, _, _ => none
  | fuel + 1, w, b =>
    if w.tiledOffset < bufferEnd then do
      let data ← linearData format converted width linearBuffer w
      let tiledData ← tiledBuffer.subspan w.tiledOffset (tileSize format)
      let b ← mortonCopyTile float mortonToLinear format converted width tiledData data b
      let w := { w with tiledOffset := w.tiledOffset + tileSize format }
      copyTiles width height bufferEnd linearBuffer tiledBuffer fuel
        (linearNextTile format converted width height w) b
    else some (w, b)

/-- The section for the tiles that are copied whole. -/
def copyMiddle (width height startOffset endOffset : Nat) (linearBuffer tiledBuffer : Span) (w : Walk)
    (b : Buffers) : Option (Walk × Buffers) :=
  let size := tileSize format
  let alignedStartOffset := alignUp startOffset size
  let alignedEndOffset := alignDown endOffset size
  if alignedStartOffset < alignedEndOffset then
    let bufferEnd := min (w.tiledOffset + alignedEndOffset - alignedStartOffset) tiledBuffer.size
    copyTiles float mortonToLinear format converted width height bufferEnd linearBuffer tiledBuffer
      (bufferEnd + 1) w b
  else some (w, b)

/-- The section for a last tile that is not copied whole. -/
def copyTail (width startOffset endOffset : Nat) (linearBuffer tiledBuffer : Span) (tmp : Memory)
    (w : Walk) (b : Buffers) : Option Buffers :=
  let size := tileSize format
  let alignedEndOffset := alignDown endOffset size
  if endOffset > max (alignUp startOffset size) alignedEndOffset && !mortonToLinear then do
    let data ← linearData format converted width linearBuffer w
    let copied ← mortonCopyTile float mortonToLinear format converted width ⟨0, size⟩ data
      { b with tile := tmp }
    let tiled ← copyTmp format copied.tile b.tile 0 tiledBuffer w.tiledOffset (endOffset - alignedEndOffset)
    return ⟨copied.linear, tiled⟩
  else some b

/-- The walk at the tile a copy starts in. -/
def beginWalk (width height startOffset : Nat) : Walk :=
  let beginPixelIndex := alignDown startOffset (tileSize format) * 8 / getFormatBpp format
  let x := beginPixelIndex % (width * 8) / 8
  let y := beginPixelIndex / (width * 8) * 8
  ⟨x, y, ((height - 8 - y) * width + x) * linearBytesPerPixel format converted, 0⟩

/-- `MortonCopy`; `tmp` holds what the two temporary tiles hold before they are written. -/
def mortonCopy (width height startOffset endOffset : Nat) (linearBuffer tiledBuffer : Span)
    (tmp : Memory × Memory) (b : Buffers) : Option Buffers := do
  let size := tileSize format
  guard (!mortonToLinear ||
    (alignUp startOffset size = startOffset && alignDown endOffset size = endOffset))
  let w := beginWalk format converted width height startOffset
  let (w, b) ← copyHead float mortonToLinear format converted width height startOffset endOffset
    linearBuffer tiledBuffer tmp.1 w b
  let (w, b) ← copyMiddle float mortonToLinear format converted width height startOffset endOffset
    linearBuffer tiledBuffer w b
  copyTail float mortonToLinear format converted width startOffset endOffset linearBuffer tiledBuffer
    tmp.2 w b

end

/-! ## The tables of the cache -/

/-- The entries of `UNSWIZZLE_TABLE` and `UNSWIZZLE_TABLE_CONVERTED` that are not null. -/
def hasUnswizzle (format : PixelFormat) (converted : Bool) : Bool :=
  match format, converted with
  | _, false => true
  | .rgba8, true => true
  | .rgb8, true => true
  | .rgb5a1, true => true
  | .rgb565, true => true
  | .rgba4, true => true
  | .d16, true => true
  | .d24, true => true
  | _, true => false

/-- The entries of `SWIZZLE_TABLE` and `SWIZZLE_TABLE_CONVERTED` that are not null. -/
def hasSwizzle (format : PixelFormat) (converted : Bool) : Bool :=
  hasUnswizzle format converted && !isCompressed format

end AzaharPlus.Video
