import AzaharPlus.Lib.IntervalSet
import Mathlib.Tactic.Ring
import AzaharPlus.Video.TextureCodec

/-!
# Where the pixels of a surface lie

`SurfaceParams` of `video_core/rasterizer_cache/surface_params.cpp`: the levels of a surface, the
rectangle of a sub-surface, the rectangle around an interval of addresses, and the interval of a
rectangle.  All numbers are `u32`, and the arithmetic wraps where that of the code does.

A surface is `Laid` if `UpdateParams` has been applied to it and the assertions of the code about
strides, levels and formats hold.  Its levels then lie one behind the other, and each of them is
made of rows of units: of tiles, or of pixels if the surface is linear.

* `levelOf_spec`, `levelInterval_eq` — the levels of a surface and their addresses.
* `levelBytes_eq`, `bytesInPixels_unit` — the bytes of a level and of a unit.
-/

namespace AzaharPlus.Video

open Intervals

/-! ## Words -/

/-- A number as a `u32`. -/
def u32 (n : Nat) : Nat := n % 2 ^ 32

/-- A difference of two `u32`. -/
def subU32 (a b : Nat) : Nat := u32 (a + 2 ^ 32 - b)

theorem u32_eq {n : Nat} (h : n < 2 ^ 32) : u32 n = n := Nat.mod_eq_of_lt h

theorem subU32_eq {a b : Nat} (h : b ≤ a) (ha : a < 2 ^ 32) : subU32 a b = a - b := by
  unfold subU32 u32
  omega

/-! ## Rectangles -/

/-- `Common::Rectangle<u32>` -/
structure Rectangle where
  left : Nat
  top : Nat
  right : Nat
  bottom : Nat
  deriving DecidableEq, Repr

namespace Rectangle

/-- `std::abs` of a `u32` that is cast to `s32`. -/
def absS32 (n : Nat) : Nat := if n < 2 ^ 31 then n else 2 ^ 32 - n

/-- `GetWidth` -/
def getWidth (r : Rectangle) : Nat := absS32 (subU32 r.right r.left)

/-- `GetHeight` -/
def getHeight (r : Rectangle) : Nat := absS32 (subU32 r.bottom r.top)

theorem getWidth_eq {r : Rectangle} (h : r.left ≤ r.right) (hr : r.right < 2 ^ 31) :
    r.getWidth = r.right - r.left := by
  rw [getWidth, subU32_eq h (by omega), absS32, if_pos (by omega)]

theorem getHeight_eq {r : Rectangle} (h : r.bottom ≤ r.top) (hr : r.top < 2 ^ 31) :
    r.getHeight = r.top - r.bottom := by
  unfold getHeight subU32 u32 absS32
  split_ifs <;> omega

end Rectangle

/-! ## The parameters of a surface -/

/-- `SurfaceType` -/
inductive SurfaceType
  | color | texture | depth | depthStencil | fill | invalid
  deriving DecidableEq, Repr

/-- `GetFormatType` -/
def getFormatType : PixelFormat → SurfaceType
  | .rgba8 | .rgb8 | .rgb5a1 | .rgb565 | .rgba4 => .color
  | .d16 | .d24 => .depth
  | .d24s8 => .depthStencil
  | _ => .texture

/-- `SurfaceParams`, with `none` for `PixelFormat::Invalid`. -/
structure SurfaceParams where
  addr : Nat
  «end» : Nat
  size : Nat
  width : Nat
  height : Nat
  stride : Nat
  levels : Nat
  resScale : Nat
  isTiled : Bool
  pixelFormat : Option PixelFormat
  type : SurfaceType
  mipmapOffsets : List Nat
  deriving DecidableEq, Repr

namespace SurfaceParams

variable (s : SurfaceParams)

/-- `GetFormatBpp`, which asserts that the format is not `Invalid`. -/
def formatBpp : Nat := (s.pixelFormat.map getFormatBpp).getD 0

/-- `PixelsInBytes` -/
def pixelsInBytes (size : Nat) : Nat := u32 (size * 8) / s.formatBpp

/-- `BytesInPixels` -/
def bytesInPixels (pixels : Nat) : Nat := u32 (pixels * s.formatBpp) / 8

/-- `mipmap_offsets[level]` -/
def mipmapOffset (level : Nat) : Nat := s.mipmapOffsets.getD level 0

/-- The loop of `CalculateMipLevelOffsets`, for the levels that are left. -/
def mipLevelOffsets : Nat → Nat → Nat → Nat → Nat → List Nat → List Nat
  | 0, _, _, _, _, offsets => offsets
  | left + 1, level, levelWidth, levelHeight, offset, offsets =>
      mipLevelOffsets left (level + 1) (levelWidth >>> 1) (levelHeight >>> 1)
        (u32 (offset + s.bytesInPixels (levelWidth * levelHeight))) (offsets.set level offset)

/-- The loop of `CalculateSurfaceSize`, for the levels that are left. -/
def surfaceSize : Nat → Nat → Nat → Nat → Nat
  | 0, _, _, size => size
  | left + 1, levelWidth, levelHeight, size =>
      surfaceSize left (levelWidth >>> 1) (levelHeight >>> 1)
        (u32 (size + s.bytesInPixels (levelWidth * levelHeight)))

/-- `UpdateParams` up to the size: the stride, the type and the offsets of the levels. -/
def withOffsets : SurfaceParams :=
  { s with
    stride := if s.stride = 0 then s.width else s.stride
    type := (s.pixelFormat.map getFormatType).getD .invalid
    mipmapOffsets :=
      if s.levels ≠ 1 then
        s.mipLevelOffsets s.levels 0 s.width s.height s.addr s.mipmapOffsets
      else s.mipmapOffsets.set 0 s.addr }

/-- The size that `UpdateParams` computes. -/
def updatedSize : Nat :=
  if s.levels ≠ 1 then s.surfaceSize s.levels s.width s.height 0
  else if s.isTiled then
    s.bytesInPixels (s.stride * 8 * subU32 (s.height / 8) 1 + s.width * 8)
  else s.bytesInPixels (s.stride * subU32 s.height 1 + s.width)

/-- `UpdateParams` -/
def updateParams : SurfaceParams :=
  { s.withOffsets with
    size := s.withOffsets.updatedSize
    «end» := u32 (s.addr + s.withOffsets.updatedSize) }

/-- The loop of `LevelOf`: the highest level that does not begin behind the address. -/
def levelFrom (levelAddr : Nat) : Nat → Nat
  | 0 => 0
  | level + 1 => if s.mipmapOffset (level + 1) > levelAddr then levelFrom levelAddr level else level + 1

/-- `LevelOf` -/
def levelOf (levelAddr : Nat) : Nat :=
  if levelAddr < s.addr ∨ levelAddr > s.«end» then 0 else s.levelFrom levelAddr (s.levels - 1)

/-- `LevelInterval` -/
def levelInterval (level : Nat) : Interval :=
  ⟨s.mipmapOffset level, if level = s.levels - 1 then s.«end» else s.mipmapOffset (level + 1)⟩

/-- `GetRect` -/
def getRect (level : Nat) : Rectangle := ⟨0, s.height >>> level, s.width >>> level, 0⟩

/-- `begin_pixel_index` of `GetSubRect` -/
def beginPixelIndex (sub : SurfaceParams) : Nat :=
  s.pixelsInBytes (subU32 sub.addr (s.mipmapOffset (s.levelOf sub.addr)))

/-- `GetSubRect` -/
def getSubRect (sub : SurfaceParams) : Rectangle :=
  let level := s.levelOf sub.addr
  let strideLod := s.stride >>> level
  if s.isTiled then
    let x0 := s.beginPixelIndex sub % u32 (strideLod * 8) / 8
    let y0 := s.beginPixelIndex sub / u32 (strideLod * 8) * 8
    let heightLod := s.height >>> level
    -- top to bottom
    ⟨x0, subU32 heightLod y0, u32 (x0 + sub.width), subU32 heightLod (u32 (y0 + sub.height))⟩
  else
    let x0 := s.beginPixelIndex sub % strideLod
    let y0 := s.beginPixelIndex sub / strideLod
    -- bottom to top
    ⟨x0, u32 (y0 + sub.height), u32 (x0 + sub.width), y0⟩

/-- `CanSubRect` -/
def canSubRect (sub : SurfaceParams) : Bool :=
  let level := s.levelOf sub.addr
  sub.addr ≥ s.addr && sub.«end» ≤ s.«end» && sub.pixelFormat = s.pixelFormat &&
    s.pixelFormat.isSome && sub.isTiled = s.isTiled &&
    subU32 sub.addr (s.mipmapOffset level) % s.bytesInPixels (if s.isTiled then 64 else 1) = 0 &&
    (sub.stride = s.stride >>> level || sub.height ≤ if s.isTiled then 8 else 1) &&
    (s.getSubRect sub).right ≤ s.stride

/-- `tiled_size` -/
def tiledSize : Nat := if s.isTiled then 8 else 1

/-! ## Levels -/

/-- The width of a level. -/
def levelWidth (level : Nat) : Nat := s.width >>> level

/-- The height of a level. -/
def levelHeight (level : Nat) : Nat := s.height >>> level

/-- The bytes of a level. -/
def levelBytes (level : Nat) : Nat := s.levelWidth level * s.levelHeight level * s.formatBpp / 8

/-- Where a level begins in the surface. -/
def levelStart : Nat → Nat
  | 0 => 0
  | level + 1 => levelStart level + s.levelBytes level

/-- `UpdateParams` has been applied, there are no gaps in the rows, the levels of a tiled surface
are made of whole tiles and the pixels of a linear one of whole bytes, no level is empty, and the
surface fits into memory. -/
structure Laid : Prop where
  offsets : s.mipmapOffsets.length = 8
  levels_pos : 0 < s.levels
  levels_le : s.levels ≤ 8
  stride : s.stride = s.width
  updated : s.updateParams = s
  format : s.pixelFormat.isSome
  tiles : s.isTiled = true → ∀ level < s.levels, 8 ∣ s.levelWidth level ∧ 8 ∣ s.levelHeight level
  linear : s.isTiled = false → 8 ∣ s.formatBpp
  width_pos : 0 < s.levelWidth (s.levels - 1)
  height_pos : 0 < s.levelHeight (s.levels - 1)
  small : s.levelStart s.levels < 2 ^ 29
  fits : s.addr + s.levelStart s.levels < 2 ^ 32

/-- A surface as the cache creates it: as a `Laid` one, but only the base level of a tiled surface is
known to be made of whole tiles. -/
structure Stacked : Prop where
  offsets : s.mipmapOffsets.length = 8
  levels_pos : 0 < s.levels
  levels_le : s.levels ≤ 8
  stride : s.stride = s.width
  updated : s.updateParams = s
  format : s.pixelFormat.isSome
  base : s.isTiled = true → 8 ∣ s.width ∧ 8 ∣ s.height
  linear : s.isTiled = false → 8 ∣ s.formatBpp
  bytes_pos : 0 < s.levelBytes (s.levels - 1)
  small : s.levelStart s.levels < 2 ^ 29
  fits : s.addr + s.levelStart s.levels < 2 ^ 32

theorem levelStart_mono {a b : Nat} (h : a ≤ b) : s.levelStart a ≤ s.levelStart b := by
  induction h with
  | refl => exact Nat.le_refl _
  | step _ ih => exact Nat.le_trans ih (Nat.le_add_right _ _)

/-- The arithmetic of the loops over the levels does not wrap. -/
theorem u32_add_bytes (base level : Nat) (hsmall : s.levelStart (level + 1) < 2 ^ 29)
    (hfits : base + s.levelStart (level + 1) < 2 ^ 32) :
    u32 (base + s.levelStart level +
        s.bytesInPixels (s.levelWidth level * s.levelHeight level)) =
      base + s.levelStart (level + 1) := by
  have hstep : s.levelStart (level + 1) = s.levelStart level + s.levelBytes level := rfl
  have hbytes : s.bytesInPixels (s.levelWidth level * s.levelHeight level) =
      s.levelBytes level := by
    unfold levelBytes at hstep ⊢
    rw [bytesInPixels, u32_eq (by omega)]
  rw [hbytes, u32_eq (by omega), hstep, Nat.add_assoc]

/-- The loop of `CalculateMipLevelOffsets` writes where the levels begin. -/
theorem getD_mipLevelOffsets (left level : Nat) (offsets : List Nat)
    (hlength : level + left ≤ offsets.length) (hsmall : s.levelStart (level + left) < 2 ^ 29)
    (hfits : s.addr + s.levelStart (level + left) < 2 ^ 32) (k : Nat) :
    (s.mipLevelOffsets left level (s.levelWidth level) (s.levelHeight level)
        (s.addr + s.levelStart level) offsets).getD k 0 =
      if level ≤ k ∧ k < level + left then s.addr + s.levelStart k else offsets.getD k 0 := by
  induction left generalizing level offsets with
  | zero =>
    rw [mipLevelOffsets, if_neg (by omega)]
  | succ left ih =>
    have hmono : s.levelStart (level + 1) ≤ s.levelStart (level + (left + 1)) :=
      s.levelStart_mono (by omega)
    rw [mipLevelOffsets, s.u32_add_bytes s.addr level (by omega) (by omega)]
    have hrest := ih (level + 1) (offsets.set level (s.addr + s.levelStart level))
      (by rw [List.length_set]; omega) (by rw [Nat.add_right_comm]; exact hsmall)
      (by rw [Nat.add_right_comm]; exact hfits)
    have hwidth : s.levelWidth level >>> 1 = s.levelWidth (level + 1) := rfl
    have hheight : s.levelHeight level >>> 1 = s.levelHeight (level + 1) := rfl
    rw [hwidth, hheight, hrest]
    by_cases hk : k = level
    · subst hk
      rw [if_neg (by omega), if_pos (by omega), List.getD_eq_getElem?_getD,
        List.getElem?_set_self (by omega)]
      rfl
    · by_cases hlater : level + 1 ≤ k ∧ k < level + 1 + left
      · rw [if_pos hlater, if_pos (by omega)]
      · rw [if_neg hlater, if_neg (by omega), List.getD_eq_getElem?_getD,
          List.getElem?_set_ne (Ne.symm hk), ← List.getD_eq_getElem?_getD]

/-- The loop of `CalculateSurfaceSize` adds up the levels. -/
theorem surfaceSize_eq (left level : Nat) (hsmall : s.levelStart (level + left) < 2 ^ 29) :
    s.surfaceSize left (s.levelWidth level) (s.levelHeight level) (s.levelStart level) =
      s.levelStart (level + left) := by
  induction left generalizing level with
  | zero => rfl
  | succ left ih =>
    have hmono : s.levelStart (level + 1) ≤ s.levelStart (level + (left + 1)) :=
      s.levelStart_mono (by omega)
    have hstep := s.u32_add_bytes 0 level (by omega) (by omega)
    rw [Nat.zero_add, Nat.zero_add] at hstep
    have hwidth : s.levelWidth level >>> 1 = s.levelWidth (level + 1) := rfl
    have hheight : s.levelHeight level >>> 1 = s.levelHeight (level + 1) := rfl
    have hnext : level + (left + 1) = level + 1 + left := by omega
    rw [surfaceSize, hstep, hwidth, hheight, hnext, ih (level + 1) (by rw [← hnext]; exact hsmall)]

/-- The loop looks at the format only. -/
theorem surfaceSize_withOffsets (left width height size : Nat) :
    s.withOffsets.surfaceSize left width height size = s.surfaceSize left width height size := by
  induction left generalizing width height size with
  | zero => rfl
  | succ left ih =>
    rw [surfaceSize, surfaceSize, ih]
    rfl

/-! ## Units -/

/-- The bytes of a tile, or of a pixel if the surface is linear. -/
def unitBytes : Nat := s.tiledSize * s.tiledSize * s.formatBpp / 8

/-- How many units a row of a level has. -/
def unitCols (level : Nat) : Nat := s.levelWidth level / s.tiledSize

/-- How many rows of units a level has. -/
def unitRows (level : Nat) : Nat := s.levelHeight level / s.tiledSize

/-- The bytes of a row of units. -/
def rowBytes (level : Nat) : Nat := s.unitBytes * s.unitCols level

/-- The bits of a pixel of a format. -/
theorem formatBpp_of_isSome (h : s.pixelFormat.isSome) :
    4 ≤ s.formatBpp ∧ s.formatBpp ≤ 32 ∧ 4 ∣ s.formatBpp := by
  obtain ⟨format, hformat⟩ := Option.isSome_iff_exists.1 h
  rw [formatBpp, hformat]
  cases format <;> decide

theorem tiledSize_pos : 0 < s.tiledSize := by
  unfold tiledSize
  split <;> omega

namespace Stacked

variable {s} (h : s.Stacked)
include h

theorem formatBpp_bounds : 4 ≤ s.formatBpp ∧ s.formatBpp ≤ 32 ∧ 4 ∣ s.formatBpp :=
  s.formatBpp_of_isSome h.format

theorem eight_mul_unitBytes : 8 * s.unitBytes = s.tiledSize * s.tiledSize * s.formatBpp := by
  obtain ⟨_, _, k, hk⟩ := h.formatBpp_bounds
  unfold unitBytes tiledSize
  cases htiled : s.isTiled with
  | true =>
    rw [if_pos rfl, hk]
    omega
  | false =>
    have hlinear := h.linear htiled
    rw [if_neg Bool.false_ne_true]
    omega

theorem unitBytes_pos : 0 < s.unitBytes := by
  have hbpp := h.formatBpp_bounds.1
  have height := h.eight_mul_unitBytes
  have hsquare : 0 < s.tiledSize * s.tiledSize * s.formatBpp :=
    Nat.mul_pos (Nat.mul_pos s.tiledSize_pos s.tiledSize_pos) (by omega)
  omega

/-- The last level is the smallest one. -/
theorem levelBytes_pos {level : Nat} (hlevel : level < s.levels) : 0 < s.levelBytes level := by
  have hlast := h.bytes_pos
  have hsmaller : s.levelBytes (s.levels - 1) ≤ s.levelBytes level := by
    unfold levelBytes levelWidth levelHeight
    simp only [Nat.shiftRight_eq_div_pow]
    have hpow : 2 ^ level ≤ 2 ^ (s.levels - 1) := Nat.pow_le_pow_right (by decide) (by omega)
    exact Nat.div_le_div_right (Nat.mul_le_mul_right _ (Nat.mul_le_mul
      (Nat.div_le_div_left hpow (Nat.two_pow_pos _))
      (Nat.div_le_div_left hpow (Nat.two_pow_pos _))))
  omega

theorem levelSides_pos {level : Nat} (hlevel : level < s.levels) :
    0 < s.levelWidth level ∧ 0 < s.levelHeight level := by
  have hpos := h.levelBytes_pos hlevel
  unfold levelBytes at hpos
  constructor <;> refine Nat.pos_of_ne_zero fun hzero => ?_ <;> simp [hzero] at hpos

theorem levelBytes_lt {level : Nat} (hlevel : level < s.levels) : s.levelBytes level < 2 ^ 29 := by
  have hmono := s.levelStart_mono (show level + 1 ≤ s.levels from hlevel)
  have hstep : s.levelStart (level + 1) = s.levelStart level + s.levelBytes level := rfl
  have hsmall := h.small
  omega

theorem levelPixels_lt {level : Nat} (hlevel : level < s.levels) :
    s.levelWidth level * s.levelHeight level < 2 ^ 30 := by
  have hlt := h.levelBytes_lt hlevel
  have hbpp := h.formatBpp_bounds.1
  have hbits := Nat.mul_le_mul_left (s.levelWidth level * s.levelHeight level) hbpp
  unfold levelBytes at hlt
  omega

/-- The sides of a level are small. -/
theorem levelSides_lt {level : Nat} (hlevel : level < s.levels) :
    s.levelWidth level < 2 ^ 30 ∧ s.levelHeight level < 2 ^ 30 := by
  have hlt := h.levelPixels_lt hlevel
  obtain ⟨hcols, hrows⟩ := h.levelSides_pos hlevel
  have hwidth := Nat.le_mul_of_pos_right (s.levelWidth level) hrows
  have hheight := Nat.le_mul_of_pos_left (s.levelHeight level) hcols
  omega

/-- The bytes of a unit, as the code computes them. -/
theorem bytesInPixels_unit : s.bytesInPixels (if s.isTiled then 64 else 1) = s.unitBytes := by
  have hbpp := h.formatBpp_bounds.2.1
  unfold bytesInPixels unitBytes tiledSize
  split <;> rw [u32_eq (by omega)]

/-- The bytes of so many units. -/
theorem bytesInPixels_units {n : Nat} (hn : n * s.unitBytes < 2 ^ 29) :
    s.bytesInPixels (n * (s.tiledSize * s.tiledSize)) = n * s.unitBytes := by
  have hbits : n * (s.tiledSize * s.tiledSize) * s.formatBpp = 8 * (n * s.unitBytes) := by
    rw [Nat.mul_assoc, ← h.eight_mul_unitBytes]
    ring
  rw [bytesInPixels, hbits, u32_eq (by omega), Nat.mul_div_cancel_left _ (by decide)]

/-- A unit has no more pixels than eight times its bytes. -/
theorem units_lt {n : Nat} (hn : n * s.unitBytes < 2 ^ 29) :
    n * (s.tiledSize * s.tiledSize) < 2 ^ 31 := by
  have hunit := h.eight_mul_unitBytes
  have hbpp := h.formatBpp_bounds.1
  have hbits : n * (s.tiledSize * s.tiledSize) * 4 ≤ 8 * (n * s.unitBytes) := by
    calc n * (s.tiledSize * s.tiledSize) * 4
        ≤ n * (s.tiledSize * s.tiledSize) * s.formatBpp := Nat.mul_le_mul_left _ hbpp
      _ = n * (8 * s.unitBytes) := by rw [hunit]; ring
      _ = 8 * (n * s.unitBytes) := by ring
  omega

/-- The pixels of so many units. -/
theorem pixelsInBytes_units {n : Nat} (hn : n * s.unitBytes < 2 ^ 29) :
    s.pixelsInBytes (n * s.unitBytes) = n * (s.tiledSize * s.tiledSize) := by
  have hbpp := h.formatBpp_bounds.1
  have hbits : n * s.unitBytes * 8 = n * (s.tiledSize * s.tiledSize) * s.formatBpp := by
    calc n * s.unitBytes * 8 = n * (8 * s.unitBytes) := by ring
      _ = n * (s.tiledSize * s.tiledSize) * s.formatBpp := by rw [h.eight_mul_unitBytes]; ring
  rw [pixelsInBytes, u32_eq (by omega), hbits, Nat.mul_div_cancel _ (by omega)]

/-! ## Addresses of the levels -/

theorem stride_withOffsets : s.withOffsets.stride = s.stride := by
  have hstride := h.stride
  have hupdated : s.withOffsets.stride = if s.stride = 0 then s.width else s.stride := rfl
  rw [hupdated]
  split <;> omega

/-- What `UpdateParams` computes from rows and stride is the size of the base level. -/
theorem bytesInPixels_base :
    (if s.isTiled then s.bytesInPixels (s.stride * 8 * subU32 (s.height / 8) 1 + s.width * 8)
      else s.bytesInPixels (s.stride * subU32 s.height 1 + s.width)) = s.levelBytes 0 := by
  have hlevel : 0 < s.levels := h.levels_pos
  have hlt := h.levelBytes_lt hlevel
  have hbytes : s.levelBytes 0 = s.width * s.height * s.formatBpp / 8 := rfl
  have hrows : 0 < s.height := (h.levelSides_pos hlevel).2
  have hcols : 0 < s.width := (h.levelSides_pos hlevel).1
  have hbpp := h.formatBpp_bounds.1
  have hpixels : s.height ≤ s.width * s.height * s.formatBpp := by
    calc s.height = 1 * s.height * 1 := by omega
      _ ≤ s.width * s.height * s.formatBpp :=
        Nat.mul_le_mul (Nat.mul_le_mul_right _ (by omega)) (by omega)
  cases htiled : s.isTiled with
  | true =>
    obtain ⟨rows, hrows'⟩ := (h.base htiled).2
    rw [if_pos rfl, subU32_eq (by omega) (by omega), h.stride]
    have hsum : s.width * 8 * (s.height / 8 - 1) + s.width * 8 = s.width * s.height := by
      obtain ⟨below, rfl⟩ : ∃ below, rows = below + 1 := ⟨rows - 1, by omega⟩
      rw [hrows', Nat.mul_div_cancel_left _ (by decide), Nat.add_sub_cancel]
      ring
    rw [hsum, bytesInPixels, u32_eq (by omega)]
    rfl
  | false =>
    rw [if_neg Bool.false_ne_true, subU32_eq (by omega) (by omega), h.stride]
    have hsum : s.width * (s.height - 1) + s.width = s.width * s.height := by
      obtain ⟨rows, hrows'⟩ : ∃ rows, s.height = rows + 1 := ⟨s.height - 1, by omega⟩
      rw [hrows', Nat.add_sub_cancel, Nat.mul_succ]
    rw [hsum, bytesInPixels, u32_eq (by omega)]
    rfl

theorem updatedSize_withOffsets : s.withOffsets.updatedSize = s.levelStart s.levels := by
  have hsmall := h.small
  by_cases hone : s.levels = 1
  · have hsingle := h.bytesInPixels_base
    have hstart : s.levelStart s.levels = s.levelBytes 0 := by
      rw [hone]
      exact Nat.zero_add _
    rw [hstart, ← hsingle, updatedSize, h.stride_withOffsets]
    exact if_neg (not_not_intro hone)
  · have hsize := s.surfaceSize_eq s.levels 0
      (by rw [Nat.zero_add]; exact hsmall)
    rw [Nat.zero_add] at hsize
    rw [updatedSize, if_pos (show s.withOffsets.levels ≠ 1 from hone), surfaceSize_withOffsets]
    exact hsize

/-- The surface ends where its levels do. -/
theorem end_eq : s.«end» = s.addr + s.levelStart s.levels := by
  have hend : u32 (s.addr + s.withOffsets.updatedSize) = s.«end» := congrArg (·.«end») h.updated
  rw [← hend, h.updatedSize_withOffsets, u32_eq h.fits]

/-- Where a level begins. -/
theorem mipmapOffset_eq {level : Nat} (hlevel : level < s.levels) :
    s.mipmapOffset level = s.addr + s.levelStart level := by
  have hoffsets : s.withOffsets.mipmapOffsets = s.mipmapOffsets := congrArg (·.mipmapOffsets) h.updated
  have hlength := h.offsets
  have hlevels := h.levels_le
  by_cases hone : s.levels = 1
  · have hzero : level = 0 := by omega
    have hset : s.mipmapOffsets.set 0 s.addr = s.mipmapOffsets := by
      refine Eq.trans ?_ hoffsets
      exact (if_neg (not_not_intro hone)).symm
    rw [mipmapOffset, ← hset, hzero, List.getD_eq_getElem?_getD, List.getElem?_set_self (by omega)]
    rfl
  · have hloop := s.getD_mipLevelOffsets s.levels 0 s.mipmapOffsets (by omega) (by rw [Nat.zero_add]; exact h.small)
      (by rw [Nat.zero_add]; exact h.fits) level
    rw [if_pos (by omega)] at hloop
    have hset : s.mipLevelOffsets s.levels 0 s.width s.height s.addr s.mipmapOffsets =
        s.mipmapOffsets := by
      refine Eq.trans ?_ hoffsets
      exact (if_pos hone).symm
    rw [← hloop, mipmapOffset]
    exact congrArg (·.getD level 0) hset.symm

theorem levelInterval_eq {level : Nat} (hlevel : level < s.levels) :
    s.levelInterval level =
      ⟨s.addr + s.levelStart level, s.addr + s.levelStart (level + 1)⟩ := by
  rw [levelInterval, h.mipmapOffset_eq hlevel]
  by_cases hlast : level = s.levels - 1
  · have hnext : level + 1 = s.levels := by omega
    rw [if_pos hlast, h.end_eq, hnext]
  · rw [if_neg hlast, h.mipmapOffset_eq (by omega)]

/-- The loop of `LevelOf` finds the highest level that does not begin behind the address. -/
theorem levelFrom_spec {levelAddr : Nat} (from' : Nat) (hfrom : from' < s.levels)
    (hlower : s.addr ≤ levelAddr) :
    s.levelFrom levelAddr from' ≤ from' ∧
      s.addr + s.levelStart (s.levelFrom levelAddr from') ≤ levelAddr ∧
      (s.levelFrom levelAddr from' < from' →
        levelAddr < s.addr + s.levelStart (s.levelFrom levelAddr from' + 1)) := by
  induction from' with
  | zero => exact ⟨Nat.le_refl _, hlower, fun hlt => absurd hlt (Nat.lt_irrefl 0)⟩
  | succ level ih =>
    have hoffset := h.mipmapOffset_eq hfrom
    rw [levelFrom]
    by_cases hbehind : s.mipmapOffset (level + 1) > levelAddr
    · rw [if_pos hbehind]
      obtain ⟨hle, hbegin, hend⟩ := ih (by omega)
      refine ⟨by omega, hbegin, fun _ => ?_⟩
      by_cases hlt : s.levelFrom levelAddr level < level
      · exact hend hlt
      · have heq : s.levelFrom levelAddr level = level := by omega
        rw [heq]
        omega
    · rw [if_neg hbehind]
      exact ⟨Nat.le_refl _, by omega, fun hlt => absurd hlt (Nat.lt_irrefl _)⟩

/-- An address of the surface lies in the level that `LevelOf` finds, or is the surface's end. -/
theorem levelOf_spec (levelAddr : Nat) (hlower : s.addr ≤ levelAddr) (hupper : levelAddr ≤ s.«end») :
    s.levelOf levelAddr < s.levels ∧ s.addr + s.levelStart (s.levelOf levelAddr) ≤ levelAddr ∧
      levelAddr ≤ s.addr + s.levelStart (s.levelOf levelAddr + 1) := by
  have hpos := h.levels_pos
  have hend := h.end_eq
  obtain ⟨hle, hbegin, hbelow⟩ :=
    h.levelFrom_spec (s.levels - 1) (by omega) hlower
  rw [levelOf, if_neg (by omega)]
  refine ⟨by omega, hbegin, ?_⟩
  by_cases hlt : s.levelFrom levelAddr (s.levels - 1) < s.levels - 1
  · exact (hbelow hlt).le
  · have hlast : s.levelFrom levelAddr (s.levels - 1) + 1 = s.levels := by omega
    rw [hlast, ← hend]
    exact hupper

end Stacked

namespace Laid

variable {s} (h : s.Laid)
include h

theorem stacked : s.Stacked where
  offsets := h.offsets
  levels_pos := h.levels_pos
  levels_le := h.levels_le
  stride := h.stride
  updated := h.updated
  format := h.format
  base htiled := h.tiles htiled 0 h.levels_pos
  linear := h.linear
  bytes_pos := by
    have hlast : s.levels - 1 < s.levels := Nat.sub_one_lt_of_lt h.levels_pos
    have hbpp := (s.formatBpp_of_isSome h.format).1
    have hside : 0 < s.levelWidth (s.levels - 1) * s.levelHeight (s.levels - 1) :=
      Nat.mul_pos h.width_pos h.height_pos
    have height : 8 ∣ s.levelWidth (s.levels - 1) * s.levelHeight (s.levels - 1) * s.formatBpp := by
      cases htiled : s.isTiled with
      | true =>
        exact Dvd.dvd.mul_right ((h.tiles htiled _ hlast).1.mul_right _) _
      | false => exact (h.linear htiled).mul_left _
    exact Nat.div_pos (Nat.le_of_dvd (Nat.mul_pos hside (by omega)) height) (by decide)
  small := h.small
  fits := h.fits

section

variable {level : Nat} (hlevel : level < s.levels)
include hlevel

theorem tiledSize_dvd : s.tiledSize ∣ s.levelWidth level ∧ s.tiledSize ∣ s.levelHeight level := by
  unfold tiledSize
  cases htiled : s.isTiled with
  | true => exact h.tiles htiled level hlevel
  | false => exact ⟨Nat.one_dvd _, Nat.one_dvd _⟩

theorem levelWidth_eq : s.levelWidth level = s.unitCols level * s.tiledSize :=
  (Nat.div_mul_cancel (h.tiledSize_dvd hlevel).1).symm

theorem levelHeight_eq : s.levelHeight level = s.unitRows level * s.tiledSize :=
  (Nat.div_mul_cancel (h.tiledSize_dvd hlevel).2).symm

/-- The last level is the smallest one. -/
theorem levelWidth_pos : 0 < s.levelWidth level := by
  have hlast := h.width_pos
  unfold levelWidth at hlast ⊢
  rw [Nat.shiftRight_eq_div_pow] at hlast ⊢
  exact Nat.lt_of_lt_of_le hlast (Nat.div_le_div_left
    (Nat.pow_le_pow_right (by decide) (by omega)) (Nat.two_pow_pos _))

theorem levelHeight_pos : 0 < s.levelHeight level := by
  have hlast := h.height_pos
  unfold levelHeight at hlast ⊢
  rw [Nat.shiftRight_eq_div_pow] at hlast ⊢
  exact Nat.lt_of_lt_of_le hlast (Nat.div_le_div_left
    (Nat.pow_le_pow_right (by decide) (by omega)) (Nat.two_pow_pos _))

theorem unitCols_pos : 0 < s.unitCols level := by
  have hwidth := h.levelWidth_pos hlevel
  rw [h.levelWidth_eq hlevel] at hwidth
  exact Nat.pos_of_mul_pos_right hwidth

theorem unitRows_pos : 0 < s.unitRows level := by
  have hheight := h.levelHeight_pos hlevel
  rw [h.levelHeight_eq hlevel] at hheight
  exact Nat.pos_of_mul_pos_right hheight

theorem rowBytes_pos : 0 < s.rowBytes level := Nat.mul_pos h.stacked.unitBytes_pos (h.unitCols_pos hlevel)

theorem eight_mul_levelBytes :
    8 * s.levelBytes level = s.levelWidth level * s.levelHeight level * s.formatBpp ∧
      s.levelBytes level = s.rowBytes level * s.unitRows level := by
  have hunit := h.stacked.eight_mul_unitBytes
  have hbits : s.levelWidth level * s.levelHeight level * s.formatBpp =
      8 * (s.rowBytes level * s.unitRows level) := by
    rw [h.levelWidth_eq hlevel, h.levelHeight_eq hlevel, rowBytes]
    calc s.unitCols level * s.tiledSize * (s.unitRows level * s.tiledSize) * s.formatBpp
        = s.tiledSize * s.tiledSize * s.formatBpp * (s.unitCols level * s.unitRows level) := by ring
      _ = 8 * s.unitBytes * (s.unitCols level * s.unitRows level) := by rw [hunit]
      _ = 8 * (s.unitBytes * s.unitCols level * s.unitRows level) := by ring
  rw [levelBytes, hbits, Nat.mul_div_cancel_left _ (by decide)]
  exact ⟨rfl, rfl⟩

/-- A level is made of its rows. -/
theorem levelBytes_eq : s.levelBytes level = s.rowBytes level * s.unitRows level :=
  (h.eight_mul_levelBytes hlevel).2

theorem rowBytes_le : s.rowBytes level ≤ s.levelBytes level := by
  rw [h.levelBytes_eq hlevel]
  exact Nat.le_mul_of_pos_right _ (h.unitRows_pos hlevel)

end

end Laid

end SurfaceParams

end AzaharPlus.Video
