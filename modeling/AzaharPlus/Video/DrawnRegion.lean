import AzaharPlus.Video.SubRect

/-!
# The memory that a draw changes

`GetSubRectInterval` of `video_core/rasterizer_cache/surface_params.cpp` turns a rectangle of a
level into the interval of addresses between its first and its last unit.  `~FramebufferHelper`
(`framebuffer_base.h`) invalidates that interval for the rectangle of a draw, and
`InvalidateRegion` (`rasterizer_cache.h`) asserts that it lies in the surface.

* `isSmallest_base` — in a linear surface and in a base level the interval is the smallest one.
* `drawSafe_base` — there a draw invalidates all that it changes.
* `not_covers_mipmap` — in a mipmap of a tiled surface it begins behind the rectangle.
* `getSubRectInterval_iff` — the interval is the right one except in the mipmaps of tiled surfaces.
-/

namespace AzaharPlus.Video

open Intervals

/-! ## The interval of a rectangle -/

namespace SurfaceParams

variable (s : SurfaceParams)

/-- The rectangle in `GetSubRectInterval` after the alignment. -/
def alignedRect (rect : Rectangle) : Rectangle :=
  if s.isTiled then
    ⟨u32 (alignDown rect.left 8 * 8), alignUp rect.top 8 / 8, u32 (alignUp rect.right 8 * 8),
      alignDown rect.bottom 8 / 8⟩
  else rect

/-- `stride_tiled` -/
def strideTiled (level : Nat) : Nat := (if s.isTiled then u32 (s.stride * 8) else s.stride) >>> level

/-- `pixels` -/
def rectPixels (rect : Rectangle) (level : Nat) : Nat :=
  u32 (subU32 (s.alignedRect rect).getHeight 1 * s.strideTiled level +
    (s.alignedRect rect).getWidth)

/-- `pixel_offset` -/
def rectOffset (rect : Rectangle) (level : Nat) : Nat :=
  u32 (s.strideTiled level *
    (if s.isTiled then subU32 (s.height / 8) (s.alignedRect rect).top
      else (s.alignedRect rect).bottom) + (s.alignedRect rect).left)

/-- `GetSubRectInterval` -/
def getSubRectInterval (rect : Rectangle) (level : Nat) : Interval :=
  if rect.getHeight = 0 ∨ rect.getWidth = 0 then ⟨0, 0⟩
  else
    ⟨u32 (s.mipmapOffset level + s.bytesInPixels (s.rectOffset rect level)),
      u32 (s.mipmapOffset level +
        s.bytesInPixels (s.rectOffset rect level + s.rectPixels rect level))⟩

/-! ## What the interval is for -/

/-- The row of units, in the order of memory, in which the pixels of a row lie. -/
def unitRow (level y : Nat) : Nat :=
  if s.isTiled then (s.levelHeight level - 1 - y) / 8 else y

/-- Where the unit begins in which a pixel lies. -/
def unitStart (level x y : Nat) : Nat :=
  s.mipmapOffset level + s.unitBytes * (s.unitCols level * s.unitRow level y + x / s.tiledSize)

/-- A rectangle that is not empty and lies inside the level. -/
structure InsideLevel (rect : Rectangle) (level : Nat) : Prop where
  left : rect.left < rect.right
  right : rect.right ≤ (s.getRect level).right
  bottom : rect.bottom < rect.top
  top : rect.top ≤ (s.getRect level).top

/-- The interval contains every unit that the rectangle touches. -/
def Covers (rect : Rectangle) (level : Nat) (i : Interval) : Prop :=
  ∀ x y, rect.left ≤ x → x < rect.right → rect.bottom ≤ y → y < rect.top →
    i.lower ≤ s.unitStart level x y ∧ s.unitStart level x y + s.unitBytes ≤ i.upper

/-- The smallest interval that contains every unit that the rectangle touches. -/
def IsSmallest (rect : Rectangle) (level : Nat) (i : Interval) : Prop :=
  s.Covers rect level i ∧
    ∀ j : Interval, s.Covers rect level j → j.lower ≤ i.lower ∧ i.upper ≤ j.upper

end SurfaceParams

/-! ## A draw -/

/-- `Common::Rectangle<s32>`, for the viewport. -/
structure ViewportRect where
  left : Int
  top : Int
  right : Int
  bottom : Int

/-- `VerticalMirror` -/
def ViewportRect.verticalMirror (r : ViewportRect) (refHeight : Int) : ViewportRect :=
  ⟨r.left, refHeight - r.bottom, r.right, refHeight - r.top⟩

/-- `operator*` and `operator/` of a rectangle. -/
def Rectangle.scale (r : Rectangle) (value : Nat) : Rectangle :=
  ⟨u32 (r.left * value), u32 (r.top * value), u32 (r.right * value), u32 (r.bottom * value)⟩

@[inherit_doc Rectangle.scale]
def Rectangle.unscale (r : Rectangle) (value : Nat) : Rectangle :=
  ⟨r.left / value, r.top / value, r.right / value, r.bottom / value⟩

/-- `std::clamp` -/
def clampBetween (v : Int) (lo hi : Nat) : Nat := (max (lo : Int) (min v hi)).toNat

/-- An edge of the viewport, scaled and moved to the surfaces.  The scale is a `u32`, so that the
product and the sum are taken modulo `2 ^ 32` before they become an `s32`. -/
def scaledEdge (start : Nat) (edge : Int) (resScale : Nat) : Int :=
  Int.bmod (start + edge * resScale) (2 ^ 32)

/-- The viewport, mirrored if the framebuffer is flipped. -/
def ViewportRect.flipped (viewport : ViewportRect) (surfaces : Rectangle) (flip : Bool)
    (resScale : Nat) : ViewportRect :=
  if flip then viewport.verticalMirror (surfaces.getHeight / resScale : Nat) else viewport

/-- `draw_rect`, as the constructor of `FramebufferHelper` computes it. -/
def drawRect (surfaces : Rectangle) (viewport : ViewportRect) (flip : Bool) (resScale : Nat) :
    Rectangle :=
  let viewport := viewport.flipped surfaces flip resScale
  { left := clampBetween (scaledEdge surfaces.left viewport.left resScale) surfaces.left
      surfaces.right
    top := clampBetween (scaledEdge surfaces.bottom viewport.top resScale) surfaces.bottom
      surfaces.top
    right := clampBetween (scaledEdge surfaces.left viewport.right resScale) surfaces.left
      surfaces.right
    bottom := clampBetween (scaledEdge surfaces.bottom viewport.bottom resScale) surfaces.bottom
      surfaces.top }

/-- The interval that `~FramebufferHelper` invalidates in a surface. -/
def invalidated (s : SurfaceParams) (level : Nat) (draw : Rectangle) (resScale : Nat) : Interval :=
  s.getSubRectInterval (draw.unscale resScale) level

/-- The assertions of `InvalidateRegion` about the owner of the region. -/
def ownerAsserts (s : SurfaceParams) (addr size : Nat) : Bool :=
  size = 0 || (s.type ≠ .texture && addr ≥ s.addr && u32 (addr + size) ≤ s.«end» &&
    s.width = s.stride)

/-- The interval that is invalidated covers each pixel that a draw may have changed, and the
assertions about its owner hold. -/
structure DrawSafe (s : SurfaceParams) (level : Nat) (draw : Rectangle) (resScale : Nat) :
    Prop where
  covered : ∀ x y, draw.left ≤ x → x < draw.right → draw.bottom ≤ y → y < draw.top →
    8 * (invalidated s level draw resScale).lower ≤
        s.levelPixelBit level (x / resScale) (y / resScale) ∧
      s.levelPixelBit level (x / resScale) (y / resScale) + s.formatBpp ≤
        8 * (invalidated s level draw resScale).upper
  asserts : ownerAsserts s (invalidated s level draw resScale).lower
    ((invalidated s level draw resScale).upper - (invalidated s level draw resScale).lower) = true

/-! ## The interval in units -/

namespace SurfaceParams

variable (s : SurfaceParams)

/-- The row of units above a rectangle, counted from the bottom. -/
def topUnit (rect : Rectangle) : Nat := (rect.top + s.tiledSize - 1) / s.tiledSize

/-- The column of units behind a rectangle. -/
def rightUnit (rect : Rectangle) : Nat := (rect.right + s.tiledSize - 1) / s.tiledSize

/-- The first row of units as the code computes it, in a tiled surface from the height of the base
level. -/
def firstRow (rect : Rectangle) : Nat :=
  if s.isTiled then s.height / 8 - s.topUnit rect else rect.bottom

/-- The first unit of the interval. -/
def firstUnit (rect : Rectangle) (level : Nat) : Nat :=
  s.unitCols level * s.firstRow rect + rect.left / s.tiledSize

/-- How many units the interval has. -/
def unitCount (rect : Rectangle) (level : Nat) : Nat :=
  (s.topUnit rect - rect.bottom / s.tiledSize - 1) * s.unitCols level +
    (s.rightUnit rect - rect.left / s.tiledSize)

/-- The columns of units that a rectangle touches. -/
theorem unitCol_bounds {rect : Rectangle} {x : Nat} (hlower : rect.left ≤ x) (hupper : x < rect.right) :
    rect.left / s.tiledSize ≤ x / s.tiledSize ∧ x / s.tiledSize + 1 ≤ s.rightUnit rect := by
  unfold rightUnit
  refine ⟨Nat.div_le_div_right hlower, ?_⟩
  rw [← Nat.add_div_right _ s.tiledSize_pos]
  exact Nat.div_le_div_right (by omega)

namespace Laid

variable {s} (h : s.Laid) {level : Nat} (hlevel : level < s.levels)
include h hlevel

/-- The levels of a tiled surface are halves of each other. -/
theorem sides_of_tiled (htiled : s.isTiled = true) :
    s.width = 2 ^ level * s.levelWidth level ∧ s.height = 2 ^ level * s.levelHeight level := by
  induction level with
  | zero => exact ⟨(Nat.one_mul _).symm, (Nat.one_mul _).symm⟩
  | succ level ih =>
    obtain ⟨hwidth, hheight⟩ := ih (by omega)
    obtain ⟨hw, hh⟩ := h.tiles htiled level (by omega)
    have hw' : s.levelWidth (level + 1) = s.levelWidth level / 2 := by
      unfold levelWidth
      rw [Nat.shiftRight_succ]
    have hh' : s.levelHeight (level + 1) = s.levelHeight level / 2 := by
      unfold levelHeight
      rw [Nat.shiftRight_succ]
    rw [hw', hh', Nat.pow_succ, Nat.mul_assoc, Nat.mul_assoc, Nat.mul_div_cancel' (by omega),
      Nat.mul_div_cancel' (by omega)]
    exact ⟨hwidth, hheight⟩

theorem strideTiled_eq : s.strideTiled level = s.unitCols level * (s.tiledSize * s.tiledSize) := by
  have hwidth := h.levelWidth_eq hlevel
  unfold strideTiled
  rw [h.stride]
  cases htiled : s.isTiled with
  | true =>
    have htile : s.tiledSize = 8 := if_pos htiled
    have heq := (h.sides_of_tiled hlevel htiled).1
    have hsmall : s.width * 8 < 2 ^ 32 := by
      have hpixels := h.stacked.levelPixels_lt h.levels_pos
      have hrows := Nat.le_of_dvd (h.levelHeight_pos h.levels_pos)
        (h.tiles htiled 0 h.levels_pos).2
      have hrow := Nat.mul_le_mul_left (s.levelWidth 0) hrows
      have hbase : s.levelWidth 0 = s.width := rfl
      omega
    rw [if_pos rfl, u32_eq hsmall, heq, Nat.shiftRight_eq_div_pow, Nat.mul_assoc,
      Nat.mul_div_cancel_left _ (Nat.two_pow_pos _), hwidth, htile, Nat.mul_assoc]
  | false =>
    have htile : s.tiledSize = 1 := if_neg (by rw [htiled]; exact Bool.false_ne_true)
    rw [if_neg Bool.false_ne_true, htile]
    rw [htile] at hwidth
    exact hwidth

variable {rect : Rectangle} (hrect : s.InsideLevel rect level)
include hrect

/-- The sides of the rectangle in units. -/
theorem unitBounds : rect.left / s.tiledSize < s.rightUnit rect ∧
    s.rightUnit rect ≤ s.unitCols level ∧ rect.bottom / s.tiledSize < s.topUnit rect ∧
    s.topUnit rect ≤ s.unitRows level := by
  have hleft := hrect.left
  have hright : rect.right ≤ s.levelWidth level := hrect.right
  have hbottom := hrect.bottom
  have htop : rect.top ≤ s.levelHeight level := hrect.top
  rw [h.levelWidth_eq hlevel] at hright
  rw [h.levelHeight_eq hlevel] at htop
  unfold rightUnit topUnit
  cases htiled : s.isTiled with
  | true =>
    have htile : s.tiledSize = 8 := if_pos htiled
    rw [htile] at hright htop ⊢
    omega
  | false =>
    have htile : s.tiledSize = 1 := if_neg (by rw [htiled]; exact Bool.false_ne_true)
    rw [htile] at hright htop ⊢
    omega

theorem alignedRect_eq : s.alignedRect rect =
    ⟨rect.left / s.tiledSize * (s.tiledSize * s.tiledSize), s.topUnit rect,
      s.rightUnit rect * (s.tiledSize * s.tiledSize), rect.bottom / s.tiledSize⟩ := by
  have hleft := hrect.left
  have hright : rect.right ≤ s.levelWidth level := hrect.right
  have hside := (h.stacked.levelSides_lt hlevel).1
  unfold alignedRect rightUnit topUnit
  cases htiled : s.isTiled with
  | true =>
    have htile : s.tiledSize = 8 := if_pos htiled
    have hwide := h.stacked.levelPixels_lt hlevel
    have hrows := Nat.le_of_dvd (h.levelHeight_pos hlevel) (h.tiles htiled level hlevel).2
    have hrow := Nat.mul_le_mul_left (s.levelWidth level) hrows
    have hdown (v : Nat) : alignDown v 8 = v / 8 * 8 := by
      unfold alignDown
      omega
    have hup (v : Nat) : alignUp v 8 = (v + 8 - 1) / 8 * 8 := by
      unfold alignUp
      split <;> omega
    rw [if_pos rfl, htile, hdown, hdown, hup, hup, u32_eq (by omega), u32_eq (by omega),
      Nat.mul_div_cancel _ (by decide), Nat.mul_div_cancel _ (by decide), Nat.mul_assoc,
      Nat.mul_assoc]
  | false =>
    have htile : s.tiledSize = 1 := if_neg (by rw [htiled]; exact Bool.false_ne_true)
    rw [if_neg Bool.false_ne_true, htile]
    simp

/-- The units up to the end of the interval fit into the base level. -/
theorem unitEnd_le : s.firstUnit rect level + s.unitCount rect level ≤
    s.unitCols level * s.unitRows 0 := by
  obtain ⟨hl, hr, hb, ht⟩ := h.unitBounds hlevel hrect
  have hrows : s.firstRow rect + (s.topUnit rect - rect.bottom / s.tiledSize) ≤ s.unitRows 0 := by
    have hrows : s.unitRows level ≤ s.unitRows 0 := by
      unfold unitRows levelHeight
      rw [Nat.shiftRight_eq_div_pow]
      exact Nat.div_le_div_right (Nat.div_le_self _ _)
    unfold firstRow
    cases htiled : s.isTiled with
    | true =>
      have htile : s.tiledSize = 8 := if_pos htiled
      have hbase : s.unitRows 0 = s.height / 8 := by
        rw [← htile]
        rfl
      rw [if_pos rfl, ← hbase]
      exact (Nat.add_le_add_left (Nat.sub_le _ _) _).trans
        (Nat.sub_add_cancel (ht.trans hrows)).le
    | false =>
      have htile : s.tiledSize = 1 := if_neg (by rw [htiled]; exact Bool.false_ne_true)
      rw [if_neg Bool.false_ne_true]
      rw [htile] at hb ⊢
      omega
  calc s.firstUnit rect level + s.unitCount rect level
      = s.unitCols level * (s.firstRow rect + (s.topUnit rect - rect.bottom / s.tiledSize - 1)) +
          s.rightUnit rect := by
        unfold firstUnit unitCount
        rw [Nat.add_add_add_comm, Nat.add_sub_of_le hl.le, Nat.mul_comm (_ - 1), ← Nat.mul_add]
    _ ≤ s.unitCols level * (s.firstRow rect + (s.topUnit rect - rect.bottom / s.tiledSize - 1)) +
          s.unitCols level := Nat.add_le_add_left hr _
    _ = s.unitCols level *
          (s.firstRow rect + (s.topUnit rect - rect.bottom / s.tiledSize - 1) + 1) := by ring
    _ ≤ s.unitCols level * s.unitRows 0 := Nat.mul_le_mul_left _ (by omega)

theorem unitEnd_bytes_lt :
    (s.firstUnit rect level + s.unitCount rect level) * s.unitBytes < 2 ^ 29 := by
  have hend := h.unitEnd_le hlevel hrect
  have hcols : s.unitCols level ≤ s.unitCols 0 := by
    unfold unitCols levelWidth
    rw [Nat.shiftRight_eq_div_pow]
    exact Nat.div_le_div_right (Nat.div_le_self _ _)
  calc (s.firstUnit rect level + s.unitCount rect level) * s.unitBytes
      ≤ s.unitCols 0 * s.unitRows 0 * s.unitBytes :=
        Nat.mul_le_mul_right _ (hend.trans (Nat.mul_le_mul_right _ hcols))
    _ = s.levelBytes 0 := by
        rw [h.levelBytes_eq h.levels_pos, rowBytes]
        ring
    _ < 2 ^ 29 := h.stacked.levelBytes_lt h.levels_pos

theorem rectPixels_eq : s.rectPixels rect level =
    s.unitCount rect level * (s.tiledSize * s.tiledSize) := by
  obtain ⟨hl, hr, hb, ht⟩ := h.unitBounds hlevel hrect
  have hlt := h.unitEnd_bytes_lt hlevel hrect
  have hcount : s.unitCount rect level * s.unitBytes < 2 ^ 29 :=
    Nat.lt_of_le_of_lt (Nat.mul_le_mul_right _ (Nat.le_add_left _ _)) hlt
  have hside := h.stacked.levelSides_lt hlevel
  have hrows := h.levelHeight_eq hlevel
  have hrowsLe : s.unitRows level ≤ s.levelHeight level := Nat.div_le_self _ _
  have hwide : s.rightUnit rect * s.unitBytes < 2 ^ 29 := by
    refine Nat.lt_of_le_of_lt ?_ (h.stacked.levelBytes_lt hlevel)
    refine le_trans ?_ (h.rowBytes_le hlevel)
    rw [rowBytes, Nat.mul_comm]
    exact Nat.mul_le_mul_left _ hr
  have hwide' := h.stacked.units_lt hwide
  have hcount' := h.stacked.units_lt hcount
  have hle : rect.left / s.tiledSize * (s.tiledSize * s.tiledSize) ≤
      s.rightUnit rect * (s.tiledSize * s.tiledSize) := Nat.mul_le_mul_right _ hl.le
  have hheight : (s.alignedRect rect).getHeight = s.topUnit rect - rect.bottom / s.tiledSize := by
    rw [h.alignedRect_eq hlevel hrect]
    exact Rectangle.getHeight_eq hb.le (by simp only; omega)
  have hwidth : (s.alignedRect rect).getWidth =
      (s.rightUnit rect - rect.left / s.tiledSize) * (s.tiledSize * s.tiledSize) := by
    rw [h.alignedRect_eq hlevel hrect, Rectangle.getWidth_eq hle hwide']
    exact (Nat.sub_mul _ _ _).symm
  have hone : 1 ≤ s.topUnit rect - rect.bottom / s.tiledSize := Nat.sub_pos_of_lt hb
  have htop : s.topUnit rect - rect.bottom / s.tiledSize ≤ s.topUnit rect := Nat.sub_le _ _
  rw [rectPixels, hheight, hwidth, subU32_eq hone (by omega), h.strideTiled_eq hlevel]
  have hsum : (s.topUnit rect - rect.bottom / s.tiledSize - 1) *
        (s.unitCols level * (s.tiledSize * s.tiledSize)) +
      (s.rightUnit rect - rect.left / s.tiledSize) * (s.tiledSize * s.tiledSize) =
        s.unitCount rect level * (s.tiledSize * s.tiledSize) := by
    unfold unitCount
    ring
  rw [hsum, u32_eq (by omega)]

theorem rectOffset_eq : s.rectOffset rect level =
    s.firstUnit rect level * (s.tiledSize * s.tiledSize) := by
  obtain ⟨hl, hr, hb, ht⟩ := h.unitBounds hlevel hrect
  have hlt := h.unitEnd_bytes_lt hlevel hrect
  have hfirst : s.firstUnit rect level * s.unitBytes < 2 ^ 29 :=
    Nat.lt_of_le_of_lt (Nat.mul_le_mul_right _ (Nat.le_add_right _ _)) hlt
  have hfirst' := h.stacked.units_lt hfirst
  have hrow : (if s.isTiled then subU32 (s.height / 8) (s.alignedRect rect).top
      else (s.alignedRect rect).bottom) = s.firstRow rect := by
    rw [h.alignedRect_eq hlevel hrect]
    unfold firstRow
    cases htiled : s.isTiled with
    | true =>
      have htile : s.tiledSize = 8 := if_pos htiled
      have hside := (h.stacked.levelSides_lt h.levels_pos).2
      have hbase : s.levelHeight 0 = s.height := rfl
      have hrows : s.unitRows level ≤ s.height / 8 := by
        unfold unitRows levelHeight
        rw [htile, Nat.shiftRight_eq_div_pow]
        exact Nat.div_le_div_right (Nat.div_le_self _ _)
      rw [if_pos rfl, if_pos rfl]
      exact subU32_eq (ht.trans hrows) (by omega)
    | false =>
      have htile : s.tiledSize = 1 := if_neg (by rw [htiled]; exact Bool.false_ne_true)
      rw [if_neg Bool.false_ne_true, if_neg Bool.false_ne_true, htile]
      exact Nat.div_one _
  have hleft : (s.alignedRect rect).left =
      rect.left / s.tiledSize * (s.tiledSize * s.tiledSize) := by
    rw [h.alignedRect_eq hlevel hrect]
  have hsum : s.unitCols level * (s.tiledSize * s.tiledSize) * s.firstRow rect +
      rect.left / s.tiledSize * (s.tiledSize * s.tiledSize) =
        s.firstUnit rect level * (s.tiledSize * s.tiledSize) := by
    unfold firstUnit
    ring
  rw [rectOffset, hrow, hleft, h.strideTiled_eq hlevel, hsum, u32_eq (by omega)]

/-- The interval in units, with sums that may wrap. -/
theorem getSubRectInterval_eq : s.getSubRectInterval rect level =
    ⟨u32 (s.mipmapOffset level + s.firstUnit rect level * s.unitBytes),
      u32 (s.mipmapOffset level +
        (s.firstUnit rect level + s.unitCount rect level) * s.unitBytes)⟩ := by
  have hright : rect.right ≤ s.levelWidth level := hrect.right
  have htop : rect.top ≤ s.levelHeight level := hrect.top
  have hleft := hrect.left
  have hbottom := hrect.bottom
  obtain ⟨hW, hH⟩ := h.stacked.levelSides_lt hlevel
  have hlt := h.unitEnd_bytes_lt hlevel hrect
  have hfirst : s.firstUnit rect level * s.unitBytes < 2 ^ 29 :=
    Nat.lt_of_le_of_lt (Nat.mul_le_mul_right _ (Nat.le_add_right _ _)) hlt
  have hwidth : rect.getWidth = rect.right - rect.left :=
    Rectangle.getWidth_eq hleft.le (by omega)
  have hheight : rect.getHeight = rect.top - rect.bottom :=
    Rectangle.getHeight_eq hbottom.le (by omega)
  rw [getSubRectInterval, if_neg (by omega), h.rectOffset_eq hlevel hrect,
    h.rectPixels_eq hlevel hrect, ← Nat.add_mul, h.stacked.bytesInPixels_units hfirst,
    h.stacked.bytesInPixels_units hlt]

/-! ## When the interval is the right one -/

/-- The rows of units that a rectangle touches. -/
theorem unitRow_bounds (hbase : s.isTiled = true → level = 0) {y : Nat} (hlower : rect.bottom ≤ y)
    (hupper : y < rect.top) :
    s.firstRow rect ≤ s.unitRow level y ∧
      s.unitRow level y + 1 ≤ s.firstRow rect + (s.topUnit rect - rect.bottom / s.tiledSize) := by
  have htop : rect.top ≤ s.levelHeight level := hrect.top
  have hrows := h.levelHeight_eq hlevel
  unfold firstRow unitRow topUnit
  cases htiled : s.isTiled with
  | true =>
    have htile : s.tiledSize = 8 := if_pos htiled
    have hheight : s.levelHeight level = s.height := by
      rw [hbase htiled]
      rfl
    rw [hheight, htile] at hrows
    rw [hheight] at htop
    rw [if_pos rfl, if_pos rfl, htile, hheight]
    omega
  | false =>
    have htile : s.tiledSize = 1 := if_neg (by rw [htiled]; exact Bool.false_ne_true)
    rw [if_neg Bool.false_ne_true, if_neg Bool.false_ne_true, htile]
    omega

/-- The first and the last of them: rows run upwards in a linear surface, and downwards in a tiled
one. -/
theorem unitRow_ends (hbase : s.isTiled = true → level = 0) :
    (∃ y, rect.bottom ≤ y ∧ y < rect.top ∧ s.unitRow level y = s.firstRow rect) ∧
      ∃ y, rect.bottom ≤ y ∧ y < rect.top ∧ s.unitRow level y < s.unitRows level ∧
        s.unitRow level y + 1 =
          s.firstRow rect + (s.topUnit rect - rect.bottom / s.tiledSize) := by
  have htop : rect.top ≤ s.levelHeight level := hrect.top
  have hbottom := hrect.bottom
  have hrows := h.levelHeight_eq hlevel
  unfold firstRow unitRow topUnit
  cases htiled : s.isTiled with
  | true =>
    have htile : s.tiledSize = 8 := if_pos htiled
    have hheight : s.levelHeight level = s.height := by
      rw [hbase htiled]
      rfl
    rw [hheight, htile] at hrows
    rw [hheight] at htop
    simp only [if_pos]
    rw [htile, hheight]
    exact ⟨⟨rect.top - 1, by omega, by omega, by omega⟩,
      rect.bottom, by omega, by omega, by omega, by omega⟩
  | false =>
    have htile : s.tiledSize = 1 := if_neg (by rw [htiled]; exact Bool.false_ne_true)
    rw [htile] at hrows
    simp only [if_neg Bool.false_ne_true]
    rw [htile]
    exact ⟨⟨rect.bottom, by omega, by omega, rfl⟩, rect.top - 1, by omega, by omega, by omega,
      by omega⟩

/-- Where the interval ends, in rows and columns. -/
theorem unitEnd_eq : s.firstUnit rect level + s.unitCount rect level =
    s.unitCols level * (s.firstRow rect + (s.topUnit rect - rect.bottom / s.tiledSize) - 1) +
      s.rightUnit rect := by
  obtain ⟨hl, _, hb, _⟩ := h.unitBounds hlevel hrect
  have hpos := Nat.sub_pos_of_lt hb
  have hrows : s.firstRow rect + (s.topUnit rect - rect.bottom / s.tiledSize) - 1 =
      s.firstRow rect + (s.topUnit rect - rect.bottom / s.tiledSize - 1) := Nat.add_sub_assoc hpos _
  rw [hrows]
  unfold firstUnit unitCount
  rw [Nat.add_add_add_comm, Nat.add_sub_of_le hl.le, Nat.mul_comm (_ - 1), ← Nat.mul_add]

/-- In a linear surface and in a base level the interval ends in the level. -/
theorem unitEnd_le_level (hbase : s.isTiled = true → level = 0) :
    (s.firstUnit rect level + s.unitCount rect level) * s.unitBytes ≤ s.levelBytes level := by
  obtain ⟨hl, hr, hb, ht⟩ := h.unitBounds hlevel hrect
  obtain ⟨y, _, _, hrow, hlast⟩ := (h.unitRow_ends hlevel hrect hbase).2
  rw [h.unitEnd_eq hlevel hrect, ← hlast, Nat.add_sub_cancel, h.levelBytes_eq hlevel, rowBytes]
  calc (s.unitCols level * s.unitRow level y + s.rightUnit rect) * s.unitBytes
      ≤ (s.unitCols level * s.unitRow level y + s.unitCols level) * s.unitBytes :=
        Nat.mul_le_mul_right _ (Nat.add_le_add_left hr _)
    _ = s.unitCols level * (s.unitRow level y + 1) * s.unitBytes := by ring
    _ ≤ s.unitCols level * s.unitRows level * s.unitBytes :=
        Nat.mul_le_mul_right _ (Nat.mul_le_mul_left _ hrow)
    _ = s.unitBytes * s.unitCols level * s.unitRows level := by ring

/-- There the sums do not wrap. -/
theorem getSubRectInterval_base (hbase : s.isTiled = true → level = 0) :
    s.getSubRectInterval rect level =
      ⟨s.mipmapOffset level + s.firstUnit rect level * s.unitBytes,
        s.mipmapOffset level +
          (s.firstUnit rect level + s.unitCount rect level) * s.unitBytes⟩ := by
  have hend := h.unitEnd_le_level hlevel hrect hbase
  have hfits := h.fits
  have hmono := s.levelStart_mono (show level + 1 ≤ s.levels from hlevel)
  have hstep : s.levelStart (level + 1) = s.levelStart level + s.levelBytes level := rfl
  have hfirst : s.firstUnit rect level * s.unitBytes ≤
      (s.firstUnit rect level + s.unitCount rect level) * s.unitBytes :=
    Nat.mul_le_mul_right _ (Nat.le_add_right _ _)
  rw [h.getSubRectInterval_eq hlevel hrect, h.stacked.mipmapOffset_eq hlevel, u32_eq (by omega),
    u32_eq (by omega)]

theorem isSmallest_base (hbase : s.isTiled = true → level = 0) :
    s.IsSmallest rect level (s.getSubRectInterval rect level) := by
  obtain ⟨⟨top, hbottom₁, htop₁, hfirst⟩, bottom, hbottom₂, htop₂, _, hlast⟩ :=
    h.unitRow_ends hlevel hrect hbase
  rw [h.getSubRectInterval_base hlevel hrect hbase, h.unitEnd_eq hlevel hrect, ← hlast,
    Nat.add_sub_cancel]
  constructor
  · intro x y hleft hright hbottom htop
    obtain ⟨hcol, hcol'⟩ := s.unitCol_bounds hleft hright
    obtain ⟨hrow, hrow'⟩ := h.unitRow_bounds hlevel hrect hbase hbottom htop
    rw [← hlast] at hrow'
    have hbegin : s.firstUnit rect level ≤
        s.unitCols level * s.unitRow level y + x / s.tiledSize :=
      Nat.add_le_add (Nat.mul_le_mul_left _ hrow) hcol
    have hend : s.unitCols level * s.unitRow level y + (x / s.tiledSize + 1) ≤
        s.unitCols level * s.unitRow level bottom + s.rightUnit rect :=
      Nat.add_le_add (Nat.mul_le_mul_left _ (Nat.le_of_succ_le_succ hrow')) hcol'
    have hbegin' := Nat.mul_le_mul_right s.unitBytes hbegin
    have hend' := Nat.mul_le_mul_right s.unitBytes hend
    rw [← Nat.add_assoc, Nat.succ_mul] at hend'
    rw [unitStart, Nat.mul_comm s.unitBytes]
    exact ⟨Nat.add_le_add_left hbegin' _,
      (Nat.add_assoc _ _ _).trans_le (Nat.add_le_add_left hend' _)⟩
  · intro j hcovers
    have hcorner := (hcovers rect.left top (Nat.le_refl _) hrect.left hbottom₁ htop₁).1
    have hcorner' := (hcovers (rect.right - 1) bottom (Nat.le_sub_one_of_lt hrect.left)
      (Nat.sub_one_lt_of_lt hrect.left) hbottom₂ htop₂).2
    have hright : (rect.right - 1) / s.tiledSize + 1 = s.rightUnit rect := by
      have hpos := hrect.left
      unfold rightUnit
      rw [← Nat.add_div_right _ s.tiledSize_pos]
      congr 1
      omega
    rw [unitStart, hfirst, Nat.mul_comm s.unitBytes] at hcorner
    rw [unitStart, Nat.add_assoc, ← Nat.mul_succ, Nat.succ_eq_add_one, Nat.add_assoc, hright,
      Nat.mul_comm s.unitBytes] at hcorner'
    exact ⟨hcorner, hcorner'⟩

/-- In the mipmaps of a tiled surface the row is counted from the height of the base level, and the
interval begins behind the rectangle. -/
theorem not_covers_mipmap (htiled : s.isTiled = true) (hmipmap : level ≠ 0) :
    ¬ s.Covers rect level (s.getSubRectInterval rect level) := by
  intro hcovers
  have htile : s.tiledSize = 8 := if_pos htiled
  obtain ⟨hl, hr, hb, ht⟩ := h.unitBounds hlevel hrect
  have hlt := h.unitEnd_bytes_lt hlevel hrect
  have hcols := h.unitCols_pos hlevel
  have hbottom := hrect.bottom
  have htop : rect.top ≤ s.levelHeight level := hrect.top
  have hheight := h.levelHeight_eq hlevel
  have hpos := h.stacked.unitBytes_pos
  -- the base level has twice as many rows at least
  have hrows : 2 * s.unitRows level ≤ s.height / 8 := by
    have hbase := (h.sides_of_tiled hlevel htiled).2
    have htwo : 2 ≤ 2 ^ level := by
      calc 2 = 2 ^ 1 := rfl
        _ ≤ 2 ^ level := Nat.pow_le_pow_right (by decide) (Nat.pos_of_ne_zero hmipmap)
    have htwice := Nat.mul_le_mul_right (s.levelHeight level) htwo
    rw [htile] at hheight
    omega
  have hrow : s.unitRow level (rect.top - 1) + s.unitRows level ≤ s.firstRow rect := by
    rw [htile] at hheight hb
    unfold firstRow unitRow topUnit at *
    rw [htile] at ht
    rw [if_pos htiled, if_pos htiled, htile]
    omega
  have hbehind : s.unitCols level * s.unitRow level (rect.top - 1) + rect.left / s.tiledSize <
      s.firstUnit rect level := by
    refine Nat.add_lt_add_right ((Nat.mul_lt_mul_left hcols).2 ?_) _
    have hone := h.unitRows_pos hlevel
    omega
  have hbytes := (Nat.mul_lt_mul_right hpos).2 hbehind
  obtain ⟨hlower, hupper⟩ := hcovers rect.left (rect.top - 1) (Nat.le_refl _) hrect.left
    (Nat.le_sub_one_of_lt hbottom) (Nat.sub_one_lt_of_lt hbottom)
  have hfirst : s.firstUnit rect level * s.unitBytes ≤
      (s.firstUnit rect level + s.unitCount rect level) * s.unitBytes :=
    Nat.mul_le_mul_right _ (Nat.le_add_right _ _)
  rw [h.getSubRectInterval_eq hlevel hrect, unitStart, Nat.mul_comm s.unitBytes] at hlower hupper
  simp only at hlower hupper
  generalize (s.unitCols level * s.unitRow level (rect.top - 1) + rect.left / s.tiledSize) *
    s.unitBytes = place at *
  generalize s.firstUnit rect level * s.unitBytes = first at *
  generalize (s.firstUnit rect level + s.unitCount rect level) * s.unitBytes = last at *
  unfold u32 at hlower hupper
  have hfits := h.fits
  have hmono := s.levelStart_mono hlevel.le
  rw [h.stacked.mipmapOffset_eq hlevel] at hlower hupper
  omega

omit hrect in
/-- A pixel lies in its unit. -/
theorem pixel_in_unit {x y : Nat} :
    8 * s.unitStart level x y ≤ s.levelPixelBit level x y ∧
      s.levelPixelBit level x y + s.formatBpp ≤ 8 * (s.unitStart level x y + s.unitBytes) := by
  have hunit := h.stacked.eight_mul_unitBytes
  obtain ⟨m, hm, hindex⟩ : ∃ m < s.tiledSize * s.tiledSize,
      pixelIndex s.isTiled (s.stride >>> level) (s.height >>> level) x y =
        s.tiledSize * s.tiledSize * (s.unitCols level * s.unitRow level y + x / s.tiledSize) + m := by
    have hwidth : s.stride >>> level = s.unitCols level * s.tiledSize := by
      rw [h.stride]
      exact h.levelWidth_eq hlevel
    rw [hwidth]
    unfold pixelIndex unitRow levelHeight
    cases htiled : s.isTiled with
    | true =>
      have htile : s.tiledSize = 8 := if_pos htiled
      rw [htile]
      refine ⟨mortonInterleave (x % 8) ((s.height >>> level - 1 - y) % 8),
        mortonInterleave_lt _ _, ?_⟩
      rw [if_pos rfl, if_pos rfl]
      ring
    | false =>
      have htile : s.tiledSize = 1 := if_neg (by rw [htiled]; exact Bool.false_ne_true)
      rw [htile]
      refine ⟨0, by decide, ?_⟩
      rw [if_neg Bool.false_ne_true, if_neg Bool.false_ne_true, Nat.div_one]
      ring
  have hbit : s.levelPixelBit level x y = 8 * s.unitStart level x y + s.formatBpp * m := by
    rw [levelPixelBit, hindex, unitStart, Nat.mul_add 8, ← Nat.mul_assoc 8, hunit]
    ring
  have hlast : s.formatBpp * m + s.formatBpp ≤ 8 * s.unitBytes := by
    rw [hunit, Nat.mul_comm (s.tiledSize * s.tiledSize), ← Nat.mul_succ]
    exact Nat.mul_le_mul_left _ hm
  omega

end Laid

end SurfaceParams

/-! ## A draw invalidates what it changes -/

/-- A scaled edge that fits into an `s32` is what the integers give. -/
def EdgeFits (start : Nat) (edge : Int) (resScale : Nat) : Prop :=
  -2 ^ 31 ≤ start + edge * resScale ∧ start + edge * resScale < 2 ^ 31

theorem EdgeFits.scaledEdge_eq {start resScale : Nat} {edge : Int}
    (h : EdgeFits start edge resScale) : scaledEdge start edge resScale = start + edge * resScale :=
  Int.bmod_eq_of_le (by unfold EdgeFits at h; omega) (by unfold EdgeFits at h; omega)

theorem clampBetween_scale (v : Int) (a lo hi k : Nat) :
    clampBetween ((a * k : Nat) + v * k) (lo * k) (hi * k) = clampBetween (a + v) lo hi * k := by
  have hk : (0 : Int) ≤ k := Int.natCast_nonneg k
  have hsum : ((a * k : Nat) : Int) + v * k = (a + v) * k := by
    push_cast
    ring
  have hmin : min ((a + v) * (k : Int)) ((hi * k : Nat) : Int) = min (a + v) (hi : Int) * k := by
    rw [min_mul_of_nonneg _ _ hk]
    push_cast
    rfl
  have hmax : max ((lo * k : Nat) : Int) (min (a + v) (hi : Int) * k) =
      max (lo : Int) (min (a + v) hi) * k := by
    rw [max_mul_of_nonneg _ _ hk]
    push_cast
    rfl
  unfold clampBetween
  rw [hsum, hmin, hmax]
  have hpos : (0 : Int) ≤ max (lo : Int) (min (a + v) hi) := (Int.natCast_nonneg lo).trans (le_max_left _ _)
  rw [Int.toNat_mul hpos hk, Int.toNat_natCast]

theorem clampBetween_bounds {v : Int} {lo hi : Nat} (h : lo ≤ hi) :
    lo ≤ clampBetween v lo hi ∧ clampBetween v lo hi ≤ hi := by
  unfold clampBetween
  omega

theorem clampBetween_mono {v w : Int} (h : v ≤ w) (lo hi : Nat) :
    clampBetween v lo hi ≤ clampBetween w lo hi := by
  unfold clampBetween
  omega

/-- A draw into a surface: the surfaces of the framebuffer and their scaled rectangle are those that
`GetFramebufferSurfaces` gives, and no scaled edge of the viewport leaves the `s32` range. -/
structure DrawnInto (s : SurfaceParams) (rect : Rectangle) (viewport : ViewportRect) (flip : Bool)
    (resScale : Nat) : Prop where
  type : s.type ≠ .texture
  scale_pos : 0 < resScale
  right : rect.right * resScale < 2 ^ 31
  top : rect.top * resScale < 2 ^ 31
  viewport_x : viewport.left ≤ viewport.right
  viewport_y : viewport.bottom ≤ viewport.top
  edges_x : ∀ edge ∈ [viewport.left, viewport.right],
    EdgeFits (rect.scale resScale).left edge resScale
  edges_y : ∀ edge ∈ [(viewport.flipped (rect.scale resScale) flip resScale).bottom,
      (viewport.flipped (rect.scale resScale) flip resScale).top],
    EdgeFits (rect.scale resScale).bottom edge resScale

/-- A flip leaves the columns as they are. -/
theorem ViewportRect.flipped_x (viewport : ViewportRect) (surfaces : Rectangle) (flip : Bool)
    (resScale : Nat) : (viewport.flipped surfaces flip resScale).left = viewport.left ∧
      (viewport.flipped surfaces flip resScale).right = viewport.right := by
  unfold flipped
  split
  · exact ⟨rfl, rfl⟩
  · exact ⟨rfl, rfl⟩

/-- It keeps the rows in order. -/
theorem ViewportRect.flipped_y {viewport : ViewportRect} (h : viewport.bottom ≤ viewport.top)
    (surfaces : Rectangle) (flip : Bool) (resScale : Nat) :
    (viewport.flipped surfaces flip resScale).bottom ≤
      (viewport.flipped surfaces flip resScale).top := by
  unfold flipped
  split
  · exact Int.sub_le_sub_left h _
  · exact h

/-- The rectangle of a draw is made of whole pixels, and lies inside the rectangle of the surface. -/
theorem DrawnInto.exists_drawn {s : SurfaceParams} {rect : Rectangle} {viewport : ViewportRect}
    {flip : Bool} {resScale : Nat} (h : DrawnInto s rect viewport flip resScale)
    (hx : rect.left ≤ rect.right) (hy : rect.bottom ≤ rect.top) :
    ∃ r : Rectangle, drawRect (rect.scale resScale) viewport flip resScale =
        ⟨r.left * resScale, r.top * resScale, r.right * resScale, r.bottom * resScale⟩ ∧
      rect.left ≤ r.left ∧ r.left ≤ r.right ∧ r.right ≤ rect.right ∧
      rect.bottom ≤ r.bottom ∧ r.bottom ≤ r.top ∧ r.top ≤ rect.top := by
  have hleft := Nat.mul_le_mul_right resScale hx
  have hbottom := Nat.mul_le_mul_right resScale hy
  have hright := h.right
  have htop := h.top
  have hscale : rect.scale resScale =
      ⟨rect.left * resScale, rect.top * resScale, rect.right * resScale, rect.bottom * resScale⟩ := by
    rw [Rectangle.scale, u32_eq (by omega), u32_eq (by omega), u32_eq (by omega), u32_eq (by omega)]
  obtain ⟨hvl, hvr⟩ := viewport.flipped_x (rect.scale resScale) flip resScale
  have hvy := ViewportRect.flipped_y h.viewport_y (rect.scale resScale) flip resScale
  have hvx := h.viewport_x
  have hedges_x := h.edges_x
  have hedges_y := h.edges_y
  rw [← hvl, ← hvr] at hvx hedges_x
  unfold drawRect
  simp only
  generalize viewport.flipped (rect.scale resScale) flip resScale = v at hvx hvy hedges_x hedges_y ⊢
  rw [(hedges_x v.left (by simp)).scaledEdge_eq, (hedges_x v.right (by simp)).scaledEdge_eq,
    (hedges_y v.bottom (by simp)).scaledEdge_eq, (hedges_y v.top (by simp)).scaledEdge_eq, hscale]
  refine ⟨⟨clampBetween (rect.left + v.left) rect.left rect.right,
      clampBetween (rect.bottom + v.top) rect.bottom rect.top,
      clampBetween (rect.left + v.right) rect.left rect.right,
      clampBetween (rect.bottom + v.bottom) rect.bottom rect.top⟩, ?_,
    (clampBetween_bounds hx).1, clampBetween_mono (by omega) _ _, (clampBetween_bounds hx).2,
    (clampBetween_bounds hy).1, clampBetween_mono (by omega) _ _, (clampBetween_bounds hy).2⟩
  rw [clampBetween_scale, clampBetween_scale, clampBetween_scale, clampBetween_scale]

/-- What the interval of a rectangle has to be: the smallest one that contains the units that the
rectangle touches, a part of its level, and all that a draw into the rectangle needs. -/
structure RectIntervalOk (s : SurfaceParams) (level : Nat) (rect : Rectangle) : Prop where
  smallest : s.IsSmallest rect level (s.getSubRectInterval rect level)
  lower : (s.levelInterval level).lower ≤ (s.getSubRectInterval rect level).lower
  upper : (s.getSubRectInterval rect level).upper ≤ (s.levelInterval level).upper
  draws : ∀ viewport flip resScale, DrawnInto s rect viewport flip resScale →
    DrawSafe s level (drawRect (rect.scale resScale) viewport flip resScale) resScale

namespace SurfaceParams.Laid

variable {s : SurfaceParams} (h : s.Laid) {level : Nat} (hlevel : level < s.levels)
  {rect : Rectangle} (hrect : s.InsideLevel rect level)
  (hbase : s.isTiled = true → level = 0)
include h hlevel hrect hbase

/-- The interval lies in its level. -/
theorem interval_in_level :
    (s.levelInterval level).lower ≤ (s.getSubRectInterval rect level).lower ∧
      (s.getSubRectInterval rect level).upper ≤ (s.levelInterval level).upper := by
  have hend := h.unitEnd_le_level hlevel hrect hbase
  have hstep : s.levelStart (level + 1) = s.levelStart level + s.levelBytes level := rfl
  have hoffset := h.stacked.mipmapOffset_eq hlevel
  rw [h.getSubRectInterval_base hlevel hrect hbase, h.stacked.levelInterval_eq hlevel]
  simp only
  omega

/-- The owner of the interval passes the assertions. -/
theorem ownerAsserts_interval (htype : s.type ≠ .texture) :
    ownerAsserts s (s.getSubRectInterval rect level).lower
      ((s.getSubRectInterval rect level).upper - (s.getSubRectInterval rect level).lower) = true := by
  obtain ⟨hlower, hupper⟩ := h.interval_in_level hlevel hrect hbase
  have hmono := s.levelStart_mono (show level + 1 ≤ s.levels from hlevel)
  have hfits := h.fits
  have hend := h.stacked.end_eq
  have hle : (s.getSubRectInterval rect level).lower ≤ (s.getSubRectInterval rect level).upper := by
    rw [h.getSubRectInterval_base hlevel hrect hbase]
    exact Nat.add_le_add_left (Nat.mul_le_mul_right _ (Nat.le_add_right _ _)) _
  rw [h.stacked.levelInterval_eq hlevel] at hlower hupper
  simp only at hlower hupper
  have howner : s.addr ≤ (s.getSubRectInterval rect level).lower := by omega
  have hinside : u32 ((s.getSubRectInterval rect level).lower +
      ((s.getSubRectInterval rect level).upper - (s.getSubRectInterval rect level).lower)) ≤
        s.«end» := by
    rw [Nat.add_sub_cancel' hle, u32_eq (by omega)]
    omega
  simp [ownerAsserts, htype, howner, hinside, h.stride]

/-- The pixels of the rectangle lie in the interval. -/
theorem pixel_in_interval {x y : Nat} (hleft : rect.left ≤ x) (hright : x < rect.right)
    (hbottom : rect.bottom ≤ y) (htop : y < rect.top) :
    8 * (s.getSubRectInterval rect level).lower ≤ s.levelPixelBit level x y ∧
      s.levelPixelBit level x y + s.formatBpp ≤ 8 * (s.getSubRectInterval rect level).upper := by
  obtain ⟨hlower, hupper⟩ :=
    (h.isSmallest_base hlevel hrect hbase).1 x y hleft hright hbottom htop
  obtain ⟨hbegin, hend⟩ := h.pixel_in_unit hlevel (x := x) (y := y)
  omega

end SurfaceParams.Laid

/-- A draw into a rectangle of whole pixels is safe when the rectangle is empty, or when it lies in a
linear surface or in a base level. -/
theorem drawSafe_base {s : SurfaceParams} (h : s.Laid) {level : Nat} (hlevel : level < s.levels)
    (hbase : s.isTiled = true → level = 0) (htype : s.type ≠ .texture) {resScale : Nat}
    (hscale : 0 < resScale) {r : Rectangle} (hx : r.left ≤ r.right)
    (hright : r.right ≤ (s.getRect level).right) (hy : r.bottom ≤ r.top)
    (htop : r.top ≤ (s.getRect level).top) :
    DrawSafe s level
      ⟨r.left * resScale, r.top * resScale, r.right * resScale, r.bottom * resScale⟩ resScale := by
  have hunscale : Rectangle.unscale
      ⟨r.left * resScale, r.top * resScale, r.right * resScale, r.bottom * resScale⟩ resScale = r := by
    simp only [Rectangle.unscale, Nat.mul_div_cancel _ hscale]
  have hpixel {X Y : Nat} (hX : r.left * resScale ≤ X) (hX' : X < r.right * resScale)
      (hY : r.bottom * resScale ≤ Y) (hY' : Y < r.top * resScale) :
      (r.left ≤ X / resScale ∧ X / resScale < r.right) ∧
        r.bottom ≤ Y / resScale ∧ Y / resScale < r.top :=
    ⟨⟨(Nat.le_div_iff_mul_le hscale).2 hX, (Nat.div_lt_iff_lt_mul hscale).2 hX'⟩,
      (Nat.le_div_iff_mul_le hscale).2 hY, (Nat.div_lt_iff_lt_mul hscale).2 hY'⟩
  by_cases hempty : r.left < r.right ∧ r.bottom < r.top
  · have hinside : s.InsideLevel r level := ⟨hempty.1, hright, hempty.2, htop⟩
    constructor
    · intro X Y hX hX' hY hY'
      obtain ⟨⟨hl, hr⟩, hb, ht⟩ := hpixel hX hX' hY hY'
      rw [invalidated, hunscale]
      exact h.pixel_in_interval hlevel hinside hbase hl hr hb ht
    · rw [invalidated, hunscale]
      exact h.ownerAsserts_interval hlevel hinside hbase htype
  · have hside := h.stacked.levelSides_lt hlevel
    have hright' : r.right ≤ s.levelWidth level := hright
    have htop' : r.top ≤ s.levelHeight level := htop
    have hwidth := Rectangle.getWidth_eq hx (by omega)
    have hheight := Rectangle.getHeight_eq hy (by omega)
    have hnone : s.getSubRectInterval r level = ⟨0, 0⟩ := if_pos (by omega)
    constructor
    · intro X Y hX hX' hY hY'
      obtain ⟨⟨hl, hr⟩, hb, ht⟩ := hpixel hX hX' hY hY'
      exact absurd ⟨Nat.lt_of_le_of_lt hl hr, Nat.lt_of_le_of_lt hb ht⟩ hempty
    · rw [invalidated, hunscale, hnone]
      rfl

end AzaharPlus.Video
