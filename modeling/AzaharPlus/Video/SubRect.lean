import AzaharPlus.Video.SurfaceParams
import AzaharPlus.Video.TileCopy

/-!
# Parts of a surface

`CanSubRect` says whether a surface can be used in place of a smaller one, and `GetSubRect` which
rectangle of it that is.  The match is sound if the rectangle lies inside the level and each pixel
of the smaller surface is the pixel of the level at its place.  As a pixel may be half a byte, the
places of pixels are counted in bits.

* `getSubRect_eq` — the rectangle, from the unit at which the smaller surface begins.
* `canSubRect_sound_iff` — a match is sound if the smaller surface stays in the level it begins in.
-/

namespace AzaharPlus.Video

namespace SurfaceParams

/-! ## Pixels -/

/-- The place of a pixel among those of a level, of which `y` is counted from the bottom: rows from
the bottom up in a linear surface, and rows of tiles from the top down in a tiled one. -/
def pixelIndex (isTiled : Bool) (stride height x y : Nat) : Nat :=
  if isTiled then
    (height - 1 - y) / 8 * (stride * 8) + x / 8 * 64 +
      mortonInterleave (x % 8) ((height - 1 - y) % 8)
  else y * stride + x

variable (s sub : SurfaceParams)

/-- The bit of memory at which a pixel of the surface begins. -/
def pixelBit (x y : Nat) : Nat :=
  8 * s.addr + s.formatBpp * pixelIndex s.isTiled s.stride s.height x y

/-- The bit of memory at which a pixel of a level begins. -/
def levelPixelBit (level x y : Nat) : Nat :=
  8 * s.mipmapOffset level +
    s.formatBpp * pixelIndex s.isTiled (s.stride >>> level) (s.height >>> level) x y

/-- The rectangle that `GetSubRect` finds lies inside the level, nothing wraps, and its pixels are
those of the smaller surface. -/
structure SoundSubRect : Prop where
  width : (s.getSubRect sub).left + sub.width = (s.getSubRect sub).right
  right : (s.getSubRect sub).right ≤ (s.getRect (s.levelOf sub.addr)).right
  height : (s.getSubRect sub).bottom + sub.height = (s.getSubRect sub).top
  top : (s.getSubRect sub).top ≤ (s.getRect (s.levelOf sub.addr)).top
  pixels : ∀ x < sub.width, ∀ y < sub.height, sub.pixelBit x y =
    s.levelPixelBit (s.levelOf sub.addr) ((s.getSubRect sub).left + x)
      ((s.getSubRect sub).bottom + y)

/-- The smaller surface stays in the level in which it begins: its width fits behind its beginning
into a row of units of that level, and from that row on the level has as many rows of units as its
height needs. -/
structure StaysInLevel : Prop where
  width : (sub.addr - s.mipmapOffset (s.levelOf sub.addr)) % s.rowBytes (s.levelOf sub.addr) +
    sub.width * s.tiledSize * s.formatBpp / 8 ≤ s.rowBytes (s.levelOf sub.addr)
  height : (sub.addr - s.mipmapOffset (s.levelOf sub.addr)) / s.rowBytes (s.levelOf sub.addr) +
    (sub.height + s.tiledSize - 1) / s.tiledSize ≤ s.unitRows (s.levelOf sub.addr)

/-- The parameters of the smaller surface are words, and it has pixels. -/
structure HasPixels : Prop where
  addr : sub.addr < 2 ^ 32
  width_pos : 0 < sub.width
  width_lt : sub.width < 2 ^ 32
  height_pos : 0 < sub.height
  height_lt : sub.height < 2 ^ 32

/-- The pixels of a level lie in it. -/
theorem pixelIndex_lt {isTiled : Bool} {width height x y : Nat} (hx : x < width) (hy : y < height)
    (htiles : isTiled = true → 8 ∣ width ∧ 8 ∣ height) :
    pixelIndex isTiled width height x y < width * height := by
  unfold pixelIndex
  cases isTiled with
  | true =>
    obtain ⟨⟨cols, rfl⟩, ⟨rows, rfl⟩⟩ := htiles rfl
    have hmorton := mortonInterleave_lt (x % 8) ((8 * rows - 1 - y) % 8)
    have hcol : x / 8 + 1 ≤ cols := by omega
    have hrow : (8 * rows - 1 - y) / 8 + 1 ≤ rows := by omega
    rw [if_pos rfl]
    calc (8 * rows - 1 - y) / 8 * (8 * cols * 8) + x / 8 * 64 +
          mortonInterleave (x % 8) ((8 * rows - 1 - y) % 8)
        < (8 * rows - 1 - y) / 8 * (8 * cols * 8) + (x / 8 + 1) * 64 := by omega
      _ ≤ (8 * rows - 1 - y) / 8 * (8 * cols * 8) + cols * 64 := by omega
      _ = ((8 * rows - 1 - y) / 8 + 1) * (8 * cols * 8) := by ring
      _ ≤ rows * (8 * cols * 8) := Nat.mul_le_mul_right _ hrow
      _ = 8 * cols * (8 * rows) := by ring
  | false =>
    rw [if_neg Bool.false_ne_true]
    calc y * width + x < (y + 1) * width := by rw [Nat.succ_mul]; omega
      _ ≤ height * width := Nat.mul_le_mul_right _ hy
      _ = width * height := Nat.mul_comm _ _

/-- In a tiled level, the pixels of a part that begins at the tile `k`. -/
theorem pixelIndex_tiled {cols H h k x y : Nat} (hinside : 8 * (k / cols) + h ≤ H) (hy : y < h) :
    pixelIndex true (cols * 8) H (8 * (k % cols) + x) (H - (8 * (k / cols) + h) + y) =
      64 * k + pixelIndex true (cols * 8) h x y := by
  have htop : H - 1 - (H - (8 * (k / cols) + h) + y) = h - 1 - y + 8 * (k / cols) := by omega
  have hdiv := Nat.add_mul_div_left (h - 1 - y) (k / cols) (show 0 < 8 by decide)
  have hmod := Nat.add_mul_mod_self_left (h - 1 - y) 8 (k / cols)
  have hdiv' : (8 * (k % cols) + x) / 8 = k % cols + x / 8 := by omega
  have hmod' : (8 * (k % cols) + x) % 8 = x % 8 := by omega
  have hk : 64 * k = k / cols * (cols * 8 * 8) + k % cols * 64 := by
    conv_lhs => rw [← Nat.div_add_mod k cols]
    ring
  unfold pixelIndex
  rw [if_pos rfl, if_pos rfl, htop, hdiv, hmod, hdiv', hmod', hk]
  ring

/-- In a linear level, the pixels of a part that begins at the pixel `k`. -/
theorem pixelIndex_linear (cols H h k x y : Nat) :
    pixelIndex false cols H (k % cols + x) (k / cols + y) = k + pixelIndex false cols h x y := by
  unfold pixelIndex
  rw [if_neg Bool.false_ne_true, if_neg Bool.false_ne_true]
  conv_rhs => rw [← Nat.div_add_mod k cols]
  ring

/-- In one row of tiles the stride does not matter. -/
theorem pixelIndex_stride {isTiled : Bool} {stride stride' h x y : Nat} (hy : y < h)
    (hstride : stride = stride' ∨ h ≤ if isTiled then 8 else 1) :
    pixelIndex isTiled stride h x y = pixelIndex isTiled stride' h x y := by
  rcases hstride with rfl | hrow
  · rfl
  · unfold pixelIndex
    cases isTiled with
    | true =>
      rw [if_pos rfl] at hrow
      have hzero : (h - 1 - y) / 8 = 0 := by omega
      rw [if_pos rfl, if_pos rfl, hzero, Nat.zero_mul, Nat.zero_mul]
    | false =>
      rw [if_neg Bool.false_ne_true] at hrow
      have hzero : y = 0 := by omega
      rw [if_neg Bool.false_ne_true, if_neg Bool.false_ne_true, hzero, Nat.zero_mul, Nat.zero_mul]

/-! ## The rectangle -/

namespace Laid

variable {s sub} (h : s.Laid)
include h

/-- The level of an address of the surface, and how far into that level it is. -/
theorem offset_le (hlower : s.addr ≤ sub.addr) (hupper : sub.addr ≤ s.«end») :
    s.levelOf sub.addr < s.levels ∧ s.mipmapOffset (s.levelOf sub.addr) ≤ sub.addr ∧
      sub.addr - s.mipmapOffset (s.levelOf sub.addr) ≤ s.levelBytes (s.levelOf sub.addr) := by
  obtain ⟨hlevel, hbegin, hend⟩ := h.stacked.levelOf_spec sub.addr hlower hupper
  have hstep : s.levelStart (s.levelOf sub.addr + 1) =
      s.levelStart (s.levelOf sub.addr) + s.levelBytes (s.levelOf sub.addr) := rfl
  rw [h.stacked.mipmapOffset_eq hlevel]
  exact ⟨hlevel, hbegin, by omega⟩

theorem beginPixelIndex_eq {k : Nat} (hlower : s.addr ≤ sub.addr) (hupper : sub.addr ≤ s.«end»)
    (hk : sub.addr - s.mipmapOffset (s.levelOf sub.addr) = k * s.unitBytes) :
    s.beginPixelIndex sub = k * (s.tiledSize * s.tiledSize) := by
  obtain ⟨hlevel, hbegin, hoffset⟩ := h.offset_le hlower hupper
  have hlt := h.stacked.levelBytes_lt hlevel
  have hend := h.stacked.end_eq
  have hfits := h.fits
  rw [beginPixelIndex, subU32_eq hbegin (by omega), hk, h.stacked.pixelsInBytes_units (by omega)]

/-- The rectangle of a surface that begins at the unit `k` of a level. -/
theorem getSubRect_eq {k : Nat} (hlower : s.addr ≤ sub.addr) (hupper : sub.addr ≤ s.«end»)
    (hk : sub.addr - s.mipmapOffset (s.levelOf sub.addr) = k * s.unitBytes) :
    s.getSubRect sub =
      if s.isTiled then
        ⟨s.tiledSize * (k % s.unitCols (s.levelOf sub.addr)),
          subU32 (s.levelHeight (s.levelOf sub.addr))
            (s.tiledSize * (k / s.unitCols (s.levelOf sub.addr))),
          u32 (s.tiledSize * (k % s.unitCols (s.levelOf sub.addr)) + sub.width),
          subU32 (s.levelHeight (s.levelOf sub.addr))
            (u32 (s.tiledSize * (k / s.unitCols (s.levelOf sub.addr)) + sub.height))⟩
      else
        ⟨s.tiledSize * (k % s.unitCols (s.levelOf sub.addr)),
          u32 (s.tiledSize * (k / s.unitCols (s.levelOf sub.addr)) + sub.height),
          u32 (s.tiledSize * (k % s.unitCols (s.levelOf sub.addr)) + sub.width),
          s.tiledSize * (k / s.unitCols (s.levelOf sub.addr))⟩ := by
  obtain ⟨hlevel, _, _⟩ := h.offset_le hlower hupper
  have hbegin := h.beginPixelIndex_eq hlower hupper hk
  have hcols := h.unitCols_pos hlevel
  have hstride : s.stride >>> s.levelOf sub.addr =
      s.unitCols (s.levelOf sub.addr) * s.tiledSize := by
    rw [h.stride]
    exact h.levelWidth_eq hlevel
  unfold getSubRect levelHeight
  cases htiled : s.isTiled with
  | true =>
    have htile : s.tiledSize = 8 := if_pos htiled
    have hrow : u32 (s.stride >>> s.levelOf sub.addr * 8) =
        s.unitCols (s.levelOf sub.addr) * 64 := by
      have hle := h.rowBytes_le hlevel
      have hlt := h.stacked.levelBytes_lt hlevel
      have hunit := h.stacked.eight_mul_unitBytes
      have hbpp := h.stacked.formatBpp_bounds.1
      rw [htile] at hunit
      have hcolBytes : 32 * s.unitCols (s.levelOf sub.addr) ≤ s.rowBytes (s.levelOf sub.addr) :=
        Nat.mul_le_mul_right _ (by omega)
      rw [hstride, htile, u32_eq (by omega)]
      omega
    simp only [if_pos]
    rw [hrow, hbegin, htile, Nat.mul_mod_mul_right, Nat.mul_div_mul_right _ _ (by decide)]
    have hleft : k % s.unitCols (s.levelOf sub.addr) * (8 * 8) / 8 =
        8 * (k % s.unitCols (s.levelOf sub.addr)) := by omega
    have htop : k / s.unitCols (s.levelOf sub.addr) * 8 =
        8 * (k / s.unitCols (s.levelOf sub.addr)) := Nat.mul_comm _ _
    rw [hleft, htop]
  | false =>
    have htile : s.tiledSize = 1 := if_neg (by rw [htiled]; exact Bool.false_ne_true)
    simp only [if_neg Bool.false_ne_true]
    rw [hstride, hbegin, htile]
    simp only [Nat.mul_one, Nat.one_mul]

/-! ## What a match says -/

theorem canSubRect_spec (hcan : s.canSubRect sub = true) :
    s.addr ≤ sub.addr ∧ sub.«end» ≤ s.«end» ∧ sub.pixelFormat = s.pixelFormat ∧
      sub.isTiled = s.isTiled ∧
      (subU32 sub.addr (s.mipmapOffset (s.levelOf sub.addr))) % s.unitBytes = 0 ∧
      (sub.stride = s.stride >>> s.levelOf sub.addr ∨ sub.height ≤ s.tiledSize) ∧
      (s.getSubRect sub).right ≤ s.stride := by
  simp only [canSubRect, Bool.and_eq_true, Bool.or_eq_true, decide_eq_true_eq] at hcan
  rw [h.stacked.bytesInPixels_unit] at hcan
  obtain ⟨⟨⟨⟨⟨⟨⟨haddr, hend⟩, hformat⟩, _⟩, htiled⟩, haligned⟩, hstride⟩, hright⟩ := hcan
  exact ⟨haddr, hend, hformat, htiled, haligned, hstride, hright⟩

/-- A matching surface begins at a unit of its level. -/
theorem exists_unit (hcan : s.canSubRect sub = true) (hupper : sub.addr ≤ s.«end») :
    ∃ k, sub.addr - s.mipmapOffset (s.levelOf sub.addr) = k * s.unitBytes := by
  obtain ⟨hlower, _, _, _, haligned, _, _⟩ := h.canSubRect_spec hcan
  obtain ⟨_, hbegin, _⟩ := h.offset_le hlower hupper
  have hend := h.stacked.end_eq
  have hfits := h.fits
  rw [subU32_eq hbegin (by omega)] at haligned
  obtain ⟨k, hk⟩ := Nat.dvd_of_mod_eq_zero haligned
  exact ⟨k, hk.trans (Nat.mul_comm _ _)⟩

/-- A unit has as many bits in a row as a byte has, or a multiple. -/
theorem exists_rowBytes : ∃ q, 0 < q ∧ s.tiledSize * s.formatBpp = 8 * q ∧
    s.unitBytes = s.tiledSize * q := by
  have hbpp := h.stacked.formatBpp_bounds.1
  have hunit := h.stacked.eight_mul_unitBytes
  cases htiled : s.isTiled with
  | true =>
    have htile : s.tiledSize = 8 := if_pos htiled
    rw [htile] at hunit ⊢
    exact ⟨s.formatBpp, by omega, rfl, by omega⟩
  | false =>
    have htile : s.tiledSize = 1 := if_neg (by rw [htiled]; exact Bool.false_ne_true)
    have hdvd := h.linear htiled
    rw [htile] at hunit ⊢
    exact ⟨s.formatBpp / 8, by omega, by omega, by omega⟩

/-- In units: the smaller surface stays in its level if its rectangle lies inside. -/
theorem staysInLevel_iff {k : Nat} (hlower : s.addr ≤ sub.addr) (hupper : sub.addr ≤ s.«end»)
    (hk : sub.addr - s.mipmapOffset (s.levelOf sub.addr) = k * s.unitBytes) :
    s.StaysInLevel sub ↔
      s.tiledSize * (k % s.unitCols (s.levelOf sub.addr)) + sub.width ≤
          s.levelWidth (s.levelOf sub.addr) ∧
        s.tiledSize * (k / s.unitCols (s.levelOf sub.addr)) + sub.height ≤
          s.levelHeight (s.levelOf sub.addr) := by
  obtain ⟨hlevel, _, _⟩ := h.offset_le hlower hupper
  obtain ⟨q, hq, hbits, hunit⟩ := h.exists_rowBytes
  have hmod : k * s.unitBytes % s.rowBytes (s.levelOf sub.addr) =
      s.unitBytes * (k % s.unitCols (s.levelOf sub.addr)) := by
    rw [rowBytes, Nat.mul_comm k, Nat.mul_mod_mul_left]
  have hdiv : k * s.unitBytes / s.rowBytes (s.levelOf sub.addr) =
      k / s.unitCols (s.levelOf sub.addr) := by
    rw [rowBytes, Nat.mul_comm k, Nat.mul_div_mul_left _ _ h.stacked.unitBytes_pos]
  have hwidth : sub.width * s.tiledSize * s.formatBpp / 8 = sub.width * q := by
    rw [Nat.mul_assoc, hbits, Nat.mul_left_comm, Nat.mul_div_cancel_left _ (by decide)]
  have hcolumns : s.unitBytes * (k % s.unitCols (s.levelOf sub.addr)) + sub.width * q ≤
        s.rowBytes (s.levelOf sub.addr) ↔
      s.tiledSize * (k % s.unitCols (s.levelOf sub.addr)) + sub.width ≤
        s.unitCols (s.levelOf sub.addr) * s.tiledSize := by
    have hscaled : s.unitBytes * (k % s.unitCols (s.levelOf sub.addr)) + sub.width * q =
        (s.tiledSize * (k % s.unitCols (s.levelOf sub.addr)) + sub.width) * q := by
      rw [hunit]
      ring
    have hrow : s.rowBytes (s.levelOf sub.addr) =
        s.unitCols (s.levelOf sub.addr) * s.tiledSize * q := by
      rw [rowBytes, hunit]
      ring
    rw [hscaled, hrow]
    exact Nat.mul_le_mul_right_iff hq
  have hrows : k / s.unitCols (s.levelOf sub.addr) + (sub.height + s.tiledSize - 1) / s.tiledSize ≤
        s.unitRows (s.levelOf sub.addr) ↔
      s.tiledSize * (k / s.unitCols (s.levelOf sub.addr)) + sub.height ≤
        s.unitRows (s.levelOf sub.addr) * s.tiledSize := by
    unfold tiledSize
    split <;> omega
  rw [h.levelWidth_eq hlevel, h.levelHeight_eq hlevel, ← hcolumns, ← hrows]
  constructor
  · rintro ⟨hw, hh⟩
    rw [hk, hmod, hwidth] at hw
    rw [hk, hdiv] at hh
    exact ⟨hw, hh⟩
  · rintro ⟨hw, hh⟩
    refine ⟨?_, ?_⟩
    · rw [hk, hmod, hwidth]
      exact hw
    · rw [hk, hdiv]
      exact hh

/-! ## When a match is sound -/

/-- A part that lies inside the level, and the rectangle that `GetSubRect` finds for it. -/
theorem getSubRect_of_inside {k : Nat} (hlower : s.addr ≤ sub.addr) (hupper : sub.addr ≤ s.«end»)
    (hk : sub.addr - s.mipmapOffset (s.levelOf sub.addr) = k * s.unitBytes)
    (hwidth : s.tiledSize * (k % s.unitCols (s.levelOf sub.addr)) + sub.width ≤
      s.levelWidth (s.levelOf sub.addr))
    (hheight : s.tiledSize * (k / s.unitCols (s.levelOf sub.addr)) + sub.height ≤
      s.levelHeight (s.levelOf sub.addr)) :
    s.getSubRect sub =
      ⟨s.tiledSize * (k % s.unitCols (s.levelOf sub.addr)),
        if s.isTiled then s.levelHeight (s.levelOf sub.addr) -
          s.tiledSize * (k / s.unitCols (s.levelOf sub.addr))
        else s.tiledSize * (k / s.unitCols (s.levelOf sub.addr)) + sub.height,
        s.tiledSize * (k % s.unitCols (s.levelOf sub.addr)) + sub.width,
        if s.isTiled then s.levelHeight (s.levelOf sub.addr) -
          (s.tiledSize * (k / s.unitCols (s.levelOf sub.addr)) + sub.height)
        else s.tiledSize * (k / s.unitCols (s.levelOf sub.addr))⟩ := by
  obtain ⟨hlevel, _, _⟩ := h.offset_le hlower hupper
  obtain ⟨hW, hH⟩ := h.stacked.levelSides_lt hlevel
  rw [h.getSubRect_eq hlower hupper hk, u32_eq (by omega), u32_eq (by omega)]
  cases htiled : s.isTiled with
  | true =>
    simp only [if_pos]
    rw [subU32_eq (by omega) (by omega), subU32_eq (by omega) (by omega)]
  | false => simp only [if_neg Bool.false_ne_true]

/-- A part that lies inside the level has the level's pixels. -/
theorem pixelBit_of_inside {k x y : Nat} (hcan : s.canSubRect sub = true)
    (hupper : sub.addr ≤ s.«end»)
    (hk : sub.addr - s.mipmapOffset (s.levelOf sub.addr) = k * s.unitBytes)
    (hheight : s.tiledSize * (k / s.unitCols (s.levelOf sub.addr)) + sub.height ≤
      s.levelHeight (s.levelOf sub.addr)) (hy : y < sub.height) :
    sub.pixelBit x y =
      s.levelPixelBit (s.levelOf sub.addr) (s.tiledSize * (k % s.unitCols (s.levelOf sub.addr)) + x)
        ((if s.isTiled then s.levelHeight (s.levelOf sub.addr) -
          (s.tiledSize * (k / s.unitCols (s.levelOf sub.addr)) + sub.height)
        else s.tiledSize * (k / s.unitCols (s.levelOf sub.addr))) + y) := by
  obtain ⟨hlower, _, hformat, htile', _, hstride, _⟩ := h.canSubRect_spec hcan
  obtain ⟨hlevel, hbegin, _⟩ := h.offset_le hlower hupper
  have hbpp : sub.formatBpp = s.formatBpp := by
    unfold formatBpp
    rw [hformat]
  have hwidth : s.stride >>> s.levelOf sub.addr = s.unitCols (s.levelOf sub.addr) * s.tiledSize := by
    rw [h.stride]
    exact h.levelWidth_eq hlevel
  have haddr : 8 * sub.addr = 8 * s.mipmapOffset (s.levelOf sub.addr) +
      s.formatBpp * (s.tiledSize * s.tiledSize * k) := by
    have hunit := h.stacked.eight_mul_unitBytes
    have hbits : s.formatBpp * (s.tiledSize * s.tiledSize * k) = 8 * (k * s.unitBytes) := by
      rw [Nat.mul_left_comm 8, hunit]
      ring
    omega
  unfold pixelBit levelPixelBit
  rw [hbpp, htile', pixelIndex_stride hy hstride, hwidth, haddr, Nat.add_assoc, ← Nat.mul_add]
  cases htiled : s.isTiled with
  | true =>
    have htile : s.tiledSize = 8 := if_pos htiled
    rw [htile] at hheight ⊢
    rw [if_pos rfl]
    exact congrArg (8 * s.mipmapOffset (s.levelOf sub.addr) + s.formatBpp * ·)
      (pixelIndex_tiled hheight hy).symm
  | false =>
    have htile : s.tiledSize = 1 := if_neg (by rw [htiled]; exact Bool.false_ne_true)
    rw [htile, if_neg Bool.false_ne_true]
    simp only [Nat.mul_one, Nat.one_mul]
    rw [pixelIndex_linear]

/-- A surface that stays in its level is a sound match. -/
theorem sound_of_stays (hcan : s.canSubRect sub = true) (hupper : sub.addr ≤ s.«end»)
    (hstays : s.StaysInLevel sub) : s.SoundSubRect sub := by
  obtain ⟨hlower, _⟩ := h.canSubRect_spec hcan
  obtain ⟨k, hk⟩ := h.exists_unit hcan hupper
  obtain ⟨hwidth, hheight⟩ := (h.staysInLevel_iff hlower hupper hk).1 hstays
  have hrect := h.getSubRect_of_inside hlower hupper hk hwidth hheight
  refine ⟨?_, ?_, ?_, ?_, fun x _ y hy => ?_⟩
  · rw [hrect]
  · rw [hrect]
    exact hwidth
  · rw [hrect]
    simp only
    split <;> omega
  · rw [hrect]
    simp only
    split
    · exact Nat.sub_le _ _
    · exact hheight
  · rw [hrect]
    exact h.pixelBit_of_inside hcan hupper hk hheight hy

/-- A pixel of a level ends where the level does, or before. -/
theorem levelPixelBit_lt {level x y : Nat} (hlevel : level < s.levels)
    (hx : x < s.levelWidth level) (hy : y < s.levelHeight level) :
    s.levelPixelBit level x y < 8 * s.«end» := by
  have hbpp := h.stacked.formatBpp_bounds.1
  have htiles := fun htiled => h.tiles htiled level hlevel
  have hindex := pixelIndex_lt hx hy htiles
  have hbits := (h.eight_mul_levelBytes hlevel).1
  have hmono := s.levelStart_mono (show level + 1 ≤ s.levels from hlevel)
  have hstep : s.levelStart (level + 1) = s.levelStart level + s.levelBytes level := rfl
  have hwidth : s.stride >>> level = s.levelWidth level := by
    rw [h.stride]
    rfl
  have hheight : s.height >>> level = s.levelHeight level := rfl
  have hbelow : s.formatBpp *
      pixelIndex s.isTiled (s.levelWidth level) (s.levelHeight level) x y <
        s.levelWidth level * s.levelHeight level * s.formatBpp := by
    rw [Nat.mul_comm]
    exact Nat.mul_lt_mul_of_pos_right hindex (by omega)
  rw [levelPixelBit, hwidth, hheight, h.stacked.mipmapOffset_eq hlevel, h.stacked.end_eq]
  omega

/-- A match behind the end of the surface is not sound: its pixels are not those of the surface. -/
theorem le_end_of_sound (hpixels : sub.HasPixels) (hsound : s.SoundSubRect sub) :
    sub.addr ≤ s.«end» := by
  by_contra hbehind
  have hlevel : s.levelOf sub.addr = 0 := if_pos (Or.inr (Nat.lt_of_not_le hbehind))
  have hwidth := hsound.width
  have hright := hsound.right
  have hheight := hsound.height
  have htop := hsound.top
  have hpos := hpixels.width_pos
  have hpos' := hpixels.height_pos
  rw [hlevel] at hright htop
  change _ ≤ s.levelWidth 0 at hright
  change _ ≤ s.levelHeight 0 at htop
  -- the pixel that lies first in memory
  obtain ⟨y, hy, hfirst⟩ : ∃ y < sub.height, pixelIndex sub.isTiled sub.stride sub.height 0 y = 0 := by
    unfold pixelIndex
    cases sub.isTiled with
    | true =>
      refine ⟨sub.height - 1, by omega, ?_⟩
      rw [if_pos rfl, Nat.sub_self, Nat.zero_div, Nat.zero_mul]
      decide
    | false =>
      refine ⟨0, hpos', ?_⟩
      rw [if_neg Bool.false_ne_true, Nat.zero_mul]
  have hpixel := hsound.pixels 0 hpos y hy
  rw [pixelBit, hfirst, Nat.mul_zero, Nat.add_zero, hlevel] at hpixel
  have hlt := h.levelPixelBit_lt (x := (s.getSubRect sub).left + 0)
    (y := (s.getSubRect sub).bottom + y) h.levels_pos (by omega) (by omega)
  omega

/-- A sound match lies inside its level. -/
theorem stays_of_sound (hcan : s.canSubRect sub = true) (hpixels : sub.HasPixels)
    (hsound : s.SoundSubRect sub) : s.StaysInLevel sub := by
  obtain ⟨hlower, _⟩ := h.canSubRect_spec hcan
  have hupper := h.le_end_of_sound hpixels hsound
  obtain ⟨k, hk⟩ := h.exists_unit hcan hupper
  obtain ⟨hlevel, _, hoffset⟩ := h.offset_le hlower hupper
  obtain ⟨hW, hH⟩ := h.stacked.levelSides_lt hlevel
  have hrow : k / s.unitCols (s.levelOf sub.addr) ≤ s.unitRows (s.levelOf sub.addr) := by
    rw [hk, h.levelBytes_eq hlevel, rowBytes, Nat.mul_comm, Nat.mul_assoc] at hoffset
    exact Nat.div_le_of_le_mul (Nat.le_of_mul_le_mul_left hoffset h.stacked.unitBytes_pos)
  have hbegin : s.tiledSize * (k / s.unitCols (s.levelOf sub.addr)) ≤
      s.levelHeight (s.levelOf sub.addr) := by
    rw [h.levelHeight_eq hlevel, Nat.mul_comm]
    exact Nat.mul_le_mul_right _ hrow
  rw [h.staysInLevel_iff hlower hupper hk]
  have hwidth := hsound.width
  have hright := hsound.right
  have hheight := hsound.height
  have htop := hsound.top
  rw [h.getSubRect_eq hlower hupper hk] at hwidth hright hheight htop
  change _ ≤ s.levelWidth (s.levelOf sub.addr) at hright
  change _ ≤ s.levelHeight (s.levelOf sub.addr) at htop
  cases htiled : s.isTiled with
  | true =>
    rw [if_pos htiled] at hwidth hright hheight
    rw [subU32_eq hbegin (by omega)] at hheight
    simp only at hwidth hright hheight
    exact ⟨by omega, by omega⟩
  | false =>
    rw [if_neg (by rw [htiled]; exact Bool.false_ne_true)] at hwidth hright hheight htop
    simp only at hwidth hright hheight htop
    exact ⟨by omega, by omega⟩

/-- What stays in its level begins inside the surface. -/
theorem le_end_of_stays (hlower : s.addr ≤ sub.addr) (hpixels : sub.HasPixels)
    (hstays : s.StaysInLevel sub) : sub.addr ≤ s.«end» := by
  by_contra hbehind
  have hlevel : s.levelOf sub.addr = 0 := if_pos (Or.inr (Nat.lt_of_not_le hbehind))
  have hrows := hstays.height
  have hpos := hpixels.height_pos
  have hmono := s.levelStart_mono (show 1 ≤ s.levels from h.levels_pos)
  have hstep : s.levelStart 1 = 0 + s.levelBytes 0 := rfl
  have hbegin : s.mipmapOffset 0 = s.addr := h.stacked.mipmapOffset_eq h.levels_pos
  have hneeded : 0 < (sub.height + s.tiledSize - 1) / s.tiledSize :=
    Nat.div_pos (by omega) s.tiledSize_pos
  rw [hlevel, hbegin] at hrows
  have hlt : sub.addr - s.addr < s.levelBytes 0 := by
    rw [h.levelBytes_eq h.levels_pos, Nat.mul_comm]
    exact (Nat.div_lt_iff_lt_mul (h.rowBytes_pos h.levels_pos)).1 (by omega)
  rw [h.stacked.end_eq] at hbehind
  omega

end Laid

/-- A match of `CanSubRect` is sound if and only if the smaller surface stays in the level in which
it begins. -/
theorem canSubRect_sound_iff (s sub : SurfaceParams) (h : s.Laid) (hpixels : sub.HasPixels)
    (hcan : s.canSubRect sub = true) : s.SoundSubRect sub ↔ s.StaysInLevel sub := by
  obtain ⟨hlower, _⟩ := h.canSubRect_spec hcan
  exact ⟨h.stays_of_sound hcan hpixels,
    fun hstays => h.sound_of_stays hcan (h.le_end_of_stays hlower hpixels hstays) hstays⟩

/-! ## A texture with two levels -/

/-- The parameters of a tiled surface, before `UpdateParams`. -/
def tiledParams (addr width height levels : Nat) : SurfaceParams where
  addr := addr
  «end» := 0
  size := 0
  width := width
  height := height
  stride := 0
  levels := levels
  resScale := 1
  isTiled := true
  pixelFormat := some .rgba8
  type := .invalid
  mipmapOffsets := List.replicate 8 0

/-- A surface of 32 by 32 pixels with a level of 16 by 16 pixels. -/
def twoLevels : SurfaceParams := (tiledParams 0x18000000 32 32 2).updateParams

/-- 24 by 8 pixels from the beginning of the second level on. -/
def wideStrip : SurfaceParams := (tiledParams 0x18001000 24 8 1).updateParams

theorem laid_twoLevels : twoLevels.Laid where
  offsets := by decide
  levels_pos := by decide
  levels_le := by decide
  stride := by decide
  updated := by decide
  format := by decide
  tiles := by decide
  linear := by decide
  width_pos := by decide
  height_pos := by decide
  small := by decide
  fits := by decide

/-- The strip is wider than the second level, and is found there nevertheless. -/
theorem canSubRect_wideStrip :
    wideStrip.updateParams = wideStrip ∧ wideStrip.width ≤ wideStrip.stride ∧ twoLevels.Laid ∧
      twoLevels.canSubRect wideStrip = true ∧ ¬ twoLevels.SoundSubRect wideStrip := by
  refine ⟨by decide, by decide, laid_twoLevels, by decide, fun hsound => ?_⟩
  exact absurd hsound.right (by decide)

/-- The left half of the second level. -/
theorem canSubRect_sound_left :
    twoLevels.SoundSubRect (tiledParams 0x18001000 8 8 1).updateParams := by
  refine (canSubRect_sound_iff twoLevels (tiledParams 0x18001000 8 8 1).updateParams laid_twoLevels
    ⟨by decide, by decide, by decide, by decide, by decide⟩ (by decide)).2 ⟨by decide, by decide⟩

end SurfaceParams

end AzaharPlus.Video
