import AzaharPlus.Video.TileCopy
import Mathlib.Logic.Function.Basic

/-!
# The output of the Y2R converter

The part of `PerformConversion` of `core/hw/y2r.cpp` behind the conversion of colours: a strip of up
to eight lines, decoded to tiles of 8 by 8 pixels, is rotated tile by tile and put together in the
output buffer.  The loops over a tile are given by the order in which they read it.

* `tileStep_spec`, `tileLoop_spec` — where a tile, and a strip, is written.
* `convertStrip_placed`, `strips_placed` — every pixel of a strip, and of all strips of a picture, is
  written once, to its place in the rotated image, line by line or in Morton order.
-/

namespace AzaharPlus.Hw.Y2r

open Video

variable {α : Type}

/-! ## The code -/

/-- `Rotation` -/
inductive Rotation where
  | None
  | Clockwise_90
  | Clockwise_180
  | Clockwise_270
  deriving DecidableEq, Repr

/-- `BlockAlignment` -/
inductive BlockAlignment where
  | Linear
  | Block8x8
  deriving DecidableEq, Repr

/-- The fields of `ConversionConfiguration` the placement depends on. -/
structure ConversionConfiguration where
  rotation : Rotation
  blockAlignment : BlockAlignment
  inputLineWidth : Nat
  inputLines : Nat

/-- `ImageTile`: 64 pixels, line by line. -/
abbrev ImageTile (α : Type) := Nat → α

/-- `linear_lut` -/
def linearLut : List Nat := List.range 64

/-- `morton_lut` -/
def mortonLut : List Nat :=
  [0, 1, 4, 5, 16, 17, 20, 21,
   2, 3, 6, 7, 18, 19, 22, 23,
   8, 9, 12, 13, 24, 25, 28, 29,
   10, 11, 14, 15, 26, 27, 30, 31,
   32, 33, 36, 37, 48, 49, 52, 53,
   34, 35, 38, 39, 50, 51, 54, 55,
   40, 41, 44, 45, 56, 57, 60, 61,
   42, 43, 46, 47, 58, 59, 62, 63]

/-- The loops of the rotations: the pixels are read in some order and written to the places of the
map, one after the other. -/
def rotateTile (order : List Nat) (input output : ImageTile α) (outMap : List Nat) : ImageTile α :=
  (order.foldl (fun (acc : Nat × ImageTile α) source =>
    (acc.1 + 1, Function.update acc.2 (outMap.getD acc.1 0) (input source))) (0, output)).2

def order0 (height : Nat) : List Nat := List.range (height * 8)

def order90 (height : Nat) : List Nat :=
  (List.range 8).flatMap fun x => (List.range height).reverse.map fun y => y * 8 + x

def order180 (height : Nat) : List Nat := (List.range (height * 8)).reverse

def order270 (height : Nat) : List Nat :=
  (List.range 8).reverse.flatMap fun x => (List.range height).map fun y => y * 8 + x

/-- `RotateTile0` -/
def rotateTile0 (input output : ImageTile α) (height : Nat) (outMap : List Nat) : ImageTile α :=
  rotateTile (order0 height) input output outMap

/-- `RotateTile90` -/
def rotateTile90 (input output : ImageTile α) (height : Nat) (outMap : List Nat) : ImageTile α :=
  rotateTile (order90 height) input output outMap

/-- `RotateTile180` -/
def rotateTile180 (input output : ImageTile α) (height : Nat) (outMap : List Nat) : ImageTile α :=
  rotateTile (order180 height) input output outMap

/-- `RotateTile270` -/
def rotateTile270 (input output : ImageTile α) (height : Nat) (outMap : List Nat) : ImageTile α :=
  rotateTile (order270 height) input output outMap

/-- `WriteTileToOutput`: the pixels it writes and where, in the order of writing. -/
def writeTileToOutput (outputBuffer : Nat) (tile : ImageTile α) (height lineStride : Nat) :
    List (Nat × α) :=
  (List.range height).flatMap fun y =>
    (List.range 8).map fun x => (outputBuffer + (y * lineStride + x), tile (y * 8 + x))

/-- The variables of the loop over the tiles, and what was written so far. -/
structure StripState (α : Type) where
  tmpTile : ImageTile α
  outputBuffer : Nat
  output : List (Nat × α)

/-- `tile_remap` -/
def tileRemap (cvt : ConversionConfiguration) : List Nat :=
  match cvt.blockAlignment with
  | .Linear => linearLut
  | .Block8x8 => mortonLut

/-- The body of the loop over the tiles of a strip. -/
def tileStep (cvt : ConversionConfiguration) (rowHeight : Nat) (tiles : Nat → ImageTile α)
    (s : StripState α) (i : Nat) : StripState α :=
  let numTiles := cvt.inputLineWidth / 8
  let (tmpTile, imageStripWidth, outputStride) :=
    match cvt.rotation with
    | .None =>
        (rotateTile0 (tiles i) s.tmpTile rowHeight (tileRemap cvt), cvt.inputLineWidth, 8)
    | .Clockwise_90 =>
        (rotateTile90 (tiles i) s.tmpTile rowHeight (tileRemap cvt), 8, 8 * rowHeight)
    -- the order of the tiles in the strip is inverted too
    | .Clockwise_180 =>
        (rotateTile180 (tiles (numTiles - i - 1)) s.tmpTile rowHeight (tileRemap cvt),
          cvt.inputLineWidth, 8)
    | .Clockwise_270 =>
        (rotateTile270 (tiles (numTiles - i - 1)) s.tmpTile rowHeight (tileRemap cvt),
          8, 8 * rowHeight)
  match cvt.blockAlignment with
  | .Linear =>
      ⟨tmpTile, s.outputBuffer + outputStride,
        s.output ++ writeTileToOutput s.outputBuffer tmpTile rowHeight imageStripWidth⟩
  | .Block8x8 =>
      ⟨tmpTile, s.outputBuffer + 64, s.output ++ writeTileToOutput s.outputBuffer tmpTile 8 8⟩

/-- The loop over the tiles of a strip. -/
def convertStrip (cvt : ConversionConfiguration) (rowHeight : Nat) (tiles : Nat → ImageTile α)
    (tmpTile : ImageTile α) : StripState α :=
  (List.range (cvt.inputLineWidth / 8)).foldl (tileStep cvt rowHeight tiles) ⟨tmpTile, 0, []⟩

/-- `row_height` of the strip that begins at a line. -/
def rowHeight (cvt : ConversionConfiguration) (y : Nat) : Nat := min (cvt.inputLines - y) 8

/-- `MAX_TILES` -/
def maxTiles : Nat := 1024 / 8

/-- `PerformConversion`: what is written to the output buffer for each strip, from the tiles decoded
for the strip that begins at a line; nothing when an assertion fails. -/
def performConversion (cvt : ConversionConfiguration) (tiles : Nat → Nat → ImageTile α)
    (tmpTile : ImageTile α) : Option (List (List (Nat × α))) :=
  if cvt.inputLineWidth % 8 = 0 ∧ (cvt.blockAlignment ≠ .Block8x8 ∨ cvt.inputLines % 8 = 0) ∧
      cvt.inputLineWidth / 8 ≤ maxTiles then
    some ((List.range ((cvt.inputLines + 7) / 8)).foldl (fun acc strip =>
      let y := strip * 8
      let s := convertStrip cvt (rowHeight cvt y) (tiles y) acc.1
      (s.tmpTile, acc.2 ++ [s.output])) (tmpTile, [])).2
  else none

/-! ## A tile -/

/-- A place of the maps belongs to one index. -/
theorem tileRemap_inj (cvt : ConversionConfiguration) :
    ∀ j < 64, ∀ k < 64, (tileRemap cvt).getD j 0 = (tileRemap cvt).getD k 0 → j = k := by
  rw [tileRemap]
  cases cvt.blockAlignment
  · decide +kernel
  · decide +kernel

/-- What a rotation leaves in the tile. -/
theorem rotateTile_apply {order outMap : List Nat}
    (hinj : ∀ j < 64, ∀ k < 64, outMap.getD j 0 = outMap.getD k 0 → j = k)
    (horder : order.length ≤ 64) (input output : ImageTile α) {k : Nat} (hk : k < order.length) :
    rotateTile order input output outMap (outMap.getD k 0) = input (order.getD k 0) := by
  have hrun : ∀ {l : List Nat}, l.length ≤ 64 → ∀ acc, l.foldl
      (fun (acc : Nat × ImageTile α) source =>
        (acc.1 + 1, Function.update acc.2 (outMap.getD acc.1 0) (input source))) (0, output) = acc →
      acc.1 = l.length ∧ ∀ k < l.length, acc.2 (outMap.getD k 0) = input (l.getD k 0) := by
    intro l
    induction l using List.reverseRecOn with
    | nil =>
      rintro - acc rfl
      exact ⟨rfl, fun k hk => absurd hk (Nat.not_lt_zero k)⟩
    | append_singleton l source ih =>
      rintro hlen acc rfl
      rw [List.length_append, List.length_singleton] at hlen
      obtain ⟨hcount, hvalues⟩ := ih (by omega) _ rfl
      rw [List.foldl_append, List.foldl_cons, List.foldl_nil]
      refine ⟨by rw [hcount, List.length_append, List.length_singleton], fun k hk => ?_⟩
      rw [List.length_append, List.length_singleton] at hk
      simp only [hcount]
      by_cases hlast : k = l.length
      · rw [hlast, Function.update_self, List.getD_append_right _ _ _ _ le_rfl, Nat.sub_self]
        rfl
      · have hne : outMap.getD k 0 ≠ outMap.getD l.length 0 := fun heq =>
          hlast (hinj k (by omega) l.length (by omega) heq)
        rw [Function.update_of_ne hne, List.getD_append _ _ _ _ (by omega)]
        exact hvalues k (by omega)
  exact (hrun horder _ rfl).2 k hk

theorem length_writeTileToOutput (outputBuffer : Nat) (tile : ImageTile α) (height lineStride : Nat) :
    (writeTileToOutput outputBuffer tile height lineStride).length = height * 8 := by
  simp [writeTileToOutput]

theorem mem_writeTileToOutput (outputBuffer : Nat) (tile : ImageTile α) {height : Nat}
    (lineStride : Nat) {k : Nat} (hk : k < height * 8) :
    (outputBuffer + (k / 8 * lineStride + k % 8), tile k) ∈
      writeTileToOutput outputBuffer tile height lineStride := by
  have hindex : k / 8 * 8 + k % 8 = k := by omega
  refine List.mem_flatMap.2 ⟨k / 8, List.mem_range.2 (by omega), List.mem_map.2 ?_⟩
  exact ⟨k % 8, List.mem_range.2 (by omega), by rw [hindex]⟩

/-! ### The orders of the rotations -/

/-- An element of equally long lists put together. -/
theorem getD_flatMap {f : Nat → List Nat} {m : Nat} (hf : ∀ a, (f a).length = m) (l : List Nat)
    {i j : Nat} (hi : i < l.length) (hj : j < m) :
    (l.flatMap f).getD (i * m + j) 0 = (f (l.getD i 0)).getD j 0 := by
  induction l generalizing i with
  | nil => exact absurd hi (Nat.not_lt_zero i)
  | cons a l ih =>
    rw [List.flatMap_cons]
    cases i with
    | zero =>
      rw [Nat.zero_mul, Nat.zero_add, List.getD_append _ _ _ _ (by rw [hf]; exact hj)]
      rfl
    | succ i =>
      have hindex : (i + 1) * m + j - m = i * m + j := by
        rw [Nat.succ_mul]
        omega
      have hle : (f a).length ≤ (i + 1) * m + j := by
        rw [hf, Nat.succ_mul]
        omega
      rw [List.getD_append_right _ _ _ _ hle, hf, hindex, ih (Nat.lt_of_succ_lt_succ hi)]
      rfl

theorem getD_reverse_range {n k : Nat} (hk : k < n) :
    (List.range n).reverse.getD k 0 = n - 1 - k := by
  rw [List.getD_eq_getElem _ _ (by simpa using hk), List.getElem_reverse]
  simp

theorem getD_range {n k : Nat} (hk : k < n) : (List.range n).getD k 0 = k := by
  rw [List.getD_eq_getElem _ _ (by simpa using hk)]
  simp

theorem getD_map (f : Nat → Nat) {l : List Nat} {k : Nat} (hk : k < l.length) :
    (l.map f).getD k 0 = f (l.getD k 0) := by
  rw [List.getD_eq_getElem _ _ (by simpa using hk), List.getElem_map, List.getD_eq_getElem _ _ hk]

/-- The order in which a rotation reads a tile. -/
def order (rotation : Rotation) (height : Nat) : List Nat :=
  match rotation with
  | .None => order0 height
  | .Clockwise_90 => order90 height
  | .Clockwise_180 => order180 height
  | .Clockwise_270 => order270 height

/-- When a rotation reads the pixel of a column and a line of a tile. -/
def turnOf (rotation : Rotation) (height x y : Nat) : Nat :=
  match rotation with
  | .None => y * 8 + x
  | .Clockwise_90 => x * height + (height - 1 - y)
  | .Clockwise_180 => (height - 1 - y) * 8 + (7 - x)
  | .Clockwise_270 => (7 - x) * height + y

theorem length_order (rotation : Rotation) (height : Nat) :
    (order rotation height).length = height * 8 := by
  cases rotation <;> simp [order, order0, order90, order180, order270] <;> omega

theorem turnOf_lt (rotation : Rotation) {height x y : Nat} (hx : x < 8) (hy : y < height) :
    turnOf rotation height x y < height * 8 := by
  have hmul : ∀ a < 8, ∀ b < height, a * height + b < height * 8 := by
    intro a ha b hb
    calc a * height + b < a * height + height := Nat.add_lt_add_left hb _
      _ = (a + 1) * height := (Nat.succ_mul a height).symm
      _ ≤ 8 * height := Nat.mul_le_mul_right _ ha
      _ = height * 8 := Nat.mul_comm _ _
  cases rotation with
  | None => simp only [turnOf]; omega
  | Clockwise_90 => exact hmul x hx _ (by omega)
  | Clockwise_180 => simp only [turnOf]; omega
  | Clockwise_270 => exact hmul (7 - x) (by omega) y hy

/-- The pixel a rotation reads at that turn. -/
theorem order_turnOf (rotation : Rotation) {height x y : Nat} (hx : x < 8) (hy : y < height) :
    (order rotation height).getD (turnOf rotation height x y) 0 = y * 8 + x := by
  have hturn := turnOf_lt rotation hx hy
  cases rotation with
  | None => exact getD_range hturn
  | Clockwise_90 =>
    have hlength : ∀ a, ((List.range height).reverse.map fun y => y * 8 + a).length = height := by
      simp
    have hline : height - 1 - (height - 1 - y) = y := by omega
    rw [order, order90, turnOf, getD_flatMap hlength _ (by simpa using hx) (by omega),
      getD_range hx, getD_map _ (by simp; omega), getD_reverse_range (by omega), hline]
  | Clockwise_180 =>
    rw [order, order180, getD_reverse_range hturn, turnOf]
    omega
  | Clockwise_270 =>
    have hlength : ∀ a, ((List.range height).map fun y => y * 8 + a).length = height := by simp
    have hcolumn : 8 - 1 - (7 - x) = x := by omega
    rw [order, order270, turnOf, getD_flatMap hlength _ (by simp; omega) hy,
      getD_reverse_range (by omega), getD_map _ (by simpa using hy), getD_range hy, hcolumn]

/-! ### The body of the loop -/

/-- `image_strip_width` and `output_stride` -/
def imageStripWidth (cvt : ConversionConfiguration) : Nat :=
  match cvt.rotation with
  | .None | .Clockwise_180 => cvt.inputLineWidth
  | .Clockwise_90 | .Clockwise_270 => 8

/-- How far the output buffer moves on behind a tile. -/
def outputStride (cvt : ConversionConfiguration) (height : Nat) : Nat :=
  match cvt.blockAlignment, cvt.rotation with
  | .Block8x8, _ => 64
  | .Linear, .None | .Linear, .Clockwise_180 => 8
  | .Linear, .Clockwise_90 | .Linear, .Clockwise_270 => 8 * height

/-- Where a tile puts the pixel it reads at a turn. -/
def offsetOf (cvt : ConversionConfiguration) (k : Nat) : Nat :=
  match cvt.blockAlignment with
  | .Linear => k / 8 * imageStripWidth cvt + k % 8
  | .Block8x8 => mortonLut.getD k 0

/-- The tile that is written at a turn of the loop. -/
def sourceTile (cvt : ConversionConfiguration) (i : Nat) : Nat :=
  match cvt.rotation with
  | .None | .Clockwise_90 => i
  | .Clockwise_180 | .Clockwise_270 => cvt.inputLineWidth / 8 - i - 1

/-- The strip of a configuration: up to eight lines, whole tiles when they are swizzled. -/
structure ValidHeight (cvt : ConversionConfiguration) (height : Nat) : Prop where
  le : height ≤ 8
  whole : cvt.blockAlignment = .Block8x8 → height = 8

/-- A turn of the loop writes the pixels of a tile, each to its place behind the output buffer. -/
theorem tileStep_spec {cvt : ConversionConfiguration} {height : Nat} (hheight : ValidHeight cvt height)
    (tiles : Nat → ImageTile α) (s : StripState α) (i : Nat) :
    ∃ writes, (tileStep cvt height tiles s i).output = s.output ++ writes ∧
      (tileStep cvt height tiles s i).outputBuffer = s.outputBuffer + outputStride cvt height ∧
      writes.length = height * 8 ∧
      ∀ k < height * 8, (s.outputBuffer + offsetOf cvt k,
        tiles (sourceTile cvt i) ((order cvt.rotation height).getD k 0)) ∈ writes := by
  obtain ⟨tile, htile⟩ : ∃ tile, tile = rotateTile (order cvt.rotation height)
    (tiles (sourceTile cvt i)) s.tmpTile (tileRemap cvt) := ⟨_, rfl⟩
  have hpixel : ∀ k < height * 8, tile ((tileRemap cvt).getD k 0) =
      tiles (sourceTile cvt i) ((order cvt.rotation height).getD k 0) := by
    intro k hk
    have hle := hheight.le
    rw [htile]
    refine rotateTile_apply (tileRemap_inj cvt) ?_ _ _ ?_
    · rw [length_order]
      omega
    · rwa [length_order]
  cases halign : cvt.blockAlignment with
  | Linear =>
    have hstep : tileStep cvt height tiles s i = ⟨tile, s.outputBuffer + outputStride cvt height,
        s.output ++ writeTileToOutput s.outputBuffer tile height (imageStripWidth cvt)⟩ := by
      rw [htile]
      unfold tileStep outputStride imageStripWidth sourceTile order
      cases cvt.rotation <;> simp only [halign] <;> rfl
    rw [hstep]
    refine ⟨_, rfl, rfl, length_writeTileToOutput _ _ _ _, fun k hk => ?_⟩
    have hle := hheight.le
    have hremap : (tileRemap cvt).getD k 0 = k := by
      simp only [tileRemap, halign]
      exact getD_range (by omega)
    rw [← hpixel k hk, hremap]
    simp only [offsetOf, halign]
    exact mem_writeTileToOutput _ _ _ hk
  | Block8x8 =>
    have hstep : tileStep cvt height tiles s i = ⟨tile, s.outputBuffer + outputStride cvt height,
        s.output ++ writeTileToOutput s.outputBuffer tile 8 8⟩ := by
      rw [htile]
      unfold tileStep outputStride sourceTile order
      cases cvt.rotation <;> simp only [halign] <;> rfl
    have hwhole := hheight.whole halign
    rw [hstep]
    refine ⟨_, rfl, rfl, ?_, fun k hk => ?_⟩
    · rw [length_writeTileToOutput, hwhole]
    · have hlut : mortonLut.getD k 0 < 8 * 8 := by
        have hall : ∀ k < 64, mortonLut.getD k 0 < 8 * 8 := by decide
        exact hall k (by omega)
      have hmem := mem_writeTileToOutput s.outputBuffer tile 8 hlut
      have hline : mortonLut.getD k 0 / 8 * 8 + mortonLut.getD k 0 % 8 = mortonLut.getD k 0 := by
        omega
      have hremap : (tileRemap cvt).getD k 0 = mortonLut.getD k 0 := by
        simp only [tileRemap, halign]
      rw [hline, ← hremap, hpixel k hk, hremap] at hmem
      simp only [offsetOf, halign]
      exact hmem

/-! ## A strip -/

/-- The loop over the tiles writes the pixels of all tiles. -/
theorem tileLoop_spec {cvt : ConversionConfiguration} {height : Nat} (hheight : ValidHeight cvt height)
    (tiles : Nat → ImageTile α) (tmpTile : ImageTile α) (n : Nat) :
    ∀ s, (List.range n).foldl (tileStep cvt height tiles) ⟨tmpTile, 0, []⟩ = s →
      s.outputBuffer = n * outputStride cvt height ∧ s.output.length = n * (height * 8) ∧
      ∀ i < n, ∀ k < height * 8, (i * outputStride cvt height + offsetOf cvt k,
        tiles (sourceTile cvt i) ((order cvt.rotation height).getD k 0)) ∈ s.output := by
  induction n with
  | zero =>
    rintro s rfl
    exact ⟨by simp, by simp, fun i hi => absurd hi (Nat.not_lt_zero i)⟩
  | succ n ih =>
    rintro s rfl
    rw [List.range_succ, List.foldl_append, List.foldl_cons, List.foldl_nil]
    obtain ⟨hbuffer, hlength, hmem⟩ := ih _ rfl
    generalize (List.range n).foldl (tileStep cvt height tiles) ⟨tmpTile, 0, []⟩ = s
      at hbuffer hlength hmem ⊢
    obtain ⟨writes, houtput, hnext, hwrites, hplaced⟩ := tileStep_spec hheight tiles s n
    refine ⟨?_, ?_, fun i hi k hk => ?_⟩
    · rw [hnext, hbuffer, Nat.succ_mul]
    · rw [houtput, List.length_append, hlength, hwrites, Nat.succ_mul]
    · rw [houtput, List.mem_append]
      rcases Nat.lt_succ_iff_lt_or_eq.1 hi with hlt | rfl
      · exact Or.inl (hmem i hlt k hk)
      · rw [← hbuffer]
        exact Or.inr (hplaced k hk)

/-- The tiles of a strip reach every pixel of the output. -/
theorem exists_offset {cvt : ConversionConfiguration} {height : Nat} (hheight : ValidHeight cvt height)
    (hwidth : cvt.inputLineWidth % 8 = 0) {j : Nat} (hj : j < cvt.inputLineWidth * height) :
    ∃ i < cvt.inputLineWidth / 8, ∃ k < height * 8,
      i * outputStride cvt height + offsetOf cvt k = j := by
  have hwidthPos : 0 < cvt.inputLineWidth := Nat.pos_of_mul_pos_right (Nat.zero_lt_of_lt hj)
  have hheightPos : 0 < height := Nat.pos_of_mul_pos_left (Nat.zero_lt_of_lt hj)
  have hstrip : cvt.inputLineWidth = cvt.inputLineWidth / 8 * 8 := by omega
  cases halign : cvt.blockAlignment with
  | Linear =>
    have hlines : imageStripWidth cvt = cvt.inputLineWidth → outputStride cvt height = 8 →
        ∃ i < cvt.inputLineWidth / 8, ∃ k < height * 8,
          i * outputStride cvt height + offsetOf cvt k = j := by
      intro hstripWidth hstride
      have hline : j / cvt.inputLineWidth < height := Nat.div_lt_of_lt_mul hj
      have hcolumn : j % cvt.inputLineWidth < cvt.inputLineWidth := Nat.mod_lt _ hwidthPos
      have hmod : j % cvt.inputLineWidth % 8 = j % 8 :=
        Nat.mod_mod_of_dvd j (Nat.dvd_of_mod_eq_zero hwidth)
      refine ⟨j % cvt.inputLineWidth / 8, by omega,
        j / cvt.inputLineWidth * 8 + j % 8, by omega, ?_⟩
      have hk : (j / cvt.inputLineWidth * 8 + j % 8) / 8 = j / cvt.inputLineWidth := by omega
      have hrest : (j / cvt.inputLineWidth * 8 + j % 8) % 8 = j % 8 := by omega
      have hparts := Nat.div_add_mod j cvt.inputLineWidth
      simp only [offsetOf, halign, hstripWidth, hstride, hk, hrest]
      rw [Nat.mul_comm cvt.inputLineWidth] at hparts
      omega
    have hcolumns : imageStripWidth cvt = 8 → outputStride cvt height = 8 * height →
        ∃ i < cvt.inputLineWidth / 8, ∃ k < height * 8,
          i * outputStride cvt height + offsetOf cvt k = j := by
      intro hstripWidth hstride
      have hparts := Nat.div_add_mod j (height * 8)
      refine ⟨j / (height * 8), Nat.div_lt_of_lt_mul ?_, j % (height * 8),
        Nat.mod_lt _ (by omega), ?_⟩
      · calc j < cvt.inputLineWidth / 8 * 8 * height := hstrip ▸ hj
          _ = height * 8 * (cvt.inputLineWidth / 8) := by ring
      · simp only [offsetOf, halign, hstripWidth, hstride]
        rw [Nat.mul_comm, Nat.mul_comm 8 height]
        omega
    cases hrotation : cvt.rotation with
    | None =>
      exact hlines (by simp [imageStripWidth, hrotation])
        (by simp [outputStride, halign, hrotation])
    | Clockwise_90 =>
      exact hcolumns (by simp [imageStripWidth, hrotation])
        (by simp [outputStride, halign, hrotation])
    | Clockwise_180 =>
      exact hlines (by simp [imageStripWidth, hrotation])
        (by simp [outputStride, halign, hrotation])
    | Clockwise_270 =>
      exact hcolumns (by simp [imageStripWidth, hrotation])
        (by simp [outputStride, halign, hrotation])
  | Block8x8 =>
    have hwhole := hheight.whole halign
    have hlut : ∀ m < 64, ∃ k < 64, mortonLut.getD k 0 = m := by decide +kernel
    obtain ⟨k, hk, hplace⟩ := hlut (j % 64) (Nat.mod_lt _ (by decide))
    have hstride : outputStride cvt height = 64 := by simp [outputStride, halign]
    refine ⟨j / 64, ?_, k, by omega, ?_⟩
    · rw [hwhole] at hj
      omega
    · simp only [offsetOf, halign, hstride, hplace]
      omega

/-! ## The rotated image -/

/-- The width of the rotated strip. -/
def imageWidth (cvt : ConversionConfiguration) (height : Nat) : Nat :=
  match cvt.rotation with
  | .None | .Clockwise_180 => cvt.inputLineWidth
  | .Clockwise_90 | .Clockwise_270 => height

/-- Where a pixel of a strip is in the rotated strip, line by line. -/
def linearPlace (cvt : ConversionConfiguration) (height x y : Nat) : Nat :=
  match cvt.rotation with
  | .None => y * cvt.inputLineWidth + x
  | .Clockwise_90 => x * height + (height - 1 - y)
  | .Clockwise_180 => (height - 1 - y) * cvt.inputLineWidth + (cvt.inputLineWidth - 1 - x)
  | .Clockwise_270 => (cvt.inputLineWidth - 1 - x) * height + y

/-- Where a pixel of an image, given line by line, is when the image is kept in tiles of 8 by 8
pixels in Morton order. -/
def retile (width place : Nat) : Nat :=
  let x := place % width
  let y := place / width
  (y / 8 * (width / 8) + x / 8) * 64 + mortonInterleave (x % 8) (y % 8)

/-- Where a pixel of a strip goes. -/
def placeOf (cvt : ConversionConfiguration) (height x y : Nat) : Nat :=
  match cvt.blockAlignment with
  | .Linear => linearPlace cvt height x y
  | .Block8x8 => retile (imageWidth cvt height) (linearPlace cvt height x y)

/-- The decoded pixel of a strip. -/
def pixelAt (tiles : Nat → ImageTile α) (x y : Nat) : α := tiles (x / 8) (y * 8 + x % 8)

/-- What is written for a strip is the rotated strip: every pixel of the output once, and every pixel
of the strip at its place. -/
structure Placed (cvt : ConversionConfiguration) (height : Nat) (tiles : Nat → ImageTile α)
    (writes : List (Nat × α)) : Prop where
  once : (writes.map Prod.fst).Perm (List.range (cvt.inputLineWidth * height))
  placed : ∀ x < cvt.inputLineWidth, ∀ y < height,
    (placeOf cvt height x y, pixelAt tiles x y) ∈ writes

/-- The order of the map is Morton order. -/
theorem mortonLut_eq {x y : Nat} (hx : x < 8) (hy : y < 8) :
    mortonLut.getD (y * 8 + x) 0 = mortonInterleave x y := by
  have hall : ∀ x < 8, ∀ y < 8, mortonLut.getD (y * 8 + x) 0 = mortonInterleave x y := by decide
  exact hall x hx y hy

/-- The turn of the loop over the tiles that writes a tile of the strip. -/
def turnOfTile (cvt : ConversionConfiguration) (t : Nat) : Nat :=
  match cvt.rotation with
  | .None | .Clockwise_90 => t
  | .Clockwise_180 | .Clockwise_270 => cvt.inputLineWidth / 8 - 1 - t

theorem sourceTile_turnOfTile (cvt : ConversionConfiguration) {t : Nat}
    (ht : t < cvt.inputLineWidth / 8) :
    turnOfTile cvt t < cvt.inputLineWidth / 8 ∧ sourceTile cvt (turnOfTile cvt t) = t := by
  unfold turnOfTile sourceTile
  cases cvt.rotation <;> constructor <;> simp only <;> omega

/-- A pixel is written to its place line by line. -/
theorem offset_linear {cvt : ConversionConfiguration} {height x y : Nat}
    (halign : cvt.blockAlignment = .Linear) (hwidth : cvt.inputLineWidth % 8 = 0)
    (hx : x < cvt.inputLineWidth) (hy : y < height) :
    turnOfTile cvt (x / 8) * outputStride cvt height +
      offsetOf cvt (turnOf cvt.rotation height (x % 8) y) = linearPlace cvt height x y := by
  cases hrotation : cvt.rotation with
  | None =>
    simp only [turnOfTile, outputStride, offsetOf, imageStripWidth, turnOf, linearPlace, halign,
      hrotation]
    have hline : (y * 8 + x % 8) / 8 = y := by omega
    have hcolumn : (y * 8 + x % 8) % 8 = x % 8 := by omega
    rw [hline, hcolumn]
    omega
  | Clockwise_90 =>
    simp only [turnOfTile, outputStride, offsetOf, imageStripWidth, turnOf, linearPlace, halign,
      hrotation]
    have hcolumns : x * height = x / 8 * (8 * height) + x % 8 * height := by
      calc x * height = (x / 8 * 8 + x % 8) * height := by rw [Nat.div_add_mod']
        _ = x / 8 * (8 * height) + x % 8 * height := by ring
    rw [hcolumns]
    omega
  | Clockwise_180 =>
    simp only [turnOfTile, outputStride, offsetOf, imageStripWidth, turnOf, linearPlace, halign,
      hrotation]
    have hline : ((height - 1 - y) * 8 + (7 - x % 8)) / 8 = height - 1 - y := by omega
    have hcolumn : ((height - 1 - y) * 8 + (7 - x % 8)) % 8 = 7 - x % 8 := by omega
    rw [hline, hcolumn]
    omega
  | Clockwise_270 =>
    simp only [turnOfTile, outputStride, offsetOf, imageStripWidth, turnOf, linearPlace, halign,
      hrotation]
    have hcolumns : (cvt.inputLineWidth - 1 - x) * height =
        (cvt.inputLineWidth / 8 - 1 - x / 8) * (8 * height) + (7 - x % 8) * height := by
      have hindex : cvt.inputLineWidth - 1 - x =
          (cvt.inputLineWidth / 8 - 1 - x / 8) * 8 + (7 - x % 8) := by omega
      rw [hindex]
      ring
    rw [hcolumns]
    omega

/-- A pixel is written to its place in the tiled image. -/
theorem offset_block {cvt : ConversionConfiguration} {x y : Nat}
    (halign : cvt.blockAlignment = .Block8x8) (hwidth : cvt.inputLineWidth % 8 = 0)
    (hx : x < cvt.inputLineWidth) (hy : y < 8) :
    turnOfTile cvt (x / 8) * outputStride cvt 8 + offsetOf cvt (turnOf cvt.rotation 8 (x % 8) y) =
      retile (imageWidth cvt 8) (linearPlace cvt 8 x y) := by
  have hx8 : x % 8 < 8 := Nat.mod_lt _ (by decide)
  -- the tile of a place of an image that is one tile high, and of one that is one tile wide
  have hflat : ∀ column < cvt.inputLineWidth, ∀ line < 8,
      retile cvt.inputLineWidth (line * cvt.inputLineWidth + column) =
        column / 8 * 64 + mortonInterleave (column % 8) line := by
    intro column hcolumn line hline
    have hmod : (line * cvt.inputLineWidth + column) % cvt.inputLineWidth = column :=
      Nat.mul_add_mod_of_lt hcolumn
    have hdiv : (line * cvt.inputLineWidth + column) / cvt.inputLineWidth = line := by
      rw [Nat.mul_comm, Nat.mul_add_div (by omega), Nat.div_eq_of_lt hcolumn, Nat.add_zero]
    rw [retile]
    simp only [hmod, hdiv, Nat.div_eq_of_lt hline, Nat.mod_eq_of_lt hline, Nat.zero_mul,
      Nat.zero_add]
  have htall : ∀ line, ∀ column < 8,
      retile 8 (line * 8 + column) = line / 8 * 64 + mortonInterleave column (line % 8) := by
    intro line column hcolumn
    have hmod : (line * 8 + column) % 8 = column := by omega
    have hdiv : (line * 8 + column) / 8 = line := by omega
    rw [retile]
    simp only [hmod, hdiv, Nat.mod_eq_of_lt hcolumn, Nat.div_eq_of_lt hcolumn]
    omega
  cases hrotation : cvt.rotation with
  | None =>
    simp only [turnOfTile, outputStride, offsetOf, turnOf, linearPlace, imageWidth, halign,
      hrotation]
    rw [mortonLut_eq hx8 hy, hflat x hx y hy]
  | Clockwise_90 =>
    simp only [turnOfTile, outputStride, offsetOf, turnOf, linearPlace, imageWidth, halign,
      hrotation]
    rw [mortonLut_eq (by omega) hx8, htall x _ (by omega)]
  | Clockwise_180 =>
    simp only [turnOfTile, outputStride, offsetOf, turnOf, linearPlace, imageWidth, halign,
      hrotation]
    have htile : (cvt.inputLineWidth - 1 - x) / 8 = cvt.inputLineWidth / 8 - 1 - x / 8 := by omega
    have hcolumn : (cvt.inputLineWidth - 1 - x) % 8 = 7 - x % 8 := by omega
    rw [mortonLut_eq (by omega) (by omega), hflat _ (by omega) _ (by omega), htile, hcolumn]
  | Clockwise_270 =>
    simp only [turnOfTile, outputStride, offsetOf, turnOf, linearPlace, imageWidth, halign,
      hrotation]
    have htile : (cvt.inputLineWidth - 1 - x) / 8 = cvt.inputLineWidth / 8 - 1 - x / 8 := by omega
    have hline : (cvt.inputLineWidth - 1 - x) % 8 = 7 - x % 8 := by omega
    rw [mortonLut_eq hy (by omega), htall _ y hy, htile, hline]

/-- Every pixel of a strip is written once, to its place in the rotated strip. -/
theorem convertStrip_placed {cvt : ConversionConfiguration} {height : Nat}
    (hheight : ValidHeight cvt height) (hwidth : cvt.inputLineWidth % 8 = 0)
    (tiles : Nat → ImageTile α) (tmpTile : ImageTile α) :
    Placed cvt height tiles (convertStrip cvt height tiles tmpTile).output := by
  obtain ⟨-, hlength, hmem⟩ :=
    tileLoop_spec hheight tiles tmpTile (cvt.inputLineWidth / 8) _ rfl
  have hsize : cvt.inputLineWidth / 8 * (height * 8) = cvt.inputLineWidth * height := by
    calc cvt.inputLineWidth / 8 * (height * 8) = cvt.inputLineWidth / 8 * 8 * height := by ring
      _ = cvt.inputLineWidth * height := by rw [Nat.div_mul_cancel (Nat.dvd_of_mod_eq_zero hwidth)]
  constructor
  · -- all indices are written, and there are not more writes than indices
    have hsubset : List.range (cvt.inputLineWidth * height) ⊆
        (convertStrip cvt height tiles tmpTile).output.map Prod.fst := by
      intro j hj
      obtain ⟨i, hi, k, hk, hindex⟩ := exists_offset hheight hwidth (List.mem_range.1 hj)
      exact List.mem_map.2 ⟨_, hmem i hi k hk, hindex⟩
    refine ((List.nodup_range.subperm hsubset).perm_of_length_le ?_).symm
    rw [List.length_map, List.length_range, ← hsize]
    exact hlength.le
  · intro x hx y hy
    obtain ⟨hturn, hsource⟩ := sourceTile_turnOfTile cvt (show x / 8 < _ by omega)
    have hx8 : x % 8 < 8 := Nat.mod_lt _ (by decide)
    have hwrite := hmem _ hturn _ (turnOf_lt cvt.rotation hx8 hy)
    rw [hsource, order_turnOf cvt.rotation hx8 hy] at hwrite
    have hplace : turnOfTile cvt (x / 8) * outputStride cvt height +
        offsetOf cvt (turnOf cvt.rotation height (x % 8) y) = placeOf cvt height x y := by
      unfold placeOf
      cases halign : cvt.blockAlignment with
      | Linear => exact offset_linear halign hwidth hx hy
      | Block8x8 =>
        have hwhole := hheight.whole halign
        subst hwhole
        exact offset_block halign hwidth hx hy
    rw [hplace] at hwrite
    exact hwrite

/-- A converted picture is put together strip by strip, each with all its pixels in their places. -/
theorem strips_placed {cvt : ConversionConfiguration} {tiles : Nat → Nat → ImageTile α}
    {tmpTile : ImageTile α} {strips : List (List (Nat × α))}
    (h : performConversion cvt tiles tmpTile = some strips) :
    strips.length = (cvt.inputLines + 7) / 8 ∧
      ∀ strip writes, strips[strip]? = some writes →
        Placed cvt (rowHeight cvt (strip * 8)) (tiles (strip * 8)) writes := by
  rw [performConversion] at h
  split at h
  · next hchecked =>
      obtain ⟨hwidth, hblock, -⟩ := hchecked
      have hvalid : ∀ strip < (cvt.inputLines + 7) / 8,
          ValidHeight cvt (rowHeight cvt (strip * 8)) := by
        intro strip hstrip
        refine ⟨Nat.min_le_right _ _, fun halign => ?_⟩
        have hlines := hblock.resolve_left fun hne => hne halign
        unfold rowHeight
        omega
      have hrun : ∀ n ≤ (cvt.inputLines + 7) / 8, ∀ acc, (List.range n).foldl
          (fun (acc : ImageTile α × List (List (Nat × α))) strip =>
            let y := strip * 8
            let s := convertStrip cvt (rowHeight cvt y) (tiles y) acc.1
            (s.tmpTile, acc.2 ++ [s.output])) (tmpTile, []) = acc →
          acc.2.length = n ∧ ∀ strip writes, acc.2[strip]? = some writes →
            Placed cvt (rowHeight cvt (strip * 8)) (tiles (strip * 8)) writes := by
        intro n
        induction n with
        | zero =>
          rintro - acc rfl
          exact ⟨rfl, fun strip writes hnone => by simp at hnone⟩
        | succ n ih =>
          rintro hn acc rfl
          obtain ⟨hlength, hplaced⟩ := ih (by omega) _ rfl
          rw [List.range_succ, List.foldl_append, List.foldl_cons, List.foldl_nil]
          refine ⟨by simp [hlength], fun strip writes hwrites => ?_⟩
          rcases Nat.lt_trichotomy strip n with hlt | heq | hgt
          · rw [List.getElem?_append_left (by omega)] at hwrites
            exact hplaced strip writes hwrites
          · rw [List.getElem?_append_right (by omega), hlength, heq, Nat.sub_self] at hwrites
            cases hwrites
            rw [heq]
            exact convertStrip_placed (hvalid n (by omega)) hwidth _ _
          · rw [List.getElem?_eq_none
              (by rw [List.length_append, hlength, List.length_singleton]; omega)] at hwrites
            cases hwrites
      cases h
      exact hrun _ le_rfl _ rfl
  · cases h

/-- **Every output pixel of a strip is written exactly once, with the pixel of the strip that belongs
there: for a strip of any whole number of tiles and up to eight lines, and for all strips of a picture
that passes the assertions.** -/
theorem output_placed (cvt : ConversionConfiguration) (hwidth : cvt.inputLineWidth % 8 = 0) :
    (∀ (height : Nat) (tiles : Nat → ImageTile α) (tmpTile : ImageTile α),
      ValidHeight cvt height →
        Placed cvt height tiles (convertStrip cvt height tiles tmpTile).output) ∧
      ∀ (tiles : Nat → Nat → ImageTile α) (tmpTile : ImageTile α) (strips : List (List (Nat × α))),
        performConversion cvt tiles tmpTile = some strips →
          strips.length = (cvt.inputLines + 7) / 8 ∧
            ∀ strip writes, strips[strip]? = some writes →
              Placed cvt (rowHeight cvt (strip * 8)) (tiles (strip * 8)) writes :=
  ⟨fun _ tiles tmpTile hheight => convertStrip_placed hheight hwidth tiles tmpTile,
    fun _ _ _ h => strips_placed h⟩

/-- A picture of two tiles and three lines, turned by 270 degrees. -/
def sidewaysPicture : ConversionConfiguration := ⟨.Clockwise_270, .Linear, 16, 3⟩

theorem output_placed_sideways :
    sidewaysPicture.inputLineWidth % 8 = 0 ∧
      Placed sidewaysPicture 3 (fun t p => (t, p))
        (convertStrip sidewaysPicture 3 (fun t p => (t, p)) fun _ => (0, 0)).output := by
  have hheight : ValidHeight sidewaysPicture 3 := ⟨by decide, by decide⟩
  exact ⟨by decide, (output_placed sidewaysPicture (by decide)).1 3 _ _ hheight⟩

end AzaharPlus.Hw.Y2r
