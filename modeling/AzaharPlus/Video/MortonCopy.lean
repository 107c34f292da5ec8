import AzaharPlus.Video.TileCopy

/-!
# A range of a texture

What `MortonCopy` leaves in its buffers.  A texture of `tw` by `th` tiles has its tiles in rows, and
`originAt` is the number of the pixel the rows of a tile begin at, counted from the bottom of the
linear buffer up.

* `linearNextTile_walkAt`: the running offset is that of the next tile, at the end of a row too;
* `writes_mortonCopy_encode`: bytes `startOffset` to `endOffset` of the texture are encoded, and no
  other byte of the buffer is written;
* `writes_mortonCopy_decode`: every pixel of the texture is decoded to its place.
-/

namespace AzaharPlus.Video

open Bytes BlockMemory Updates

section

variable (float : FloatDepth) (format : PixelFormat) (converted : Bool) (tw th : Nat)

/-! ## The walk over the tiles -/

/-- The pixel the rows of tile `t` begin at. -/
def originAt (t : Nat) : Nat := (8 * th - 8 - 8 * (t / tw)) * (8 * tw) + 8 * (t % tw)

/-- The walk at tile `t`. -/
def walkAt (t tiledOffset : Nat) : Walk :=
  ⟨8 * (t % tw), 8 * (t / tw), originAt tw th t * linearBytesPerPixel format converted, tiledOffset⟩

variable {format converted tw th}

theorem tileSize_eq (format : PixelFormat) : tileSize format = getFormatBpp format * 8 := by
  cases format <;> rfl

theorem tileSize_pos (format : PixelFormat) : 0 < tileSize format := by
  cases format <;> decide

theorem getFormatBpp_pos (format : PixelFormat) : 0 < getFormatBpp format := by
  cases format <;> decide

theorem width_pos_of_lt {t : Nat} (ht : t < tw * th) : 0 < tw := by
  apply Nat.pos_of_ne_zero
  rintro rfl
  omega

theorem row_lt {t : Nat} (ht : t < tw * th) : t / tw < th := Nat.div_lt_of_lt_mul ht

/-- The rows of a tile end inside the linear buffer. -/
theorem originAt_add_le {t : Nat} (ht : t < tw * th) :
    originAt tw th t + (7 * (8 * tw) + 8) ≤ 8 * tw * (8 * th) := by
  have hrow := row_lt ht
  have hcol := Nat.mod_lt t (width_pos_of_lt ht)
  obtain ⟨k, hk⟩ : ∃ k, 8 * th = 8 * (t / tw) + 8 + k := ⟨8 * th - 8 * (t / tw) - 8, by omega⟩
  rw [originAt, show 8 * th - 8 - 8 * (t / tw) = k by omega]
  calc k * (8 * tw) + 8 * (t % tw) + (7 * (8 * tw) + 8)
      ≤ k * (8 * tw) + 8 * (8 * tw) := by omega
    _ = (k + 8) * (8 * tw) := by ring
    _ ≤ (8 * th) * (8 * tw) := Nat.mul_le_mul_right _ (by omega)
    _ = 8 * tw * (8 * th) := by ring

theorem tile_div {c : Nat} (hc : c < tw) (r : Nat) : (tw * r + c) / tw = r := by
  rw [Nat.mul_add_div (by omega), Nat.div_eq_of_lt hc, Nat.add_zero]

theorem tile_mod {c : Nat} (hc : c < tw) (r : Nat) : (tw * r + c) % tw = c := by
  rw [Nat.mul_add_mod, Nat.mod_eq_of_lt hc]

/-- The walk at the tile in row `r` and column `c`. -/
theorem walkAt_eq {r c tiledOffset : Nat} (hc : c < tw) :
    walkAt format converted tw th (tw * r + c) tiledOffset =
      ⟨8 * c, 8 * r, ((8 * th - 8 - 8 * r) * (8 * tw) + 8 * c) * linearBytesPerPixel format converted,
        tiledOffset⟩ := by
  rw [walkAt, originAt, tile_div hc, tile_mod hc]

/-- The next tile, in its row or at the start of the row above. -/
theorem linearNextTile_walkAt {t tiledOffset : Nat} (ht : t + 1 < tw * th) :
    linearNextTile format converted (8 * tw) (8 * th) (walkAt format converted tw th t tiledOffset) =
      walkAt format converted tw th (t + 1) tiledOffset := by
  have hpos := width_pos_of_lt ht
  obtain ⟨r, c, hc, rfl⟩ : ∃ r c, c < tw ∧ t = tw * r + c :=
    ⟨t / tw, t % tw, Nat.mod_lt t hpos, (Nat.div_add_mod t tw).symm⟩
  by_cases hlast : c + 1 = tw
  · have hnext : tw * r + c + 1 = tw * (r + 1) + 0 := by
      rw [Nat.mul_add]
      omega
    have hr : r + 1 < th := by
      rw [hnext, Nat.add_zero] at ht
      exact Nat.lt_of_mul_lt_mul_left ht
    have hx : (8 * c + 8) % (8 * tw) = 0 := by
      rw [show 8 * c + 8 = 8 * tw by omega, Nat.mod_self]
    have hy : (8 * r + 8) % (8 * th) = 8 * (r + 1) := Nat.mod_eq_of_lt (by omega)
    obtain ⟨k, hk⟩ : ∃ k, 8 * th - 8 - 8 * r = k + 8 := ⟨8 * th - 8 - 8 * (r + 1), by omega⟩
    have hup : ((k + 8) * (8 * tw) + 8 * c) * linearBytesPerPixel format converted +
        8 * linearBytesPerPixel format converted =
        k * (8 * tw) * linearBytesPerPixel format converted +
          8 * tw * 9 * linearBytesPerPixel format converted := by
      rw [← hlast]
      ring
    rw [hnext, walkAt_eq hpos, walkAt_eq hc, hk, show 8 * th - 8 - 8 * (r + 1) = k by omega]
    simp only [linearNextTile, hx, hy]
    rw [if_neg (by omega), if_neg (by omega), hup, Nat.add_sub_cancel]
    simp only [Nat.mul_zero, Nat.add_zero]
  · have hx : (8 * c + 8) % (8 * tw) = 8 * (c + 1) := Nat.mod_eq_of_lt (by omega)
    rw [Nat.add_assoc, walkAt_eq (show c + 1 < tw by omega), walkAt_eq hc]
    simp only [linearNextTile, hx]
    rw [if_pos (by omega)]
    congr 1
    ring

/-- A copy starts its walk at the tile its first byte is in. -/
theorem beginWalk_eq (tw th startOffset : Nat) :
    beginWalk format converted (8 * tw) (8 * th) startOffset =
      walkAt format converted tw th (startOffset / tileSize format) 0 := by
  have hdown : alignDown startOffset (tileSize format) * 8 / getFormatBpp format =
      64 * (startOffset / tileSize format) := by
    have hmul : alignDown startOffset (tileSize format) =
        tileSize format * (startOffset / tileSize format) := by
      have hdiv := Nat.div_add_mod startOffset (tileSize format)
      rw [alignDown]
      omega
    rw [hmul, tileSize_eq]
    rw [show getFormatBpp format * 8 * (startOffset / (getFormatBpp format * 8)) * 8 =
      getFormatBpp format * (64 * (startOffset / (getFormatBpp format * 8))) by ring,
      Nat.mul_div_cancel_left _ (getFormatBpp_pos format)]
  have hwidth : 8 * tw * 8 = 64 * tw := by ring
  rw [beginWalk, hdown, hwidth, Nat.mul_mod_mul_left, Nat.mul_div_mul_left _ _ (by decide), walkAt, originAt,
    show 64 * (startOffset / tileSize format % tw) / 8 = 8 * (startOffset / tileSize format % tw) by omega,
    Nat.mul_comm (startOffset / tileSize format / tw) 8]

/-- The tile of the rows at tile `t`. -/
theorem linearData_walkAt {t tiledOffset : Nat} (ht : t < tw * th) :
    linearData format converted (8 * tw) ⟨0, 8 * tw * (8 * th) * linearBytesPerPixel format converted⟩
        (walkAt format converted tw th t tiledOffset) =
      some ⟨originAt tw th t * linearBytesPerPixel format converted,
        (7 * (8 * tw) + 8) * linearBytesPerPixel format converted⟩ := by
  have hle := Nat.mul_le_mul_right (linearBytesPerPixel format converted) (originAt_add_le ht)
  rw [Nat.add_mul] at hle
  rw [linearData, walkAt, subspan_eq hle, Nat.zero_add]

/-! ## Tiles that are copied whole -/

variable (format converted tw th) in
/-- The copy of tile `t` of the texture, in a tiled buffer that starts at byte `startOffset` of it. -/
def copyTileAt (mortonToLinear : Bool) (startOffset : Nat) (b : Buffers) (t : Nat) : Option Buffers :=
  mortonCopyTile float mortonToLinear format converted (8 * tw)
    ⟨t * tileSize format - startOffset, tileSize format⟩
    ⟨originAt tw th t * linearBytesPerPixel format converted,
      (7 * (8 * tw) + 8) * linearBytesPerPixel format converted⟩ b

variable (format converted tw th) in
/-- The walk is at tile `t`; past the last tile only its place in the tiled buffer is known. -/
def IsAt (startOffset t : Nat) (w : Walk) : Prop :=
  w.tiledOffset = t * tileSize format - startOffset ∧
    (t < tw * th → w = walkAt format converted tw th t (t * tileSize format - startOffset))

theorem linearNextTile_tiledOffset (width height : Nat) (w : Walk) :
    (linearNextTile format converted width height w).tiledOffset = w.tiledOffset := by
  simp only [linearNextTile]
  split_ifs <;> rfl

/-- From one tile to the next. -/
theorem isAt_linearNextTile {startOffset t tiledOffset : Nat}
    (h : tiledOffset = (t + 1) * tileSize format - startOffset) :
    IsAt format converted tw th startOffset (t + 1)
      (linearNextTile format converted (8 * tw) (8 * th) (walkAt format converted tw th t tiledOffset)) := by
  constructor
  · rw [linearNextTile_tiledOffset, walkAt, h]
  · intro ht
    rw [linearNextTile_walkAt ht, h]

/-- The loop over whole tiles copies them one after the other, and ends at the tile after them. -/
theorem copyTiles_eq (mortonToLinear : Bool) {startOffset tiledSize : Nat} (n : Nat) {fuel t : Nat}
    {w : Walk} (hw : IsAt format converted tw th startOffset t w) (hfuel : n < fuel)
    (ht : t + n ≤ tw * th) (hstart : startOffset ≤ t * tileSize format)
    (hsize : (t + n) * tileSize format - startOffset ≤ tiledSize) :
    ∃ w', IsAt format converted tw th startOffset (t + n) w' ∧
      ∀ b, copyTiles float mortonToLinear format converted (8 * tw) (8 * th)
        ((t + n) * tileSize format - startOffset)
        ⟨0, 8 * tw * (8 * th) * linearBytesPerPixel format converted⟩ ⟨0, tiledSize⟩ fuel w b =
      ((List.range' t n).foldlM (copyTileAt float format converted tw th mortonToLinear startOffset) b).map
        (Prod.mk w') := by
  induction n generalizing t w fuel with
  | zero =>
    obtain ⟨fuel, rfl⟩ := Nat.exists_eq_add_of_lt hfuel
    refine ⟨w, hw, fun b => ?_⟩
    rw [Nat.add_zero, Nat.zero_add, copyTiles, hw.1, if_neg (by omega)]
    rfl
  | succ n ih =>
    obtain ⟨fuel, rfl⟩ : ∃ k, fuel = k + 1 := ⟨fuel - 1, by omega⟩
    have hpos := tileSize_pos format
    have hmul : (t + (n + 1)) * tileSize format = t * tileSize format + n * tileSize format + tileSize format := by
      ring
    obtain rfl := hw.2 (by omega)
    have hoffset : t * tileSize format - startOffset + tileSize format =
        (t + 1) * tileSize format - startOffset := by
      rw [Nat.add_mul]
      omega
    have hnext : IsAt format converted tw th startOffset (t + 1) (linearNextTile format converted (8 * tw)
        (8 * th) (walkAt format converted tw th t
          (t * tileSize format - startOffset + tileSize format))) :=
      isAt_linearNextTile hoffset
    have hfuel' : n < fuel := by omega
    have hstart' : startOffset ≤ (t + 1) * tileSize format := by
      rw [Nat.add_mul]
      omega
    have hcount : t + 1 + n = t + (n + 1) := by omega
    obtain ⟨w', hw', hrun⟩ := ih hnext hfuel' (by omega) hstart' (by rw [hcount]; exact hsize)
    rw [hcount] at hw' hrun
    refine ⟨w', hw', fun b => ?_⟩
    have htiled : (⟨0, tiledSize⟩ : Span).subspan (t * tileSize format - startOffset) (tileSize format) =
        some ⟨t * tileSize format - startOffset, tileSize format⟩ := by
      rw [subspan_eq (by simp only; omega), Nat.zero_add]
    have hlt : (walkAt format converted tw th t (t * tileSize format - startOffset)).tiledOffset <
        (t + (n + 1)) * tileSize format - startOffset := by
      simp only [walkAt]
      omega
    rw [List.range'_succ, List.foldlM_cons, copyTiles, if_pos hlt, linearData_walkAt (by omega)]
    simp only [walkAt, Option.bind_eq_bind, Option.bind_some, htiled, copyTileAt]
    cases mortonCopyTile float mortonToLinear format converted (8 * tw)
      ⟨t * tileSize format - startOffset, tileSize format⟩
      ⟨originAt tw th t * linearBytesPerPixel format converted,
        (7 * (8 * tw) + 8) * linearBytesPerPixel format converted⟩ b with
    | none => rfl
    | some b₁ => exact hrun b₁

/-! ## Encoding a range -/

variable (format converted tw th) in
/-- Byte `j` of the texture the rows are encoded to. -/
def textureByte (linear : Memory) (j : Nat) : UInt8 :=
  encodedByte float format converted (8 * tw) linear (originAt tw th (j / tileSize format))
    (j % tileSize format)

theorem textureByte_of_tile {linear : Memory} {t i j : Nat} (hi : i < tileSize format)
    (hj : j = t * tileSize format + i) : textureByte float format converted tw th linear j =
      encodedByte float format converted (8 * tw) linear (originAt tw th t) i := by
  have hdiv : j / tileSize format = t := by
    rw [hj, Nat.add_comm, Nat.add_mul_div_right _ _ (tileSize_pos format), Nat.div_eq_of_lt hi, Nat.zero_add]
  have hmod : j % tileSize format = i := by
    rw [hj, Nat.add_comm, Nat.add_mul_mod_self_right, Nat.mod_eq_of_lt hi]
  rw [textureByte, hdiv, hmod]

variable (format converted tw th) in
/-- The copy of `count` bytes of tile `t`, from its byte `first` on, through the temporary tile. -/
def copyPart (tiledSize : Nat) (tmp : Memory) (t first tiledOffset count : Nat) (b : Buffers) :
    Option Buffers := do
  let copied ← mortonCopyTile float false format converted (8 * tw) ⟨0, tileSize format⟩
    ⟨originAt tw th t * linearBytesPerPixel format converted,
      (7 * (8 * tw) + 8) * linearBytesPerPixel format converted⟩ { b with tile := tmp }
  let tiled ← copyTmp format copied.tile b.tile first ⟨0, tiledSize⟩ tiledOffset count
  return ⟨copied.linear, tiled⟩

/-- A part of a tile is encoded, whatever the temporary tile held. -/
theorem writes_copyPart (hfloat : noFloat format converted) (hc : ¬ isCompressed format)
    (linear tmp : Memory) {startOffset tiledSize t first tiledOffset count : Nat}
    (hfirst : first + count ≤ tileSize format) (hsize : tiledOffset + count ≤ tiledSize)
    (hplace : startOffset + tiledOffset = t * tileSize format + first) :
    Writes (fun b => b.linear = linear) tiledByte {j | tiledOffset ≤ j ∧ j < tiledOffset + count}
      (fun j => textureByte float format converted tw th linear (startOffset + j))
      (copyPart float format converted tw th tiledSize tmp t first tiledOffset count) := by
  rintro b rfl
  obtain ⟨b₁, hrun, hlinear, hbytes, -⟩ := writes_mortonCopyTile_encode float hfloat hc b.linear 0 (8 * tw)
    (originAt tw th t) ⟨b.linear, tmp⟩ rfl
  have hsource : (⟨0, tileSize format⟩ : Span).subspan first count = some ⟨first, count⟩ := by
    rw [subspan_eq hfirst, Nat.zero_add]
  have hdest : (⟨0, tiledSize⟩ : Span).subspan tiledOffset count = some ⟨tiledOffset, count⟩ := by
    rw [subspan_eq hsize, Nat.zero_add]
  have hstore := store_eq (s := ⟨tiledOffset, count⟩) b.tile (le_of_eq (length_readBlock b₁.tile first count))
  refine ⟨⟨b₁.linear, writeBlock b.tile tiledOffset (readBlock b₁.tile first count) count⟩, ?_, hlinear, ?_, ?_⟩
  · simp only [copyPart, copyTmp, hrun, hsource, hdest, hstore, Option.bind_eq_bind, Option.bind_some,
      length_readBlock]
    rfl
  · rintro j ⟨hlo, hhi⟩
    have hbyte : b₁.tile (first + (j - tiledOffset)) = encodedByte float format converted (8 * tw) b.linear
        (originAt tw th t) (first + (j - tiledOffset)) :=
      hbytes _ ⟨Nat.zero_le _, by omega⟩
    simp only [tiledByte]
    rw [writeBlock, if_pos ⟨hlo, hhi⟩, byteAt_readBlock _ _ (by omega), hbyte]
    exact (textureByte_of_tile float (by omega) (by omega)).symm
  · intro j hj
    rw [Set.mem_ofPred_eq] at hj
    simp only [tiledByte]
    rw [writeBlock, if_neg hj]

/-- A whole tile is encoded to its place in the tiled buffer. -/
theorem writes_copyTileAt (hfloat : noFloat format converted) (hc : ¬ isCompressed format) (linear : Memory)
    {startOffset t : Nat} (hstart : startOffset ≤ t * tileSize format) :
    Writes (fun b => b.linear = linear) tiledByte (bytesOfTile (t * tileSize format - startOffset) format)
      (fun j => textureByte float format converted tw th linear (startOffset + j))
      fun b => copyTileAt float format converted tw th false startOffset b t := by
  apply (writes_mortonCopyTile_encode float hfloat hc linear (t * tileSize format - startOffset) (8 * tw)
    (originAt tw th t)).congr
  · intro j
    rfl
  · rintro j ⟨hlo, hhi⟩
    exact textureByte_of_tile float (by omega) (by omega)

/-! ### The three sections -/

variable (format) in
/-- The first tile that begins at or after a byte. -/
def firstWhole (startOffset : Nat) : Nat :=
  if startOffset % tileSize format = 0 then startOffset / tileSize format
  else startOffset / tileSize format + 1

theorem alignDown_eq (value : Nat) : alignDown value (tileSize format) =
    value / tileSize format * tileSize format := by
  have hdiv := Nat.div_add_mod' value (tileSize format)
  rw [alignDown]
  omega

theorem alignUp_eq (value : Nat) : alignUp value (tileSize format) =
    firstWhole format value * tileSize format := by
  have hdiv := Nat.div_add_mod' value (tileSize format)
  rw [alignUp, firstWhole]
  split_ifs with h
  · omega
  · rw [Nat.add_mul]
    omega

theorem le_firstWhole_mul (format : PixelFormat) (value : Nat) : value ≤ firstWhole format value * tileSize format := by
  have hdiv := Nat.div_add_mod' value (tileSize format)
  have hlt := Nat.mod_lt value (tileSize_pos format)
  rw [firstWhole]
  split_ifs with h
  · omega
  · rw [Nat.add_mul]
    omega

variable (format converted tw th) in
/-- A section of a copy: it encodes bytes `lo` to `hi` of the tiled buffer, and the walk is then at
tile `t`. -/
def Encodes (linear : Memory) (startOffset lo hi t : Nat) (f : Buffers → Option (Walk × Buffers)) : Prop :=
  ∃ w, IsAt format converted tw th startOffset t w ∧
    ∃ step, (∀ b, f b = (step b).map (Prod.mk w)) ∧
      Writes (fun b => b.linear = linear) tiledByte {j | lo ≤ j ∧ j < hi}
        (fun j => textureByte float format converted tw th linear (startOffset + j)) step

/-- A section that is left out. -/
theorem encodes_some {linear : Memory} {startOffset lo hi t : Nat} {w : Walk}
    (hw : IsAt format converted tw th startOffset t w) (h : hi ≤ lo) :
    Encodes float format converted tw th linear startOffset lo hi t fun b => some (w, b) := by
  refine ⟨w, hw, some, fun b => rfl, ?_⟩
  apply Writes.none.congr
  · intro j
    simp only [Set.mem_ofPred_eq, Set.mem_empty_iff_false, iff_false]
    omega
  · intro j _
    rfl

/-- The first section encodes the rest of a tile the copy starts in the middle of. -/
theorem encodes_copyHead (hfloat : noFloat format converted) (hc : ¬ isCompressed format)
    (linear tmp : Memory) {startOffset endOffset : Nat} (hle : startOffset ≤ endOffset)
    (hend : endOffset ≤ tw * th * tileSize format) :
    Encodes float format converted tw th linear startOffset 0
      (min (firstWhole format startOffset * tileSize format) endOffset - startOffset)
      (firstWhole format startOffset)
      (copyHead float false format converted (8 * tw) (8 * th) startOffset endOffset
        ⟨0, 8 * tw * (8 * th) * linearBytesPerPixel format converted⟩ ⟨0, endOffset - startOffset⟩ tmp
        (beginWalk format converted (8 * tw) (8 * th) startOffset)) := by
  have hdiv := Nat.div_add_mod' startOffset (tileSize format)
  have hmodlt := Nat.mod_lt startOffset (tileSize_pos format)
  unfold copyHead
  simp only [alignUp_eq, alignDown_eq, beginWalk_eq]
  by_cases hmod : startOffset % tileSize format = 0
  · have hwhole : firstWhole format startOffset = startOffset / tileSize format := if_pos hmod
    have hcond : (decide (startOffset < startOffset / tileSize format * tileSize format) && !false) = false := by
      rw [Bool.not_false, Bool.and_true, decide_eq_false_iff_not]
      omega
    simp only [hwhole, hcond, Bool.false_eq_true, if_false]
    have hzero : startOffset / tileSize format * tileSize format - startOffset = 0 := by omega
    apply encodes_some float
    · refine ⟨?_, fun _ => ?_⟩
      · rw [hzero, walkAt]
      · rw [hzero]
    · omega
  · have ht : startOffset / tileSize format < tw * th := by
      rw [Nat.div_lt_iff_lt_mul (tileSize_pos format)]
      apply Nat.lt_of_le_of_ne (by omega)
      rintro rfl
      exact hmod (Nat.mul_mod_left ..)
    have hwhole : firstWhole format startOffset = startOffset / tileSize format + 1 := if_neg hmod
    have hmul : (startOffset / tileSize format + 1) * tileSize format =
        startOffset / tileSize format * tileSize format + tileSize format := by
      ring
    have hcond : (decide (startOffset < (startOffset / tileSize format + 1) * tileSize format) && !false) =
        true := by
      rw [Bool.not_false, Bool.and_true, decide_eq_true_eq]
      omega
    simp only [hwhole, hcond, if_true]
    refine ⟨_, isAt_linearNextTile (t := startOffset / tileSize format) rfl,
      copyPart float format converted tw th (endOffset - startOffset) tmp (startOffset / tileSize format)
        (startOffset - startOffset / tileSize format * tileSize format) 0
        (min ((startOffset / tileSize format + 1) * tileSize format) endOffset - startOffset), ?_, ?_⟩
    · intro b
      rw [linearData_walkAt ht]
      simp only [walkAt, Option.bind_eq_bind, Option.bind_some, copyPart, Nat.zero_add, Option.map_bind,
        Function.comp_def]
      rfl
    · have hfirst : startOffset - startOffset / tileSize format * tileSize format +
          (min ((startOffset / tileSize format + 1) * tileSize format) endOffset - startOffset) ≤
          tileSize format := by
        omega
      have hsize : 0 + (min ((startOffset / tileSize format + 1) * tileSize format) endOffset - startOffset) ≤
          endOffset - startOffset := by
        omega
      have hplace : startOffset + 0 = startOffset / tileSize format * tileSize format +
          (startOffset - startOffset / tileSize format * tileSize format) := by
        omega
      apply (writes_copyPart float hfloat hc linear tmp hfirst hsize hplace).congr
      · intro j
        simp only [Set.mem_ofPred_eq, Nat.zero_add]
      · intro j _
        rfl

/-- Whole tiles are encoded one after the other. -/
theorem writes_copyTiles (hfloat : noFloat format converted) (hc : ¬ isCompressed format) (linear : Memory)
    {startOffset t : Nat} (n : Nat) (hstart : startOffset ≤ t * tileSize format) :
    Writes (fun b => b.linear = linear) tiledByte
      {j | t * tileSize format - startOffset ≤ j ∧ j < (t + n) * tileSize format - startOffset}
      (fun j => textureByte float format converted tw th linear (startOffset + j))
      fun b => (List.range' t n).foldlM (copyTileAt float format converted tw th false startOffset) b := by
  have htile : ∀ i ∈ List.range' t n, Writes (fun b => b.linear = linear) tiledByte
      (bytesOfTile (i * tileSize format - startOffset) format)
      (fun j => textureByte float format converted tw th linear (startOffset + j))
      fun b => copyTileAt float format converted tw th false startOffset b i := by
    intro i hi
    apply writes_copyTileAt float hfloat hc linear
    exact le_trans hstart (Nat.mul_le_mul_right _ (List.mem_range'_1.1 hi).1)
  apply (Writes.foldlM htile).congr
  · intro j
    simp only [Set.mem_ofPred_eq, List.mem_range'_1, bytesOfTile]
    constructor
    · rintro ⟨hlo, hhi⟩
      have hdiv := Nat.div_add_mod' (startOffset + j) (tileSize format)
      have hmod := Nat.mod_lt (startOffset + j) (tileSize_pos format)
      refine ⟨(startOffset + j) / tileSize format, ⟨?_, ?_⟩, ?_, ?_⟩
      · rw [Nat.le_div_iff_mul_le (tileSize_pos format)]
        omega
      · rw [Nat.div_lt_iff_lt_mul (tileSize_pos format)]
        omega
      · omega
      · omega
    · rintro ⟨i, ⟨hi, hi'⟩, hlo, hhi⟩
      have hlow : t * tileSize format ≤ i * tileSize format := Nat.mul_le_mul_right _ hi
      have hhigh : (i + 1) * tileSize format ≤ (t + n) * tileSize format := Nat.mul_le_mul_right _ hi'
      rw [Nat.add_mul i] at hhigh
      omega
  · intro j _
    rfl

/-- The middle section encodes the whole tiles. -/
theorem encodes_copyMiddle (hfloat : noFloat format converted) (hc : ¬ isCompressed format)
    (linear : Memory) {startOffset endOffset : Nat} (hle : startOffset ≤ endOffset)
    (hend : endOffset ≤ tw * th * tileSize format) {w : Walk}
    (hw : IsAt format converted tw th startOffset (firstWhole format startOffset) w) :
    Encodes float format converted tw th linear startOffset
      (firstWhole format startOffset * tileSize format - startOffset)
      (endOffset / tileSize format * tileSize format - startOffset)
      (max (firstWhole format startOffset) (endOffset / tileSize format))
      (copyMiddle float false format converted (8 * tw) (8 * th) startOffset endOffset
        ⟨0, 8 * tw * (8 * th) * linearBytesPerPixel format converted⟩ ⟨0, endOffset - startOffset⟩ w) := by
  have hstart := le_firstWhole_mul format startOffset
  have hdiv := Nat.div_add_mod' endOffset (tileSize format)
  have hlast : endOffset / tileSize format ≤ tw * th := by
    apply Nat.div_le_of_le_mul
    rw [Nat.mul_comm]
    exact hend
  unfold copyMiddle
  simp only [alignUp_eq, alignDown_eq]
  by_cases h : firstWhole format startOffset * tileSize format < endOffset / tileSize format * tileSize format
  · have htiles : firstWhole format startOffset < endOffset / tileSize format :=
      Nat.lt_of_mul_lt_mul_right h
    obtain ⟨n, hn⟩ : ∃ n, endOffset / tileSize format = firstWhole format startOffset + n :=
      ⟨endOffset / tileSize format - firstWhole format startOffset, by omega⟩
    rw [max_eq_right (le_of_lt htiles)]
    simp only [h, if_true]
    rw [hn] at hdiv hlast ⊢
    have hmul : (firstWhole format startOffset + n) * tileSize format =
        firstWhole format startOffset * tileSize format + n * tileSize format := Nat.add_mul ..
    have hbufferEnd : min (w.tiledOffset + (firstWhole format startOffset + n) * tileSize format -
        firstWhole format startOffset * tileSize format) (endOffset - startOffset) =
        (firstWhole format startOffset + n) * tileSize format - startOffset := by
      rw [hw.1]
      omega
    have hfuel : n < (firstWhole format startOffset + n) * tileSize format - startOffset + 1 := by
      have hn : n ≤ n * tileSize format := Nat.le_mul_of_pos_right n (tileSize_pos format)
      omega
    obtain ⟨w', hw', hrun⟩ := copyTiles_eq float false n hw hfuel hlast hstart
      (show _ ≤ endOffset - startOffset by omega)
    rw [hbufferEnd]
    refine ⟨w', hw', _, hrun, ?_⟩
    apply (writes_copyTiles float hfloat hc linear n hstart).congr
    · intro j
      rfl
    · intro j _
      rfl
  · simp only [h, if_false]
    have hle : endOffset / tileSize format ≤ firstWhole format startOffset := by
      by_contra hcon
      exact h (Nat.mul_lt_mul_of_pos_right (by omega) (tileSize_pos format))
    rw [max_eq_left hle]
    apply encodes_some float hw
    omega

/-- The last section encodes the part of a tile the copy ends in the middle of. -/
theorem writes_copyTail (hfloat : noFloat format converted) (hc : ¬ isCompressed format)
    (linear tmp : Memory) {startOffset endOffset : Nat} (hle : startOffset ≤ endOffset)
    (hend : endOffset ≤ tw * th * tileSize format) {w : Walk}
    (hw : IsAt format converted tw th startOffset
      (max (firstWhole format startOffset) (endOffset / tileSize format)) w) :
    Writes (fun b => b.linear = linear) tiledByte
      {j | max (firstWhole format startOffset * tileSize format)
        (endOffset / tileSize format * tileSize format) ≤ startOffset + j ∧ startOffset + j < endOffset}
      (fun j => textureByte float format converted tw th linear (startOffset + j))
      (copyTail float false format converted (8 * tw) startOffset endOffset
        ⟨0, 8 * tw * (8 * th) * linearBytesPerPixel format converted⟩ ⟨0, endOffset - startOffset⟩ tmp w) := by
  have hstart := le_firstWhole_mul format startOffset
  have hdiv := Nat.div_add_mod' endOffset (tileSize format)
  have hmod := Nat.mod_lt endOffset (tileSize_pos format)
  unfold copyTail
  simp only [alignUp_eq, alignDown_eq]
  by_cases h : endOffset > max (firstWhole format startOffset * tileSize format)
      (endOffset / tileSize format * tileSize format)
  · have hfirst : firstWhole format startOffset ≤ endOffset / tileSize format := by
      rw [Nat.le_div_iff_mul_le (tileSize_pos format)]
      omega
    have ht : endOffset / tileSize format < tw * th := by
      apply Nat.lt_of_mul_lt_mul_right (a := tileSize format)
      omega
    have hle : firstWhole format startOffset * tileSize format ≤
        endOffset / tileSize format * tileSize format := Nat.mul_le_mul_right _ hfirst
    rw [max_eq_right hfirst] at hw
    obtain rfl := hw.2 ht
    simp only [h, decide_true, Bool.not_false, Bool.and_true, if_true]
    have hcount : 0 + (endOffset - endOffset / tileSize format * tileSize format) ≤ tileSize format := by
      omega
    have hsize : endOffset / tileSize format * tileSize format - startOffset +
        (endOffset - endOffset / tileSize format * tileSize format) ≤ endOffset - startOffset := by
      omega
    have hplace : startOffset + (endOffset / tileSize format * tileSize format - startOffset) =
        endOffset / tileSize format * tileSize format + 0 := by
      omega
    rw [max_eq_right hle]
    intro b hb
    obtain ⟨b', hrun, hb', hin, hout⟩ := writes_copyPart float hfloat hc linear tmp hcount hsize hplace b hb
    refine ⟨b', ?_, hb', ?_, ?_⟩
    · rw [← hrun, linearData_walkAt ht]
      rfl
    · rintro j ⟨hlo, hhi⟩
      apply hin
      rw [Set.mem_ofPred_eq]
      omega
    · intro j hj
      apply hout
      rw [Set.mem_ofPred_eq] at hj ⊢
      omega
  · simp only [h, decide_false, Bool.false_and, Bool.false_eq_true, if_false]
    apply Writes.none.congr
    · intro j
      simp only [Set.mem_ofPred_eq, Set.mem_empty_iff_false, iff_false]
      omega
    · intro j _
      rfl

variable (tw th) in
/-- Bytes `startOffset` to `endOffset` of the texture are encoded to the tiled buffer. -/
theorem writes_mortonCopy_encode (hfloat : noFloat format converted) (hc : ¬ isCompressed format)
    (linear : Memory) (tmp : Memory × Memory) {startOffset endOffset : Nat} (hle : startOffset ≤ endOffset)
    (hend : endOffset ≤ tw * th * tileSize format) :
    Writes (fun b => b.linear = linear) tiledByte {j | j < endOffset - startOffset}
      (fun j => textureByte float format converted tw th linear (startOffset + j))
      (mortonCopy float false format converted (8 * tw) (8 * th) startOffset endOffset
        ⟨0, 8 * tw * (8 * th) * linearBytesPerPixel format converted⟩ ⟨0, endOffset - startOffset⟩ tmp) := by
  obtain ⟨w₁, hw₁, head, hhead, hheadWrites⟩ :=
    encodes_copyHead float hfloat hc linear tmp.1 hle hend
  obtain ⟨w₂, hw₂, middle, hmiddle, hmiddleWrites⟩ :=
    encodes_copyMiddle float hfloat hc linear hle hend hw₁
  have htail := writes_copyTail float hfloat hc linear tmp.2 hle hend hw₂
  have hstart := le_firstWhole_mul format startOffset
  have hdiv := Nat.div_add_mod' endOffset (tileSize format)
  have hcopy : ∀ b, mortonCopy float false format converted (8 * tw) (8 * th) startOffset endOffset
      ⟨0, 8 * tw * (8 * th) * linearBytesPerPixel format converted⟩ ⟨0, endOffset - startOffset⟩ tmp b =
      ((head b >>= middle) >>= copyTail float false format converted (8 * tw) startOffset endOffset
        ⟨0, 8 * tw * (8 * th) * linearBytesPerPixel format converted⟩ ⟨0, endOffset - startOffset⟩ tmp.2
        w₂) := by
    intro b
    simp only [mortonCopy, Bool.not_false, Bool.true_or, guard, if_true, hhead]
    cases head b with
    | none => rfl
    | some b₁ =>
      have hb₁ := hmiddle b₁
      cases hrun : middle b₁ with
      | none =>
        rw [hrun] at hb₁
        simp [hb₁, hrun]
      | some b₂ =>
        rw [hrun] at hb₁
        simp [hb₁, hrun]
  have hall := (hheadWrites.bind hmiddleWrites).bind htail
  simp only [← hcopy] at hall
  apply hall.congr
  · intro j
    simp only [Set.mem_ofPred_eq, Set.mem_union]
    omega
  · intro j _
    rfl

/-! ## Decoding a texture -/

variable (format converted tw th) in
/-- The texel of the texture that belongs to pixel `p` of the rows. -/
def texelOfPixel (tile : Memory) (p : Nat) : List UInt8 :=
  let x := p % (8 * tw)
  let y := 8 * th - 1 - p / (8 * tw)
  (decodeTexel float format converted tile ((y / 8 * tw + x / 8) * tileSize format) (x % 8) (y % 8)).getD []

/-- The column and the row of a pixel of tile `t`. -/
theorem pixel_of_tile {t x y : Nat} (ht : t < tw * th) (hx : x < 8) (hy : y < 8) :
    (originAt tw th t + (7 - y) * (8 * tw) + x) % (8 * tw) = 8 * (t % tw) + x ∧
      (originAt tw th t + (7 - y) * (8 * tw) + x) / (8 * tw) = 8 * th - 1 - (8 * (t / tw) + y) := by
  have hcol := Nat.mod_lt t (width_pos_of_lt ht)
  have hrow := row_lt ht
  have hplace : originAt tw th t + (7 - y) * (8 * tw) + x =
      8 * tw * (8 * th - 1 - (8 * (t / tw) + y)) + (8 * (t % tw) + x) := by
    rw [originAt, show 8 * th - 1 - (8 * (t / tw) + y) = 8 * th - 8 - 8 * (t / tw) + (7 - y) by omega]
    ring
  rw [hplace]
  exact ⟨tile_mod (by omega) _, tile_div (by omega) _⟩

/-- The texel of a pixel of tile `t`. -/
theorem texelOfPixel_tile {tile : Memory} {t x y : Nat} (ht : t < tw * th) (hx : x < 8) (hy : y < 8) :
    texelOfPixel float format converted tw th tile (originAt tw th t + (7 - y) * (8 * tw) + x) =
      (decodeTexel float format converted tile (t * tileSize format) x y).getD [] := by
  obtain ⟨hmod, hdiv⟩ := pixel_of_tile ht hx hy
  have hrow := row_lt ht
  have htile := Nat.div_add_mod' t tw
  have hy' : 8 * th - 1 - (8 * th - 1 - (8 * (t / tw) + y)) = 8 * (t / tw) + y := by omega
  have hrows : (8 * (t / tw) + y) / 8 = t / tw := by omega
  have hcols : (8 * (t % tw) + x) / 8 = t % tw := by omega
  have hyMod : (8 * (t / tw) + y) % 8 = y := by omega
  have hxMod : (8 * (t % tw) + x) % 8 = x := by omega
  simp only [texelOfPixel]
  rw [hmod, hdiv, hy', hrows, hcols, hyMod, hxMod, htile]

/-- Every pixel belongs to a tile. -/
theorem exists_tile_of_pixel {p : Nat} (hp : p < 8 * tw * (8 * th)) :
    ∃ t < tw * th, p ∈ rowsOfTile (originAt tw th t) (8 * tw) := by
  have hpos : 0 < 8 * tw := by
    apply Nat.pos_of_ne_zero
    intro h
    rw [h, Nat.zero_mul] at hp
    omega
  have hmod := Nat.mod_lt p hpos
  have hrow : p / (8 * tw) < 8 * th := Nat.div_lt_of_lt_mul hp
  have hdiv := Nat.div_add_mod' p (8 * tw)
  generalize p / (8 * tw) = r at hrow hdiv
  generalize p % (8 * tw) = c at hmod hdiv
  have hcol : c / 8 < tw := by omega
  obtain ⟨y, hy⟩ : ∃ y, r + y + 1 = 8 * th := ⟨8 * th - 1 - r, by omega⟩
  refine ⟨tw * (y / 8) + c / 8, ?_, y % 8, Nat.mod_lt _ (by decide), c % 8, Nat.mod_lt _ (by decide), ?_⟩
  · calc tw * (y / 8) + c / 8 < tw * (y / 8) + tw := by omega
      _ = tw * (y / 8 + 1) := by ring
      _ ≤ tw * th := Nat.mul_le_mul_left _ (by omega)
  · have hsum : (8 * th - 8 - 8 * (y / 8)) + (7 - y % 8) = r := by omega
    rw [originAt, tile_div hcol, tile_mod hcol]
    calc p = r * (8 * tw) + c := hdiv.symm
      _ = ((8 * th - 8 - 8 * (y / 8)) + (7 - y % 8)) * (8 * tw) + (8 * (c / 8) + c % 8) := by
          rw [hsum, Nat.div_add_mod]
      _ = (8 * th - 8 - 8 * (y / 8)) * (8 * tw) + 8 * (c / 8) + (7 - y % 8) * (8 * tw) + c % 8 := by
          ring

/-- Every pixel of a tile is in the rows. -/
theorem lt_of_mem_rowsOfTile {p t : Nat} (ht : t < tw * th) (hp : p ∈ rowsOfTile (originAt tw th t) (8 * tw)) :
    p < 8 * tw * (8 * th) := by
  obtain ⟨y, _, x, hx, rfl⟩ := hp
  have hle := originAt_add_le ht
  have hrow : (7 - y) * (8 * tw) ≤ 7 * (8 * tw) := Nat.mul_le_mul_right _ (by omega)
  omega

/-- A tile is decoded to its pixels. -/
theorem writes_copyTileAt_decode (hfloat : noFloat format converted) (tile : Memory) {t : Nat}
    (ht : t < tw * th) :
    Writes (fun b => b.tile = tile) (pixelAt format converted) (rowsOfTile (originAt tw th t) (8 * tw))
      (texelOfPixel float format converted tw th tile)
      fun b => copyTileAt float format converted tw th true 0 b t := by
  have htexel : ∀ y < 8, ∀ x < 8, decodeTexel float format converted tile (t * tileSize format - 0) x y =
      some (texelOfPixel float format converted tw th tile
        (originAt tw th t + (7 - y) * (8 * tw) + x)) ∧
      (texelOfPixel float format converted tw th tile
        (originAt tw th t + (7 - y) * (8 * tw) + x)).length = decodedBytes format converted := by
    intro y hy x hx
    obtain ⟨pixel, hpixel, hlength⟩ := decodeTexel_eq_some float hfloat tile (t * tileSize format) hx hy
    rw [Nat.sub_zero, texelOfPixel_tile float ht hx hy, hpixel]
    exact ⟨rfl, hlength⟩
  apply writes_mortonCopyTile_decode float
  · rintro p ⟨y, hy, x, hx, rfl⟩
    exact (htexel y hy x hx).2
  · intro y hy x hx
    exact (htexel y hy x hx).1

/-- A texture is decoded tile by tile. -/
theorem mortonCopy_decode_eq (tmp : Memory × Memory) (b : Buffers) :
    mortonCopy float true format converted (8 * tw) (8 * th) 0 (tw * th * tileSize format)
        ⟨0, 8 * tw * (8 * th) * linearBytesPerPixel format converted⟩ ⟨0, tw * th * tileSize format⟩ tmp b =
      (List.range' 0 (tw * th)).foldlM (copyTileAt float format converted tw th true 0) b := by
  have hzero : firstWhole format 0 = 0 := by
    rw [firstWhole, if_pos (Nat.zero_mod _), Nat.zero_div]
  have hend : tw * th * tileSize format / tileSize format = tw * th :=
    Nat.mul_div_cancel _ (tileSize_pos format)
  have hhead : copyHead float true format converted (8 * tw) (8 * th) 0 (tw * th * tileSize format)
      ⟨0, 8 * tw * (8 * th) * linearBytesPerPixel format converted⟩ ⟨0, tw * th * tileSize format⟩ tmp.1
      (beginWalk format converted (8 * tw) (8 * th) 0) b =
      some (walkAt format converted tw th 0 0, b) := by
    simp only [copyHead, Bool.not_true, Bool.and_false, Bool.false_eq_true, if_false, beginWalk_eq,
      Nat.zero_div]
  have htail : ∀ w b, copyTail float true format converted (8 * tw) 0 (tw * th * tileSize format)
      ⟨0, 8 * tw * (8 * th) * linearBytesPerPixel format converted⟩ ⟨0, tw * th * tileSize format⟩ tmp.2 w b =
      some b := by
    intro w b
    simp only [copyTail, Bool.not_true, Bool.and_false, Bool.false_eq_true, if_false]
  have hstart : IsAt format converted tw th 0 0 (walkAt format converted tw th 0 0) := by
    refine ⟨?_, fun _ => ?_⟩
    · rw [Nat.zero_mul]
      rfl
    · rw [Nat.zero_mul]
  have hle : tw * th ≤ tw * th * tileSize format := Nat.le_mul_of_pos_right _ (tileSize_pos format)
  obtain ⟨w, -, hrun⟩ := copyTiles_eq float true (tw * th) hstart
    (show tw * th < tw * th * tileSize format + 1 by omega) (by omega) (Nat.zero_le _)
    (show _ ≤ tw * th * tileSize format by rw [Nat.zero_add, Nat.sub_zero])
  rw [Nat.zero_add, Nat.sub_zero] at hrun
  have hmiddle : copyMiddle float true format converted (8 * tw) (8 * th) 0 (tw * th * tileSize format)
      ⟨0, 8 * tw * (8 * th) * linearBytesPerPixel format converted⟩ ⟨0, tw * th * tileSize format⟩
      (walkAt format converted tw th 0 0) b =
      (copyTiles float true format converted (8 * tw) (8 * th) (tw * th * tileSize format)
        ⟨0, 8 * tw * (8 * th) * linearBytesPerPixel format converted⟩ ⟨0, tw * th * tileSize format⟩
        (tw * th * tileSize format + 1) (walkAt format converted tw th 0 0) b) := by
    simp only [copyMiddle, alignUp_eq, alignDown_eq, hzero, hend, Nat.zero_mul]
    by_cases hsize : 0 < tw * th * tileSize format
    · rw [if_pos hsize]
      simp only [walkAt, Nat.zero_add, Nat.sub_zero, min_self]
    · rw [if_neg hsize, copyTiles, if_neg]
      simp only [walkAt]
      exact hsize
  rw [hrun] at hmiddle
  simp only [mortonCopy, hhead, htail, alignUp_eq, alignDown_eq, hzero, hend, Nat.zero_mul, guard, decide_true,
    Bool.and_self, Bool.or_true, if_true, Option.bind_eq_bind, Option.bind_some, hmiddle]
  cases (List.range' 0 (tw * th)).foldlM (copyTileAt float format converted tw th true 0) b with
  | none => rfl
  | some b' => rfl

variable (tw th) in
/-- Every pixel of the texture is decoded to its place. -/
theorem writes_mortonCopy_decode (hfloat : noFloat format converted) (tile : Memory) (tmp : Memory × Memory) :
    Writes (fun b => b.tile = tile) (pixelAt format converted) {p | p < 8 * tw * (8 * th)}
      (texelOfPixel float format converted tw th tile)
      (mortonCopy float true format converted (8 * tw) (8 * th) 0 (tw * th * tileSize format)
        ⟨0, 8 * tw * (8 * th) * linearBytesPerPixel format converted⟩ ⟨0, tw * th * tileSize format⟩
        tmp) := by
  have htile : ∀ t ∈ List.range' 0 (tw * th), Writes (fun b => b.tile = tile) (pixelAt format converted)
      (rowsOfTile (originAt tw th t) (8 * tw)) (texelOfPixel float format converted tw th tile)
      fun b => copyTileAt float format converted tw th true 0 b t := by
    intro t ht
    rw [List.mem_range'_1] at ht
    exact writes_copyTileAt_decode float hfloat tile (by omega)
  have hall := Writes.foldlM htile
  simp only [← mortonCopy_decode_eq float tmp] at hall
  apply hall.congr
  · intro p
    simp only [Set.mem_ofPred_eq, List.mem_range'_1]
    constructor
    · intro hp
      obtain ⟨t, ht, hmem⟩ := exists_tile_of_pixel hp
      exact ⟨t, ⟨Nat.zero_le _, by omega⟩, hmem⟩
    · rintro ⟨t, ⟨-, ht⟩, hmem⟩
      exact lt_of_mem_rowsOfTile (by omega) hmem
  · intro p _
    rfl

end

end AzaharPlus.Video
