import AzaharPlus.Lib.CheckedBytes

/-!
# Compressed code sections

`LZSS_GetDecompressedSize` and `LZSS_Decompress` of `core/file_sys/ncch_container.cpp`.  The
positions are of type `std::size_t`, which has 64 bits; `none` stands for an access outside a
buffer.

* `Lzss.decompressLoop_isSome` — from an index inside the section no access leaves a buffer.
* `Lzss.decompress_inside` — when no access leaves a buffer.
-/

namespace AzaharPlus.FileSys.Lzss

open Bytes

/-- The number of values of a `std::size_t`. -/
def sizeRange : Nat := 2 ^ 64

/-- The sum of a position and a number, less another one, as it wraps around. -/
def sizeSub (a b : Nat) : Nat := (a + sizeRange - b) % sizeRange

/-- `LZSS_GetDecompressedSize` -/
def getDecompressedSize (buffer : List UInt8) : Option Nat :=
  (checkedSlice buffer (sizeSub buffer.length 4) 4).map fun offsetSize =>
    (leValue offsetSize + buffer.length) % sizeRange

/-- Where the decompression is. -/
structure State where
  index : Nat
  out : Nat
  decompressed : List UInt8

/-- The loop that copies a segment of what was decompressed, from its end on; the inner `none` if
the function returns false. -/
def copySegment (segmentOffset : Nat) :
    Nat → Nat → List UInt8 → Option (Option (Nat × List UInt8))
  | 0, out, decompressed => some (some (out, decompressed))
  | count + 1, out, decompressed =>
      if decompressed.length ≤ out + segmentOffset then some none
      else
        (decompressed[out + segmentOffset]?).bind fun data =>
          (checkedSet decompressed (sizeSub out 1) data).bind fun decompressed =>
            copySegment segmentOffset count (sizeSub out 1) decompressed

/-- A bit of the control byte that is set: a segment. -/
def segment (compressed : List UInt8) (s : State) : Option (Option State) :=
  if s.index < 2 then some none
  else
    let index := s.index - 2
    (compressed[index]?).bind fun low =>
      (compressed[index + 1]?).bind fun high =>
        let segmentOffset := low.toNat + high.toNat * 256
        let segmentSize := segmentOffset / 4096 % 16 + 3
        let segmentOffset := segmentOffset % 4096 + 2
        if s.out < segmentSize then some none
        else
          (copySegment segmentOffset segmentSize s.out s.decompressed).map fun r =>
            r.map fun r => ⟨index, r.1, r.2⟩

/-- A bit of the control byte that is not set: a byte; the caller has made sure that the index is
not 0. -/
def literal (compressed : List UInt8) (s : State) : Option (Option State) :=
  if s.out < 1 then some none
  else
    (compressed[s.index - 1]?).bind fun data =>
      (checkedSet s.decompressed (s.out - 1) data).map fun decompressed =>
        some ⟨s.index - 1, s.out - 1, decompressed⟩

/-- The loop over the bits of a control byte. -/
def controlBits (compressed : List UInt8) (stopIndex : Nat) :
    Nat → UInt8 → State → Option (Option State)
  | 0, _, s => some (some s)
  | bits + 1, control, s =>
      if s.index ≤ stopIndex then some (some s)
      else if s.index = 0 then some (some s)
      else if s.out = 0 then some (some s)
      else
        ((if control &&& 0x80 ≠ 0 then segment compressed s else literal compressed s)).bind
          fun r =>
            match r with
            | none => some none
            | some s => controlBits compressed stopIndex bits (control <<< 1) s

/-! ## What the steps do to the index -/

theorem sizeSub_eq {a b : Nat} (hb : b ≤ a) (ha : a < sizeRange) : sizeSub a b = a - b := by
  unfold sizeSub sizeRange at *
  omega

theorem segment_index {compressed : List UInt8} {s s' : State}
    (h : segment compressed s = some (some s')) : s'.index ≤ s.index := by
  unfold segment at h
  split at h
  · cases h
  · simp only [Option.bind_eq_some_iff] at h
    obtain ⟨low, -, high, -, h⟩ := h
    split at h
    · cases h
    · obtain ⟨r, -, h⟩ := Option.map_eq_some_iff.1 h
      obtain ⟨r', -, rfl⟩ := Option.map_eq_some_iff.1 h
      exact Nat.sub_le _ _

theorem literal_index {compressed : List UInt8} {s s' : State}
    (h : literal compressed s = some (some s')) : s'.index ≤ s.index := by
  unfold literal at h
  split at h
  · cases h
  · simp only [Option.bind_eq_some_iff, Option.map_eq_some_iff] at h
    obtain ⟨data, -, decompressed, -, h⟩ := h
    cases h
    exact Nat.sub_le _ _

/-- The index never grows. -/
theorem controlBits_index {compressed : List UInt8} {stopIndex bits : Nat} {control : UInt8}
    {s s' : State} (h : controlBits compressed stopIndex bits control s = some (some s')) :
    s'.index ≤ s.index := by
  induction bits generalizing control s with
  | zero =>
    cases h
    exact Nat.le_refl _
  | succ bits ih =>
    rw [controlBits] at h
    split at h
    · cases h
      exact Nat.le_refl _
    · split at h
      · cases h
        exact Nat.le_refl _
      · split at h
        · cases h
          exact Nat.le_refl _
        · obtain ⟨r, hr, h⟩ := Option.bind_eq_some_iff.1 h
          cases r with
          | none => cases h
          | some s₁ =>
            have hle : s₁.index ≤ s.index := by
              split at hr
              · exact segment_index hr
              · exact literal_index hr
            exact (ih h).trans hle

/-- The loop over the control bytes; the inner `none` if the function returns false. -/
def decompressLoop (compressed : List UInt8) (stopIndex : Nat) (s : State) :
    Option (Option (List UInt8)) :=
  if stopIndex < s.index then
    match compressed[s.index - 1]? with
    | none => none
    | some control =>
        match _h : controlBits compressed stopIndex 8 control { s with index := s.index - 1 } with
        | none => none
        | some none => some none
        | some (some s') => decompressLoop compressed stopIndex s'
  else some (some s.decompressed)
  termination_by s.index
  decreasing_by
    have hle := controlBits_index _h
    change s'.index ≤ s.index - 1 at hle
    omega

/-- `LZSS_Decompress`: the decompressed bytes, or the inner `none` if it returns false. -/
def decompress (compressed decompressed : List UInt8) : Option (Option (List UInt8)) :=
  (checkedSlice compressed (sizeSub compressed.length 8) 4).bind fun bufferTopAndBottom =>
    let bufferTopAndBottom := leValue bufferTopAndBottom
    (checkedCopy (List.replicate decompressed.length 0) 0 compressed).bind fun copied =>
      decompressLoop compressed (sizeSub compressed.length (bufferTopAndBottom % 2 ^ 24))
        { index := sizeSub compressed.length (bufferTopAndBottom / 2 ^ 24 % 256)
          out := decompressed.length
          decompressed := copied }

/-! ## No access leaves the buffers -/

/-- Both positions are inside. -/
structure Inside (compressed : List UInt8) (size : Nat) (s : State) : Prop where
  index : s.index ≤ compressed.length
  out : s.out ≤ size
  length : s.decompressed.length = size

/-- A step that makes no access outside, and if the function does not return false in it, both
positions are inside behind it. -/
def Stays (compressed : List UInt8) (size : Nat) (r : Option (Option State)) : Prop :=
  ∃ r', r = some r' ∧ ∀ s ∈ r', Inside compressed size s

theorem copySegment_inside {segmentOffset count out : Nat} {decompressed : List UInt8}
    (hcount : count ≤ out) (hout : out ≤ decompressed.length)
    (hsize : decompressed.length < sizeRange) :
    ∃ r, copySegment segmentOffset count out decompressed = some r ∧
      ∀ p ∈ r, p.1 ≤ out ∧ p.2.length = decompressed.length := by
  induction count generalizing out decompressed with
  | zero =>
    refine ⟨_, rfl, fun p hp => ?_⟩
    cases hp
    exact ⟨Nat.le_refl _, rfl⟩
  | succ count ih =>
    rw [copySegment]
    by_cases hoffset : decompressed.length ≤ out + segmentOffset
    · rw [if_pos hoffset]
      exact ⟨none, rfl, fun p hp => by cases hp⟩
    · have hget : decompressed[out + segmentOffset]? = some decompressed[out + segmentOffset] :=
        List.getElem?_eq_getElem (by omega)
      have hdec : sizeSub out 1 = out - 1 := sizeSub_eq (by omega) (by omega)
      rw [if_neg hoffset, hget, Option.bind_some, hdec, checkedSet_eq _ (by omega),
        Option.bind_some]
      have hcount' : count ≤ out - 1 := by omega
      have hset : (decompressed.set (out - 1) decompressed[out + segmentOffset]).length =
          decompressed.length := List.length_set
      obtain ⟨r, hr, hinside⟩ := ih hcount' (by rw [hset]; omega) (by rwa [hset])
      refine ⟨r, hr, fun p hp => ?_⟩
      obtain ⟨hle, hlength⟩ := hinside p hp
      exact ⟨by omega, hlength.trans hset⟩

section Steps

variable {compressed : List UInt8} {size : Nat} {s : State}

theorem segment_inside (h : Inside compressed size s) (hsize : size < sizeRange) :
    Stays compressed size (segment compressed s) := by
  have hindex := h.index
  unfold segment
  by_cases htwo : s.index < 2
  · rw [if_pos htwo]
    exact ⟨none, rfl, fun s hs => by cases hs⟩
  · have hlow : compressed[s.index - 2]? = some compressed[s.index - 2] :=
      List.getElem?_eq_getElem (by omega)
    have hhigh : compressed[s.index - 2 + 1]? = some compressed[s.index - 2 + 1] :=
      List.getElem?_eq_getElem (by omega)
    rw [if_neg htwo]
    simp only [hlow, hhigh, Option.bind_some]
    split
    · exact ⟨none, rfl, fun s hs => by cases hs⟩
    · rename_i hcount
      obtain ⟨r, hr, hinside⟩ := copySegment_inside (Nat.le_of_not_lt hcount)
        (h.out.trans_eq h.length.symm) (h.length ▸ hsize)
      rw [hr]
      refine ⟨_, rfl, fun s' hs' => ?_⟩
      obtain ⟨p, hp, rfl⟩ := Option.map_eq_some_iff.1 hs'
      obtain ⟨hle, hlength⟩ := hinside p hp
      exact ⟨(Nat.sub_le _ _).trans h.index, hle.trans h.out, hlength.trans h.length⟩

theorem literal_inside (h : Inside compressed size s) (hpos : s.index ≠ 0) :
    Stays compressed size (literal compressed s) := by
  have hindex := h.index
  have hout := h.out
  unfold literal
  by_cases hone : s.out < 1
  · rw [if_pos hone]
    exact ⟨none, rfl, fun s hs => by cases hs⟩
  · have hget : compressed[s.index - 1]? = some compressed[s.index - 1] :=
      List.getElem?_eq_getElem (by omega)
    rw [if_neg hone, hget, Option.bind_some, checkedSet_eq _ (by rw [h.length]; omega)]
    refine ⟨_, rfl, fun s' hs' => ?_⟩
    cases hs'
    exact ⟨(Nat.sub_le _ _).trans h.index, (Nat.sub_le _ _).trans h.out,
      List.length_set.trans h.length⟩

theorem controlBits_inside (stopIndex bits : Nat) (control : UInt8)
    (h : Inside compressed size s) (hsize : size < sizeRange) :
    Stays compressed size (controlBits compressed stopIndex bits control s) := by
  induction bits generalizing control s with
  | zero => exact ⟨_, rfl, fun s' hs' => by cases hs'; exact h⟩
  | succ bits ih =>
    rw [controlBits]
    split
    · exact ⟨_, rfl, fun s' hs' => by cases hs'; exact h⟩
    · split
      · exact ⟨_, rfl, fun s' hs' => by cases hs'; exact h⟩
      · rename_i hpos
        split
        · exact ⟨_, rfl, fun s' hs' => by cases hs'; exact h⟩
        · have hstep : Stays compressed size
              (if control &&& 0x80 ≠ 0 then segment compressed s else literal compressed s) := by
            split
            · exact segment_inside h hsize
            · exact literal_inside h hpos
          obtain ⟨r, hr, hinside⟩ := hstep
          rw [hr, Option.bind_some]
          cases r with
          | none => exact ⟨none, rfl, fun s hs => by cases hs⟩
          | some s' => exact ih _ (hinside s' rfl)

/-- From an index inside the section no access leaves a buffer. -/
theorem decompressLoop_isSome {stopIndex : Nat} (h : Inside compressed size s)
    (hsize : size < sizeRange) : (decompressLoop compressed stopIndex s).isSome := by
  induction hleft : s.index using Nat.strong_induction_on generalizing s with
  | _ left ih =>
    have hindex := h.index
    rw [decompressLoop]
    by_cases hlt : stopIndex < s.index
    · have hget : compressed[s.index - 1]? = some compressed[s.index - 1] :=
        List.getElem?_eq_getElem (by omega)
      have hnext : Inside compressed size { s with index := s.index - 1 } :=
        ⟨(Nat.sub_le _ _).trans h.index, h.out, h.length⟩
      rw [if_pos hlt, hget]
      obtain ⟨r, hr, hinside⟩ :=
        controlBits_inside stopIndex 8 compressed[s.index - 1] hnext hsize
      simp only
      split
      · rename_i hnone
        rw [hr] at hnone
        cases hnone
      · rfl
      · rename_i s' hsome
        have hle : s'.index ≤ s.index - 1 := controlBits_index hsome
        rw [hr] at hsome
        cases hsome
        exact ih _ (by omega) (hinside s' rfl) rfl
    · rw [if_neg hlt]
      rfl

end Steps

/-! ## The whole function -/

/-- The number in front of the last four bytes. -/
def topAndBottom (compressed : List UInt8) : Nat :=
  leValue (slice compressed (compressed.length - 8) 4)

/-- How far from the end the compressed bytes end. -/
def top (compressed : List UInt8) : Nat := topAndBottom compressed / 2 ^ 24 % 256

/-- How far from the end the compressed bytes start. -/
def bottom (compressed : List UInt8) : Nat := topAndBottom compressed % 2 ^ 24

theorem getDecompressedSize_eq {compressed : List UInt8} {size : Nat}
    (height : 8 ≤ compressed.length) (hlength : compressed.length < 2 ^ 63)
    (h : getDecompressedSize compressed = some size) :
    compressed.length ≤ size ∧ size < sizeRange := by
  have hindex : sizeSub compressed.length 4 = compressed.length - 4 :=
    sizeSub_eq (by omega) (hlength.trans (by decide))
  have hinside : compressed.length - 4 + 4 ≤ compressed.length := by omega
  have hvalue : leValue (slice compressed (compressed.length - 4) 4) < 2 ^ 32 := by
    have hlt := leValue_lt (slice compressed (compressed.length - 4) 4)
    rwa [length_slice hinside] at hlt
  rw [getDecompressedSize, hindex, checkedSlice_eq hinside, Option.map_some, Option.some.injEq] at h
  unfold sizeRange at *
  omega

/-- With an output of the size that `LZSS_GetDecompressedSize` says, no access leaves a buffer
exactly if the compressed bytes do not end before the section, or nothing is read because they do
not start behind their end. -/
theorem decompress_inside {compressed decompressed : List UInt8} (height : 8 ≤ compressed.length)
    (hlength : compressed.length < 2 ^ 63)
    (hsize : getDecompressedSize compressed = some decompressed.length) :
    (decompress compressed decompressed).isSome ↔
      (compressed.length < top compressed →
        compressed.length < bottom compressed ∧ bottom compressed ≤ top compressed) := by
  obtain ⟨hroom, hrange⟩ := getDecompressedSize_eq height hlength hsize
  have htop : top compressed < 256 := Nat.mod_lt _ (by decide)
  have hbottom : bottom compressed < 2 ^ 24 := Nat.mod_lt _ (by decide)
  have hindex : sizeSub compressed.length 8 = compressed.length - 8 :=
    sizeSub_eq height (hlength.trans (by decide))
  have hcopy : 0 + compressed.length ≤ (List.replicate decompressed.length (0 : UInt8)).length := by
    rw [List.length_replicate]
    omega
  unfold decompress
  rw [hindex, checkedSlice_eq (by omega), Option.bind_some]
  simp only
  rw [checkedCopy_eq hcopy, Option.bind_some]
  change (decompressLoop compressed (sizeSub compressed.length (bottom compressed))
    ⟨sizeSub compressed.length (top compressed), _, _⟩).isSome ↔ _
  by_cases hinside : top compressed ≤ compressed.length
  · have hstart : sizeSub compressed.length (top compressed) =
        compressed.length - top compressed := sizeSub_eq hinside (hlength.trans (by decide))
    refine iff_of_true (decompressLoop_isSome ⟨?_, Nat.le_refl _, ?_⟩ hrange) fun h => by omega
    · exact hstart.trans_le (Nat.sub_le _ _)
    · exact (length_memcpy hcopy).trans List.length_replicate
  · have hstart : sizeSub compressed.length (top compressed) =
        compressed.length + sizeRange - top compressed := by
      unfold sizeSub sizeRange
      omega
    rw [decompressLoop, hstart]
    by_cases hrun : sizeSub compressed.length (bottom compressed) <
        compressed.length + sizeRange - top compressed
    · have hnone : compressed[compressed.length + sizeRange - top compressed - 1]? = none :=
        List.getElem?_eq_none (by unfold sizeRange; omega)
      rw [if_pos hrun]
      simp only [hnone]
      refine iff_of_false (by simp) fun h => ?_
      obtain ⟨hbefore, hle⟩ := h (by omega)
      unfold sizeSub sizeRange at hrun
      omega
    · rw [if_neg hrun]
      refine iff_of_true rfl fun _ => ?_
      unfold sizeSub sizeRange at hrun
      omega

/-- A section of 15 bytes with a segment of 18 bytes between three bytes and one. -/
theorem decompress_inside_segment :
    (decompress [1, 0, 0xF0, 2, 3, 4, 0x10, 15, 0, 0, 8, 7, 0, 0, 0] (List.replicate 22 0)).isSome :=
  (decompress_inside (by decide) (by decide) (by decide)).2 fun h => absurd h (by decide)

/-- A section of 8 bytes whose footer says that the compressed bytes end 9 bytes from its end: the
first control byte is read before the section. -/
theorem decompress_outside :
    getDecompressedSize [0, 0, 0, 9, 0, 0, 0, 0] = some 8 ∧
      decompress [0, 0, 0, 9, 0, 0, 0, 0] [0, 0, 0, 0, 0, 0, 0, 0] = none := by
  refine ⟨by decide, ?_⟩
  have hloop (s : State) (hindex : s.index = 2 ^ 64 - 1) :
      decompressLoop [0, 0, 0, 9, 0, 0, 0, 0] 8 s = none := by
    rw [decompressLoop, hindex]
    rfl
  exact hloop _ rfl

end AzaharPlus.FileSys.Lzss
