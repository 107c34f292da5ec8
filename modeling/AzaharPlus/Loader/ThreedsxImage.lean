import AzaharPlus.Loader.Threedsx

/-!
# Accesses of the homebrew loader

The loader checks that no size overflows when it is rounded up, but it adds the three sizes in 32
bits and never compares the BSS with the data it is a part of.

* `readSegments_ending` — how reading the segments ends;
* `relocSegments_settled` — relocating stays in an image that holds the segments, and ends;
* `stays_in_image_iff` — exactly when the loader stays in its image.
-/

namespace AzaharPlus.Loader.Threedsx

open Bytes BlockMemory

/-! ## Reading and clearing -/

theorem bind_ok {ε α β : Type} {x : Except ε α} {a : α} (h : x = .ok a) (f : α → Except ε β) :
    (x >>= f) = f a := by
  rw [h]
  rfl

theorem bind_error {ε α β : Type} {x : Except ε α} {e : ε} (h : x = .error e)
    (f : α → Except ε β) : (x >>= f) = .error e := by
  rw [h]
  rfl

/-- How a read into the image ends. -/
theorem readInto_cases (file : List UInt8) (image : Image) (pos start n : Nat) :
    (0 < min n (file.length - pos) ∧ image.size < start + min n (file.length - pos) ∧
      readInto file image pos start n = .error .outside) ∨
    ((min n (file.length - pos) = 0 ∨ start + min n (file.length - pos) ≤ image.size) ∧
      min n (file.length - pos) < n ∧
      readInto file image pos start n = .error (.error .read)) ∨
    ((n = 0 ∨ start + n ≤ image.size) ∧ n ≤ file.length - pos ∧
      ∃ image', readInto file image pos start n = .ok image' ∧ image'.size = image.size) := by
  have hlen : (slice file pos n).length = min n (file.length - pos) := by simp [slice]
  have hempty : slice file pos n ≠ [] ↔ 0 < min n (file.length - pos) := by
    rw [← hlen, List.length_pos_iff]
  by_cases hout : slice file pos n ≠ [] ∧ image.size < start + (slice file pos n).length
  · rw [readInto, if_pos hout]
    rw [hempty, hlen] at hout
    exact Or.inl ⟨hout.1, hout.2, rfl⟩
  · rw [readInto, if_neg hout]
    rw [hempty, hlen] at hout
    by_cases hshort : (slice file pos n).length ≠ n
    · rw [if_pos hshort]
      rw [hlen] at hshort
      exact Or.inr (Or.inl ⟨by omega, by omega, rfl⟩)
    · rw [if_neg hshort]
      rw [hlen] at hshort
      exact Or.inr (Or.inr ⟨by omega, by omega, _, rfl, rfl⟩)

/-- Where the byte `k` behind the relocation headers is read to. -/
def Header.landing (hdr : Header) (k : Nat) : Nat :=
  if k < hdr.codeSegSize then k
  else if k < hdr.codeSegSize + hdr.rodataSegSize then hdr.segPtr 1 + (k - hdr.codeSegSize)
  else hdr.segPtr 2 + (k - hdr.codeSegSize - hdr.rodataSegSize)

/-- The three sizes add up without overflow, and the BSS is a part of the data. -/
def Header.Fits (hdr : Header) : Prop :=
  hdr.segSize 0 + hdr.segSize 1 + hdr.segSize 2 < 2 ^ 32 ∧ hdr.bssSize ≤ hdr.dataSegSize

/-- The file ends within the segments, and every byte it has there lands in the image. -/
def Header.EndsInside (hdr : Header) (file : List UInt8) : Prop :=
  file.length - hdr.codeStart < hdr.codeSegSize + hdr.rodataSegSize + hdr.loadedData ∧
    ∀ k < file.length - hdr.codeStart, hdr.landing k < hdr.imageSize

theorem landing_inside_iff (hdr : Header) (avail : Nat) :
    (∀ k < avail, hdr.landing k < hdr.imageSize) ↔
      (min hdr.codeSegSize avail = 0 ∨ min hdr.codeSegSize avail ≤ hdr.imageSize) ∧
      (min hdr.rodataSegSize (avail - hdr.codeSegSize) = 0 ∨
        hdr.segPtr 1 + min hdr.rodataSegSize (avail - hdr.codeSegSize) ≤ hdr.imageSize) ∧
      (avail - hdr.codeSegSize - hdr.rodataSegSize = 0 ∨
        hdr.segPtr 2 + (avail - hdr.codeSegSize - hdr.rodataSegSize) ≤ hdr.imageSize) := by
  constructor
  · intro h
    refine ⟨?_, ?_, ?_⟩
    · by_contra hcon
      have := h (min hdr.codeSegSize avail - 1) (by omega)
      rw [Header.landing, if_pos (by omega)] at this
      omega
    · by_contra hcon
      have := h (hdr.codeSegSize + min hdr.rodataSegSize (avail - hdr.codeSegSize) - 1) (by omega)
      rw [Header.landing, if_neg (by omega), if_pos (by omega)] at this
      omega
    · by_contra hcon
      have := h (avail - 1) (by omega)
      rw [Header.landing, if_neg (by omega), if_neg (by omega)] at this
      omega
  · rintro ⟨hcode, hrodata, hdata⟩ k hk
    unfold Header.landing
    split
    · omega
    · split
      · omega
      · omega

/-- Sizes of rounded segments. -/
theorem segSize_bounds (hdr : Header) :
    (hdr.segSize 0 ≤ hdr.codeSegSize + 0xFFF ∧ hdr.segSize 1 ≤ hdr.rodataSegSize + 0xFFF ∧
      hdr.segSize 2 ≤ hdr.dataSegSize + 0xFFF) ∧
    hdr.segSize 0 < 2 ^ 32 ∧ hdr.segSize 1 < 2 ^ 32 ∧ hdr.segSize 2 < 2 ^ 32 :=
  ⟨⟨roundUp_le, roundUp_le, roundUp_le⟩, roundUp_lt _, roundUp_lt _, roundUp_lt _⟩

/-- How clearing the BSS ends. -/
theorem clearBss_cases (hdr : Header) (image : Image) :
    (hdr.bssSize ≠ 0 ∧ (hdr.segPtr 2 + hdr.dataSegSize < hdr.bssSize ∨
        image.size < hdr.segPtr 2 + hdr.dataSegSize) ∧
      clearBss hdr image = .error .outside) ∨
    ((hdr.bssSize = 0 ∨ (hdr.bssSize ≤ hdr.segPtr 2 + hdr.dataSegSize ∧
        hdr.segPtr 2 + hdr.dataSegSize ≤ image.size)) ∧
      ∃ image', clearBss hdr image = .ok image' ∧ image'.size = image.size) := by
  by_cases hout : hdr.bssSize ≠ 0 ∧ (hdr.segPtr 2 + hdr.dataSegSize < hdr.bssSize ∨
      image.size < hdr.segPtr 2 + hdr.dataSegSize)
  · rw [clearBss, if_pos hout]
    exact Or.inl ⟨hout.1, hout.2, rfl⟩
  · rw [clearBss, if_neg hout]
    exact Or.inr ⟨by omega, _, rfl, rfl⟩

/-- The fields of a header that is read are 32-bit numbers. -/
theorem readHeader_lt {file : List UInt8} {hdr : Header} (h : readHeader file = some hdr) :
    hdr.codeSegSize < 2 ^ 32 ∧ hdr.rodataSegSize < 2 ^ 32 ∧ hdr.dataSegSize < 2 ^ 32 ∧
      hdr.bssSize < 2 ^ 32 := by
  unfold readHeader at h
  split at h
  · cases h
  · rw [Option.some.injEq] at h
    subst h
    exact ⟨field_lt file 16, field_lt file 20, field_lt file 24, field_lt file 28⟩

/-! ## The segments -/

/-- **If everything is read and cleared in the image, its size did not overflow and the BSS is a
part of the data.** -/
theorem fits_of_inside {hdr : Header} (hdata : hdr.dataSegSize < 2 ^ 32) (hbss : hdr.bssSize < 2 ^ 32)
    (hrodata : hdr.rodataSegSize = 0 ∨ hdr.segPtr 1 + hdr.rodataSegSize ≤ hdr.imageSize)
    (hloaded : hdr.loadedData = 0 ∨ hdr.segPtr 2 + hdr.loadedData ≤ hdr.imageSize)
    (hclear : hdr.bssSize = 0 ∨ (hdr.bssSize ≤ hdr.segPtr 2 + hdr.dataSegSize ∧
      hdr.segPtr 2 + hdr.dataSegSize ≤ hdr.imageSize)) : hdr.Fits := by
  obtain ⟨⟨h₀, h₁, h₂⟩, h₀', h₁', h₂'⟩ := segSize_bounds hdr
  have hmod₀ := segSize_mod hdr 0
  have hmod₁ := segSize_mod hdr 1
  have hmod₂ := segSize_mod hdr 2
  have hptr₁ : hdr.segPtr 1 = hdr.segSize 0 := rfl
  have hptr₂ : hdr.segPtr 2 = hdr.segSize 0 + hdr.segSize 1 := rfl
  have himage : hdr.imageSize = (hdr.segSize 0 + hdr.segSize 1 + hdr.segSize 2) % 2 ^ 32 := rfl
  have hload : hdr.loadedData = (hdr.dataSegSize + 2 ^ 32 - hdr.bssSize) % 2 ^ 32 := rfl
  rw [hptr₁] at hrodata
  rw [hptr₂] at hloaded hclear
  unfold Header.Fits
  by_cases hpart : hdr.bssSize ≤ hdr.dataSegSize
  · have hload' : hdr.loadedData = hdr.dataSegSize - hdr.bssSize := by
      rw [hload]
      omega
    refine ⟨?_, hpart⟩
    by_cases hzero : hdr.dataSegSize = 0
    · have hnodata : hdr.segSize 2 = 0 := by omega
      rcases hrodata with hnone | hin
      · have hnorodata : hdr.segSize 1 = 0 := by omega
        omega
      · omega
    · have hend : hdr.segSize 0 + hdr.segSize 1 + hdr.dataSegSize ≤ hdr.imageSize := by
        rcases hclear with hnone | hin
        · omega
        · exact hin.2
      omega
  · have hload' : hdr.loadedData = hdr.dataSegSize + 2 ^ 32 - hdr.bssSize := by
      rw [hload]
      exact Nat.mod_eq_of_lt (by omega)
    omega

/-- Sizes that fit. -/
theorem Header.Fits.inside {hdr : Header} (h : hdr.Fits) (hrounds : hdr.Rounds) :
    hdr.imageSize = hdr.segSize 0 + hdr.segSize 1 + hdr.segSize 2 ∧
      hdr.loadedData = hdr.dataSegSize - hdr.bssSize := by
  obtain ⟨hsum, hbss⟩ := h
  obtain ⟨-, -, hdata⟩ := hrounds
  have himage : hdr.imageSize = (hdr.segSize 0 + hdr.segSize 1 + hdr.segSize 2) % 2 ^ 32 := rfl
  have hload : hdr.loadedData = (hdr.dataSegSize + 2 ^ 32 - hdr.bssSize) % 2 ^ 32 := rfl
  obtain ⟨-, -, -, h₂⟩ := segSize_bounds hdr
  exact ⟨by omega, by omega⟩

/-- The bytes that the file has behind the relocation headers land in the image: those of the code,
of the constants, and of the data. -/
structure Landed (hdr : Header) (avail : Nat) : Prop where
  code : min hdr.codeSegSize avail = 0 ∨ min hdr.codeSegSize avail ≤ hdr.imageSize
  rodata : min hdr.rodataSegSize (avail - hdr.codeSegSize) = 0 ∨
    hdr.segPtr 1 + min hdr.rodataSegSize (avail - hdr.codeSegSize) ≤ hdr.imageSize
  data : avail - hdr.codeSegSize - hdr.rodataSegSize = 0 ∨
    hdr.segPtr 2 + (avail - hdr.codeSegSize - hdr.rodataSegSize) ≤ hdr.imageSize

theorem endsInside_iff {hdr : Header} {file : List UInt8} :
    hdr.EndsInside file ↔
      file.length - hdr.codeStart < hdr.codeSegSize + hdr.rodataSegSize + hdr.loadedData ∧
        Landed hdr (file.length - hdr.codeStart) := by
  refine and_congr_right fun _ => (landing_inside_iff hdr _).trans ⟨fun h => ⟨h.1, h.2.1, h.2.2⟩,
    fun h => ⟨h.code, h.rodata, h.data⟩⟩

/-- Sizes that fit leave room for every part. -/
theorem Header.Fits.room {hdr : Header} (h : hdr.Fits) (hrounds : hdr.Rounds) :
    hdr.codeSegSize ≤ hdr.imageSize ∧ hdr.segPtr 1 + hdr.rodataSegSize ≤ hdr.imageSize ∧
      hdr.segPtr 2 + hdr.dataSegSize ≤ hdr.imageSize ∧ hdr.loadedData ≤ hdr.dataSegSize ∧
      hdr.bssSize ≤ hdr.segPtr 2 + hdr.dataSegSize := by
  obtain ⟨himage, hload⟩ := h.inside hrounds
  obtain ⟨hcode, hrodata, hdata⟩ := hrounds
  obtain ⟨-, hbss⟩ := h
  have hptr₁ : hdr.segPtr 1 = hdr.segSize 0 := rfl
  have hptr₂ : hdr.segPtr 2 = hdr.segSize 0 + hdr.segSize 1 := rfl
  omega

/-- How reading the segments ends. -/
inductive Ending (file : List UInt8) (hdr : Header) : Except Stop Image → Prop
  | loaded (image : Image) (fits : hdr.Fits) (size : image.size = hdr.imageSize) :
      Ending file hdr (.ok image)
  | short (ends : hdr.EndsInside file) : Ending file hdr (.error (.error .read))
  | outside (fits : ¬ hdr.Fits) (ends : ¬ hdr.EndsInside file) : Ending file hdr (.error .outside)

theorem code_cases {file : List UInt8} {hdr : Header} (hrounds : hdr.Rounds) {avail : Nat}
    (havail : avail = file.length - hdr.codeStart) :
    (0 < min hdr.codeSegSize avail → hdr.imageSize < min hdr.codeSegSize avail →
      Ending file hdr (.error .outside)) ∧
    ((min hdr.codeSegSize avail = 0 ∨ min hdr.codeSegSize avail ≤ hdr.imageSize) →
      min hdr.codeSegSize avail < hdr.codeSegSize → Ending file hdr (.error (.error .read))) := by
  refine ⟨fun hpos hout => .outside (fun h => ?_) fun h => ?_, fun hin hshort => .short ?_⟩
  · have := (h.room hrounds).1
    omega
  · have := (endsInside_iff.1 h).2.code
    rw [← havail] at this
    omega
  · rw [endsInside_iff, ← havail]
    exact ⟨by omega, hin, Or.inl (by omega), Or.inl (by omega)⟩

theorem rodata_cases {file : List UInt8} {hdr : Header} (hrounds : hdr.Rounds) {avail : Nat}
    (havail : avail = file.length - hdr.codeStart) (hfull : hdr.codeSegSize ≤ avail)
    (hcode : hdr.codeSegSize = 0 ∨ hdr.codeSegSize ≤ hdr.imageSize) :
    (0 < min hdr.rodataSegSize (avail - hdr.codeSegSize) →
      hdr.imageSize < hdr.segPtr 1 + min hdr.rodataSegSize (avail - hdr.codeSegSize) →
      Ending file hdr (.error .outside)) ∧
    ((min hdr.rodataSegSize (avail - hdr.codeSegSize) = 0 ∨
        hdr.segPtr 1 + min hdr.rodataSegSize (avail - hdr.codeSegSize) ≤ hdr.imageSize) →
      min hdr.rodataSegSize (avail - hdr.codeSegSize) < hdr.rodataSegSize →
      Ending file hdr (.error (.error .read))) := by
  refine ⟨fun hpos hout => .outside (fun h => ?_) fun h => ?_, fun hin hshort => .short ?_⟩
  · have := (h.room hrounds).2.1
    omega
  · have := (endsInside_iff.1 h).2.rodata
    rw [← havail] at this
    omega
  · rw [endsInside_iff, ← havail]
    exact ⟨by omega, by rwa [Nat.min_eq_left hfull], hin, Or.inl (by omega)⟩

theorem data_cases {file : List UInt8} {hdr : Header} (hrounds : hdr.Rounds) {avail : Nat}
    (havail : avail = file.length - hdr.codeStart) (hfull : hdr.codeSegSize ≤ avail)
    (hfull₁ : hdr.rodataSegSize ≤ avail - hdr.codeSegSize)
    (hcode : hdr.codeSegSize = 0 ∨ hdr.codeSegSize ≤ hdr.imageSize)
    (hrodata : hdr.rodataSegSize = 0 ∨ hdr.segPtr 1 + hdr.rodataSegSize ≤ hdr.imageSize) :
    (0 < min hdr.loadedData (avail - hdr.codeSegSize - hdr.rodataSegSize) →
      hdr.imageSize <
        hdr.segPtr 2 + min hdr.loadedData (avail - hdr.codeSegSize - hdr.rodataSegSize) →
      Ending file hdr (.error .outside)) ∧
    ((min hdr.loadedData (avail - hdr.codeSegSize - hdr.rodataSegSize) = 0 ∨
        hdr.segPtr 2 + min hdr.loadedData (avail - hdr.codeSegSize - hdr.rodataSegSize) ≤
          hdr.imageSize) →
      min hdr.loadedData (avail - hdr.codeSegSize - hdr.rodataSegSize) < hdr.loadedData →
      Ending file hdr (.error (.error .read))) := by
  refine ⟨fun hpos hout => .outside (fun h => ?_) fun h => ?_, fun hin hshort => .short ?_⟩
  · obtain ⟨-, -, hend, hload, -⟩ := h.room hrounds
    omega
  · have := (endsInside_iff.1 h).2.data
    rw [← havail] at this
    omega
  · rw [endsInside_iff, ← havail]
    have hmin : min hdr.loadedData (avail - hdr.codeSegSize - hdr.rodataSegSize) =
        avail - hdr.codeSegSize - hdr.rodataSegSize := by omega
    rw [hmin] at hin
    exact ⟨by omega, by rwa [Nat.min_eq_left hfull], by rwa [Nat.min_eq_left hfull₁], hin⟩

theorem parts_le {avail code rodata data : Nat} (hcode : code ≤ avail)
    (hrodata : rodata ≤ avail - code) (hdata : data ≤ avail - code - rodata) :
    ¬ avail < code + rodata + data := by
  omega

/-- **How reading the segments ends**: with everything in an image that is large enough, with an
error where the file ends, or with an access outside the image. -/
theorem readSegments_ending {file : List UInt8} {hdr : Header} (hh : readHeader file = some hdr)
    (hrounds : hdr.Rounds) : Ending file hdr (readSegments file hdr) := by
  obtain ⟨-, -, hdata, hbss⟩ := readHeader_lt hh
  have hstart₁ : file.length - hdr.rodataStart =
      file.length - hdr.codeStart - hdr.codeSegSize := Nat.sub_add_eq _ _ _
  have hstart₂ : file.length - hdr.dataStart =
      file.length - hdr.codeStart - hdr.codeSegSize - hdr.rodataSegSize := by
    rw [← hstart₁]
    exact Nat.sub_add_eq _ _ _
  have hptr₀ : hdr.segPtr 0 = 0 := rfl
  unfold readSegments
  rcases readInto_cases file ⟨hdr.imageSize, fun _ => 0⟩ hdr.codeStart (hdr.segPtr 0)
      hdr.codeSegSize with ⟨hpos, hout, heq⟩ | ⟨hin, hshort, heq⟩ | ⟨hin, hfull, image, heq, hsize⟩
  · rw [hptr₀, Nat.zero_add] at hout
    rw [bind_error heq]
    exact (code_cases hrounds rfl).1 hpos hout
  · rw [hptr₀, Nat.zero_add] at hin
    rw [bind_error heq]
    exact (code_cases hrounds rfl).2 hin hshort
  · rw [hptr₀, Nat.zero_add] at hin
    rw [bind_ok heq]
    replace hsize : image.size = hdr.imageSize := hsize
    have hrodata := rodata_cases hrounds rfl hfull hin
    rw [← hstart₁, ← hsize] at hrodata
    rcases readInto_cases file image hdr.rodataStart (hdr.segPtr 1) hdr.rodataSegSize with
      ⟨hpos₁, hout₁, heq₁⟩ | ⟨hin₁, hshort₁, heq₁⟩ | ⟨hin₁, hfull₁, image₁, heq₁, hsize₁⟩
    · rw [bind_error heq₁]
      exact hrodata.1 hpos₁ hout₁
    · rw [bind_error heq₁]
      exact hrodata.2 hin₁ hshort₁
    · rw [bind_ok heq₁]
      rw [hstart₁] at hfull₁
      rw [hsize] at hin₁
      have hloaded := data_cases hrounds rfl hfull hfull₁ hin hin₁
      rw [← hstart₂, ← hsize, ← hsize₁] at hloaded
      rcases readInto_cases file image₁ hdr.dataStart (hdr.segPtr 2) hdr.loadedData with
        ⟨hpos₂, hout₂, heq₂⟩ | ⟨hin₂, hshort₂, heq₂⟩ | ⟨hin₂, hfull₂, image₂, heq₂, hsize₂⟩
      · rw [bind_error heq₂]
        exact hloaded.1 hpos₂ hout₂
      · rw [bind_error heq₂]
        exact hloaded.2 hin₂ hshort₂
      · rw [bind_ok heq₂]
        have hsizes : image₂.size = hdr.imageSize := hsize₂.trans (hsize₁.trans hsize)
        rw [hsize₁.trans hsize] at hin₂
        rcases clearBss_cases hdr image₂ with ⟨hne, hout₃, heq₃⟩ | ⟨hin₃, image₃, heq₃, hsize₃⟩
        · rw [heq₃]
          rw [hsizes] at hout₃
          refine .outside (fun h => ?_) fun h => ?_
          · obtain ⟨-, -, hend, -, hbssLe⟩ := h.room hrounds
            exact hout₃.elim (Nat.not_lt.2 hbssLe) (Nat.not_lt.2 hend)
          · rw [hstart₂] at hfull₂
            exact parts_le hfull hfull₁ hfull₂ (endsInside_iff.1 h).1
        · rw [heq₃]
          rw [hsizes] at hin₃
          exact .loaded _ (fits_of_inside hdata hbss hin₁ hin₂ hin₃) (hsize₃.trans hsizes)

/-! ## The relocations -/

/-- Either an error of the loader's own, or a result of the given kind: no access outside the image,
and no loop that runs on. -/
def Settled {α : Type} (P : α → Prop) (r : Except Stop α) : Prop :=
  (∃ e, r = .error (.error e)) ∨ ∃ a, r = .ok a ∧ P a

section Relocate

variable {hdr : Header} {baseAddr : Nat}

/-- A run that starts at a word stays in the segment and stops at a word. -/
theorem patchRun_settled {table endPos n pos : Nat} {image : Image} (hend : endPos ≤ image.size)
    (hendWord : endPos % 4 = 0) (hpos : pos % 4 = 0) :
    Settled (fun r => r.1 % 4 = 0 ∧ r.2.size = image.size)
      (patchRun hdr baseAddr table endPos n pos image) := by
  induction n generalizing pos image with
  | zero => exact Or.inr ⟨_, rfl, hpos, rfl⟩
  | succ n ih =>
    rw [patchRun]
    by_cases hstop : endPos ≤ pos
    · rw [if_pos hstop]
      exact Or.inr ⟨_, rfl, hpos, rfl⟩
    · rw [if_neg hstop, if_neg (by omega)]
      cases patchWord hdr baseAddr table ((baseAddr + pos) % 2 ^ 32) (image.word pos) with
      | none => exact Or.inl ⟨_, rfl⟩
      | some w =>
        have hrest : Settled _ (patchRun hdr baseAddr table endPos n (pos + 4)
          (image.setWord pos w)) := ih hend (by omega)
        exact hrest

theorem patchRuns_settled {table endPos : Nat} {runs : List (Nat × Nat)} {pos : Nat} {image : Image}
    (hend : endPos ≤ image.size) (hendWord : endPos % 4 = 0) (hpos : pos % 4 = 0) :
    Settled (fun r => r.1 % 4 = 0 ∧ r.2.size = image.size)
      (patchRuns hdr baseAddr table endPos runs pos image) := by
  induction runs generalizing pos image with
  | nil => exact Or.inr ⟨_, rfl, hpos, rfl⟩
  | cons run runs ih =>
    obtain ⟨skip, patch⟩ := run
    rw [patchRuns]
    by_cases hstop : endPos ≤ pos
    · rw [if_pos hstop]
      exact Or.inr ⟨_, rfl, hpos, rfl⟩
    · rw [if_neg hstop]
      have hstart : (pos + 4 * skip) % 4 = 0 := by omega
      have hrun : Settled _ (patchRun hdr baseAddr table endPos patch (pos + 4 * skip) image) :=
        patchRun_settled hend hendWord hstart
      rcases hrun with ⟨e, heq⟩ | ⟨⟨pos', image'⟩, heq, hpos', hsize⟩
      · rw [heq]
        exact Or.inl ⟨e, rfl⟩
      · rw [heq]
        have hrest : Settled _ (patchRuns hdr baseAddr table endPos runs pos' image') :=
          ih (hend.trans_eq hsize.symm) hpos'
        rw [hsize] at hrest
        exact hrest

/-- The loop over the buffers ends: every turn takes at least one relocation. -/
theorem relocTable_settled {file : List UInt8} {table endPos turns nRelocs filePos pos : Nat}
    {image : Image} (hturns : nRelocs ≤ turns) (hend : endPos ≤ image.size)
    (hendWord : endPos % 4 = 0) (hpos : pos % 4 = 0) :
    Settled (fun r => r.2.size = image.size)
      (relocTable hdr baseAddr file table endPos turns nRelocs filePos pos image) := by
  induction turns generalizing nRelocs filePos pos image with
  | zero =>
    rw [relocTable, if_pos (Nat.le_zero.1 hturns)]
    exact Or.inr ⟨_, rfl, rfl⟩
  | succ turns ih =>
    rw [relocTable]
    by_cases hzero : nRelocs = 0
    · rw [if_pos hzero]
      exact Or.inr ⟨_, rfl, rfl⟩
    · rw [if_neg hzero]
      split
      · exact Or.inl ⟨_, rfl⟩
      · have hmin : 0 < min relocBufSize nRelocs :=
          Nat.lt_min.2 ⟨by decide, Nat.pos_of_ne_zero hzero⟩
        have hruns : Settled _ (patchRuns hdr baseAddr table endPos
            (relocsAt file filePos (min relocBufSize nRelocs)) pos image) :=
          patchRuns_settled hend hendWord hpos
        rcases hruns with ⟨e, heq⟩ | ⟨⟨pos', image'⟩, heq, hpos', hsize⟩
        · rw [heq]
          exact Or.inl ⟨e, rfl⟩
        · rw [heq]
          have hrest : Settled _ (relocTable hdr baseAddr file table endPos turns
              (nRelocs - min relocBufSize nRelocs) (filePos + 4 * min relocBufSize nRelocs) pos'
              image') := ih (by omega) (hend.trans_eq hsize.symm) hpos'
          rw [hsize] at hrest
          exact hrest

theorem relocTables_settled {file : List UInt8} {seg : Nat} {tables : List Nat} {filePos : Nat}
    {image : Image} (hend : hdr.segPtr seg + hdr.segSize seg ≤ image.size)
    (hptr : hdr.segPtr seg % 4 = 0) :
    Settled (fun r => r.2.size = image.size)
      (relocTables hdr baseAddr file seg tables filePos image) := by
  have hmod := segSize_mod hdr seg
  induction tables generalizing filePos image with
  | nil => exact Or.inr ⟨_, rfl, rfl⟩
  | cons table tables ih =>
    rw [relocTables]
    by_cases hskip : 2 ≤ table
    · rw [if_pos hskip]
      exact ih hend
    · rw [if_neg hskip]
      have htable : Settled _ (relocTable hdr baseAddr file table
          (hdr.segPtr seg + hdr.segSize seg)
          (hdr.relocCount file (seg * hdr.nRelocTables + table))
          (hdr.relocCount file (seg * hdr.nRelocTables + table)) filePos (hdr.segPtr seg)
          image) := relocTable_settled (Nat.le_refl _) hend (by omega) hptr
      rcases htable with ⟨e, heq⟩ | ⟨⟨filePos', image'⟩, heq, hsize⟩
      · rw [heq]
        exact Or.inl ⟨e, rfl⟩
      · rw [heq]
        have hrest : Settled _ (relocTables hdr baseAddr file seg tables filePos' image') :=
          ih (hend.trans_eq hsize.symm)
        rw [hsize] at hrest
        exact hrest

theorem segPtr_mod (hdr : Header) (seg : Nat) : hdr.segPtr seg % 4 = 0 := by
  have h₀ := segSize_mod hdr 0
  have h₁ := segSize_mod hdr 1
  rcases seg with _ | _ | seg
  · rfl
  · show hdr.segSize 0 % 4 = 0
    omega
  · show (hdr.segSize 0 + hdr.segSize 1) % 4 = 0
    omega

theorem segPtr_add_le (hdr : Header) {seg : Nat} (hseg : seg < 3) :
    hdr.segPtr seg + hdr.segSize seg ≤ hdr.segSize 0 + hdr.segSize 1 + hdr.segSize 2 := by
  have h₁ : hdr.segPtr 1 = hdr.segSize 0 := rfl
  have h₂ : hdr.segPtr 2 = hdr.segSize 0 + hdr.segSize 1 := rfl
  have h₀ : hdr.segPtr 0 = 0 := rfl
  obtain rfl | rfl | rfl : seg = 0 ∨ seg = 1 ∨ seg = 2 := by omega
  · omega
  · omega
  · omega

theorem relocSegments_settled {file : List UInt8} {segs : List Nat} {filePos : Nat} {image : Image}
    (hsegs : ∀ seg ∈ segs, seg < 3)
    (hsize : hdr.segSize 0 + hdr.segSize 1 + hdr.segSize 2 ≤ image.size) :
    Settled (fun r => r.size = image.size)
      (relocSegments hdr baseAddr file segs filePos image) := by
  induction segs generalizing filePos image with
  | nil => exact Or.inr ⟨_, rfl, rfl⟩
  | cons seg segs ih =>
    rw [relocSegments]
    have hseg := segPtr_add_le hdr (hsegs seg List.mem_cons_self)
    have htables : Settled _ (relocTables hdr baseAddr file seg (List.range hdr.nRelocTables)
        filePos image) := relocTables_settled (hseg.trans hsize) (segPtr_mod hdr seg)
    rcases htables with ⟨e, heq⟩ | ⟨⟨filePos', image'⟩, heq, hsize'⟩
    · rw [heq]
      exact Or.inl ⟨e, rfl⟩
    · rw [heq]
      have hrest : Settled _ (relocSegments hdr baseAddr file segs filePos' image') :=
        ih (fun s hs => hsegs s (List.mem_cons_of_mem _ hs)) (hsize.trans_eq hsize'.symm)
      rw [hsize'] at hrest
      exact hrest

end Relocate

/-! ## The loader -/

/-- The loader ends without an access outside the image. -/
def StaysInImage (file : List UInt8) (baseAddr : Nat) : Prop :=
  Settled (fun _ => True) (load3DSXFile file baseAddr)

/-- The loader refuses the header or the relocation headers, or the three rounded sizes add up below
`2 ^ 32` with a BSS no larger than the data, or the file ends within the segments before a byte that
would land outside. -/
def Contained (file : List UInt8) : Prop :=
  ∀ hdr ∈ readHeader file, hdr.Rounds → hdr.relocHdrsRead file = true →
    hdr.Fits ∨ hdr.EndsInside file

/-- **The loader stays in its image exactly if the file is contained.** -/
theorem stays_in_image_iff (file : List UInt8) (baseAddr : Nat) :
    StaysInImage file baseAddr ↔ Contained file := by
  unfold StaysInImage Contained load3DSXFile
  cases hh : readHeader file with
  | none => exact iff_of_true (Or.inl ⟨_, rfl⟩) nofun
  | some hdr =>
      simp only [Option.mem_some_iff, forall_eq']
      by_cases hrounds : hdr.Rounds
      · rw [if_neg (not_not.2 hrounds)]
        cases hrelocs : hdr.relocHdrsRead file with
        | false => exact iff_of_true (Or.inl ⟨_, rfl⟩) nofun
        | true =>
            simp only [hrounds, forall_true_left, Bool.true_eq_false, if_false]
            have hending := readSegments_ending hh hrounds
            generalize readSegments file hdr = r at hending
            cases hending with
            | loaded image hfits hsize =>
                refine iff_of_true ?_ (Or.inl hfits)
                rw [(hfits.inside hrounds).1] at hsize
                have hrelocated : Settled _ (relocSegments hdr baseAddr file [0, 1, 2]
                    hdr.relocStart image) := relocSegments_settled (by simp) hsize.ge
                rcases hrelocated with ⟨e, heq⟩ | ⟨image', heq, -⟩
                · exact Or.inl ⟨e, heq⟩
                · exact Or.inr ⟨image', heq, trivial⟩
            | short hends => exact iff_of_true (Or.inl ⟨_, rfl⟩) (Or.inr hends)
            | outside hfits hends =>
                refine iff_of_false ?_ (not_or.2 ⟨hfits, hends⟩)
                rintro (⟨e, heq⟩ | ⟨a, heq, -⟩)
                · cases heq
                · cases heq
      · rw [if_pos hrounds]
        exact iff_of_true (Or.inl ⟨_, rfl⟩) fun h => absurd h hrounds

/-- A header without segments, with a BSS of one byte, and one byte behind it. -/
def bssWithoutData : List UInt8 :=
  [0x33, 0x44, 0x53, 0x58, 44, 0, 0, 0] ++ List.replicate 20 0 ++ [1, 0, 0, 0] ++
    List.replicate 13 0

/-- That byte is read into an image of no bytes. -/
theorem leaves_empty_image :
    load3DSXFile bssWithoutData 0x100000 = .error .outside ∧
      ¬ ∀ file baseAddr, StaysInImage file baseAddr := by
  have hout : load3DSXFile bssWithoutData 0x100000 = .error .outside := by rfl
  refine ⟨hout, fun h => ?_⟩
  rcases h bssWithoutData 0x100000 with ⟨e, heq⟩ | ⟨a, heq, -⟩
  · rw [hout] at heq
    cases heq
  · rw [hout] at heq
    cases heq

end AzaharPlus.Loader.Threedsx
