import AzaharPlus.Lib.GappedLines
import AzaharPlus.Video.SurfaceParams

/-!
# Texture copies in software

`SwBlitter::TextureCopy` of `video_core/renderer_software/sw_blitter.cpp` copies a stream of bytes
between two layouts of lines with gaps.  What the rasterizer does to memory when a region is flushed
or invalidated is a parameter, and a memory has a byte at every physical address.

* `copyLoop_spec` — the loop ends, and has copied the stream then.
* `covers_iff` — the region that is computed beforehand covers the stream when there is nothing
  behind the last whole line.
* `textureCopy_iff` — both together.
-/

namespace AzaharPlus.Video

open Bytes BlockMemory GappedLines

/-! ## The code -/

/-- The registers of `DisplayTransferConfig` that a texture copy reads. -/
structure TextureCopyConfig where
  inputAddress : Nat
  outputAddress : Nat
  size : Nat
  inputWidth : Nat
  inputGap : Nat
  outputWidth : Nat
  outputGap : Nat
  inputAddress_lt : inputAddress < 2 ^ 32
  outputAddress_lt : outputAddress < 2 ^ 32
  size_lt : size < 2 ^ 32
  inputWidth_lt : inputWidth < 2 ^ 16
  inputGap_lt : inputGap < 2 ^ 16
  outputWidth_lt : outputWidth < 2 ^ 16
  outputGap_lt : outputGap < 2 ^ 16

/-- `DecodeAddressRegister` -/
def decodeAddressRegister (registerValue : Nat) : Nat := u32 (registerValue * 8)

namespace TextureCopyConfig

variable (config : TextureCopyConfig)

/-- `GetPhysicalInputAddress` -/
def getPhysicalInputAddress : Nat := decodeAddressRegister config.inputAddress

/-- `GetPhysicalOutputAddress` -/
def getPhysicalOutputAddress : Nat := decodeAddressRegister config.outputAddress

/-- `remaining_size` at first. -/
def totalSize : Nat := alignDown config.size 16

/-- The gap in bytes. -/
def gapBytes (gap : Nat) : Nat := gap * 16

/-- `input_width` and `output_width`: without a gap all is one line. -/
def lineWidth (width gap : Nat) : Nat :=
  if gapBytes gap = 0 then config.totalSize else width * 16

/-- `contiguous_input_size` and `contiguous_output_size` -/
def contiguousSize (width gap : Nat) : Nat :=
  u32 (config.size / config.lineWidth width gap * (config.lineWidth width gap + gapBytes gap))

end TextureCopyConfig

/-- What the rasterizer does to memory when it is told about a region. -/
structure RegionEffects where
  flushRegion : Nat → Nat → Memory → Memory
  flushAndInvalidateRegion : Nat → Nat → Memory → Memory
  invalidateRegion : Nat → Nat → Memory → Memory

/-- The variables of the loop, and the blocks that it has read and written. -/
structure CopyState where
  memory : Memory
  srcPointer : Nat
  dstPointer : Nat
  remainingInput : Nat
  remainingOutput : Nat
  remainingSize : Nat
  reads : List (Nat × Nat)
  writes : List (Nat × Nat)

/-- One turn of the loop. -/
def copyTurn (inputWidth inputGap outputWidth outputGap : Nat) (st : CopyState) : CopyState :=
  let copySize := min (min st.remainingInput st.remainingOutput) st.remainingSize
  { memory := writeBlock st.memory st.dstPointer (readBlock st.memory st.srcPointer copySize) copySize
    srcPointer := st.srcPointer + copySize +
      (if st.remainingInput - copySize = 0 then inputGap else 0)
    dstPointer := st.dstPointer + copySize +
      (if st.remainingOutput - copySize = 0 then outputGap else 0)
    remainingInput :=
      if st.remainingInput - copySize = 0 then inputWidth else st.remainingInput - copySize
    remainingOutput :=
      if st.remainingOutput - copySize = 0 then outputWidth else st.remainingOutput - copySize
    remainingSize := st.remainingSize - copySize
    reads := (st.srcPointer, copySize) :: st.reads
    writes := (st.dstPointer, copySize) :: st.writes }

/-- The loop, for so many turns at most. -/
def copyLoop (inputWidth inputGap outputWidth outputGap : Nat) : Nat → CopyState → Option CopyState
  | 0, st => if st.remainingSize > 0 then none else some st
  | fuel + 1, st =>
      if st.remainingSize > 0 then
        copyLoop inputWidth inputGap outputWidth outputGap fuel
          (copyTurn inputWidth inputGap outputWidth outputGap st)
      else some st

/-- What a texture copy has told the rasterizer, and what it has done to memory then. -/
structure TextureCopied where
  flushed : Nat × Nat
  invalidated : Nat × Nat
  before : Memory
  final : CopyState

/-- `TextureCopy`, with the validity of physical addresses; `none` when it returns early or does not
end. -/
def textureCopy (isValidPhysicalAddress : Nat → Bool) (rasterizer : RegionEffects)
    (config : TextureCopyConfig) (fuel : Nat) (memory : Memory) : Option TextureCopied :=
  let srcAddr := config.getPhysicalInputAddress
  let dstAddr := config.getPhysicalOutputAddress
  let inputGap := TextureCopyConfig.gapBytes config.inputGap
  let outputGap := TextureCopyConfig.gapBytes config.outputGap
  let inputWidth := config.lineWidth config.inputWidth config.inputGap
  let outputWidth := config.lineWidth config.outputWidth config.outputGap
  if isValidPhysicalAddress srcAddr = false then none
  else if isValidPhysicalAddress dstAddr = false then none
  else if config.totalSize = 0 then none
  else if inputWidth = 0 then none
  else if outputWidth = 0 then none
  else
    let inputSize := config.contiguousSize config.inputWidth config.inputGap
    let outputSize := config.contiguousSize config.outputWidth config.outputGap
    let flushed := rasterizer.flushRegion srcAddr inputSize memory
    let before :=
      if outputGap ≠ 0 then rasterizer.flushAndInvalidateRegion dstAddr outputSize flushed
      else rasterizer.invalidateRegion dstAddr outputSize flushed
    (copyLoop inputWidth inputGap outputWidth outputGap fuel
        ⟨before, srcAddr, dstAddr, inputWidth, outputWidth, config.totalSize, [], []⟩).map
      fun final => ⟨(srcAddr, inputSize), (dstAddr, outputSize), before, final⟩

/-! ## What it is for -/

namespace TextureCopyConfig

variable (config : TextureCopyConfig)

/-- Where a byte of the stream is read. -/
def source (k : Nat) : Nat := config.getPhysicalInputAddress +
  place (config.lineWidth config.inputWidth config.inputGap) (gapBytes config.inputGap) k

/-- Where a byte of the stream is written. -/
def destination (k : Nat) : Nat := config.getPhysicalOutputAddress +
  place (config.lineWidth config.outputWidth config.outputGap) (gapBytes config.outputGap) k

/-- The configurations with which something is copied: there are bytes to copy, lines have bytes, and
no byte is both read and written. -/
structure Copies (isValidPhysicalAddress : Nat → Bool) : Prop where
  input : isValidPhysicalAddress config.getPhysicalInputAddress = true
  output : isValidPhysicalAddress config.getPhysicalOutputAddress = true
  size_pos : 0 < config.totalSize
  inputWidth_pos : 0 < config.lineWidth config.inputWidth config.inputGap
  outputWidth_pos : 0 < config.lineWidth config.outputWidth config.outputGap
  apart : ∀ j < config.totalSize, ∀ k < config.totalSize, config.source j ≠ config.destination k

end TextureCopyConfig

/-- An address in a block. -/
def InBlock (block : Nat × Nat) (a : Nat) : Prop := block.1 ≤ a ∧ a < block.1 + block.2

/-- The stream has been copied, nothing else has changed, all that was read had been flushed, and all
that was written had been invalidated. -/
structure CopiedSafely (config : TextureCopyConfig) (r : TextureCopied) : Prop where
  copied : ∀ k < config.totalSize, r.final.memory (config.destination k) = r.before (config.source k)
  kept : ∀ a, (∀ k < config.totalSize, a ≠ config.destination k) → r.final.memory a = r.before a
  flushed : ∀ block ∈ r.final.reads, ∀ a, InBlock block a → InBlock r.flushed a
  invalidated : ∀ block ∈ r.final.writes, ∀ a, InBlock block a → InBlock r.invalidated a

/-! ## The loop -/

/-- One of the two pointers of the loop, and what is left of its line. -/
theorem pointer_advance {width k c : Nat} (gap : Nat) (hpos : 0 < width) (hc : c ≤ width - k % width)
    (base : Nat) :
    base + place width gap k + c + (if width - k % width - c = 0 then gap else 0) =
        base + place width gap (k + c) ∧
      (if width - k % width - c = 0 then width else width - k % width - c) =
        width - (k + c) % width := by
  have hmod := Nat.mod_lt k hpos
  by_cases hend : width - k % width - c = 0
  · obtain ⟨hplace, hline⟩ := place_next gap hpos (show k % width + c = width by omega)
    rw [if_pos hend, if_pos hend, hplace, hline]
    omega
  · have hplace := place_add gap (show k % width + c < width by omega)
    have hline := (div_mod_add (show k % width + c < width by omega)).2
    rw [if_neg hend, if_neg hend, hplace, hline]
    omega

/-- The blocks of one side together are the places of the first bytes. -/
def BlocksAre (blocks : List (Nat × Nat)) (base : Nat) (p : Nat → Nat) (done : Nat) : Prop :=
  ∀ a, (∃ block ∈ blocks, InBlock block a) ↔ ∃ k < done, a = base + p k

theorem BlocksAre.advance {blocks : List (Nat × Nat)} {base : Nat} {p : Nat → Nat} {done c : Nat}
    (h : BlocksAre blocks base p done) (hline : ∀ i < c, p (done + i) = p done + i) :
    BlocksAre ((base + p done, c) :: blocks) base p (done + c) := by
  intro a
  rw [List.exists_mem_cons_iff, h a]
  constructor
  · rintro (⟨hlower, hupper⟩ | ⟨k, hk, ha⟩)
    · simp only at hlower hupper
      have hi : a - (base + p done) < c := by omega
      refine ⟨done + (a - (base + p done)), by omega, ?_⟩
      rw [hline _ hi]
      omega
    · exact ⟨k, by omega, ha⟩
  · rintro ⟨k, hk, ha⟩
    by_cases hold : k < done
    · exact Or.inr ⟨k, hold, ha⟩
    · obtain ⟨i, rfl⟩ := Nat.exists_eq_add_of_le (Nat.le_of_not_lt hold)
      have hi : i < c := by omega
      rw [hline i hi] at ha
      refine Or.inl ⟨?_, ?_⟩
      · simp only
        omega
      · simp only
        omega

/-- What holds before each turn of the loop, when `done` bytes of `n` have been copied. -/
structure CopyInv (inputWidth inputGap outputWidth outputGap n src dst : Nat) (before : Memory)
    (done : Nat) (st : CopyState) : Prop where
  le : done ≤ n
  copied : CopiedUpTo before st.memory src dst (place inputWidth inputGap)
    (place outputWidth outputGap) done
  srcPointer : st.srcPointer = src + place inputWidth inputGap done
  dstPointer : st.dstPointer = dst + place outputWidth outputGap done
  remainingInput : st.remainingInput = inputWidth - done % inputWidth
  remainingOutput : st.remainingOutput = outputWidth - done % outputWidth
  remainingSize : st.remainingSize = n - done
  reads : BlocksAre st.reads src (place inputWidth inputGap) done
  writes : BlocksAre st.writes dst (place outputWidth outputGap) done

section Loop

variable {inputWidth inputGap outputWidth outputGap n src dst : Nat} {before : Memory}
  (hinput : 0 < inputWidth) (houtput : 0 < outputWidth)
  (hapart : ∀ j < n, ∀ k < n,
    src + place inputWidth inputGap j ≠ dst + place outputWidth outputGap k)
include hinput houtput hapart

/-- A turn copies some bytes. -/
theorem CopyInv.turn {done : Nat} {st : CopyState}
    (h : CopyInv inputWidth inputGap outputWidth outputGap n src dst before done st)
    (hmore : done < n) :
    ∃ c, 0 < c ∧ CopyInv inputWidth inputGap outputWidth outputGap n src dst before (done + c)
      (copyTurn inputWidth inputGap outputWidth outputGap st) := by
  have hin := Nat.mod_lt done hinput
  have hout := Nat.mod_lt done houtput
  obtain ⟨c, hc⟩ : ∃ c, c = min (min st.remainingInput st.remainingOutput) st.remainingSize :=
    ⟨_, rfl⟩
  have hbounds : 0 < c ∧ c ≤ inputWidth - done % inputWidth ∧
      c ≤ outputWidth - done % outputWidth ∧ c ≤ n - done := by
    rw [hc, h.remainingInput, h.remainingOutput, h.remainingSize]
    omega
  obtain ⟨hpos, hcIn, hcOut, hcSize⟩ := hbounds
  have hinLine : ∀ i < c, place inputWidth inputGap (done + i) =
      place inputWidth inputGap done + i := fun i hi => place_add _ (by omega)
  have houtLine : ∀ i < c, place outputWidth outputGap (done + i) =
      place outputWidth outputGap done + i := fun i hi => place_add _ (by omega)
  have hsrc := pointer_advance inputGap hinput hcIn src
  have hdst := pointer_advance outputGap houtput hcOut dst
  refine ⟨c, hpos, ?_⟩
  unfold copyTurn
  simp only [← hc]
  exact
    { le := by omega
      copied := by
        rw [h.srcPointer, h.dstPointer]
        exact h.copied.advance (place_strictMono _ houtput) hinLine houtLine
          fun i hi k hk => hapart _ (by omega) _ (by omega)
      srcPointer := by
        rw [h.srcPointer, h.remainingInput]
        exact hsrc.1
      dstPointer := by
        rw [h.dstPointer, h.remainingOutput]
        exact hdst.1
      remainingInput := by
        rw [h.remainingInput]
        exact hsrc.2
      remainingOutput := by
        rw [h.remainingOutput]
        exact hdst.2
      remainingSize := by
        rw [h.remainingSize]
        exact Nat.sub_sub _ _ _
      reads := by
        rw [h.srcPointer]
        exact h.reads.advance hinLine
      writes := by
        rw [h.dstPointer]
        exact h.writes.advance houtLine }

/-- With a turn for each byte the loop ends, and has copied all of them then. -/
theorem copyLoop_spec {fuel done : Nat} {st : CopyState}
    (h : CopyInv inputWidth inputGap outputWidth outputGap n src dst before done st)
    (hfuel : n - done ≤ fuel) :
    ∃ final, copyLoop inputWidth inputGap outputWidth outputGap fuel st = some final ∧
      CopyInv inputWidth inputGap outputWidth outputGap n src dst before n final := by
  induction fuel generalizing done st with
  | zero =>
    have hsize := h.remainingSize
    have hle := h.le
    have hdone : done = n := by omega
    refine ⟨st, ?_, hdone ▸ h⟩
    rw [copyLoop, if_neg (by omega)]
  | succ fuel ih =>
    have hsize := h.remainingSize
    have hle := h.le
    rw [copyLoop]
    by_cases hmore : done < n
    · obtain ⟨c, hpos, hturn⟩ := h.turn hinput houtput hapart hmore
      rw [if_pos (by omega)]
      exact ih hturn (by omega)
    · have hdone : done = n := by omega
      refine ⟨st, ?_, hdone ▸ h⟩
      rw [if_neg (by omega)]

end Loop

/-! ## The regions -/

namespace TextureCopyConfig

variable (config : TextureCopyConfig)

/-- The stream ends with a line, and the lines with their gaps fit into 32 bits. -/
def WholeLines (width gap : Nat) : Prop :=
  config.lineWidth width gap ∣ config.totalSize ∧
    config.totalSize / config.lineWidth width gap *
      (config.lineWidth width gap + gapBytes gap) < 2 ^ 32

variable {config}

/-- The lower four bits of the size make no line more. -/
theorem size_div {width gap : Nat} (hpos : 0 < config.lineWidth width gap) :
    config.size / config.lineWidth width gap =
      config.totalSize / config.lineWidth width gap := by
  have htotal : config.totalSize = config.size / 16 * 16 := by
    unfold totalSize alignDown
    omega
  have hmod := Nat.div_add_mod config.size 16
  by_cases hgap : gapBytes gap = 0
  · have hwidth : config.lineWidth width gap = config.totalSize := if_pos hgap
    rw [hwidth] at hpos ⊢
    rw [Nat.div_self hpos]
    exact Nat.div_eq_of_lt_le (by omega) (by omega)
  · have hwidth : config.lineWidth width gap = 16 * width := by
      rw [lineWidth, if_neg hgap, Nat.mul_comm]
    rw [hwidth, htotal, ← Nat.div_div_eq_div_mul, ← Nat.div_div_eq_div_mul,
      Nat.mul_div_cancel _ (by decide)]

/-- The region covers the stream exactly when there is nothing behind the last whole line. -/
theorem covers_iff {width gap : Nat} (hgap : gap < 2 ^ 16)
    (hpos : 0 < config.lineWidth width gap) :
    (∀ k < config.totalSize, place (config.lineWidth width gap) (gapBytes gap) k <
      config.contiguousSize width gap) ↔ config.WholeLines width gap := by
  have hbelow := places_below_iff (gapBytes gap) hpos (n := config.totalSize)
  have hsmall : gapBytes gap < 2 ^ 20 := by
    unfold gapBytes
    omega
  unfold contiguousSize WholeLines
  rw [size_div hpos]
  by_cases hfits : config.totalSize / config.lineWidth width gap *
      (config.lineWidth width gap + gapBytes gap) < 2 ^ 32
  · rw [u32_eq hfits, hbelow]
    exact (and_iff_left hfits).symm
  · refine iff_of_false (fun hall => ?_) (fun hwhole => hfits hwhole.2)
    -- the last byte of the last whole line lies just before the gap that ends the lines
    obtain ⟨q, hq⟩ : ∃ q, config.totalSize / config.lineWidth width gap = q + 1 := by
      refine Nat.exists_eq_succ_of_ne_zero fun hzero => hfits ?_
      rw [hzero, Nat.zero_mul]
      decide
    have hlines := Nat.div_mul_le_self config.totalSize (config.lineWidth width gap)
    rw [hq, Nat.succ_mul, Nat.mul_comm] at hlines
    have hlast := hall (config.lineWidth width gap * q + (config.lineWidth width gap - 1)) (by omega)
    rw [place_line _ _ (by omega)] at hlast
    rw [hq, Nat.succ_mul] at hfits hlast
    unfold u32 at hlast
    omega

end TextureCopyConfig

/-! ## The whole copy -/

section

variable {isValidPhysicalAddress : Nat → Bool} {config : TextureCopyConfig}
  (h : config.Copies isValidPhysicalAddress)
include h

/-- The copy ends, whatever the rasterizer does, and has copied the stream. -/
theorem textureCopy_spec (rasterizer : RegionEffects) (memory : Memory) {fuel : Nat}
    (hfuel : config.totalSize ≤ fuel) :
    ∃ r, textureCopy isValidPhysicalAddress rasterizer config fuel memory = some r ∧
      r.flushed = (config.getPhysicalInputAddress,
        config.contiguousSize config.inputWidth config.inputGap) ∧
      r.invalidated = (config.getPhysicalOutputAddress,
        config.contiguousSize config.outputWidth config.outputGap) ∧
      CopyInv (config.lineWidth config.inputWidth config.inputGap)
        (TextureCopyConfig.gapBytes config.inputGap)
        (config.lineWidth config.outputWidth config.outputGap)
        (TextureCopyConfig.gapBytes config.outputGap) config.totalSize
        config.getPhysicalInputAddress config.getPhysicalOutputAddress r.before config.totalSize
        r.final := by
  have hsize := h.size_pos
  have hinput := h.inputWidth_pos
  have houtput := h.outputWidth_pos
  unfold textureCopy
  simp only [h.input, h.output, if_neg hsize.ne', if_neg hinput.ne', if_neg houtput.ne',
    Bool.true_eq_false, if_false]
  generalize (if TextureCopyConfig.gapBytes config.outputGap ≠ 0 then _ else _) = before
  have hstart : CopyInv (config.lineWidth config.inputWidth config.inputGap)
      (TextureCopyConfig.gapBytes config.inputGap)
      (config.lineWidth config.outputWidth config.outputGap)
      (TextureCopyConfig.gapBytes config.outputGap) config.totalSize
      config.getPhysicalInputAddress config.getPhysicalOutputAddress before 0
      ⟨before, config.getPhysicalInputAddress, config.getPhysicalOutputAddress,
        config.lineWidth config.inputWidth config.inputGap,
        config.lineWidth config.outputWidth config.outputGap, config.totalSize, [], []⟩ :=
    { le := Nat.zero_le _
      copied := copiedUpTo_zero _ _ _ _ _
      srcPointer := by rw [place_of_lt _ hinput]; rfl
      dstPointer := by rw [place_of_lt _ houtput]; rfl
      remainingInput := by rw [Nat.zero_mod]; rfl
      remainingOutput := by rw [Nat.zero_mod]; rfl
      remainingSize := rfl
      reads := fun a => by simp
      writes := fun a => by simp }
  obtain ⟨final, hloop, hfinal⟩ := copyLoop_spec hinput houtput h.apart hstart hfuel
  refine ⟨⟨(_, _), (_, _), before, final⟩, ?_, rfl, rfl, hfinal⟩
  rw [hloop]
  rfl

omit h in
/-- Blocks lie in a region exactly when the places of their bytes do. -/
theorem blocksAre_inBlock {blocks : List (Nat × Nat)} {base size n : Nat} {p : Nat → Nat}
    (hblocks : BlocksAre blocks base p n) :
    (∀ block ∈ blocks, ∀ a, InBlock block a → InBlock (base, size) a) ↔ ∀ k < n, p k < size := by
  constructor
  · intro hall k hk
    obtain ⟨block, hmem, hin⟩ := (hblocks (base + p k)).2 ⟨k, hk, rfl⟩
    have hupper := (hall block hmem _ hin).2
    simp only at hupper
    omega
  · intro hall block hmem a hin
    obtain ⟨k, hk, ha⟩ := (hblocks a).1 ⟨block, hmem, hin⟩
    have hlt := hall k hk
    constructor
    · simp only
      omega
    · simp only
      omega

/-- A copy ends and copies the stream; it stays inside the regions that it flushes and invalidates
exactly when both streams end with a line and both regions fit into 32 bits. -/
theorem textureCopy_iff (rasterizer : RegionEffects) (memory : Memory) :
    (∀ fuel, config.totalSize ≤ fuel →
      ∃ r, textureCopy isValidPhysicalAddress rasterizer config fuel memory = some r ∧
        CopiedSafely config r) ↔
      config.WholeLines config.inputWidth config.inputGap ∧
        config.WholeLines config.outputWidth config.outputGap := by
  rw [← TextureCopyConfig.covers_iff config.inputGap_lt h.inputWidth_pos,
    ← TextureCopyConfig.covers_iff config.outputGap_lt h.outputWidth_pos]
  constructor
  · intro hall
    obtain ⟨r, hr, hsafe⟩ := hall config.totalSize (Nat.le_refl _)
    obtain ⟨r', hr', hflushed, hinvalidated, hfinal⟩ :=
      textureCopy_spec h rasterizer memory (Nat.le_refl _)
    have heq : r = r' := Option.some.inj (hr.symm.trans hr')
    subst heq
    have hreads := hsafe.flushed
    have hwrites := hsafe.invalidated
    rw [hflushed, blocksAre_inBlock hfinal.reads] at hreads
    rw [hinvalidated, blocksAre_inBlock hfinal.writes] at hwrites
    exact ⟨hreads, hwrites⟩
  · rintro ⟨hreads, hwrites⟩ fuel hfuel
    obtain ⟨r, hr, hflushed, hinvalidated, hfinal⟩ := textureCopy_spec h rasterizer memory hfuel
    refine ⟨r, hr, hfinal.copied.copied, hfinal.copied.kept, ?_, ?_⟩
    · rw [hflushed, blocksAre_inBlock hfinal.reads]
      exact hreads
    · rw [hinvalidated, blocksAre_inBlock hfinal.writes]
      exact hwrites

end

/-! ## Two small copies -/

theorem noGap_lt : 0 < 2 ^ 16 := Nat.two_pow_pos 16

theorem twoUnits_lt : 2 < 2 ^ 16 := by decide

/-- A copy of `size` bytes from lines of 32 bytes with gaps of 16 bytes to one line. -/
def smallCopy (size : Nat) (h : size < 2 ^ 32) : TextureCopyConfig where
  inputAddress := 0x03000000
  outputAddress := 0x04000000
  size := size
  inputWidth := 2
  inputGap := 1
  outputWidth := 0
  outputGap := 0
  inputAddress_lt := by decide
  outputAddress_lt := by decide
  size_lt := h
  inputWidth_lt := twoUnits_lt
  inputGap_lt := by decide
  outputWidth_lt := noGap_lt
  outputGap_lt := noGap_lt

/-- A rasterizer that has nothing to write back. -/
def quietRasterizer : RegionEffects where
  flushRegion := fun _ _ m => m
  flushAndInvalidateRegion := fun _ _ m => m
  invalidateRegion := fun _ _ m => m

theorem copies_smallCopy : (smallCopy 64 (by decide)).Copies fun _ => true :=
  ⟨rfl, rfl, by decide, by decide, by decide, by decide +kernel⟩

theorem copies_smallCopy_rest : (smallCopy 48 (by decide)).Copies fun _ => true :=
  ⟨rfl, rfl, by decide, by decide, by decide, by decide +kernel⟩

/-- Two whole lines are copied safely. -/
theorem textureCopy_lines :
    ∃ r, textureCopy (fun _ => true) quietRasterizer (smallCopy 64 (by decide)) 64 (fun _ => 0) =
        some r ∧ CopiedSafely (smallCopy 64 (by decide)) r :=
  (textureCopy_iff copies_smallCopy quietRasterizer fun _ => 0).2
    ⟨⟨by decide, by decide⟩, by decide, by decide⟩ 64 (by decide)

/-- The half line behind a whole line is read, and has not been flushed. -/
theorem textureCopy_rest :
    (smallCopy 48 (by decide)).Copies (fun _ => true) ∧
      ∃ r, textureCopy (fun _ => true) quietRasterizer (smallCopy 48 (by decide)) 48 (fun _ => 0) =
          some r ∧
        r.flushed = (0x18000000, 48) ∧ r.final.reads = [(0x18000030, 16), (0x18000000, 32)] ∧
        ¬ CopiedSafely (smallCopy 48 (by decide)) r := by
  refine ⟨copies_smallCopy_rest, _, rfl, rfl, rfl, fun hsafe => ?_⟩
  have hin := hsafe.flushed (0x18000030, 16) (List.mem_cons_self ..) 0x18000030
    ⟨by decide, by decide⟩
  exact absurd hin.2 (by decide)

end AzaharPlus.Video
