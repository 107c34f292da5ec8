import AzaharPlus.Loader.ThreedsxImage

/-!
# What the relocations of a homebrew executable mean

A relocation table is a list of runs, each with words to skip and words to patch, that goes through
its segment once.  The loader reads it in buffers, patches through two tables one after the other,
and translates addresses piece by piece.

* `translateAddr_eq` — the pieces make one translation;
* `patchRuns_word`, `relocTable_runs` — what a table does to a word, however it is buffered;
* `load_relocates` — the memory of the code set, word by word.
-/

namespace AzaharPlus.Loader.Threedsx

open Bytes BlockMemory

/-! ## The meaning -/

/-- The words that runs select, from a position on. -/
def selected : List (Nat × Nat) → Nat → List Nat
  | [], _ => []
  | (skip, patch) :: runs, pos =>
      (List.range patch).map (fun i => pos + 4 * (skip + i)) ++
        selected runs (pos + 4 * (skip + patch))

/-- A selected word after relocation: the first table makes an address of it, the others an offset
from its own address, without the highest bit for sub-type 1. -/
def relocatedWord (baseAddr table o w : Nat) : Nat :=
  if table = 0 then (baseAddr + w) % 2 ^ 32
  else if w / 2 ^ 28 = 1 then
    (baseAddr + w % 2 ^ 28 + 2 ^ 32 - (baseAddr + o) % 2 ^ 32) % 2 ^ 32 % 2 ^ 31
  else (baseAddr + w % 2 ^ 28 + 2 ^ 32 - (baseAddr + o) % 2 ^ 32) % 2 ^ 32

namespace Header

variable (hdr : Header)

/-- Where table `k` of all tables starts: behind those before it. -/
def tableStart (file : List UInt8) (k : Nat) : Nat :=
  hdr.relocStart + 4 * ((List.range k).map (hdr.relocCount file)).sum

/-- The runs of a segment's table, none if the segment has no such table. -/
def runs (file : List UInt8) (seg table : Nat) : List (Nat × Nat) :=
  if table < hdr.nRelocTables then
    relocsAt file (hdr.tableStart file (seg * hdr.nRelocTables + table))
      (hdr.relocCount file (seg * hdr.nRelocTables + table))
  else []

/-- A word of a segment once one of its tables is applied; runs are cut at the segment's end. -/
def patched (file : List UInt8) (baseAddr seg table o w : Nat) : Nat :=
  if o ∈ selected (hdr.runs file seg table) (hdr.segPtr seg) ∧ o < hdr.segPtr seg + hdr.segSize seg
  then relocatedWord baseAddr table o w
  else w

/-- The three segments of the file, each filled up with zeros. -/
def segments (file : List UInt8) : Memory := fun a =>
  if a < hdr.codeSegSize then byteAt file (hdr.codeStart + a)
  else if hdr.segPtr 1 ≤ a ∧ a < hdr.segPtr 1 + hdr.rodataSegSize then
    byteAt file (hdr.rodataStart + (a - hdr.segPtr 1))
  else if hdr.segPtr 2 ≤ a ∧ a < hdr.segPtr 2 + (hdr.dataSegSize - hdr.bssSize) then
    byteAt file (hdr.dataStart + (a - hdr.segPtr 2))
  else 0

end Header

/-! ## One word -/

theorem word_lt (image : Image) (pos : Nat) : image.word pos < 2 ^ 32 := by
  have := leValue_lt (readBlock image.bytes pos 4)
  rwa [length_readBlock] at this

/-- Words at different places do not overlap. -/
theorem word_setWord {image : Image} {pos o w : Nat} (hpos : pos % 4 = 0) (ho : o % 4 = 0)
    (hw : w < 2 ^ 32) :
    (image.setWord pos w).word o = if o = pos then w else image.word o := by
  unfold Image.word Image.setWord
  by_cases heq : o = pos
  · rw [if_pos heq, heq, readBlock_writeBlock _ _ (length_leBytes 4 w), leValue_leBytes hw]
  · rw [if_neg heq]
    congr 1
    refine readBlock_congr (eqOn_writeBlock fun a ha => ?_)
    have := ha.1
    have := ha.2
    omega

section Relocate

variable {hdr : Header} {baseAddr : Nat}

/-- **The pieces of `TranslateAddr` make one translation.** -/
theorem translateAddr_eq (hfits : hdr.Fits) (addr : Nat) :
    translateAddr hdr baseAddr addr = (baseAddr + addr) % 2 ^ 32 := by
  obtain ⟨hsum, -⟩ := hfits
  have h₀ : hdr.segAddr baseAddr 0 = baseAddr := rfl
  have h₁ : hdr.segAddr baseAddr 1 = (baseAddr + hdr.segSize 0) % 2 ^ 32 := rfl
  have h₂ : hdr.segAddr baseAddr 2 =
      ((baseAddr + hdr.segSize 0) % 2 ^ 32 + hdr.segSize 1) % 2 ^ 32 := rfl
  have hoffset : (hdr.segSize 0 + hdr.segSize 1) % 2 ^ 32 = hdr.segSize 0 + hdr.segSize 1 :=
    Nat.mod_eq_of_lt (by omega)
  unfold translateAddr
  rw [h₀, h₁, h₂, hoffset]
  split
  · rfl
  · split
    · omega
    · omega

/-- A word that is patched is patched as its table means it. -/
theorem patchWord_eq (hfits : hdr.Fits) {table pos w v : Nat} (hw : w < 2 ^ 32)
    (h : patchWord hdr baseAddr table ((baseAddr + pos) % 2 ^ 32) w = some v) :
    v = relocatedWord baseAddr table pos w ∧ v < 2 ^ 32 := by
  unfold patchWord at h
  rw [translateAddr_eq hfits] at h
  unfold relocatedWord
  by_cases htable : table = 0
  · rw [if_pos htable] at h ⊢
    by_cases hsub : w / 2 ^ 28 = 0
    · rw [if_pos hsub, Option.some.injEq] at h
      subst h
      have hword : w % 2 ^ 28 = w := by omega
      rw [hword]
      exact ⟨rfl, Nat.mod_lt _ (by decide)⟩
    · rw [if_neg hsub] at h
      cases h
  · rw [if_neg htable] at h ⊢
    by_cases hsub : w / 2 ^ 28 = 0
    · rw [if_pos hsub, Option.some.injEq] at h
      rw [if_neg (by omega)]
      omega
    · rw [if_neg hsub] at h
      by_cases hsub₁ : w / 2 ^ 28 = 1
      · rw [if_pos hsub₁, Option.some.injEq] at h
        rw [if_pos hsub₁]
        omega
      · rw [if_neg hsub₁] at h
        cases h

/-! ## Runs -/

/-- A run patches the words it selects up to the end of the segment, and leaves the cursor behind
them or at the end. -/
theorem patchRun_word (hfits : hdr.Fits) {table endPos n pos pos' : Nat} {image image' : Image}
    (hpos : pos % 4 = 0)
    (h : patchRun hdr baseAddr table endPos n pos image = .ok (pos', image')) :
    (pos' = pos + 4 * n ∨ (endPos ≤ pos' ∧ endPos ≤ pos + 4 * n)) ∧ pos' % 4 = 0 ∧
      ∀ o, o % 4 = 0 → image'.word o =
        if (pos ≤ o ∧ o < pos + 4 * n) ∧ o < endPos then
          relocatedWord baseAddr table o (image.word o)
        else image.word o := by
  induction n generalizing pos image with
  | zero =>
    rw [patchRun, Except.ok.injEq, Prod.mk.injEq] at h
    obtain ⟨rfl, rfl⟩ := h
    refine ⟨Or.inl rfl, hpos, fun o _ => ?_⟩
    rw [if_neg (by omega)]
  | succ n ih =>
    rw [patchRun] at h
    by_cases hstop : endPos ≤ pos
    · rw [if_pos hstop, Except.ok.injEq, Prod.mk.injEq] at h
      obtain ⟨rfl, rfl⟩ := h
      refine ⟨Or.inr ⟨hstop, by omega⟩, hpos, fun o _ => ?_⟩
      rw [if_neg (by omega)]
    · rw [if_neg hstop] at h
      by_cases hout : image.size < pos + 4
      · rw [if_pos hout] at h
        cases h
      · rw [if_neg hout] at h
        cases hpatch : patchWord hdr baseAddr table ((baseAddr + pos) % 2 ^ 32)
            (image.word pos) with
        | none =>
          rw [hpatch] at h
          cases h
        | some w =>
          rw [hpatch] at h
          obtain ⟨hw, hlt⟩ := patchWord_eq hfits (word_lt image pos) hpatch
          obtain ⟨hcursor, hmod, hwords⟩ := ih (show (pos + 4) % 4 = 0 by omega) h
          refine ⟨by omega, hmod, fun o ho => ?_⟩
          rw [hwords o ho, word_setWord hpos ho hlt]
          by_cases heq : o = pos
          · rw [if_neg (by omega), if_pos heq, if_pos (by omega), heq, hw]
          · rw [if_neg heq]
            by_cases hin : (pos + 4 ≤ o ∧ o < pos + 4 + 4 * n) ∧ o < endPos
            · rw [if_pos hin, if_pos (by omega)]
            · rw [if_neg hin, if_neg (by omega)]

theorem le_of_mem_selected {runs : List (Nat × Nat)} {pos o : Nat} (h : o ∈ selected runs pos) :
    pos ≤ o := by
  induction runs generalizing pos with
  | nil => cases h
  | cons run runs ih =>
    obtain ⟨skip, patch⟩ := run
    rcases List.mem_append.1 h with h | h
    · obtain ⟨i, -, rfl⟩ := List.mem_map.1 h
      omega
    · have := ih h
      omega

theorem mem_selected_cons {skip patch pos o : Nat} {runs : List (Nat × Nat)} (hpos : pos % 4 = 0)
    (ho : o % 4 = 0) :
    o ∈ selected ((skip, patch) :: runs) pos ↔
      (pos + 4 * skip ≤ o ∧ o < pos + 4 * skip + 4 * patch) ∨
        o ∈ selected runs (pos + 4 * (skip + patch)) := by
  rw [selected, List.mem_append]
  refine or_congr_left ⟨fun h => ?_, fun h => ?_⟩
  · obtain ⟨i, hi, rfl⟩ := List.mem_map.1 h
    have := List.mem_range.1 hi
    omega
  · exact List.mem_map.2 ⟨(o - pos) / 4 - skip, List.mem_range.2 (by omega), by omega⟩

/-- **A list of runs patches exactly the words it selects.** -/
theorem patchRuns_word (hfits : hdr.Fits) {table endPos pos pos' : Nat} {runs : List (Nat × Nat)}
    {image image' : Image} (hpos : pos % 4 = 0)
    (h : patchRuns hdr baseAddr table endPos runs pos image = .ok (pos', image')) (o : Nat)
    (ho : o % 4 = 0) :
    image'.word o =
      if o ∈ selected runs pos ∧ o < endPos then relocatedWord baseAddr table o (image.word o)
      else image.word o := by
  induction runs generalizing pos image with
  | nil =>
    rw [patchRuns, Except.ok.injEq, Prod.mk.injEq] at h
    rw [h.2, if_neg (fun hin => List.not_mem_nil hin.1)]
  | cons run runs ih =>
    obtain ⟨skip, patch⟩ := run
    rw [patchRuns] at h
    by_cases hstop : endPos ≤ pos
    · rw [if_pos hstop, Except.ok.injEq, Prod.mk.injEq] at h
      rw [h.2, if_neg fun hin => ?_]
      have := le_of_mem_selected hin.1
      omega
    · rw [if_neg hstop] at h
      cases hrun : patchRun hdr baseAddr table endPos patch (pos + 4 * skip) image with
      | error stop =>
        rw [hrun] at h
        cases h
      | ok r =>
        obtain ⟨pos₁, image₁⟩ := r
        rw [hrun] at h
        have hstart : (pos + 4 * skip) % 4 = 0 := by omega
        obtain ⟨hcursor, hmod, hwords⟩ := patchRun_word hfits hstart hrun
        have hskip : pos + 4 * (skip + patch) = pos + 4 * skip + 4 * patch := by omega
        have hbehind : o ∈ selected runs (pos + 4 * (skip + patch)) →
            pos + 4 * skip + 4 * patch ≤ o := fun hin => hskip ▸ le_of_mem_selected hin
        -- a cursor at the end of the segment selects no more of its words
        have hsame : (o ∈ selected runs pos₁ ∧ o < endPos) ↔
            (o ∈ selected runs (pos + 4 * (skip + patch)) ∧ o < endPos) := by
          rcases hcursor with hcursor | ⟨hend, hend'⟩
          · rw [hskip, hcursor]
          · refine iff_of_false (fun hin => ?_) fun hin => ?_
            · have := le_of_mem_selected hin.1
              omega
            · have := hbehind hin.1
              omega
        have hsel : o ∈ selected ((skip, patch) :: runs) pos ↔ _ := mem_selected_cons hpos ho
        rw [ih hmod h, hwords o ho]
        by_cases hfirst : (pos + 4 * skip ≤ o ∧ o < pos + 4 * skip + 4 * patch) ∧ o < endPos
        · rw [if_neg fun hin => ?_, if_pos hfirst, if_pos ⟨hsel.2 (Or.inl hfirst.1), hfirst.2⟩]
          have := hbehind (hsame.1 hin).1
          omega
        · rw [if_neg hfirst]
          refine if_congr (hsame.trans ⟨fun hin => ⟨hsel.2 (Or.inr hin.1), hin.2⟩, fun hin => ?_⟩)
            rfl rfl
          exact ⟨(hsel.1 hin.1).resolve_left fun hrange => hfirst ⟨hrange, hin.2⟩, hin.2⟩

/-! ## Tables -/

theorem relocsAt_add (file : List UInt8) (pos k l : Nat) :
    relocsAt file pos (k + l) = relocsAt file pos k ++ relocsAt file (pos + 4 * k) l := by
  simp only [relocsAt, List.range_add, List.map_append, List.map_map]
  congr 1
  refine List.map_congr_left fun i _ => ?_
  simp only [Function.comp_apply, Nat.mul_add, Nat.add_assoc]

/-- A cursor at the end of the segment stays there. -/
theorem patchRuns_of_end {table endPos pos : Nat} (runs : List (Nat × Nat)) (image : Image)
    (h : endPos ≤ pos) :
    patchRuns hdr baseAddr table endPos runs pos image = .ok (pos, image) := by
  cases runs with
  | nil => rfl
  | cons run runs =>
    obtain ⟨skip, patch⟩ := run
    rw [patchRuns, if_pos h]

/-- Runs can be patched in two goes. -/
theorem patchRuns_append {table endPos pos pos' : Nat} {front back : List (Nat × Nat)}
    {image image' : Image}
    (h : patchRuns hdr baseAddr table endPos front pos image = .ok (pos', image')) :
    patchRuns hdr baseAddr table endPos (front ++ back) pos image =
      patchRuns hdr baseAddr table endPos back pos' image' := by
  induction front generalizing pos image with
  | nil =>
    rw [patchRuns, Except.ok.injEq, Prod.mk.injEq] at h
    rw [h.1, h.2, List.nil_append]
  | cons run front ih =>
    obtain ⟨skip, patch⟩ := run
    by_cases hstop : endPos ≤ pos
    · rw [patchRuns_of_end _ _ hstop, Except.ok.injEq, Prod.mk.injEq] at h
      obtain ⟨rfl, rfl⟩ := h
      rw [patchRuns_of_end _ _ hstop, patchRuns_of_end _ _ hstop]
    · rw [patchRuns, if_neg hstop] at h
      rw [List.cons_append, patchRuns, if_neg hstop]
      cases hrun : patchRun hdr baseAddr table endPos patch (pos + 4 * skip) image with
      | error stop =>
        rw [hrun] at h
        cases h
      | ok r =>
        rw [hrun] at h
        exact ih h

/-- **The buffers of a table make one list of runs.** -/
theorem relocTable_runs {file : List UInt8} {table endPos turns nRelocs filePos filePos' pos : Nat}
    {image image' : Image}
    (h : relocTable hdr baseAddr file table endPos turns nRelocs filePos pos image =
      .ok (filePos', image')) :
    filePos' = filePos + 4 * nRelocs ∧
      ∃ pos', patchRuns hdr baseAddr table endPos (relocsAt file filePos nRelocs) pos image =
        .ok (pos', image') := by
  induction turns generalizing nRelocs filePos pos image with
  | zero =>
    rw [relocTable] at h
    by_cases hzero : nRelocs = 0
    · rw [if_pos hzero, Except.ok.injEq, Prod.mk.injEq] at h
      obtain ⟨rfl, rfl⟩ := h
      subst hzero
      exact ⟨rfl, pos, rfl⟩
    · rw [if_neg hzero] at h
      cases h
  | succ turns ih =>
    rw [relocTable] at h
    by_cases hzero : nRelocs = 0
    · rw [if_pos hzero, Except.ok.injEq, Prod.mk.injEq] at h
      obtain ⟨rfl, rfl⟩ := h
      subst hzero
      exact ⟨rfl, pos, rfl⟩
    · rw [if_neg hzero] at h
      by_cases hread : (slice file filePos (4 * min relocBufSize nRelocs)).length ≠
          4 * min relocBufSize nRelocs
      · rw [if_pos hread] at h
        cases h
      · rw [if_neg hread] at h
        cases hruns : patchRuns hdr baseAddr table endPos
            (relocsAt file filePos (min relocBufSize nRelocs)) pos image with
        | error stop =>
          rw [hruns] at h
          cases h
        | ok r =>
          obtain ⟨pos₁, image₁⟩ := r
          rw [hruns] at h
          obtain ⟨hfile, pos', hrest⟩ := ih h
          have hcount : min relocBufSize nRelocs + (nRelocs - min relocBufSize nRelocs) =
              nRelocs := Nat.add_sub_cancel' (Nat.min_le_right _ _)
          refine ⟨by omega, pos', ?_⟩
          rw [← hcount, relocsAt_add, patchRuns_append hruns, hrest]

/-- What the tables from `first` on do to the words of their segment. -/
theorem relocTables_word (hfits : hdr.Fits) {file : List UInt8} {seg first n filePos filePos' : Nat}
    {image image' : Image} (hn : first + n = hdr.nRelocTables)
    (hfile : filePos = hdr.tableStart file (seg * hdr.nRelocTables + first))
    (h : relocTables hdr baseAddr file seg (List.range' first n) filePos image =
      .ok (filePos', image')) :
    filePos' = hdr.tableStart file ((seg + 1) * hdr.nRelocTables) ∧
      ∀ o, o % 4 = 0 → image'.word o =
        ((List.range' first n).filter (· < 2)).foldl
          (fun w table => hdr.patched file baseAddr seg table o w) (image.word o) := by
  induction n generalizing first filePos image with
  | zero =>
    rw [List.range'_zero, relocTables, Except.ok.injEq, Prod.mk.injEq] at h
    obtain ⟨rfl, rfl⟩ := h
    rw [Nat.add_zero] at hn
    exact ⟨by rw [hfile, hn, Nat.succ_mul], fun o _ => rfl⟩
  | succ n ih =>
    rw [List.range'_succ, relocTables] at h
    have hnext : hdr.tableStart file (seg * hdr.nRelocTables + first) +
        4 * hdr.relocCount file (seg * hdr.nRelocTables + first) =
        hdr.tableStart file (seg * hdr.nRelocTables + (first + 1)) := by
      rw [Header.tableStart, Header.tableStart, ← Nat.add_assoc (seg * hdr.nRelocTables),
        List.range_succ, List.map_append, List.sum_append, List.map_singleton,
        List.sum_singleton, Nat.mul_add, Nat.add_assoc]
    rw [List.range'_succ]
    by_cases hskip : 2 ≤ first
    · rw [if_pos hskip] at h
      obtain ⟨hfile', hwords⟩ := ih (show first + 1 + n = _ by omega) (by rw [hfile, hnext]) h
      refine ⟨hfile', fun o ho => ?_⟩
      rw [List.filter_cons_of_neg (by rw [decide_eq_true_eq]; omega)]
      exact hwords o ho
    · rw [if_neg hskip] at h
      cases htable : relocTable hdr baseAddr file first (hdr.segPtr seg + hdr.segSize seg)
          (hdr.relocCount file (seg * hdr.nRelocTables + first))
          (hdr.relocCount file (seg * hdr.nRelocTables + first)) filePos (hdr.segPtr seg)
          image with
      | error stop =>
        rw [htable] at h
        cases h
      | ok r =>
        obtain ⟨filePos₁, image₁⟩ := r
        rw [htable] at h
        obtain ⟨hfile₁, pos₁, hruns⟩ := relocTable_runs htable
        obtain ⟨hfile', hwords⟩ := ih (show first + 1 + n = _ by omega)
          (by rw [hfile₁, hfile, hnext]) h
        refine ⟨hfile', fun o ho => ?_⟩
        have hruns' : relocsAt file filePos
            (hdr.relocCount file (seg * hdr.nRelocTables + first)) =
            hdr.runs file seg first := by
          rw [Header.runs, if_pos (by omega), hfile]
        rw [hruns'] at hruns
        rw [List.filter_cons_of_pos (by rw [decide_eq_true_eq]; omega), List.foldl_cons, hwords o ho,
          patchRuns_word hfits (segPtr_mod hdr seg) hruns o ho]
        rfl

/-- The first two tables are all that patch a word, and one that a segment does not have patches
none. -/
theorem foldl_patched (file : List UInt8) (seg o w : Nat) :
    ((List.range' 0 hdr.nRelocTables).filter (· < 2)).foldl
        (fun w table => hdr.patched file baseAddr seg table o w) w =
      hdr.patched file baseAddr seg 1 o (hdr.patched file baseAddr seg 0 o w) := by
  have hnone : ∀ table w, hdr.nRelocTables ≤ table →
      hdr.patched file baseAddr seg table o w = w := by
    intro table w hle
    rw [Header.patched, Header.runs, if_neg (Nat.not_lt.2 hle),
      if_neg fun hin => List.not_mem_nil hin.1]
  obtain ⟨n, hn⟩ : ∃ n, n = hdr.nRelocTables := ⟨_, rfl⟩
  rw [← hn] at hnone ⊢
  obtain rfl | rfl | ⟨k, rfl⟩ : n = 0 ∨ n = 1 ∨ ∃ k, n = k + 2 := by
    rcases n with _ | _ | k
    · exact Or.inl rfl
    · exact Or.inr (Or.inl rfl)
    · exact Or.inr (Or.inr ⟨k, rfl⟩)
  · rw [hnone 0 _ (Nat.le_refl 0), hnone 1 _ (Nat.zero_le 1)]
    rfl
  · rw [hnone 1 _ (Nat.le_refl 1)]
    rfl
  · have hrest : (List.range' 2 k).filter (· < 2) = [] := by
      refine List.filter_eq_nil_iff.2 fun table hmem => ?_
      have := (List.mem_range'_1.1 hmem).1
      rw [decide_eq_true_eq]
      omega
    rw [List.range'_succ, List.range'_succ, List.filter_cons_of_pos (by decide),
      List.filter_cons_of_pos (by decide), hrest]
    rfl

/-- A segment's tables leave the words of the others. -/
theorem patched_of_outside {file : List UInt8} {seg table o w : Nat}
    (h : o < hdr.segPtr seg ∨ hdr.segPtr seg + hdr.segSize seg ≤ o) :
    hdr.patched file baseAddr seg table o w = w := by
  rw [Header.patched, if_neg fun hin => ?_]
  have := le_of_mem_selected hin.1
  omega

/-- What the segments from `first` on do to a word. -/
theorem relocSegments_word (hfits : hdr.Fits) {file : List UInt8} {first n filePos : Nat}
    {image image' : Image}
    (hfile : filePos = hdr.tableStart file (first * hdr.nRelocTables))
    (h : relocSegments hdr baseAddr file (List.range' first n) filePos image = .ok image') (o : Nat)
    (ho : o % 4 = 0) :
    image'.word o =
      (List.range' first n).foldl (fun w seg => hdr.patched file baseAddr seg 1 o
        (hdr.patched file baseAddr seg 0 o w)) (image.word o) := by
  induction n generalizing first filePos image with
  | zero =>
    rw [List.range'_zero, relocSegments, Except.ok.injEq] at h
    rw [h, List.range'_zero, List.foldl_nil]
  | succ n ih =>
    rw [List.range'_succ, relocSegments, List.range_eq_range'] at h
    rw [List.range'_succ, List.foldl_cons]
    cases htables : relocTables hdr baseAddr file first (List.range' 0 hdr.nRelocTables) filePos
        image with
    | error stop =>
      rw [htables] at h
      cases h
    | ok r =>
      obtain ⟨filePos₁, image₁⟩ := r
      rw [htables] at h
      obtain ⟨hfile₁, hwords⟩ := relocTables_word hfits (Nat.zero_add _)
        (by rw [hfile, Nat.add_zero]) htables
      rw [ih hfile₁ h, hwords o ho, foldl_patched]

end Relocate

/-! ## The segments -/

theorem readInto_ok {file : List UInt8} {image image' : Image} {pos start n : Nat}
    (h : readInto file image pos start n = .ok image') :
    image' = { image with bytes := writeBlock image.bytes start (slice file pos n) n } := by
  unfold readInto at h
  split at h
  · cases h
  · split at h
    · cases h
    · exact (Except.ok.inj h).symm

theorem clearBss_ok {hdr : Header} {image image' : Image} (h : clearBss hdr image = .ok image') :
    image' =
      { image with
        bytes := writeBlock image.bytes (hdr.segPtr 2 + hdr.dataSegSize - hdr.bssSize)
          (List.replicate hdr.bssSize 0) hdr.bssSize } := by
  unfold clearBss at h
  split at h
  · cases h
  · exact (Except.ok.inj h).symm

/-- A result of a sequence comes from a result of its first part. -/
theorem bind_eq_ok {ε α β : Type} {x : Except ε α} {f : α → Except ε β} {b : β}
    (h : (x >>= f) = .ok b) : ∃ a, x = .ok a ∧ f a = .ok b := by
  cases x with
  | error e => cases h
  | ok a => exact ⟨a, rfl, h⟩

/-- **The image holds the three segments, each filled up with zeros.** -/
theorem readSegments_bytes {file : List UInt8} {hdr : Header} {image : Image}
    (hrounds : hdr.Rounds) (hfits : hdr.Fits) (h : readSegments file hdr = .ok image) :
    image.bytes = hdr.segments file := by
  obtain ⟨-, hload⟩ := hfits.inside hrounds
  obtain ⟨hcode, hrodata, hdata⟩ := hrounds
  obtain ⟨-, hbss⟩ := hfits
  have hptr₀ : hdr.segPtr 0 = 0 := rfl
  have hptr₁ : hdr.segPtr 1 = hdr.segSize 0 := rfl
  have hptr₂ : hdr.segPtr 2 = hdr.segSize 0 + hdr.segSize 1 := rfl
  obtain ⟨image₀, h₀, h⟩ := bind_eq_ok h
  obtain ⟨image₁, h₁, h⟩ := bind_eq_ok h
  obtain ⟨image₂, h₂, h⟩ := bind_eq_ok h
  rw [clearBss_ok h, readInto_ok h₂, readInto_ok h₁, readInto_ok h₀, hload, hptr₀]
  funext a
  simp only [writeBlock, Header.segments, Nat.zero_le, true_and, Nat.zero_add, Nat.sub_zero]
  have hcodeEnd : hdr.codeSegSize ≤ hdr.segPtr 1 := hcode
  have hrodataEnd : hdr.segPtr 1 + hdr.rodataSegSize ≤ hdr.segPtr 2 := by omega
  have hdataEnd : hdr.segPtr 2 + hdr.dataSegSize - hdr.bssSize =
      hdr.segPtr 2 + (hdr.dataSegSize - hdr.bssSize) := Nat.add_sub_assoc hbss _
  rw [hdataEnd]
  clear hptr₁ hptr₂ hcode hrodata hdata hload
  by_cases hclear : hdr.segPtr 2 + (hdr.dataSegSize - hdr.bssSize) ≤ a ∧
      a < hdr.segPtr 2 + (hdr.dataSegSize - hdr.bssSize) + hdr.bssSize
  · rw [if_pos hclear, if_neg (by omega), if_neg (by omega), if_neg (by omega), byteAt,
      List.getD_replicate _ (by omega)]
  · rw [if_neg hclear]
    by_cases hin₂ : hdr.segPtr 2 ≤ a ∧ a < hdr.segPtr 2 + (hdr.dataSegSize - hdr.bssSize)
    · rw [if_pos hin₂, if_neg (by omega), if_neg (by omega), if_pos hin₂,
        byteAt_slice _ _ (by omega)]
    · rw [if_neg hin₂]
      by_cases hin₁ : hdr.segPtr 1 ≤ a ∧ a < hdr.segPtr 1 + hdr.rodataSegSize
      · rw [if_pos hin₁, if_neg (by omega), if_pos hin₁, byteAt_slice _ _ (by omega)]
      · rw [if_neg hin₁]
        by_cases hin₀ : a < hdr.codeSegSize
        · rw [if_pos hin₀, if_pos hin₀, byteAt_slice _ _ hin₀]
        · rw [if_neg hin₀, if_neg hin₀, if_neg hin₁, if_neg hin₂]

/-! ## The code set -/

/-- A word lies in one segment only. -/
theorem segments_apart {hdr : Header} {seg seg' o : Nat} (hseg : seg < 3) (hseg' : seg' < 3)
    (hne : seg' ≠ seg) (hle : hdr.segPtr seg ≤ o) (hlt : o < hdr.segPtr seg + hdr.segSize seg) :
    o < hdr.segPtr seg' ∨ hdr.segPtr seg' + hdr.segSize seg' ≤ o := by
  have h₀ : hdr.segPtr 0 = 0 := rfl
  have h₁ : hdr.segPtr 1 = hdr.segSize 0 := rfl
  have h₂ : hdr.segPtr 2 = hdr.segSize 0 + hdr.segSize 1 := rfl
  obtain rfl | rfl | rfl : seg = 0 ∨ seg = 1 ∨ seg = 2 := by omega
  · obtain rfl | rfl : seg' = 1 ∨ seg' = 2 := by omega
    · omega
    · omega
  · obtain rfl | rfl : seg' = 0 ∨ seg' = 2 := by omega
    · omega
    · omega
  · obtain rfl | rfl : seg' = 0 ∨ seg' = 1 := by omega
    · omega
    · omega

/-- The stages of a load that succeeds. -/
theorem load3DSXFile_ok {file : List UInt8} {baseAddr : Nat} {hdr : Header} {image : Image}
    (hh : readHeader file = some hdr) (h : load3DSXFile file baseAddr = .ok image) :
    hdr.Rounds ∧ ∃ image₀, readSegments file hdr = .ok image₀ ∧
      relocSegments hdr baseAddr file [0, 1, 2] hdr.relocStart image₀ = .ok image := by
  unfold load3DSXFile at h
  simp only [hh] at h
  by_cases hrounds : hdr.Rounds
  · rw [if_neg (not_not.2 hrounds)] at h
    by_cases hrelocs : hdr.relocHdrsRead file = false
    · rw [if_pos hrelocs] at h
      cases h
    · rw [if_neg hrelocs] at h
      cases hread : readSegments file hdr with
      | error stop =>
        rw [hread] at h
        cases h
      | ok image₀ =>
        rw [hread] at h
        exact ⟨hrounds, image₀, rfl, h⟩
  · rw [if_pos hrounds] at h
    cases h

/-- **What the loader leaves in the code set's memory**, whenever it succeeds on a file whose BSS is
a part of its data and whose rounded sizes add up below `2 ^ 28`: every word of each segment, first
patched by the segment's first table, then by its second. -/
theorem load_relocates {file : List UInt8} {baseAddr : Nat} {hdr : Header} {image : Image}
    (hh : readHeader file = some hdr) (hbss : hdr.bssSize ≤ hdr.dataSegSize)
    (hsum : hdr.segSize 0 + hdr.segSize 1 + hdr.segSize 2 < 2 ^ 28)
    (hload : load3DSXFile file baseAddr = .ok image) :
    image.size = hdr.segSize 0 + hdr.segSize 1 + hdr.segSize 2 ∧
      ∀ seg < 3, ∀ o, o % 4 = 0 → hdr.segPtr seg ≤ o → o < hdr.segPtr seg + hdr.segSize seg →
        image.word o = hdr.patched file baseAddr seg 1 o (hdr.patched file baseAddr seg 0 o
          (leValue (readBlock (hdr.segments file) o 4))) := by
  have hfits : hdr.Fits := ⟨hsum.trans (by decide), hbss⟩
  obtain ⟨hrounds, image₀, hread, hrelocs⟩ := load3DSXFile_ok hh hload
  have hending := readSegments_ending hh hrounds
  rw [hread] at hending
  have hsize₀ : image₀.size = hdr.segSize 0 + hdr.segSize 1 + hdr.segSize 2 := by
    cases hending with
    | loaded image hfits' hsize => exact hsize.trans (hfits.inside hrounds).1
  refine ⟨?_, fun seg hseg o ho hle hlt => ?_⟩
  · have hsettled : Settled _ (relocSegments hdr baseAddr file [0, 1, 2] hdr.relocStart image₀) :=
      relocSegments_settled (by simp) hsize₀.ge
    rcases hsettled with ⟨e, heq⟩ | ⟨image', heq, hsize⟩
    · rw [hrelocs] at heq
      cases heq
    · rw [hrelocs, Except.ok.injEq] at heq
      rw [heq, hsize, hsize₀]
  · have hstart : hdr.relocStart = hdr.tableStart file (0 * hdr.nRelocTables) := by
      rw [Nat.zero_mul, Header.tableStart, List.range_zero, List.map_nil, List.sum_nil,
        Nat.mul_zero, Nat.add_zero]
    have hword : image.word o = (List.range' 0 3).foldl (fun w seg =>
        hdr.patched file baseAddr seg 1 o (hdr.patched file baseAddr seg 0 o w)) (image₀.word o) :=
      relocSegments_word hfits hstart hrelocs o ho
    have hother : ∀ seg' < 3, seg' ≠ seg → ∀ table w,
        hdr.patched file baseAddr seg' table o w = w :=
      fun seg' hseg' hne table w => patched_of_outside (segments_apart hseg hseg' hne hle hlt)
    have hrange : List.range' 0 3 = [0, 1, 2] := rfl
    rw [hword, hrange, Image.word, readSegments_bytes hrounds hfits hread]
    simp only [List.foldl_cons, List.foldl_nil]
    obtain rfl | rfl | rfl : seg = 0 ∨ seg = 1 ∨ seg = 2 := by omega
    · simp only [hother 1 (by decide) (by decide), hother 2 (by decide) (by decide)]
    · simp only [hother 0 (by decide) (by decide), hother 2 (by decide) (by decide)]
    · simp only [hother 0 (by decide) (by decide), hother 1 (by decide) (by decide)]

/-- The header of a file with two words of code, and two tables for each segment. -/
def twoWordsHeader : Header where
  headerSize := 44
  relocHdrSize := 8
  codeSegSize := 8
  rodataSegSize := 0
  dataSegSize := 0
  bssSize := 0

/-- The file: an address of the second word, an offset to the start, and a run for each. -/
def twoWords : List UInt8 :=
  [0x33, 0x44, 0x53, 0x58, 44, 0, 8, 0] ++ List.replicate 8 0 ++ [8, 0, 0, 0] ++
    List.replicate 24 0 ++ ([1, 0, 0, 0, 1, 0, 0, 0] ++ List.replicate 16 0) ++
    [4, 0, 0, 0, 0, 0, 0, 0x10] ++ [0, 0, 1, 0] ++ [1, 0, 1, 0]

theorem load_relocates_twoWords :
    ∃ image, load3DSXFile twoWords 0x100000 = .ok image ∧ image.word 0 = 0x100004 ∧
      image.word 4 = 0x7FFFFFFC := by
  have hh : readHeader twoWords = some twoWordsHeader := rfl
  have hok : (load3DSXFile twoWords 0x100000).toBool = true := by decide +kernel
  cases hload : load3DSXFile twoWords 0x100000 with
  | error stop =>
      rw [hload] at hok
      cases hok
  | ok image =>
      obtain ⟨-, hwords⟩ := load_relocates hh (by decide) (by decide) hload
      refine ⟨image, rfl, ?_, ?_⟩
      · exact (hwords 0 (by decide) 0 (by decide) (by decide) (by decide)).trans (by decide +kernel)
      · exact (hwords 0 (by decide) 4 (by decide) (by decide) (by decide)).trans (by decide +kernel)

end AzaharPlus.Loader.Threedsx
