import AzaharPlus.Service.NcchCrypto

/-!
# An installed content does not depend on its pieces

The file written for a content is a function of its bytes: those of a content that is not an
encrypted NCCH, and for an encrypted one the bytes deciphered region by region.

* `turn_bodyAt` — a turn of the loop takes the file from one position to a later one;
* `write_streamAt` — a call takes the file from the state after a prefix to that after a longer one;
* `write_streamed` — what is written, for every sequence of calls.
-/

namespace AzaharPlus.Service.Ncch

open Bytes Lib Lib.Streams

/-- No two of the regions share a position. -/
abbrev RegionsApart (regions : List CryptoRegion) : Prop :=
  Streams.Apart CryptoRegion.offset CryptoRegion.stop regions

/-! ## The layout of a content -/

/-- What the header of a content says of the encryption; a content without crypto has no regions. -/
structure Layout where
  keys : SectionKeys
  /-- The regions that the header names. -/
  base : List CryptoRegion
  /-- Where the ExeFS header starts. -/
  exefs : Option Nat

/-- The region of the ExeFS header. -/
def exefsRegion (start : Nat) : CryptoRegion :=
  { type := .exefsHdr, offset := start, size := exefsHeaderSize, seekFrom := start }

namespace Layout

variable (env : NcchEnv) (L : Layout) (s : List UInt8)

/-- The decrypted ExeFS header. -/
def exefsPlain (start : Nat) : List UInt8 :=
  env.processData (L.keys.ofType .exefsHdr) 0 (slice s start exefsHeaderSize)

/-- The regions of the ExeFS sections; a content cut off in the ExeFS header has none. -/
def sections : List CryptoRegion :=
  match L.exefs with
  | some start =>
      if start + exefsHeaderSize ≤ s.length then sectionRegions start (L.exefsPlain env s start)
      else []
  | none => []

/-- All encrypted regions. -/
def parts : List CryptoRegion := L.base ++ L.sections env s

/-- A byte of the file, by its position in the content. -/
def plainByte (p : Nat) (b : UInt8) : UInt8 :=
  if p < ncchHeaderSize then if p = 0x18F then b ||| 4 else b
  else
    match regionAt CryptoRegion.offset CryptoRegion.stop (L.parts env s) p with
    | some reg =>
        b ^^^ env.keystream (L.keys.ofType reg.type).1 (L.keys.ofType reg.type).2 (p - reg.seekFrom)
    | none => b

/-- The file. -/
def plain : List UInt8 := s.mapIdx (L.plainByte env s)

/-- The ExeFS header has been passed. -/
def passed (n : Nat) : Bool :=
  match L.exefs with
  | some start => decide (start + exefsHeaderSize ≤ n)
  | none => false

/-- The regions known at a position. -/
def known (n : Nat) : List CryptoRegion := L.base ++ if L.passed n then L.sections env s else []

/-- The part of the ExeFS header decrypted up to a position. -/
def gathered (n : Nat) : List UInt8 :=
  match L.exefs with
  | some start => (L.exefsPlain env s start).take (n - start)
  | none => []

/-- The regions are disjoint, lie behind the NCCH header, and the one with the ExeFS header is
there. -/
structure Ok : Prop where
  apart : RegionsApart (L.parts env s)
  seek : ∀ reg ∈ L.parts env s, reg.seekFrom ≤ reg.offset
  exefs_mem : ∀ start ∈ L.exefs, exefsRegion start ∈ L.base
  exefs_only : ∀ reg ∈ L.parts env s, reg.type = .exefsHdr →
    ∃ start ∈ L.exefs, reg = exefsRegion start
  sections_behind : ∀ start ∈ L.exefs, ∀ reg ∈ L.sections env s, start + exefsHeaderSize ≤ reg.offset

/-- The file after the first `n` bytes of a content, `n` from the size of the header on. -/
def bodyAt (authorized encrypted : Bool) (n : Nat) : NCCHCryptoFile :=
  { NCCHCryptoFile.fresh authorized with
    file := (L.plain env s).take n
    written := n
    ncchHeader := s.take ncchHeaderSize
    headerParsed := true
    isEncrypted := encrypted
    keys := L.keys
    regions := L.known env s n
    exefsHeader := L.gathered env s n
    exefsHeaderProcessed := L.passed n }

end Layout

/-! ## A stretch of the body -/

section Body

variable {env : NcchEnv} {L : Layout} {s : List UInt8}

namespace Layout

/-- No byte of the ExeFS header is in the stretch. -/
def Aside (L : Layout) (n t : Nat) : Prop :=
  ∀ start ∈ L.exefs, n + t ≤ start ∨ start + exefsHeaderSize ≤ n

variable (env L s) in
theorem length_exefsPlain_le (start : Nat) :
    (L.exefsPlain env s start).length ≤ exefsHeaderSize := by
  rw [exefsPlain, NcchEnv.processData, List.length_mapIdx, slice, List.length_take]
  exact Nat.min_le_left _ _

theorem Aside.passed {n t : Nat} (h : L.Aside n t) : L.passed (n + t) = L.passed n := by
  unfold Layout.passed
  cases hexefs : L.exefs with
  | none => rfl
  | some start =>
    apply decide_eq_decide.mpr
    have hsize : exefsHeaderSize = 0x200 := rfl
    rcases h start hexefs with hle | hle <;> omega

theorem Aside.known {n t : Nat} (h : L.Aside n t) : L.known env s (n + t) = L.known env s n := by
  rw [Layout.known, h.passed, Layout.known]

theorem Aside.gathered {n t : Nat} (h : L.Aside n t) :
    L.gathered env s (n + t) = L.gathered env s n := by
  unfold Layout.gathered
  cases hexefs : L.exefs with
  | none => rfl
  | some start =>
    show List.take _ _ = List.take _ _
    rcases h start hexefs with hle | hle
    · rw [Nat.sub_eq_zero_of_le hle, Nat.sub_eq_zero_of_le (by omega)]
    · have hlen := length_exefsPlain_le env L s start
      rw [List.take_of_length_le (by omega), List.take_of_length_le (by omega)]

theorem mem_known {n : Nat} {reg : CryptoRegion} (h : reg ∈ L.known env s n) :
    reg ∈ L.parts env s := by
  rw [Layout.known, List.mem_append] at h
  rw [parts, List.mem_append]
  rcases h with h | h
  · exact .inl h
  · split at h
    · exact .inr h
    · exact absurd h List.not_mem_nil

/-- The bytes of a stretch in no region stay as they are. -/
theorem plainByte_of_clear {p : Nat} (hp : ncchHeaderSize ≤ p)
    (h : ∀ reg ∈ L.parts env s, ¬ reg.Covers p) (b : UInt8) : L.plainByte env s p b = b := by
  rw [plainByte, if_neg (Nat.not_lt.mpr hp), regionAt_eq_none h]

/-- The bytes of a region are deciphered. -/
theorem plainByte_of_covers (hok : L.Ok env s) {p : Nat} (hp : ncchHeaderSize ≤ p)
    {reg : CryptoRegion} (hreg : reg ∈ L.parts env s) (h : reg.Covers p) (b : UInt8) :
    L.plainByte env s p b =
      b ^^^ env.keystream (L.keys.ofType reg.type).1 (L.keys.ofType reg.type).2
        (p - reg.seekFrom) := by
  rw [plainByte, if_neg (Nat.not_lt.mpr hp), hok.apart.at_eq_some hreg h]

variable (env L) in
/-- The file takes up a stretch. -/
theorem take_plain {n t : Nat} {piece : List UInt8} (hpiece : PieceAt s n piece)
    (ht : t ≤ piece.length) :
    (L.plain env s).take (n + t) =
      (L.plain env s).take n ++ (piece.take t).mapIdx fun i b => L.plainByte env s (n + i) b := by
  rw [plain, take_add_mapIdx, hpiece.take_eq ht]

variable {authorized encrypted : Bool} {n t : Nat} {piece : List UInt8}

/-- Bytes in no region are written as they are. -/
theorem writeBytes_bodyAt (hpiece : PieceAt s n piece) (ht : t ≤ piece.length)
    (hn : ncchHeaderSize ≤ n) (haside : L.Aside n t)
    (hclear : ∀ p, n ≤ p → p < n + t → ∀ reg ∈ L.parts env s, ¬ reg.Covers p) :
    (L.bodyAt env s authorized encrypted n).writeBytes (piece.take t) =
      L.bodyAt env s authorized encrypted (n + t) := by
  have hself : ((piece.take t).mapIdx fun i b => L.plainByte env s (n + i) b) = piece.take t := by
    apply mapIdx_eq_self
    intro i hi b
    rw [List.length_take, Nat.min_eq_left ht] at hi
    exact plainByte_of_clear (by omega) (hclear (n + i) (by omega) (by omega)) b
  rw [bodyAt, bodyAt, NCCHCryptoFile.writeBytes, haside.known, haside.gathered, haside.passed,
    take_plain env L hpiece ht, hself]
  simp only [List.length_take, Nat.min_eq_left ht]

/-- The stretch up to the next known region. -/
theorem clear_of_known (hok : L.Ok env s) {m : Nat}
    (h : ∀ reg ∈ L.known env s n, reg.stop ≤ n ∨ m ≤ reg.offset) (hm : n + t ≤ m) :
    L.Aside n t ∧ ∀ p, n ≤ p → p < n + t → ∀ reg ∈ L.parts env s, ¬ reg.Covers p := by
  have hhdr : ∀ start ∈ L.exefs, start + exefsHeaderSize ≤ n ∨ m ≤ start := fun start hstart =>
    h (exefsRegion start) (List.mem_append_left _ (hok.exefs_mem start hstart))
  refine ⟨fun start hstart => ?_, fun p hnp hpt reg hreg ⟨hle, hlt⟩ => ?_⟩
  · rcases hhdr start hstart with hpassed | hbehind
    · exact .inr hpassed
    · exact .inl (by omega)
  · have hout : reg.stop ≤ n ∨ m ≤ reg.offset := by
      rw [parts, List.mem_append] at hreg
      rcases hreg with hbase | hsection
      · exact h reg (List.mem_append_left _ hbase)
      · -- a section lies behind the ExeFS header, and is known once that is passed
        cases hexefs : L.exefs with
        | none => simp [sections, hexefs] at hsection
        | some start =>
          rcases hhdr start hexefs with hpassed | hbehind
          · refine h reg (List.mem_append_right _ ?_)
            have hp : L.passed n = true := by simp [Layout.passed, hexefs, hpassed]
            rw [hp]
            exact hsection
          · have := hok.sections_behind start hexefs reg hsection
            exact .inr (by omega)
    rcases hout with hstop | hoff <;> omega

/-- Bytes of a region are deciphered on their way to the file. -/
theorem processData_eq_plain (hok : L.Ok env s) (ht : t ≤ piece.length)
    (hn : ncchHeaderSize ≤ n) {reg : CryptoRegion}
    (hreg : reg ∈ L.parts env s) (hle : reg.offset ≤ n) (hstop : n + t ≤ reg.stop) :
    env.processData (L.keys.ofType reg.type) (n - reg.seekFrom) (piece.take t) =
      (piece.take t).mapIdx fun i b => L.plainByte env s (n + i) b := by
  have hseek := hok.seek reg hreg
  apply mapIdx_congr
  intro i hi b
  rw [List.length_take, Nat.min_eq_left ht] at hi
  have hcovers : reg.Covers (n + i) := ⟨by omega, by omega⟩
  rw [plainByte_of_covers hok (by omega) hreg hcovers, ← Nat.sub_add_comm (by omega)]

/-- The stretch of a region that is not the ExeFS header. -/
theorem aside_of_type (hok : L.Ok env s) {reg : CryptoRegion} (hreg : reg ∈ L.parts env s)
    (htype : reg.type ≠ .exefsHdr) (hle : reg.offset ≤ n) (hstop : n + t ≤ reg.stop) :
    L.Aside n t := by
  intro start hstart
  have hmem : exefsRegion start ∈ L.parts env s := List.mem_append_left _ (hok.exefs_mem start hstart)
  have hne : exefsRegion start ≠ reg := fun heq => htype (heq ▸ rfl)
  rcases hok.apart.stop_le hmem hreg hne with hbehind | hbefore
  · exact .inr (hbehind.trans hle)
  · exact .inl (hstop.trans hbefore)

variable (env) in
/-- The stretch of the ExeFS header adds to what is collected of it. -/
theorem gathered_add {start : Nat} (hstart : start ∈ L.exefs) (hle : start ≤ n)
    (hstop : n + t ≤ start + exefsHeaderSize) (hpiece : PieceAt s n piece) (ht : t ≤ piece.length) :
    L.gathered env s (n + t) = L.gathered env s n ++
      env.processData (L.keys.ofType .exefsHdr) (n - start) (piece.take t) := by
  have hstretch : ((slice s start exefsHeaderSize).drop (n - start)).take t = piece.take t := by
    rw [slice, List.drop_take, List.take_take, List.drop_drop, hpiece.take_eq ht,
      Nat.min_eq_left (by omega), Nat.add_sub_cancel' hle]
  have hexefs : L.exefs = some start := hstart
  simp only [Layout.gathered, hexefs]
  rw [show n + t - start = n - start + t by omega, exefsPlain, NcchEnv.processData, take_add_mapIdx,
    hstretch]
  simp only [Nat.zero_add]
  rfl

theorem length_gathered {start : Nat} (hstart : start ∈ L.exefs) (hn : n ≤ s.length)
    (hstop : n ≤ start + exefsHeaderSize) : (L.gathered env s n).length = n - start := by
  have hexefs : L.exefs = some start := hstart
  simp only [Layout.gathered, hexefs]
  rw [List.length_take, exefsPlain, NcchEnv.processData, List.length_mapIdx, slice,
    List.length_take, List.length_drop]
  omega

variable (env authorized encrypted) in
/-- The collected bytes of the ExeFS header, and the regions of the sections at its end. -/
theorem collectExefsHeader_bodyAt {start : Nat} (hstart : start ∈ L.exefs) (hle : start ≤ n)
    (hlt : n < start + exefsHeaderSize) (hstop : n + t ≤ start + exefsHeaderSize)
    (hpiece : PieceAt s n piece) (ht : t ≤ piece.length) (hpos : 0 < t) :
    (L.bodyAt env s authorized encrypted n).collectExefsHeader (exefsRegion start)
        (env.processData (L.keys.ofType .exefsHdr) (n - start) (piece.take t)) =
      { L.bodyAt env s authorized encrypted n with
        regions := L.known env s (n + t)
        exefsHeader := L.gathered env s (n + t)
        exefsHeaderProcessed := L.passed (n + t) } := by
  have hexefs : L.exefs = some start := hstart
  have hin := hpiece.length_le
  have hlen : (L.gathered env s n).length ≠ exefsHeaderSize := by
    rw [length_gathered hstart (by omega) (by omega)]
    omega
  have hlen' : (L.gathered env s (n + t)).length = n + t - start :=
    length_gathered hstart (by omega) hstop
  have hpassed : L.passed n = false := by simp [Layout.passed, hexefs, hlt]
  have hcollect := gathered_add env hstart hle hstop hpiece ht
  by_cases hend : n + t = start + exefsHeaderSize
  case pos =>
    have hfull : (L.gathered env s (n + t)).length = exefsHeaderSize := by omega
    have hpassed' : L.passed (n + t) = true := by simp [Layout.passed, hexefs, hend]
    have hsections : L.sections env s = sectionRegions start (L.gathered env s (n + t)) := by
      have hwhole : L.gathered env s (n + t) = L.exefsPlain env s start := by
        simp only [Layout.gathered, hexefs]
        have hle := length_exefsPlain_le env L s start
        exact List.take_of_length_le (by omega)
      rw [hwhole, sections, hexefs]
      exact if_pos (by omega)
    simp only [NCCHCryptoFile.collectExefsHeader, bodyAt, if_pos hlen, ← hcollect, hfull, hpassed,
      and_self, if_true, Layout.known, hpassed', hsections]
    simp [exefsRegion]
  case neg =>
    have hpart : (L.gathered env s (n + t)).length ≠ exefsHeaderSize := by omega
    have hpassed' : L.passed (n + t) = false := by
      simp only [Layout.passed, hexefs, decide_eq_false_iff_not]
      omega
    simp only [NCCHCryptoFile.collectExefsHeader, bodyAt, if_pos hlen, ← hcollect, hpart, hpassed,
      and_false, if_false, Layout.known, hpassed']

/-- Bytes of a region go to the file. -/
theorem writeRegion_bodyAt (hok : L.Ok env s) (hpiece : PieceAt s n piece) (ht : t ≤ piece.length)
    (hpos : 0 < t) (hn : ncchHeaderSize ≤ n) {reg : CryptoRegion} (hreg : reg ∈ L.parts env s)
    (hcovers : reg.Covers n) (hstop : n + t ≤ reg.stop) :
    (L.bodyAt env s authorized encrypted n).writeRegion env reg (piece.take t) =
      L.bodyAt env s authorized encrypted (n + t) := by
  have hplain := take_plain env L hpiece ht
  rw [← processData_eq_plain hok ht hn hreg hcovers.1 hstop] at hplain
  have hlen : (env.processData (L.keys.ofType reg.type) (n - reg.seekFrom) (piece.take t)).length =
      t := by
    rw [NcchEnv.processData, List.length_mapIdx, List.length_take, Nat.min_eq_left ht]
  by_cases htype : reg.type = .exefsHdr
  case pos =>
    obtain ⟨start, hstart, rfl⟩ := hok.exefs_only reg hreg htype
    have hcollect := collectExefsHeader_bodyAt env authorized encrypted
      hstart hcovers.1 hcovers.2 hstop hpiece ht hpos
    have hcollect : (L.bodyAt env s authorized encrypted n).collectExefsHeader (exefsRegion start)
        (env.processData (L.keys.ofType (exefsRegion start).type)
          (n - (exefsRegion start).seekFrom) (piece.take t)) = _ := hcollect
    rw [NCCHCryptoFile.writeRegion, if_pos htype]
    simp only [bodyAt] at hcollect ⊢
    rw [hcollect, NCCHCryptoFile.writeBytes, hplain, hlen]
  case neg =>
    have haside := aside_of_type hok hreg htype hcovers.1 hstop
    rw [NCCHCryptoFile.writeRegion, if_neg htype]
    simp only [bodyAt, NCCHCryptoFile.writeBytes]
    rw [hplain, haside.known, haside.gathered, haside.passed, hlen]

variable (authorized) in
/-- A turn of the loop takes the file to a later position of the content. -/
theorem turn_bodyAt (hok : L.Ok env s) (henc : encrypted = false → L.base = [] ∧ L.exefs = none)
    (hpiece : PieceAt s n piece) (hn : ncchHeaderSize ≤ n) (hne : piece ≠ []) :
    let t := (L.bodyAt env s authorized encrypted n).toWrite piece.length
    (L.bodyAt env s authorized encrypted n).turn env (piece.take t) =
      L.bodyAt env s authorized encrypted (n + t) := by
  intro t
  have hpos : 0 < t := NCCHCryptoFile.toWrite_pos _ (List.length_pos_iff.mpr hne)
  have ht : t ≤ piece.length := NCCHCryptoFile.toWrite_le _ _
  rw [NCCHCryptoFile.turn]
  cases hfound : findClosestRegion (L.known env s n) n with
  | none =>
    have hfound' : findClosestRegion (L.bodyAt env s authorized encrypted n).regions
      (L.bodyAt env s authorized encrypted n).written = none := hfound
    rw [hfound']
    obtain ⟨haside, hclear⟩ := clear_of_known (t := t) hok
      (fun reg hreg => .inl (findClosestRegion_none hfound reg hreg)) (Nat.le_refl _)
    exact writeBytes_bodyAt hpiece ht hn haside hclear
  | some reg =>
    have hfound' : findClosestRegion (L.bodyAt env s authorized encrypted n).regions
      (L.bodyAt env s authorized encrypted n).written = some reg := hfound
    have hwritten : (L.bodyAt env s authorized encrypted n).written = n := rfl
    have htake : t = if n < reg.offset then min piece.length (reg.offset - n)
        else min piece.length (reg.stop - n) := by
      show NCCHCryptoFile.toWrite _ _ = _
      rw [NCCHCryptoFile.toWrite, hfound']
      rfl
    obtain ⟨hmem, hplace⟩ := findClosestRegion_some hfound
    rw [hfound']
    simp only [hwritten]
    by_cases hlt : n < reg.offset
    case pos =>
      rw [if_pos hlt] at htake ⊢
      obtain ⟨hle, -⟩ | ⟨-, hnext⟩ := hplace
      · exact absurd hlt (Nat.not_lt.mpr hle)
      · obtain ⟨haside, hclear⟩ := clear_of_known (t := t) hok hnext (by omega)
        exact writeBytes_bodyAt hpiece ht hn haside hclear
    case neg =>
      rw [if_neg hlt] at htake ⊢
      obtain hcovers | ⟨hbehind, -⟩ := hplace
      · have hencrypted : encrypted = true := by
          by_contra hplain
          obtain ⟨hbase, hexefs⟩ := henc (Bool.eq_false_iff.mpr hplain)
          simp [known, hbase, sections, hexefs] at hmem
        have hstate : (L.bodyAt env s authorized encrypted n).isEncrypted = true := hencrypted
        rw [if_pos hstate]
        have := hcovers.2
        exact writeRegion_bodyAt hok hpiece ht hpos hn (mem_known hmem) hcovers (by omega)
      · exact absurd hbehind hlt

variable (authorized) in
/-- The loop of a call takes the file over all bytes of the call. -/
theorem writeLoop_bodyAt (hok : L.Ok env s) (henc : encrypted = false → L.base = [] ∧ L.exefs = none)
    (hn : ncchHeaderSize ≤ n) (hpiece : PieceAt s n piece) :
    (L.bodyAt env s authorized encrypted n).writeLoop env piece =
      L.bodyAt env s authorized encrypted (n + piece.length) := by
  induction hlen : piece.length using Nat.strongRecOn generalizing n piece with
  | _ k ih =>
    rw [NCCHCryptoFile.writeLoop]
    by_cases hnil : piece = []
    case pos =>
      subst hnil
      rw [dif_pos rfl, ← hlen]
      rfl
    case neg =>
      have hturn := turn_bodyAt authorized hok henc hpiece hn hnil
      have hpos := (L.bodyAt env s authorized encrypted n).toWrite_pos
        (List.length_pos_iff.mpr hnil)
      have hle := (L.bodyAt env s authorized encrypted n).toWrite_le piece.length
      simp only at hturn
      rw [dif_neg hnil, hturn]
      generalize (L.bodyAt env s authorized encrypted n).toWrite piece.length = t at hpos hle ⊢
      have hrest := hpiece.drop t hle
      rw [ih (piece.length - t) (by omega) (by omega) hrest (List.length_drop ..)]
      congr 1
      omega

end Layout

end Body

/-! ## What a content becomes -/

section Content

variable (env : NcchEnv)

/-- The NCCH header at the start of a content. -/
def headerOf (s : List UInt8) : NCCHHeader := s.take ncchHeaderSize

/-- Where the ExeFS header of a content is. -/
def exefsStart (s : List UInt8) : Nat := (headerOf s).exefsOffset * kBlockSize

/-- The regions of an encrypted content: the extended header, the ExeFS header, the RomFS and the
sections of the ExeFS, when the ExeFS header is there. -/
def contentRegions (keys : SectionKeys) (s : List UInt8) : List CryptoRegion :=
  headerRegionsBy (fun n => n * kBlockSize) (headerOf s) ++
    if (headerOf s).exefsSize ≠ 0 ∧ exefsStart s + exefsHeaderSize ≤ s.length then
      sectionRegionsBy (fun size => roundUp size 0x200) (exefsStart s)
        (env.processData (keys.ofType .exefsHdr) 0 (slice s (exefsStart s) exefsHeaderSize))
    else []

/-- The regions are disjoint, behind the NCCH header and below 4 GiB. -/
def WellPlaced (regions : List CryptoRegion) : Prop :=
  RegionsApart regions ∧ ∀ reg ∈ regions, ncchHeaderSize ≤ reg.offset ∧ reg.stop ≤ 2 ^ 32

instance (regions : List CryptoRegion) : Decidable (WellPlaced regions) :=
  inferInstanceAs (Decidable (_ ∧ _))

/-- The content is an NCCH without crypto, or no NCCH at all. -/
def IsPlain (s : List UInt8) : Prop :=
  (headerOf s).magic ≠ ncchMagic ∨ (headerOf s).noCrypto = true

instance (s : List UInt8) : Decidable (IsPlain s) := inferInstanceAs (Decidable (_ ∨ _))

/-- An encrypted content may be decrypted, its version is known, the keys are available and its
regions are well placed. -/
def Installable (authorized : Bool) (s : List UInt8) : Prop :=
  IsPlain s ∨ authorized = true ∧
    ∃ keys ∈ findSectionKeys env (headerOf s), WellPlaced (contentRegions env keys s)

/-- `out` is `s` with the no-crypto flag in the header and the bytes of the regions xored with the
regions' keystreams. -/
structure Deciphered (keys : SectionKeys) (regions : List CryptoRegion) (s out : List UInt8) :
    Prop where
  length : out.length = s.length
  flag : byteAt out 0x18F = byteAt s 0x18F ||| 4
  inside : ∀ reg ∈ regions, ∀ p < s.length, reg.Covers p →
    byteAt out p =
      byteAt s p ^^^ env.keystream (keys.ofType reg.type).1 (keys.ofType reg.type).2 (p - reg.seekFrom)
  outside : ∀ p < s.length, p ≠ 0x18F → (∀ reg ∈ regions, ¬ reg.Covers p) → byteAt out p = byteAt s p

/-- `out` is what is to be written for a content. -/
def Streamed (s out : List UInt8) : Prop :=
  if IsPlain s then out = s
  else ∃ keys ∈ findSectionKeys env (headerOf s),
    Deciphered env keys (contentRegions env keys s) s out

/-- The layout of an encrypted content. -/
def layoutOf (keys : SectionKeys) (s : List UInt8) : Layout :=
  { keys := keys
    base := headerRegions (headerOf s)
    exefs := if (headerOf s).exefsSize ≠ 0 then some (blocks (headerOf s).exefsOffset) else none }

/-- The layout of a content without crypto. -/
def plainLayout : Layout := { keys := SectionKeys.zero, base := [], exefs := none }

end Content

theorem mem_headerRegionsBy {blocks : Nat → Nat} {header : NCCHHeader} {reg : CryptoRegion} :
    reg ∈ headerRegionsBy blocks header ↔
      header.extendedHeaderSize ≠ 0 ∧
          reg = ⟨.exheader, ncchHeaderSize, exHeaderSize, ncchHeaderSize⟩ ∨
        header.exefsSize ≠ 0 ∧ reg = exefsRegion (blocks header.exefsOffset) ∨
        header.romfsSize ≠ 0 ∧
          reg = ⟨.romfs, blocks header.romfsOffset, blocks header.romfsSize,
            blocks header.romfsOffset⟩ := by
  simp only [headerRegionsBy, List.mem_append, or_assoc, exefsRegion]
  split <;> split <;> split <;> simp_all

theorem mem_sectionRegionsBy {alignUp : Nat → Nat} {start : Nat} {exefsHeader : List UInt8}
    {reg : CryptoRegion} (h : reg ∈ sectionRegionsBy alignUp start exefsHeader) :
    reg.seekFrom = start ∧ start + exefsHeaderSize ≤ reg.offset ∧ reg.type ≠ .exefsHdr := by
  obtain ⟨i, -, hi⟩ := List.mem_filterMap.mp h
  rw [sectionRegionBy] at hi
  split at hi
  case isFalse => exact absurd hi (by simp)
  case isTrue =>
    obtain rfl := Option.some.inj hi
    refine ⟨rfl, Nat.le_add_right _ _, ?_⟩
    show (if _ then RegionType.exefsPri else RegionType.exefsSec) ≠ _
    split <;> exact RegionType.noConfusion

/-- The products of a header with well-placed regions fit into 32 bits. -/
theorem headerRegions_eq {header : NCCHHeader}
    (h : ∀ reg ∈ headerRegionsBy (fun n => n * kBlockSize) header,
      ncchHeaderSize ≤ reg.offset ∧ reg.stop ≤ 2 ^ 32) :
    headerRegions header = headerRegionsBy (fun n => n * kBlockSize) header ∧
      (header.exefsSize ≠ 0 → blocks header.exefsOffset = header.exefsOffset * kBlockSize) := by
  have hexefs : header.exefsSize ≠ 0 →
      blocks header.exefsOffset = header.exefsOffset * kBlockSize := by
    intro hsize
    obtain ⟨-, hstop⟩ := h _ (mem_headerRegionsBy.mpr (.inr (.inl ⟨hsize, rfl⟩)))
    have hstop : header.exefsOffset * kBlockSize + 0x200 ≤ 2 ^ 32 := hstop
    exact Nat.mod_eq_of_lt (by omega)
  have hromfs : header.romfsSize ≠ 0 →
      blocks header.romfsOffset = header.romfsOffset * kBlockSize ∧
        blocks header.romfsSize = header.romfsSize * kBlockSize := by
    intro hsize
    obtain ⟨hstart, hstop⟩ := h _ (mem_headerRegionsBy.mpr (.inr (.inr ⟨hsize, rfl⟩)))
    have hstart : 0x200 ≤ header.romfsOffset * kBlockSize := hstart
    have hstop : header.romfsOffset * kBlockSize + header.romfsSize * kBlockSize ≤ 2 ^ 32 := hstop
    have hpos : 0 < header.romfsSize * kBlockSize :=
      Nat.mul_pos (Nat.pos_of_ne_zero hsize) (by decide)
    exact ⟨Nat.mod_eq_of_lt (by omega), Nat.mod_eq_of_lt (by omega)⟩
  refine ⟨?_, hexefs⟩
  rw [headerRegions, headerRegionsBy, headerRegionsBy]
  congr 1
  · congr 1
    split
    · next hsize => rw [hexefs hsize]
    · rfl
  · split
    · next hsize => rw [(hromfs hsize).1, (hromfs hsize).2]
    · rfl

/-- The sizes of sections below 4 GiB are aligned without overflow. -/
theorem sectionRegions_eq {start : Nat} {exefsHeader : List UInt8}
    (h : ∀ reg ∈ sectionRegionsBy (fun size => roundUp size 0x200) start exefsHeader,
      reg.stop ≤ 2 ^ 32) :
    sectionRegions start exefsHeader =
      sectionRegionsBy (fun size => roundUp size 0x200) start exefsHeader := by
  apply List.filterMap_congr
  intro i hi
  rw [sectionRegionBy, sectionRegionBy]
  split
  case isFalse => rfl
  case isTrue hsize =>
    have hstop := h _ (List.mem_filterMap.mpr ⟨i, hi, by rw [sectionRegionBy, if_pos hsize]⟩)
    rw [CryptoRegion.stop] at hstop
    have halign : alignUp (leValue (slice (slice exefsHeader (16 * i) 16) 12 4)) 0x200 =
        roundUp (leValue (slice (slice exefsHeader (16 * i) 16) 12 4)) 0x200 := by
      apply Nat.mod_eq_of_lt
      have hheader : exefsHeaderSize = 0x200 := rfl
      simp only at hstop
      omega
    rw [halign]

section Streams

variable {env : NcchEnv} {s : List UInt8} {keys : SectionKeys}

/-- The regions that the code comes to are those of the content. -/
theorem parts_layoutOf (h : WellPlaced (contentRegions env keys s)) :
    (layoutOf keys s).parts env s = contentRegions env keys s := by
  obtain ⟨-, hplaced⟩ := h
  obtain ⟨hheader, hexefs⟩ := headerRegions_eq fun reg hreg =>
    hplaced reg (List.mem_append_left _ hreg)
  rw [Layout.parts, contentRegions]
  congr 1
  by_cases hsize : (headerOf s).exefsSize ≠ 0
  case neg => simp [Layout.sections, layoutOf, hsize]
  case pos =>
    have hstart : (layoutOf keys s).exefs = some (exefsStart s) := by
      rw [layoutOf, if_pos hsize, hexefs hsize, exefsStart]
    rw [Layout.sections, hstart]
    by_cases hlen : exefsStart s + exefsHeaderSize ≤ s.length
    case neg => simp [hlen]
    case pos =>
      simp only [if_pos hlen, if_pos (And.intro hsize hlen)]
      refine sectionRegions_eq fun reg hreg => (hplaced reg ?_).2
      rw [contentRegions, if_pos ⟨hsize, hlen⟩]
      exact List.mem_append_right _ hreg

theorem mem_sections {L : Layout} {reg : CryptoRegion} (h : reg ∈ L.sections env s) :
    ∃ start ∈ L.exefs, reg.seekFrom = start ∧ start + exefsHeaderSize ≤ reg.offset ∧
      reg.type ≠ .exefsHdr := by
  unfold Layout.sections at h
  cases hexefs : L.exefs with
  | none => simp [hexefs] at h
  | some start =>
    simp only [hexefs] at h
    split at h
    · exact ⟨start, rfl, mem_sectionRegionsBy h⟩
    · exact absurd h List.not_mem_nil

theorem ok_layoutOf (h : WellPlaced (contentRegions env keys s)) : (layoutOf keys s).Ok env s where
  apart := by
    rw [parts_layoutOf h]
    exact h.1
  seek := by
    intro reg hreg
    rcases List.mem_append.mp hreg with hbase | hsection
    · rcases mem_headerRegionsBy.mp hbase with ⟨-, rfl⟩ | ⟨-, rfl⟩ | ⟨-, rfl⟩ <;> exact Nat.le_refl _
    · obtain ⟨start, -, rfl, hle, -⟩ := mem_sections hsection
      omega
  exefs_mem := by
    intro start hstart
    by_cases hsize : (headerOf s).exefsSize ≠ 0
    case neg => simp [layoutOf, hsize] at hstart
    case pos =>
      rw [layoutOf, if_pos hsize, Option.mem_some] at hstart
      exact mem_headerRegionsBy.mpr (.inr (.inl ⟨hsize, by rw [hstart]⟩))
  exefs_only := by
    intro reg hreg htype
    rcases List.mem_append.mp hreg with hbase | hsection
    · rcases mem_headerRegionsBy.mp hbase with ⟨-, rfl⟩ | ⟨hsize, rfl⟩ | ⟨-, rfl⟩
      · exact absurd htype RegionType.noConfusion
      · exact ⟨_, if_pos hsize, rfl⟩
      · exact absurd htype RegionType.noConfusion
    · obtain ⟨-, -, -, -, hne⟩ := mem_sections hsection
      exact absurd htype hne
  sections_behind := by
    intro start hstart reg hreg
    obtain ⟨start', hstart', -, hle, -⟩ := mem_sections hreg
    obtain rfl := Option.mem_unique hstart hstart'
    exact hle

theorem ok_plainLayout : plainLayout.Ok env s where
  apart := List.Pairwise.nil
  seek := fun _ hreg => absurd hreg List.not_mem_nil
  exefs_mem := fun _ hstart => absurd hstart (Option.not_mem_none _)
  exefs_only := fun _ hreg => absurd hreg List.not_mem_nil
  sections_behind := fun _ hstart => absurd hstart (Option.not_mem_none _)

/-! ## The file as specified -/

theorem byteAt_plain {L : Layout} {p : Nat} (hp : p < s.length) :
    byteAt (L.plain env s) p = L.plainByte env s p (byteAt s p) := by
  rw [byteAt_eq_getElem hp, byteAt_eq_getElem (by rwa [Layout.plain, List.length_mapIdx])]
  simp only [Layout.plain, List.getElem_mapIdx]

theorem deciphered_plain {L : Layout} (hok : L.Ok env s)
    (hbehind : ∀ reg ∈ L.parts env s, ncchHeaderSize ≤ reg.offset)
    (hlen : ncchHeaderSize ≤ s.length) :
    Deciphered env L.keys (L.parts env s) s (L.plain env s) where
  length := List.length_mapIdx
  flag := by
    have hsize : ncchHeaderSize = 0x200 := rfl
    rw [byteAt_plain (by omega)]
    rfl
  inside := by
    intro reg hreg p hp hcovers
    rw [byteAt_plain hp,
      Layout.plainByte_of_covers hok ((hbehind reg hreg).trans hcovers.1) hreg hcovers]
  outside := by
    intro p hp hflag hclear
    rw [byteAt_plain hp]
    by_cases hheader : ncchHeaderSize ≤ p
    · exact Layout.plainByte_of_clear hheader hclear _
    · rw [Layout.plainByte, if_pos (Nat.lt_of_not_le hheader), if_neg hflag]

/-- A flag that is set stays as it is. -/
theorem or_four_eq_self {b : UInt8} (h : b.toNat.testBit 2 = true) : b ||| 4 = b := by
  apply UInt8.toNat_inj.mp
  rw [UInt8.toNat_or]
  apply Nat.eq_of_testBit_eq
  intro i
  have hfour : (4 : UInt8).toNat = 2 ^ 2 := rfl
  rw [Nat.testBit_or, hfour]
  by_cases hi : 2 = i
  · subst hi
    rw [h, Bool.true_or]
  · rw [Nat.testBit_two_pow_of_ne hi, Bool.or_false]

theorem byteAt_headerOf {p : Nat} (hp : p < ncchHeaderSize) : byteAt (headerOf s) p = byteAt s p := by
  simp only [byteAt, headerOf, List.getD_eq_getElem?_getD, List.getElem?_take_of_lt hp]

theorem plain_plainLayout (h : (headerOf s).noCrypto = true) : plainLayout.plain env s = s := by
  rw [NCCHHeader.noCrypto, byteAt_headerOf (by decide)] at h
  refine ext_byteAt List.length_mapIdx fun p hp => ?_
  rw [Layout.plain, List.length_mapIdx] at hp
  rw [byteAt_plain hp, Layout.plainByte]
  split
  · split
    · next hflag => rw [hflag, or_four_eq_self h]
    · rfl
  · rfl

/-! ## The calls -/

/-- The file after the first `n` bytes of a content with this layout. -/
def streamAt (env : NcchEnv) (L : Layout) (authorized : Bool) (s : List UInt8) (n : Nat) :
    NCCHCryptoFile :=
  if n < ncchHeaderSize then { NCCHCryptoFile.fresh authorized with ncchHeader := s.take n }
  else if (headerOf s).magic ≠ ncchMagic then
    { NCCHCryptoFile.fresh authorized with
      ncchHeader := headerOf s
      isNotNcch := true
      file := s.take n }
  else L.bodyAt env s authorized (!(headerOf s).noCrypto) n

/-- The layout is what the code finds in the header. -/
structure LayoutFits (env : NcchEnv) (authorized : Bool) (L : Layout) (s : List UInt8) : Prop where
  ok : L.Ok env s
  behind : ∀ reg ∈ L.parts env s, ncchHeaderSize ≤ reg.offset
  plain : (headerOf s).noCrypto = true → L = plainLayout
  encrypted : (headerOf s).noCrypto = false → authorized = true ∧
    findSectionKeys env (headerOf s) = some L.keys ∧ L = layoutOf L.keys s

theorem LayoutFits.base {authorized : Bool} {L : Layout} (h : LayoutFits env authorized L s)
    (hcrypto : (!(headerOf s).noCrypto) = false) : L.base = [] ∧ L.exefs = none := by
  rw [h.plain (by simpa using hcrypto)]
  exact ⟨rfl, rfl⟩

variable (env) in
/-- The header is written with its flag set. -/
theorem take_plain_header (L : Layout) (hlen : ncchHeaderSize ≤ s.length) :
    (L.plain env s).take ncchHeaderSize = (headerOf s).withNoCrypto := by
  have hsize : ncchHeaderSize = 0x200 := rfl
  have hheader : (headerOf s).length = ncchHeaderSize := by
    rw [headerOf, List.length_take, Nat.min_eq_left hlen]
  refine ext_byteAt ?_ fun p hp => ?_
  · simp [Layout.plain, NCCHHeader.withNoCrypto, hheader, Nat.min_eq_left hlen]
  · rw [List.length_take, Layout.plain, List.length_mapIdx, Nat.min_eq_left hlen] at hp
    have htake : byteAt ((L.plain env s).take ncchHeaderSize) p = byteAt (L.plain env s) p := by
      simp only [byteAt, List.getD_eq_getElem?_getD, List.getElem?_take_of_lt hp]
    rw [htake, byteAt_plain (by omega), Layout.plainByte, if_pos hp, NCCHHeader.withNoCrypto,
      byteAt_set (by omega), byteAt_headerOf hp]
    by_cases hflag : p = 0x18F
    · rw [if_pos hflag, if_pos hflag, hflag, byteAt_headerOf (by decide)]
    · rw [if_neg hflag, if_neg hflag]

/-- The complete header takes the file to the body. -/
theorem parseHeader_bodyAt {authorized : Bool} {L : Layout} (h : LayoutFits env authorized L s)
    (hlen : ncchHeaderSize ≤ s.length) (hmagic : (headerOf s).magic = ncchMagic) :
    { NCCHCryptoFile.fresh authorized with ncchHeader := headerOf s }.parseHeader env =
      L.bodyAt env s authorized (!(headerOf s).noCrypto) ncchHeaderSize := by
  have hheader : (headerOf s).length = ncchHeaderSize := by
    rw [headerOf, List.length_take, Nat.min_eq_left hlen]
  have hfile := take_plain_header env L hlen
  have hstart : ∀ start ∈ L.exefs, ncchHeaderSize ≤ start := fun start hstart =>
    h.behind (exefsRegion start) (List.mem_append_left _ (h.ok.exefs_mem start hstart))
  have hpassed : L.passed ncchHeaderSize = false := by
    unfold Layout.passed
    cases hexefs : L.exefs with
    | none => rfl
    | some start =>
      have := hstart start hexefs
      have hsize : exefsHeaderSize = 0x200 := rfl
      exact decide_eq_false (by omega)
  have hgathered : L.gathered env s ncchHeaderSize = [] := by
    unfold Layout.gathered
    cases hexefs : L.exefs with
    | none => rfl
    | some start =>
      show List.take _ _ = _
      rw [Nat.sub_eq_zero_of_le (hstart start hexefs), List.take_zero]
  have hknown : L.known env s ncchHeaderSize = L.base := by
    simp [Layout.known, hpassed]
  have hwritten : (headerOf s).withNoCrypto.length = ncchHeaderSize := by
    rw [NCCHHeader.withNoCrypto, List.length_set, hheader]
  rw [NCCHCryptoFile.parseHeader, if_neg (not_not.mpr hmagic), Layout.bodyAt, hknown, hgathered,
    hpassed, hfile]
  cases hcrypto : (headerOf s).noCrypto with
  | true =>
    obtain rfl := h.plain hcrypto
    simp only [if_true, NCCHCryptoFile.writeHeader, NCCHCryptoFile.writeBytes, hwritten]
    rfl
  | false =>
    obtain ⟨rfl, hkeys, hlayout⟩ := h.encrypted hcrypto
    have hbase : headerRegions (headerOf s) = L.base := by rw [hlayout]; rfl
    simp only [NCCHCryptoFile.fresh, Bool.not_true, Bool.false_eq_true, if_false, hkeys,
      NCCHCryptoFile.writeHeader, NCCHCryptoFile.writeBytes, hwritten, hbase, List.nil_append]
    simp [headerOf]

variable {authorized : Bool} {L : Layout} {n : Nat} {piece : List UInt8}

theorem PieceAt.take_append_all (h : PieceAt s n piece) :
    s.take n ++ piece = s.take (n + piece.length) := by
  have htake := h.take_append (Nat.le_refl piece.length)
  rwa [List.take_length] at htake

variable (authorized) in
/-- The bytes of a call that complete the header. -/
theorem collectHeader_take (hn : n < ncchHeaderSize) (hlen : n ≤ s.length) (hpiece : PieceAt s n piece) :
    { NCCHCryptoFile.fresh authorized with ncchHeader := s.take n }.collectHeader piece =
      { NCCHCryptoFile.fresh authorized with
        ncchHeader := s.take (min (n + piece.length) ncchHeaderSize) } := by
  have htake : s.take n ++ piece.take (ncchHeaderSize - n) =
      s.take (min (n + piece.length) ncchHeaderSize) := by
    have hsome : piece.take (ncchHeaderSize - n) =
        piece.take (min (ncchHeaderSize - n) piece.length) := List.take_eq_take_min
    rw [hsome, hpiece.take_append (Nat.min_le_right _ _)]
    congr 1
    omega
  simp only [NCCHCryptoFile.collectHeader, List.length_take, Nat.min_eq_left hlen, htake]

/-- A call takes the file from the state after a prefix of the content to that after a longer
one. -/
theorem write_streamAt (h : (headerOf s).magic = ncchMagic → LayoutFits env authorized L s)
    (hlen : ncchHeaderSize ≤ s.length) (hpiece : PieceAt s n piece) :
    (streamAt env L authorized s n).write env piece =
      streamAt env L authorized s (n + piece.length) := by
  by_cases hn : n < ncchHeaderSize
  case pos =>
    have hcollect := collectHeader_take authorized hn (by omega) hpiece
    have hheader : (s.take n).length = n := by
      rw [List.length_take, Nat.min_eq_left (by omega)]
    have hstate : streamAt env L authorized s n =
        { NCCHCryptoFile.fresh authorized with ncchHeader := s.take n } := if_pos hn
    rw [hstate, NCCHCryptoFile.write, if_neg (by simp [NCCHCryptoFile.fresh]),
      if_neg (by simp [NCCHCryptoFile.fresh])]
    simp only [hcollect, hheader]
    by_cases hfull : n + piece.length < ncchHeaderSize
    case pos =>
      have hnone : piece.drop (ncchHeaderSize - n) = [] := List.drop_eq_nil_iff.mpr (by omega)
      have hpart : (s.take (min (n + piece.length) ncchHeaderSize)).length ≠ ncchHeaderSize := by
        rw [List.length_take]
        omega
      rw [if_neg (fun hand => hpart hand.2), hnone, NCCHCryptoFile.writeLoop, dif_pos rfl, streamAt,
        if_pos hfull, Nat.min_eq_left (Nat.le_of_lt hfull)]
    case neg =>
      have hmin : min (n + piece.length) ncchHeaderSize = ncchHeaderSize := by omega
      have hall : (s.take ncchHeaderSize).length = ncchHeaderSize := by
        rw [List.length_take, Nat.min_eq_left hlen]
      have hrest := hpiece.drop (ncchHeaderSize - n) (by omega)
      rw [Nat.add_sub_cancel' (Nat.le_of_lt hn)] at hrest
      have hend : ncchHeaderSize + (piece.drop (ncchHeaderSize - n)).length = n + piece.length := by
        rw [List.length_drop]
        omega
      rw [hmin, if_pos ⟨rfl, hall⟩]
      by_cases hmagic : (headerOf s).magic = ncchMagic
      case pos =>
        have hparse := parseHeader_bodyAt (h hmagic) hlen hmagic
        rw [headerOf] at hparse
        rw [hparse, if_neg (by simp [Layout.bodyAt, NCCHCryptoFile.fresh]),
          if_neg (by simp [Layout.bodyAt, NCCHCryptoFile.fresh])]
        have hloop := Layout.writeLoop_bodyAt authorized (h hmagic).ok (h hmagic).base
          (Nat.le_refl _) hrest
        rw [headerOf] at hloop
        rw [hloop, hend, streamAt, if_neg hfull, if_neg (not_not.mpr hmagic), headerOf]
      case neg =>
        have hparse : { NCCHCryptoFile.fresh authorized with
              ncchHeader := s.take ncchHeaderSize }.parseHeader env =
            { NCCHCryptoFile.fresh authorized with
              ncchHeader := s.take ncchHeaderSize
              isNotNcch := true
              file := s.take ncchHeaderSize } := if_pos hmagic
        rw [hparse, if_pos rfl, streamAt, if_neg hfull, if_pos hmagic, ← hend,
          ← PieceAt.take_append_all hrest]
        rfl
  case neg =>
    by_cases hmagic : (headerOf s).magic = ncchMagic
    case pos =>
      have hstate : ∀ {m : Nat}, ¬ m < ncchHeaderSize → streamAt env L authorized s m =
          L.bodyAt env s authorized (!(headerOf s).noCrypto) m := by
        intro m hm
        rw [streamAt, if_neg hm, if_neg (not_not.mpr hmagic)]
      have hheader : (s.take ncchHeaderSize).length = ncchHeaderSize := by
        rw [List.length_take, Nat.min_eq_left hlen]
      have hcollect : (L.bodyAt env s authorized (!(headerOf s).noCrypto) n).collectHeader piece =
          L.bodyAt env s authorized (!(headerOf s).noCrypto) n := by
        simp [NCCHCryptoFile.collectHeader, Layout.bodyAt, hheader]
      have hdrop : piece.drop (ncchHeaderSize -
          (L.bodyAt env s authorized (!(headerOf s).noCrypto) n).ncchHeader.length) = piece := by
        simp [Layout.bodyAt, hheader]
      rw [hstate hn, hstate (by omega), NCCHCryptoFile.write,
        if_neg (by simp [Layout.bodyAt, NCCHCryptoFile.fresh]),
        if_neg (by simp [Layout.bodyAt, NCCHCryptoFile.fresh])]
      simp only [hcollect, hdrop]
      rw [if_neg (by simp [Layout.bodyAt])]
      exact Layout.writeLoop_bodyAt authorized (h hmagic).ok (h hmagic).base (Nat.le_of_not_lt hn) hpiece
    case neg =>
      rw [streamAt, if_neg hn, if_pos hmagic, NCCHCryptoFile.write,
        if_neg (by simp [NCCHCryptoFile.fresh]), if_pos rfl, streamAt,
        if_neg (by omega : ¬ n + piece.length < ncchHeaderSize), if_pos hmagic,
        ← PieceAt.take_append_all hpiece]

/-- The layout that the code finds. -/
theorem exists_layoutFits (h : Installable env authorized s)
    (hlen : ncchHeaderSize ≤ s.length) (hmagic : (headerOf s).magic = ncchMagic) :
    ∃ L : Layout, LayoutFits env authorized L s ∧ Streamed env s (L.plain env s) := by
  rcases h with hplain | ⟨hauthorized, keys, hkeys, hplaced⟩
  case inl =>
    have hcrypto := hplain.resolve_left (not_not.mpr hmagic)
    refine ⟨plainLayout, ⟨ok_plainLayout, fun _ hreg => absurd hreg List.not_mem_nil, fun _ => rfl,
      fun hno => absurd hcrypto (by simp [hno])⟩, ?_⟩
    rw [Streamed, if_pos hplain, plain_plainLayout hcrypto]
  case inr =>
    by_cases hcrypto : (headerOf s).noCrypto = true
    case pos =>
      refine ⟨plainLayout, ⟨ok_plainLayout, fun _ hreg => absurd hreg List.not_mem_nil, fun _ => rfl,
        fun hno => absurd hcrypto (by simp [hno])⟩, ?_⟩
      rw [Streamed, if_pos (.inr hcrypto), plain_plainLayout hcrypto]
    case neg =>
      have hok := ok_layoutOf hplaced
      have hparts := parts_layoutOf hplaced
      have hbehind : ∀ reg ∈ (layoutOf keys s).parts env s, ncchHeaderSize ≤ reg.offset :=
        fun reg hreg => (hplaced.2 reg (hparts ▸ hreg)).1
      refine ⟨layoutOf keys s, ⟨hok, hbehind, fun hyes => absurd hyes hcrypto,
        fun _ => ⟨hauthorized, hkeys, rfl⟩⟩, ?_⟩
      rw [Streamed, if_neg (fun hplain => hplain.elim (fun hno => hno hmagic) hcrypto)]
      refine ⟨keys, hkeys, ?_⟩
      rw [← hparts]
      exact deciphered_plain hok hbehind hlen

end Streams

/-- What is written for a content that may be decrypted and whose regions are well placed does not
depend on how its bytes are split into calls. -/
theorem write_streamed (env : NcchEnv) (authorized : Bool) {s : List UInt8}
    (hlen : ncchHeaderSize ≤ s.length) (h : Installable env authorized s)
    {pieces : List (List UInt8)} (hpieces : pieces.flatten = s) :
    Streamed env s
      (pieces.foldl (NCCHCryptoFile.write env) (NCCHCryptoFile.fresh authorized)).file := by
  have hsize : ncchHeaderSize = 0x200 := rfl
  have hrun : ∀ L : Layout, ((headerOf s).magic = ncchMagic → LayoutFits env authorized L s) →
      pieces.foldl (NCCHCryptoFile.write env) (NCCHCryptoFile.fresh authorized) =
        streamAt env L authorized s s.length :=
    fun L hL => foldl_pieces (fun _ _ hpiece => write_streamAt hL hlen hpiece) hpieces
  by_cases hmagic : (headerOf s).magic = ncchMagic
  case pos =>
    obtain ⟨L, hL, hstreamed⟩ := exists_layoutFits h hlen hmagic
    rw [hrun L fun _ => hL, streamAt, if_neg (by omega), if_neg (not_not.mpr hmagic)]
    have hfile : (L.plain env s).take s.length = L.plain env s :=
      List.take_of_length_le (Nat.le_of_eq List.length_mapIdx)
    rw [Layout.bodyAt, hfile]
    exact hstreamed
  case neg =>
    rw [hrun plainLayout fun hyes => absurd hyes hmagic, streamAt, if_neg (by omega), if_pos hmagic,
      Streamed, if_pos (.inl hmagic)]
    exact List.take_length

/-! ## Examples of contents -/

/-- An environment without key slots whose keystream is `0x5A` throughout. -/
def sampleEnv : NcchEnv :=
  { keyX := fun _ => none, generatorConstant := fun _ => 0, getSeed := fun _ => none
    sha256 := fun data => data, keystream := fun _ _ _ => 0x5A }

/-- The header of an NCCH of version 0 with fixed keys, and some of its numbers. -/
def sampleHeader (numbers : List (Nat × UInt8)) : NCCHHeader :=
  ([(0x100, 0x4E), (0x101, 0x43), (0x102, 0x43), (0x103, 0x48), (0x18F, 1)] ++ numbers).foldl
    (fun header (number : Nat × UInt8) => header.set number.1 number.2) (List.replicate 0x200 0)

/-- The keys and counters of such an NCCH. -/
def sampleKeys (s : List UInt8) : SectionKeys :=
  ⟨fun _ => 0, fun _ => 0, numberedCtr (headerOf s) 1, numberedCtr (headerOf s) 2,
    numberedCtr (headerOf s) 3⟩

theorem findSectionKeys_sample {s : List UInt8} (hfixed : (headerOf s).fixedKey = true)
    (hversion : (headerOf s).version = 0) :
    findSectionKeys sampleEnv (headerOf s) = some (sampleKeys s) := by
  simp [findSectionKeys, NcchEnv.findKeys, hfixed, findCtrs, hversion, sampleKeys]

/-- A content with an ExeFS of one section of four bytes. -/
def sampleContent : List UInt8 :=
  sampleHeader [(0x1A0, 1), (0x1A4, 2)] ++
    (List.replicate 0x200 (0x5A : UInt8)).set 12 (4 ^^^ 0x5A) ++ [1, 2, 3, 4]

theorem write_streamed_sample :
    Streamed sampleEnv sampleContent
      ([sampleContent.take 0x123, (sampleContent.drop 0x123).take 0x200,
          sampleContent.drop 0x323].foldl (NCCHCryptoFile.write sampleEnv)
        (NCCHCryptoFile.fresh true)).file :=
  write_streamed sampleEnv true (by decide +kernel)
    (.inr ⟨rfl, sampleKeys sampleContent,
      findSectionKeys_sample (by decide +kernel) (by decide +kernel), by decide +kernel⟩)
    (by decide +kernel)

/-- Every content with known version, available keys and disjoint regions below 4 GiB is streamed. -/
def StreamsAll (authorized : Bool) : Prop :=
  ∀ (env : NcchEnv) (s : List UInt8), ncchHeaderSize ≤ s.length →
    (IsPlain s ∨ ∃ keys ∈ findSectionKeys env (headerOf s),
      RegionsApart (contentRegions env keys s) ∧
        ∀ reg ∈ contentRegions env keys s, reg.stop ≤ 2 ^ 32) →
    ∀ pieces : List (List UInt8), pieces.flatten = s →
      Streamed env s
        (pieces.foldl (NCCHCryptoFile.write env) (NCCHCryptoFile.fresh authorized)).file

/-- A call with the header only. -/
theorem write_header {env : NcchEnv} {authorized : Bool} {header : NCCHHeader}
    (hlen : header.length = ncchHeaderSize) :
    (NCCHCryptoFile.fresh authorized).write env header =
      { NCCHCryptoFile.fresh authorized with ncchHeader := header }.parseHeader env := by
  have hdrop : header.drop (ncchHeaderSize - 0) = [] := List.drop_eq_nil_iff.mpr (by omega)
  have htake : header.take (ncchHeaderSize - 0) = header := List.take_of_length_le (by omega)
  have hcollect : (NCCHCryptoFile.fresh authorized).collectHeader header =
      { NCCHCryptoFile.fresh authorized with ncchHeader := header } := by
    simp only [NCCHCryptoFile.collectHeader, NCCHCryptoFile.fresh, List.length_nil, htake,
      List.nil_append]
  have hloop : ∀ f : NCCHCryptoFile, f.writeLoop env [] = f := fun f => by
    rw [NCCHCryptoFile.writeLoop, dif_pos rfl]
  rw [NCCHCryptoFile.write, if_neg (by simp [NCCHCryptoFile.fresh]),
    if_neg (by simp [NCCHCryptoFile.fresh]), hcollect]
  have hrest : header.drop (ncchHeaderSize -
      (NCCHCryptoFile.fresh authorized).ncchHeader.length) = [] := hdrop
  simp only [hrest, hloop, ite_self, List.append_nil]
  rw [if_pos ⟨rfl, hlen⟩]

/-- Without authorization nothing is written, and a RomFS over the header is not deciphered. -/
theorem not_streamsAll : ¬ StreamsAll false ∧ ¬ StreamsAll true := by
  constructor
  case left =>
    intro h
    have hstreamed := h sampleEnv (sampleHeader []) (by decide +kernel)
      (.inr ⟨sampleKeys _, findSectionKeys_sample (by decide +kernel) (by decide +kernel),
        by decide +kernel⟩) [sampleHeader []] (by decide +kernel)
    rw [List.foldl_cons, List.foldl_nil, write_header (by decide +kernel),
      Streamed, if_neg (by decide +kernel)] at hstreamed
    obtain ⟨keys, -, hlength, -⟩ := hstreamed
    exact absurd hlength (by decide +kernel)
  case right =>
    intro h
    have hkeys := findSectionKeys_sample (s := sampleHeader [(0x1B4, 1)]) (by decide +kernel)
      (by decide +kernel)
    have hstreamed := h sampleEnv (sampleHeader [(0x1B4, 1)]) (by decide +kernel)
      (.inr ⟨sampleKeys _, hkeys, by decide +kernel⟩) [sampleHeader [(0x1B4, 1)]] (by decide +kernel)
    rw [List.foldl_cons, List.foldl_nil, write_header (by decide +kernel),
      Streamed, if_neg (by decide +kernel)] at hstreamed
    obtain ⟨keys, hfound, -, -, hinside, -⟩ := hstreamed
    obtain rfl : sampleKeys (sampleHeader [(0x1B4, 1)]) = keys := by
      rw [hkeys] at hfound
      exact Option.some.inj hfound
    have hbyte := hinside ⟨.romfs, 0, 0x200, 0⟩ (by decide +kernel) 0 (by decide +kernel)
      (by decide +kernel)
    revert hbyte
    decide +kernel

end AzaharPlus.Service.Ncch
