import AzaharPlus.FileSys.Patch
import Mathlib.Logic.Relation

/-!
# What a patch makes the code read

Which files make `ApplyIpsPatch` and `ApplyBpsPatch` leave their buffers, and which do not.  The
positions at which the records of an IPS file and the commands of a BPS file stand depend on the
numbers in the file and on the size of the buffer only; `nextRecord` and `nextPlace` follow them
without a look at what is copied.

* `ipsRecords_isSome` — the loop over the records stays inside exactly if every record it comes to
  is complete.
* `runCommands_isSome` — the loop over the commands stays inside exactly if no `TargetCopy` that it
  comes to starts before the target.
* `patches_inside` — both functions, for every file and every buffer.
-/

namespace AzaharPlus.FileSys.Patch

open Bytes

/-! ## The records of an IPS file -/

/-- Where the record at a position writes to. -/
def recordOffset (ips : List UInt8) (cursor : Nat) : Nat := beValue (slice ips cursor 3)

/-- How many bytes the record at a position brings; none if it is a run. -/
def recordLength (ips : List UInt8) (cursor : Nat) : Nat := beValue (slice ips (cursor + 3) 2)

/-- How long the run at a position is. -/
def runLength (ips : List UInt8) (cursor : Nat) : Nat := beValue (slice ips (cursor + 5) 2)

/-- The record at a position is all there, as far as it is needed: its data only if they fit into
the buffer, the value of a run only if the run is not empty. -/
structure Complete (ips : List UInt8) (size cursor : Nat) : Prop where
  head : cursor + 5 ≤ ips.length
  data : recordLength ips cursor ≠ 0 → recordOffset ips cursor + recordLength ips cursor ≤ size →
    cursor + 5 + recordLength ips cursor ≤ ips.length
  runHead : recordLength ips cursor = 0 → cursor + 7 ≤ ips.length
  value : recordLength ips cursor = 0 → runLength ips cursor ≠ 0 →
    recordOffset ips cursor + runLength ips cursor ≤ size → cursor + 8 ≤ ips.length

/-- Where the record after the one at a position starts, if the code goes on to it. -/
def nextRecord (ips : List UInt8) (size cursor : Nat) : Option Nat :=
  if slice ips cursor 3 = ipsEof then none
  else if recordLength ips cursor = 0 then
    if size < recordOffset ips cursor + runLength ips cursor then none else some (cursor + 8)
  else if size < recordOffset ips cursor + recordLength ips cursor then none
  else some (cursor + (recordLength ips cursor + 5))

/-- The code comes from one position to another. -/
def RecordsTo (ips : List UInt8) (patchLength size : Nat) : Nat → Nat → Prop :=
  Relation.ReflTransGen fun cursor cursor' =>
    cursor < patchLength ∧ nextRecord ips size cursor = some cursor'

/-- Every record that the code comes to is complete. -/
def RecordsComplete (ips : List UInt8) (patchLength size start : Nat) : Prop :=
  ∀ cursor, RecordsTo ips patchLength size start cursor → cursor < patchLength →
    slice ips cursor 3 ≠ ipsEof → Complete ips size cursor

theorem recordsComplete_iff {ips : List UInt8} {patchLength size start : Nat} :
    RecordsComplete ips patchLength size start ↔
      (start < patchLength → slice ips start 3 ≠ ipsEof → Complete ips size start) ∧
      (start < patchLength → ∀ cursor, nextRecord ips size start = some cursor →
        RecordsComplete ips patchLength size cursor) := by
  constructor
  · intro h
    refine ⟨h start Relation.ReflTransGen.refl, fun hstart cursor hnext last hlast => ?_⟩
    exact h last (Relation.ReflTransGen.head ⟨hstart, hnext⟩ hlast)
  · rintro ⟨hfirst, hrest⟩ cursor hcursor
    rcases Relation.ReflTransGen.cases_head hcursor with rfl | ⟨next, ⟨hstart, hnext⟩, hto⟩
    · exact hfirst
    · exact hrest hstart next hnext cursor hto

theorem nextRecord_gt {ips : List UInt8} {size cursor cursor' : Nat}
    (h : nextRecord ips size cursor = some cursor') : cursor < cursor' := by
  unfold nextRecord at h
  split at h
  · cases h
  · split at h
    · split at h
      · cases h
      · cases h
        omega
    · split at h
      · cases h
      · cases h
        omega

theorem readBE_eq {ips : List UInt8} {offset n : Nat} (h : offset + n ≤ ips.length) :
    readBE ips offset n = some (beValue (slice ips offset n)) := by
  rw [readBE, checkedSlice_eq h]
  rfl

theorem readBE_eq_none {ips : List UInt8} {offset n : Nat} (h : ¬ offset + n ≤ ips.length) :
    readBE ips offset n = none := by
  rw [readBE, checkedSlice, if_neg h]
  rfl

/-- A run fills the block that it is for. -/
theorem fillRun_eq {ips buffer : List UInt8} {value offset length : Nat} {v : UInt8}
    (hv : ips[value]? = some v) (h : offset + length ≤ buffer.length) :
    fillRun ips value offset length buffer =
      some (memcpy buffer offset (List.replicate length v)) := by
  induction length generalizing offset buffer with
  | zero => simp [fillRun, memcpy]
  | succ length ih =>
    have hset : offset < buffer.length := by omega
    simp only [fillRun, hv, Option.bind_some, checkedSet_eq v hset]
    rw [ih (by rw [List.length_set]; omega)]
    rw [memcpy_set v hset, List.replicate_succ]

/-- A run whose value is behind the end of the file reads it there. -/
theorem fillRun_eq_none {ips buffer : List UInt8} {value offset length : Nat}
    (hv : ips.length ≤ value) (h : 0 < length) :
    fillRun ips value offset length buffer = none := by
  cases length with
  | zero => exact absurd h (Nat.lt_irrefl 0)
  | succ length =>
    rw [fillRun, List.getElem?_eq_none hv]
    rfl

/-- What the loop does at a run. -/
theorem ipsRecords_run {ips : List UInt8} (buffer : List UInt8) {patchLength cursor : Nat}
    (hlt : cursor < patchLength) (heof : slice ips cursor 3 ≠ ipsEof) (hhead : cursor + 7 ≤ ips.length)
    (hzero : recordLength ips cursor = 0) :
    ipsRecords ips patchLength cursor buffer =
      if buffer.length < recordOffset ips cursor + runLength ips cursor then some (false, buffer)
      else
        (fillRun ips (cursor + 7) (recordOffset ips cursor) (runLength ips cursor) buffer).bind
          fun buffer => ipsRecords ips patchLength (cursor + 8) buffer := by
  have hlength : beValue (slice ips (cursor + 3) 2) = 0 := hzero
  rw [ipsRecords, if_pos hlt, checkedSlice_eq (by omega), Option.bind_some, if_neg heof,
    readBE_eq (by omega), Option.bind_some, readBE_eq (by omega), Option.bind_some,
    if_pos hlength, readBE_eq (by omega), Option.bind_some]
  rfl

/-- What the loop does at a record that brings bytes. -/
theorem ipsRecords_data {ips : List UInt8} (buffer : List UInt8) {patchLength cursor : Nat}
    (hlt : cursor < patchLength) (heof : slice ips cursor 3 ≠ ipsEof) (hhead : cursor + 5 ≤ ips.length)
    (hpos : recordLength ips cursor ≠ 0) :
    ipsRecords ips patchLength cursor buffer =
      if buffer.length < recordOffset ips cursor + recordLength ips cursor then
        some (false, buffer)
      else
        (checkedSlice ips (cursor + 5) (recordLength ips cursor)).bind fun data =>
          (checkedCopy buffer (recordOffset ips cursor) data).bind fun buffer =>
            ipsRecords ips patchLength (cursor + (recordLength ips cursor + 5)) buffer := by
  have hlength : beValue (slice ips (cursor + 3) 2) ≠ 0 := hpos
  rw [ipsRecords, if_pos hlt, checkedSlice_eq (by omega), Option.bind_some, if_neg heof,
    readBE_eq (by omega), Option.bind_some, readBE_eq (by omega), Option.bind_some,
    if_neg hlength]
  rfl

/-- What one turn of the loop comes to: the record is not complete and the code reads behind the
end of the file; or the code ends there; or it goes on to the next record, with a buffer of the
same size. -/
def TurnOutcome (ips buffer : List UInt8) (patchLength cursor : Nat) : Prop :=
  (¬ Complete ips buffer.length cursor ∧ ipsRecords ips patchLength cursor buffer = none) ∨
  Complete ips buffer.length cursor ∧
    ((nextRecord ips buffer.length cursor = none ∧
        ipsRecords ips patchLength cursor buffer = some (false, buffer)) ∨
      ∃ cursor' buffer', nextRecord ips buffer.length cursor = some cursor' ∧
        buffer'.length = buffer.length ∧
        ipsRecords ips patchLength cursor buffer = ipsRecords ips patchLength cursor' buffer')

theorem outcome_run {ips buffer : List UInt8} {patchLength cursor : Nat}
    (hlt : cursor < patchLength) (heof : slice ips cursor 3 ≠ ipsEof)
    (hhead : cursor + 7 ≤ ips.length) (hzero : recordLength ips cursor = 0) :
    TurnOutcome ips buffer patchLength cursor := by
  have hturn := ipsRecords_run buffer hlt heof hhead hzero
  have hnext : nextRecord ips buffer.length cursor =
      if buffer.length < recordOffset ips cursor + runLength ips cursor then none
      else some (cursor + 8) := by
    rw [nextRecord, if_neg heof, if_pos hzero]
  have hcomplete (h : runLength ips cursor ≠ 0 →
      recordOffset ips cursor + runLength ips cursor ≤ buffer.length → cursor + 8 ≤ ips.length) :
      Complete ips buffer.length cursor :=
    ⟨by omega, fun hpos => absurd hzero hpos, fun _ => hhead, fun _ => h⟩
  by_cases hfits : buffer.length < recordOffset ips cursor + runLength ips cursor
  · rw [if_pos hfits] at hturn hnext
    exact Or.inr ⟨hcomplete fun _ _ => by omega, Or.inl ⟨hnext, hturn⟩⟩
  · rw [if_neg hfits] at hturn hnext
    by_cases hempty : runLength ips cursor = 0
    · rw [hempty, fillRun, Option.bind_some] at hturn
      exact Or.inr ⟨hcomplete fun h => absurd hempty h, Or.inr ⟨_, _, hnext, rfl, hturn⟩⟩
    · by_cases hvalue : cursor + 8 ≤ ips.length
      · have hv : ips[cursor + 7]? = some ips[cursor + 7] := List.getElem?_eq_getElem (by omega)
        rw [fillRun_eq hv (by omega), Option.bind_some] at hturn
        exact Or.inr ⟨hcomplete fun _ _ => hvalue, Or.inr ⟨_, _, hnext,
          length_memcpy (by rw [List.length_replicate]; omega), hturn⟩⟩
      · rw [fillRun_eq_none (by omega) (by omega)] at hturn
        exact Or.inl ⟨fun h => hvalue (h.value hzero hempty (by omega)), hturn⟩

theorem outcome_data {ips buffer : List UInt8} {patchLength cursor : Nat}
    (hlt : cursor < patchLength) (heof : slice ips cursor 3 ≠ ipsEof)
    (hhead : cursor + 5 ≤ ips.length) (hpos : recordLength ips cursor ≠ 0) :
    TurnOutcome ips buffer patchLength cursor := by
  have hturn := ipsRecords_data buffer hlt heof hhead hpos
  have hnext : nextRecord ips buffer.length cursor =
      if buffer.length < recordOffset ips cursor + recordLength ips cursor then none
      else some (cursor + (recordLength ips cursor + 5)) := by
    rw [nextRecord, if_neg heof, if_neg hpos]
  have hcomplete (h : recordOffset ips cursor + recordLength ips cursor ≤ buffer.length →
      cursor + 5 + recordLength ips cursor ≤ ips.length) : Complete ips buffer.length cursor :=
    ⟨hhead, fun _ => h, fun hzero => absurd hzero hpos, fun hzero => absurd hzero hpos⟩
  by_cases hfits : buffer.length < recordOffset ips cursor + recordLength ips cursor
  · rw [if_pos hfits] at hturn hnext
    exact Or.inr ⟨hcomplete fun _ => by omega, Or.inl ⟨hnext, hturn⟩⟩
  · rw [if_neg hfits] at hturn hnext
    by_cases hdata : cursor + 5 + recordLength ips cursor ≤ ips.length
    · have hcopy : recordOffset ips cursor +
          (slice ips (cursor + 5) (recordLength ips cursor)).length ≤ buffer.length := by
        rw [length_slice hdata]
        omega
      rw [checkedSlice_eq hdata, Option.bind_some, checkedCopy_eq hcopy, Option.bind_some]
        at hturn
      exact Or.inr ⟨hcomplete fun _ => hdata, Or.inr ⟨_, _, hnext, length_memcpy hcopy, hturn⟩⟩
    · rw [checkedSlice, if_neg hdata] at hturn
      exact Or.inl ⟨fun h => hdata (h.data hpos (by omega)), hturn⟩

theorem outcome {ips : List UInt8} (buffer : List UInt8) {patchLength cursor : Nat}
    (hlt : cursor < patchLength) (hips : patchLength + 3 ≤ ips.length)
    (heof : slice ips cursor 3 ≠ ipsEof) : TurnOutcome ips buffer patchLength cursor := by
  by_cases hhead : cursor + 5 ≤ ips.length
  · by_cases hpos : recordLength ips cursor = 0
    · by_cases hrun : cursor + 7 ≤ ips.length
      · exact outcome_run hlt heof hrun hpos
      · refine Or.inl ⟨fun h => hrun (h.runHead hpos), ?_⟩
        have hlength : beValue (slice ips (cursor + 3) 2) = 0 := hpos
        rw [ipsRecords, if_pos hlt, checkedSlice_eq (by omega), Option.bind_some, if_neg heof,
          readBE_eq (by omega), Option.bind_some, readBE_eq (by omega), Option.bind_some,
          if_pos hlength, readBE_eq_none (by omega)]
        rfl
    · exact outcome_data hlt heof hhead hpos
  · refine Or.inl ⟨fun h => hhead h.head, ?_⟩
    rw [ipsRecords, if_pos hlt, checkedSlice_eq (by omega), Option.bind_some, if_neg heof,
      readBE_eq (by omega), Option.bind_some, readBE_eq_none (by omega)]
    rfl

/-- The loop over the records stays inside exactly if all records that it comes to are complete. -/
theorem ipsRecords_isSome {ips : List UInt8} {patchLength : Nat}
    (hips : patchLength + 3 ≤ ips.length) (cursor : Nat) (buffer : List UInt8) :
    (ipsRecords ips patchLength cursor buffer).isSome ↔
      RecordsComplete ips patchLength buffer.length cursor := by
  induction hleft : patchLength - cursor using Nat.strong_induction_on generalizing cursor buffer
    with
  | _ left ih =>
    rw [recordsComplete_iff]
    by_cases hlt : cursor < patchLength
    · by_cases heof : slice ips cursor 3 = ipsEof
      · have hnext : nextRecord ips buffer.length cursor = none := by
          rw [nextRecord, if_pos heof]
        rw [ipsRecords, if_pos hlt, checkedSlice_eq (by omega), Option.bind_some, if_pos heof]
        simp [heof, hnext]
      · rcases outcome buffer hlt hips heof with ⟨hcomplete, hnone⟩ |
          ⟨hcomplete, ⟨hnext, hend⟩ | ⟨cursor', buffer', hnext, hsize, hturn⟩⟩
        · simp [hnone, hlt, heof, hcomplete]
        · simp [hend, hcomplete, hnext]
        · have hgt := nextRecord_gt hnext
          rw [hturn, ih _ (by omega) cursor' buffer' rfl, hsize]
          simp [hlt, hcomplete, hnext]
    · rw [ipsRecords, if_neg hlt]
      simp [hlt]

/-! ## The commands of a BPS file -/

/-- Where a command stands in the file, and the offsets that the code has there. -/
structure Place where
  patch : Nat
  target : Nat
  sourceRelative : Nat
  targetRelative : Nat

/-- Where the state of the interpreter is. -/
def PatchApplier.place (a : PatchApplier) : Place :=
  ⟨a.patch.offset, a.target.offset, a.sourceRelativeOffset, a.targetRelativeOffset⟩

/-- How many bytes the command at a place is for. -/
def commandLength (patch : List UInt8) (p : Place) : Nat := (numberAt patch p.patch).1 / 4 + 1

/-- The offset that a `SourceCopy` at a place moves to. -/
def sourceMoved (patch : List UInt8) (p : Place) : Nat :=
  PatchApplier.moveOffset p.sourceRelative (numberAt patch (numberAt patch p.patch).2).1

/-- The offset that a `TargetCopy` at a place moves to. -/
def targetMoved (patch : List UInt8) (p : Place) : Nat :=
  PatchApplier.moveOffset p.targetRelative (numberAt patch (numberAt patch p.patch).2).1

/-- The place of the next command, if the code does not refuse the one here. -/
def nextPlace (patch : List UInt8) (size : Nat) (p : Place) : Option Place :=
  let length := commandLength patch p
  let next := (numberAt patch p.patch).2
  if size < p.target + length then none
  else
    match (numberAt patch p.patch).1 % 4 with
    | 0 => some { p with patch := next, target := p.target + length }
    | 1 =>
        if patch.length < next + length then none
        else some { p with patch := next + length, target := p.target + length }
    | 2 =>
        if size < sourceMoved patch p + length then none
        else
          some { p with
            patch := (numberAt patch next).2
            target := p.target + length
            sourceRelative := (sourceMoved patch p + length) % sizeRange }
    | _ =>
        if size < (targetMoved patch p + length) % sizeRange then none
        else
          some { p with
            patch := (numberAt patch next).2
            target := p.target + length
            targetRelative := (targetMoved patch p + length) % sizeRange }

/-- A `TargetCopy` that starts before the target: the relative offset is negative, and with the
length added it has wrapped around to an offset that the code accepts. -/
def StartsBefore (patch : List UInt8) (size : Nat) (p : Place) : Prop :=
  (numberAt patch p.patch).1 % 4 = 3 ∧ p.target + commandLength patch p ≤ size ∧
    sizeRange ≤ targetMoved patch p + commandLength patch p ∧
    (targetMoved patch p + commandLength patch p) % sizeRange ≤ size

/-- The code comes from one place to another. -/
def CommandsTo (patch : List UInt8) (commandEnd size : Nat) : Place → Place → Prop :=
  Relation.ReflTransGen fun p q => p.patch < commandEnd ∧ nextPlace patch size p = some q

/-- No `TargetCopy` that the code comes to starts before the target. -/
def CopiesInside (patch : List UInt8) (commandEnd size : Nat) (start : Place) : Prop :=
  ∀ p, CommandsTo patch commandEnd size start p → p.patch < commandEnd →
    ¬ StartsBefore patch size p

theorem copiesInside_iff {patch : List UInt8} {commandEnd size : Nat} {start : Place} :
    CopiesInside patch commandEnd size start ↔
      (start.patch < commandEnd → ¬ StartsBefore patch size start) ∧
      (start.patch < commandEnd → ∀ p, nextPlace patch size start = some p →
        CopiesInside patch commandEnd size p) := by
  constructor
  · intro h
    refine ⟨h start Relation.ReflTransGen.refl, fun hstart p hnext last hlast => ?_⟩
    exact h last (Relation.ReflTransGen.head ⟨hstart, hnext⟩ hlast)
  · rintro ⟨hfirst, hrest⟩ p hp
    rcases Relation.ReflTransGen.cases_head hp with rfl | ⟨next, ⟨hstart, hnext⟩, hto⟩
    · exact hfirst
    · exact hrest hstart next hnext p hto

theorem numberLoop_lt {bytes : List UInt8} {data shift : Nat} (h : data < numberRange) :
    (Stream.numberLoop bytes data shift).1 < numberRange := by
  have hpos : 0 < numberRange := by decide
  induction bytes generalizing data shift with
  | nil => exact h
  | cons x rest ih =>
    simp only [Stream.numberLoop]
    split
    · exact Nat.mod_lt _ hpos
    · exact ih (Nat.mod_lt _ hpos)

theorem numberAt_lt (patch : List UInt8) (offset : Nat) : (numberAt patch offset).1 < numberRange :=
  numberLoop_lt (by decide)

/-- A block of the target copied byte by byte, where both ends are inside. -/
theorem copyWithin_inside {place offset length : Nat} {bytes : List UInt8}
    (hplace : place + length ≤ bytes.length) (hoffset : offset + length ≤ bytes.length)
    (hrange : offset + length < sizeRange) :
    ∃ bytes', PatchApplier.copyWithin place offset length bytes = some bytes' := by
  induction length generalizing place offset bytes with
  | zero => exact ⟨bytes, rfl⟩
  | succ length ih =>
    have hget : bytes[offset]? = some bytes[offset] := List.getElem?_eq_getElem (by omega)
    rw [PatchApplier.copyWithin, hget, Option.bind_some, checkedSet_eq _ (by omega),
      Option.bind_some, Nat.mod_eq_of_lt (by omega)]
    exact ih (by rw [List.length_set]; omega) (by rw [List.length_set]; omega) (by omega)

/-- A block that starts behind the end. -/
theorem copyWithin_outside {place offset length : Nat} {bytes : List UInt8} (h : 0 < length)
    (hoffset : bytes.length ≤ offset) :
    PatchApplier.copyWithin place offset length bytes = none := by
  cases length with
  | zero => exact absurd h (Nat.lt_irrefl 0)
  | succ length =>
    rw [PatchApplier.copyWithin, List.getElem?_eq_none hoffset]
    rfl

namespace PatchApplier

/-- The state has a source and a target of one size. -/
structure Sized (a : PatchApplier) (size : Nat) : Prop where
  source : a.source.bytes.length = size
  target : a.target.bytes.length = size

/-- A command is refused, or it comes to a state over the same source and patch at a place. -/
def EndsAt (a : PatchApplier) (result : Option (Option PatchApplier)) (p : Option Place) : Prop :=
  match p with
  | none => result = some none
  | some p => ∃ a' : PatchApplier, result = some (some a') ∧ a'.place = p ∧
      a'.source.bytes = a.source.bytes ∧ a'.patch.bytes = a.patch.bytes

/-- `CopyFrom` from a stream over the source. -/
theorem copyFrom_sized {target : Stream} {size : Nat} (htarget : target.bytes.length = size)
    (other : Stream) (length : Nat) :
    (¬ (target.offset + length ≤ size ∧ other.offset + length ≤ other.bytes.length) ∧
      copyFrom target other length = some none) ∨
    (target.offset + length ≤ size ∧ other.offset + length ≤ other.bytes.length) ∧
      ∃ target' other' : Stream, copyFrom target other length = some (some (target', other')) ∧
        target'.offset = target.offset + length ∧ other'.bytes = other.bytes ∧
        other'.offset = other.offset + length := by
  subst htarget
  by_cases hfits : target.offset + length ≤ target.bytes.length ∧
      other.offset + length ≤ other.bytes.length
  · obtain ⟨target', other', hcopy, -, hrest⟩ := copyFrom_fits hfits.1 hfits.2
    exact Or.inr ⟨hfits, target', other', hcopy, hrest⟩
  · exact Or.inl ⟨hfits, copyFrom_refuses hfits⟩

theorem sourceRead_endsAt {a : PatchApplier} {size : Nat} (h : a.Sized size) (length : Nat) :
    a.EndsAt (a.sourceRead length)
      (if size < a.target.offset + length then none
      else some { a.place with target := a.target.offset + length }) := by
  have hseek : a.target.offset ≤ a.source.bytes.length := by
    rw [h.source, ← h.target]
    exact a.target.inside
  unfold sourceRead
  rw [Stream.seek_eq hseek]
  simp only
  rcases copyFrom_sized h.target ⟨a.source.bytes, a.target.offset, hseek⟩ length with
    ⟨hno, hnone⟩ | ⟨hfits, target', source', hcopy, htarget, hsource, -⟩
  · have hsize : size < a.target.offset + length := by
      simp only [h.source] at hno
      omega
    rw [if_pos hsize, hnone]
    rfl
  · rw [if_neg (by omega), hcopy]
    exact ⟨_, rfl, congrArg (Place.mk _ · _ _) htarget, hsource, rfl⟩

theorem targetRead_endsAt {a : PatchApplier} {size : Nat} (h : a.Sized size) (length : Nat) :
    a.EndsAt (a.targetRead length)
      (if size < a.target.offset + length then none
      else if a.patch.bytes.length < a.patch.offset + length then none
      else some { a.place with
        patch := a.patch.offset + length
        target := a.target.offset + length }) := by
  unfold targetRead
  rcases copyFrom_sized h.target a.patch length with
    ⟨hno, hnone⟩ | ⟨hfits, target', patch', hcopy, htarget, hbytes, hoffset⟩
  · rw [hnone]
    by_cases hsize : size < a.target.offset + length
    · rw [if_pos hsize]
      rfl
    · rw [if_neg hsize, if_pos (by omega)]
      rfl
  · rw [if_neg (by omega), if_neg (by omega), hcopy]
    refine ⟨_, rfl, ?_, rfl, hbytes⟩
    exact congrArg₂ (Place.mk · · _ _) hoffset htarget

theorem sourceCopy_endsAt {a : PatchApplier} {size : Nat} (h : a.Sized size) {length : Nat} :
    a.EndsAt (a.sourceCopy length)
      (let number := numberAt a.patch.bytes a.patch.offset
      let offset := moveOffset a.sourceRelativeOffset number.1
      if size < a.target.offset + length then none
      else if size < offset + length then none
      else some { a.place with
        patch := number.2
        target := a.target.offset + length
        sourceRelative := (offset + length) % sizeRange }) := by
  have hnumber : a.patch.readNumber.1 = (numberAt a.patch.bytes a.patch.offset).1 := rfl
  unfold sourceCopy
  simp only [hnumber]
  by_cases hseek : moveOffset a.sourceRelativeOffset (numberAt a.patch.bytes a.patch.offset).1 ≤
      a.source.bytes.length
  · rw [Stream.seek_eq hseek]
    simp only
    rcases copyFrom_sized h.target ⟨a.source.bytes, _, hseek⟩ length with
      ⟨hno, hnone⟩ | ⟨hfits, target', source', hcopy, htarget, hsource, -⟩
    · rw [hnone]
      simp only [h.source] at hno
      by_cases hsize : size < a.target.offset + length
      · rw [if_pos hsize]
        rfl
      · rw [if_neg hsize, if_pos (by omega)]
        rfl
    · simp only [h.source] at hfits
      rw [if_neg (by omega), if_neg (by omega), hcopy]
      exact ⟨_, rfl, congrArg (Place.mk _ · _ _) htarget, hsource, rfl⟩
  · rw [Stream.seek_eq_none hseek]
    rw [h.source] at hseek
    by_cases hsize : size < a.target.offset + length
    · rw [if_pos hsize]
      rfl
    · rw [if_neg hsize, if_pos (by omega)]
      rfl

/-- A `TargetCopy` that starts inside, or that is refused. -/
theorem targetCopy_endsAt {a : PatchApplier} {size : Nat} (h : a.Sized size) {length : Nat}
    (hrange : moveOffset a.targetRelativeOffset (numberAt a.patch.bytes a.patch.offset).1 + length <
      sizeRange ∨ size < a.target.offset + length ∨
      size < (moveOffset a.targetRelativeOffset (numberAt a.patch.bytes a.patch.offset).1 + length) %
        sizeRange) :
    a.EndsAt (a.targetCopy length)
      (let number := numberAt a.patch.bytes a.patch.offset
      let offset := moveOffset a.targetRelativeOffset number.1
      if size < a.target.offset + length then none
      else if size < (offset + length) % sizeRange then none
      else some { a.place with
        patch := number.2
        target := a.target.offset + length
        targetRelative := (offset + length) % sizeRange }) := by
  unfold targetCopy
  simp only [readNumber_eq a.patch, h.target]
  by_cases hsize : size < a.target.offset + length
  · rw [if_pos hsize, if_pos hsize]
    rfl
  · rw [if_neg hsize, if_neg hsize]
    by_cases hwrap : size < (moveOffset a.targetRelativeOffset
        (numberAt a.patch.bytes a.patch.offset).1 + length) % sizeRange
    · rw [if_pos hwrap, if_pos hwrap]
      rfl
    · rw [if_neg hwrap, if_neg hwrap]
      have hlt : moveOffset a.targetRelativeOffset
          (numberAt a.patch.bytes a.patch.offset).1 + length < sizeRange := by omega
      rw [Nat.mod_eq_of_lt hlt] at hwrap
      have hplace : a.target.offset + length ≤ a.target.bytes.length := by
        rw [h.target]
        omega
      have hoffset : moveOffset a.targetRelativeOffset
          (numberAt a.patch.bytes a.patch.offset).1 + length ≤ a.target.bytes.length := by
        rw [h.target]
        omega
      obtain ⟨bytes, hbytes⟩ := copyWithin_inside hplace hoffset hlt
      rw [← length_copyWithin hbytes] at hplace
      have hto : ((Stream.mkAt bytes a.target.offset).seekAnyway (a.target.offset + length)).offset
          = a.target.offset + length := by
        have hinside : a.target.offset + length ≤
            (Stream.mkAt bytes a.target.offset).bytes.length := hplace
        rw [seekAnyway_eq hinside]
      rw [hbytes]
      exact ⟨_, rfl, congrArg (Place.mk _ · _ _) hto, rfl, rfl⟩

/-- A `TargetCopy` that starts before the target reads there. -/
theorem targetCopy_startsBefore {a : PatchApplier} {size length : Nat} (h : a.Sized size)
    (hlength : 0 < length) (hsmall : size + length ≤ sizeRange)
    (htarget : a.target.offset + length ≤ size)
    (hwrap : sizeRange ≤
      moveOffset a.targetRelativeOffset (numberAt a.patch.bytes a.patch.offset).1 + length)
    (hsize : (moveOffset a.targetRelativeOffset (numberAt a.patch.bytes a.patch.offset).1 + length) %
      sizeRange ≤ size) : a.targetCopy length = none := by
  unfold targetCopy
  simp only [readNumber_eq a.patch, h.target]
  rw [if_neg (by omega), if_neg (by omega), copyWithin_outside hlength (by rw [h.target]; omega)]
  rfl

theorem handleCommand_endsAt {a : PatchApplier} {size : Nat} (h : a.Sized size)
    (hsmall : size + numberRange ≤ sizeRange) :
    (StartsBefore a.patch.bytes size a.place ∧ a.handleCommand = none) ∨
      ¬ StartsBefore a.patch.bytes size a.place ∧
        a.EndsAt a.handleCommand (nextPlace a.patch.bytes size a.place) := by
  -- the state behind the command's own number
  have hnumber : (numberAt a.patch.bytes a.patch.offset).1 < numberRange := numberAt_lt _ _
  let b : PatchApplier := { a with patch := a.patch.readNumber.2 }
  have hb : b.Sized size := ⟨h.source, h.target⟩
  have hlength : 0 < commandLength a.patch.bytes a.place := Nat.succ_pos _
  have hrange : size + commandLength a.patch.bytes a.place ≤ sizeRange := by
    change size + ((numberAt a.patch.bytes a.patch.offset).1 / 4 + 1) ≤ _
    omega
  have hnot (hne : (numberAt a.patch.bytes a.patch.offset).1 % 4 ≠ 3) :
      ¬ StartsBefore a.patch.bytes size a.place := fun h => hne h.1
  have hread : a.patch.readNumber.1 = (numberAt a.patch.bytes a.patch.offset).1 := rfl
  have hplace : a.place.patch = a.patch.offset := rfl
  unfold handleCommand nextPlace
  simp only [hread, hplace]
  have hfour : (numberAt a.patch.bytes a.patch.offset).1 % 4 < 4 := Nat.mod_lt _ (by decide)
  interval_cases hkind : (numberAt a.patch.bytes a.patch.offset).1 % 4
  · exact Or.inr ⟨hnot (by decide), sourceRead_endsAt hb _⟩
  · exact Or.inr ⟨hnot (by decide), targetRead_endsAt hb _⟩
  · exact Or.inr ⟨hnot (by decide), sourceCopy_endsAt hb⟩
  · by_cases hbefore : StartsBefore a.patch.bytes size a.place
    · obtain ⟨-, htarget, hwrap, hsize⟩ := id hbefore
      exact Or.inl ⟨hbefore, targetCopy_startsBefore hb hlength hrange htarget hwrap hsize⟩
    · refine Or.inr ⟨hbefore, targetCopy_endsAt hb ?_⟩
      by_contra hno
      rw [not_or, not_or] at hno
      obtain ⟨hwrap, htarget, hsize⟩ := hno
      exact hbefore ⟨hkind, Nat.le_of_not_lt htarget, Nat.le_of_not_lt hwrap,
        Nat.le_of_not_lt hsize⟩

/-- The loop over the commands stays inside exactly if every `TargetCopy` that it comes to does. -/
theorem runCommands_isSome {commandEnd size : Nat} {a : PatchApplier} (h : a.Sized size)
    (hsmall : size + numberRange ≤ sizeRange) :
    (runCommands commandEnd a).isSome ↔
      CopiesInside a.patch.bytes commandEnd size a.place := by
  induction hleft : size - a.target.offset using Nat.strong_induction_on generalizing a with
  | _ left ih =>
    rw [copiesInside_iff]
    by_cases hlt : a.patch.offset < commandEnd
    · have hplace : a.place.patch < commandEnd := hlt
      rw [runCommands_step hlt]
      rcases handleCommand_endsAt h hsmall with ⟨hbefore, hnone⟩ | ⟨hbefore, hends⟩
      · simp [hplace, hbefore, hnone]
      · cases hnext : nextPlace a.patch.bytes size a.place with
        | none =>
          rw [hnext] at hends
          have hrefused : a.handleCommand = some none := hends
          simp [hbefore, hrefused]
        | some p =>
          rw [hnext] at hends
          obtain ⟨a', hcommand, rfl, hsource, hpatch⟩ := hends
          obtain ⟨hsize, hoffset, hinside⟩ := advances_handleCommand hcommand
          have hnew : a'.Sized size := ⟨hsource ▸ h.source, hsize.trans h.target⟩
          rw [h.target] at hinside
          have hrest := ih _ (by omega) hnew rfl
          rw [hpatch] at hrest
          rw [hcommand, Option.bind_some, hrest]
          simp [hplace, hbefore]
    · rw [runCommands, if_neg hlt]
      have hplace : ¬ a.place.patch < commandEnd := hlt
      simp [hplace]

/-- The commands keep the size of the target. -/
theorem length_runCommands {commandEnd : Nat} {a : PatchApplier} {r : Bool × PatchApplier}
    (h : runCommands commandEnd a = some r) :
    r.2.target.bytes.length = a.target.bytes.length := by
  induction hleft : a.target.bytes.length - a.target.offset using Nat.strong_induction_on
    generalizing a with
  | _ left ih =>
    by_cases hlt : a.patch.offset < commandEnd
    · rw [runCommands_step hlt] at h
      obtain ⟨next, hnext, h⟩ := Option.bind_eq_some_iff.1 h
      cases next with
      | none =>
        cases h
        rfl
      | some a' =>
        obtain ⟨hsize, hoffset, hinside⟩ := advances_handleCommand hnext
        exact (ih _ (by omega) h rfl).trans hsize
    · rw [runCommands, if_neg hlt] at h
      cases h
      rfl

end PatchApplier

/-! ## Both functions -/

/-- The IPS file has room for the header and every record that the code comes to is complete. -/
def IpsInside (ips : List UInt8) (size : Nat) : Prop :=
  ipsHeader.length ≤ ips.length ∧
    (slice ips 0 ipsHeader.length = ipsHeader →
      RecordsComplete ips (ips.length - ipsEof.length) size ipsHeader.length)

/-- The BPS file has room for the mark; it has room for the checksums if the mark and the sizes are
accepted; and if the source is accepted, no `TargetCopy` starts before the target. -/
def BpsInside (patch buffer : List UInt8) : Prop :=
  magicSize ≤ patch.length ∧
    (slice patch 0 magicSize = bpsMagic → ¬ InvalidSizes patch buffer →
      footerSize ≤ patch.length ∧
        (crc32 (slice (resized patch buffer) 0 (bpsHead patch).sourceSize) =
            leValue (slice patch (patch.length - footerSize) 4) →
          CopiesInside patch (patch.length - footerSize) (resized patch buffer).length
            ⟨(bpsHead patch).commands, 0, 0, 0⟩))

theorem applyIpsPatch_isSome {ips : List UInt8} (buffer : List UInt8)
    (hips : ips.length < sizeRange) :
    (applyIpsPatch ips buffer).isSome ↔ IpsInside ips buffer.length := by
  unfold applyIpsPatch IpsInside
  by_cases hroom : ipsHeader.length ≤ ips.length
  · have hfive : 0 + 5 ≤ ips.length := by simpa [ipsHeader] using hroom
    have hlength : (ips.length + sizeRange - 3) % sizeRange = ips.length - ipsEof.length := by
      change _ = ips.length - 3
      unfold sizeRange at *
      omega
    rw [checkedSlice_eq hfive, Option.bind_some, hlength]
    by_cases hheader : slice ips 0 5 = ipsHeader
    · have hno : ¬ slice ips 0 5 ≠ ipsHeader := fun h => h hheader
      have heof : ips.length - ipsEof.length + 3 ≤ ips.length := by
        change ips.length - 3 + 3 ≤ ips.length
        omega
      rw [if_neg hno, ipsRecords_isSome heof]
      exact ⟨fun h => ⟨hroom, fun _ => h⟩, fun h => h.2 hheader⟩
    · rw [if_pos hheader]
      exact ⟨fun _ => ⟨hroom, fun h => absurd h hheader⟩, fun _ => rfl⟩
  · have hfive : ¬ 0 + 5 ≤ ips.length := by simpa [ipsHeader] using hroom
    rw [checkedSlice, if_neg hfive]
    simp [hroom]

theorem length_resized_le (patch buffer : List UInt8) :
    (resized patch buffer).length ≤ max buffer.length numberRange := by
  unfold resized
  split
  · have hlt : (bpsHead patch).targetSize < numberRange := numberAt_lt _ _
    rw [List.length_append, List.length_take, List.length_replicate]
    omega
  · exact Nat.le_max_left _ _

/-- The check of the target's checksum stays inside. -/
theorem isSome_afterRun {patch buffer : List UInt8} {commandEnd targetCrc : Nat}
    (hsizes : ¬ InvalidSizes patch buffer) :
    ((PatchApplier.runCommands commandEnd (firstState patch buffer)).bind fun r =>
      if r.1 = false then some (false, r.2.target.bytes)
      else
        (checkedSlice r.2.target.bytes 0 (bpsHead patch).targetSize).bind fun target =>
          some (decide (crc32 target = targetCrc), r.2.target.bytes)).isSome =
      (PatchApplier.runCommands commandEnd (firstState patch buffer)).isSome := by
  cases hrun : PatchApplier.runCommands commandEnd (firstState patch buffer) with
  | none => rfl
  | some r =>
    rw [Option.bind_some]
    by_cases hfalse : r.1 = false
    · rw [if_pos hfalse]
      rfl
    · have htarget : 0 + (bpsHead patch).targetSize ≤ r.2.target.bytes.length := by
        have hlength : r.2.target.bytes.length = (resized patch buffer).length :=
          (PatchApplier.length_runCommands hrun).trans List.length_replicate
        unfold InvalidSizes at hsizes
        omega
      rw [if_neg hfalse, checkedSlice_eq htarget]
      rfl

theorem applyBpsPatch_isSome {patch buffer : List UInt8} (hpatch : patch.length < sizeRange)
    (hbuffer : buffer.length < 2 ^ 63) :
    (applyBpsPatch patch buffer).isSome ↔ BpsInside patch buffer := by
  unfold BpsInside
  by_cases hroom : magicSize ≤ patch.length
  · rw [applyBpsPatch_head buffer hroom]
    by_cases hmagic : slice patch 0 magicSize = bpsMagic
    · by_cases hsizes : InvalidSizes patch buffer
      · simp [hroom, hmagic, hsizes]
      · rw [if_neg (not_not_intro hmagic), if_neg hsizes]
        by_cases hfooter : footerSize ≤ patch.length
        · rw [applyCommands_eq hfooter hpatch hsizes]
          have hstart : (firstState patch buffer).place = ⟨(bpsHead patch).commands, 0, 0, 0⟩ :=
            congrArg (Place.mk · 0 0 0) (Stream.mkAt_offset (commands_le hroom))
          have hsized : (firstState patch buffer).Sized (resized patch buffer).length :=
            ⟨rfl, List.length_replicate⟩
          have hsmall : (resized patch buffer).length + numberRange ≤ sizeRange := by
            have hle := length_resized_le patch buffer
            unfold sizeRange numberRange at *
            omega
          have hrun : (PatchApplier.runCommands (patch.length - footerSize)
              (firstState patch buffer)).isSome ↔ CopiesInside patch _ _ _ :=
            PatchApplier.runCommands_isSome hsized hsmall
          rw [hstart] at hrun
          by_cases hsource : crc32 (slice (resized patch buffer) 0 (bpsHead patch).sourceSize) =
              leValue (slice patch (patch.length - footerSize) 4)
          · rw [if_neg (not_not_intro hsource), isSome_afterRun hsizes, hrun]
            simp [hroom, hmagic, hsizes, hfooter, hsource]
          · rw [if_pos hsource]
            simp [hroom, hfooter, hsource]
        · rw [applyCommands_short]
          · simp [hroom, hmagic, hsizes, hfooter]
          · exact Nat.lt_of_not_le hfooter
          · exact (commands_ge patch).trans_eq (Stream.mkAt_offset (commands_le hroom)).symm
    · simp [hroom, hmagic]
  · rw [applyBpsPatch_short buffer (Nat.lt_of_not_le hroom)]
    simp [hroom]

/-- For every file and every buffer: the code stays inside the buffers exactly if no record of an
IPS file is cut off, the BPS file has room for its mark and its checksums, and no `TargetCopy`
starts before the target.  Both functions end on every file. -/
theorem patches_inside {patch buffer : List UInt8} (hpatch : patch.length < 2 ^ 63)
    (hbuffer : buffer.length < 2 ^ 63) :
    ((applyIpsPatch patch buffer).isSome ↔ IpsInside patch buffer.length) ∧
      ((applyBpsPatch patch buffer).isSome ↔ BpsInside patch buffer) :=
  have hsize : patch.length < sizeRange := hpatch.trans (by decide)
  ⟨applyIpsPatch_isSome buffer hsize, applyBpsPatch_isSome hsize hbuffer⟩

/-- A file with one record of one byte. -/
theorem patches_inside_one :
    (applyIpsPatch [0x50, 0x41, 0x54, 0x43, 0x48, 0, 0, 1, 0, 1, 7, 0x45, 0x4F, 0x46]
      [0, 0]).isSome := by
  refine (patches_inside (by decide) (by decide)).1.2 ⟨by decide, fun _ => ?_⟩
  refine recordsComplete_iff.2 ⟨fun _ _ => ⟨by decide, by decide, by decide, by decide⟩, ?_⟩
  intro _ cursor hnext
  have hcursor : some cursor = some 11 := hnext.symm.trans (by decide +kernel)
  obtain rfl := Option.some.inj hcursor
  exact recordsComplete_iff.2 ⟨fun hlt => absurd hlt (by decide), fun hlt => absurd hlt (by decide)⟩

/-- An IPS file whose only record is cut off, and a BPS file of one command, a `TargetCopy` with the
relative offset -1. -/
theorem patches_outside :
    applyIpsPatch [0x50, 0x41, 0x54, 0x43, 0x48, 0, 0, 0, 0] [0] = none ∧
      applyBpsPatch [0x42, 0x50, 0x53, 0x31, 0x80, 0x81, 0x80, 0x83, 0x83, 0, 0, 0, 0, 0, 0, 0, 0,
        0, 0, 0, 0] [] = none := by
  constructor
  · refine Option.not_isSome_iff_eq_none.1 fun h => ?_
    have hinside := (applyIpsPatch_isSome [0] (by decide)).1 h
    have hhead := (hinside.2 (by decide) _ Relation.ReflTransGen.refl (by decide) (by decide)).head
    exact absurd hhead (by decide)
  · refine Option.not_isSome_iff_eq_none.1 fun h => ?_
    have hinside := (applyBpsPatch_isSome (by decide) (by decide)).1 h
    have hcopies := (hinside.2 (by decide +kernel) (by decide +kernel)).2 (by decide +kernel)
    refine hcopies _ Relation.ReflTransGen.refl (by decide +kernel) ?_
    unfold StartsBefore
    decide +kernel

end AzaharPlus.FileSys.Patch
