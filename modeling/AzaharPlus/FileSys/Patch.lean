import AzaharPlus.Lib.CheckedBytes

/-!
# Code patches

`ApplyIpsPatch` and `ApplyBpsPatch` of `core/file_sys/patch.cpp`.  The patch is a file that a user
put into a folder, so any bytes may be in it.

`none` stands for an access outside a buffer, and for the value of an optional that holds none.
The loops are over bytes that get fewer with each turn: of the patch for IPS, of the target for
BPS.  The offsets are of type `std::size_t`, which has 64 bits; the numbers of BPS have 32.
-/

namespace AzaharPlus.FileSys.Patch

open Bytes

/-- The number of values of a `std::size_t`. -/
def sizeRange : Nat := 2 ^ 64

/-! ## IPS -/

/-- `PATCH` -/
def ipsHeader : List UInt8 := [0x50, 0x41, 0x54, 0x43, 0x48]

/-- `EOF` -/
def ipsEof : List UInt8 := [0x45, 0x4F, 0x46]

/-- A big-endian number. -/
def beValue (bytes : List UInt8) : Nat := bytes.foldl (fun n b => n * 256 + b.toNat) 0

/-- The `n` bytes at an offset as a number. -/
def readBE (ips : List UInt8) (offset n : Nat) : Option Nat :=
  (checkedSlice ips offset n).map beValue

/-- The loop of a run-length record, which reads its value at each turn. -/
def fillRun (ips : List UInt8) (value : Nat) : Nat → Nat → List UInt8 → Option (List UInt8)
  | _, 0, buffer => some buffer
  | offset, length + 1, buffer =>
      (ips[value]?).bind fun v =>
        (checkedSet buffer offset v).bind fun buffer =>
          fillRun ips value (offset + 1) length buffer

/-- The loop over the records; the buffer comes with what the function returns. -/
def ipsRecords (ips : List UInt8) (patchLength cursor : Nat) (buffer : List UInt8) :
    Option (Bool × List UInt8) :=
  if cursor < patchLength then
    (checkedSlice ips cursor 3).bind fun eofCheck =>
      if eofCheck = ipsEof then some (false, buffer)
      else
        (readBE ips cursor 3).bind fun offset =>
          (readBE ips (cursor + 3) 2).bind fun length =>
            if length = 0 then
              (readBE ips (cursor + 5) 2).bind fun length =>
                if buffer.length < offset + length then some (false, buffer)
                else
                  (fillRun ips (cursor + 7) offset length buffer).bind fun buffer =>
                    ipsRecords ips patchLength (cursor + 8) buffer
            else if buffer.length < offset + length then some (false, buffer)
            else
              (checkedSlice ips (cursor + 5) length).bind fun data =>
                (checkedCopy buffer offset data).bind fun buffer =>
                  ipsRecords ips patchLength (cursor + (length + 5)) buffer
  else some (true, buffer)
  termination_by patchLength - cursor

/-- `ApplyIpsPatch` -/
def applyIpsPatch (ips buffer : List UInt8) : Option (Bool × List UInt8) :=
  let patchLength := (ips.length + sizeRange - 3) % sizeRange
  (checkedSlice ips 0 5).bind fun header =>
    if header ≠ ipsHeader then some (false, buffer) else ipsRecords ips patchLength 5 buffer

/-! ## BPS -/

/-- The number of values of `Bps::Number`. -/
def numberRange : Nat := 2 ^ 32

def magicSize : Nat := 4
def footerSize : Nat := 12

/-- `BPS1` -/
def bpsMagic : List UInt8 := [0x42, 0x50, 0x53, 0x31]

/-- One bit of the checksum, lowest bit first. -/
def crcBit (crc : UInt32) : UInt32 :=
  if crc &&& 1 = 1 then (crc >>> 1) ^^^ 0xEDB88320 else crc >>> 1

/-- One byte of the checksum. -/
def crcByte (crc : UInt32) (b : UInt8) : UInt32 :=
  crcBit (crcBit (crcBit (crcBit (crcBit (crcBit (crcBit (crcBit (crc ^^^ b.toUInt32))))))))

/-- `Bps::crc32`, with `boost::crc_32_type`. -/
def crc32 (data : List UInt8) : Nat := (data.foldl crcByte 0xFFFFFFFF ^^^ 0xFFFFFFFF).toNat

/-- `Bps::Stream`: a buffer and an offset inside it. -/
@[ext]
structure Stream where
  bytes : List UInt8
  offset : Nat
  inside : offset ≤ bytes.length

namespace Stream

def ofBytes (bytes : List UInt8) : Stream := ⟨bytes, 0, Nat.zero_le _⟩

/-- A stream whose bytes were written. -/
def mkAt (bytes : List UInt8) (offset : Nat) : Stream :=
  ⟨bytes, min offset bytes.length, Nat.min_le_right _ _⟩

/-- `Seek`; `none` if it returns false. -/
def seek (s : Stream) (offset : Nat) : Option Stream :=
  if h : offset ≤ s.bytes.length then some ⟨s.bytes, offset, h⟩ else none

/-- `Seek` where nobody looks at what it returns. -/
def seekAnyway (s : Stream) (offset : Nat) : Stream := (s.seek offset).getD s

/-- `Read` of some bytes; the inner `none` if it returns false. -/
def read (s : Stream) (length : Nat) : Option (Option (List UInt8 × Stream)) :=
  if h : s.offset + length ≤ s.bytes.length then
    (checkedSlice s.bytes s.offset length).map fun data => some (data, ⟨s.bytes, _, h⟩)
  else some none

/-- The loop of `ReadNumber` over the bytes that are left: the number, and how many bytes it
takes. -/
def numberLoop : List UInt8 → Nat → Nat → Nat × Nat
  | [], data, _ => (data, 0)
  | x :: rest, data, shift =>
      let data := (data + x.toNat % 128 * shift) % numberRange
      if 128 ≤ x.toNat then (data, 1)
      else
        let shift := shift * 128 % numberRange
        let result := numberLoop rest ((data + shift) % numberRange) shift
        (result.1, result.2 + 1)

theorem numberLoop_le (bytes : List UInt8) (data shift : Nat) :
    (numberLoop bytes data shift).2 ≤ bytes.length := by
  induction bytes generalizing data shift with
  | nil => exact Nat.le_refl 0
  | cons x rest ih =>
    simp only [numberLoop]
    split
    · simp
    · simpa using ih _ _

theorem offset_numberLoop_le (s : Stream) :
    s.offset + (numberLoop (s.bytes.drop s.offset) 0 1).2 ≤ s.bytes.length := by
  have hle := numberLoop_le (s.bytes.drop s.offset) 0 1
  rw [List.length_drop] at hle
  have hinside := s.inside
  omega

/-- `ReadNumber` -/
def readNumber (s : Stream) : Nat × Stream :=
  ((numberLoop (s.bytes.drop s.offset) 0 1).1,
    ⟨s.bytes, s.offset + (numberLoop (s.bytes.drop s.offset) 0 1).2, s.offset_numberLoop_le⟩)

/-- `Read` that stays inside. -/
theorem read_eq {s : Stream} {length : Nat} (h : s.offset + length ≤ s.bytes.length) :
    s.read length = some (some (slice s.bytes s.offset length, ⟨s.bytes, s.offset + length, h⟩)) := by
  unfold read
  rw [dif_pos h, checkedSlice_eq h]
  rfl

theorem read_eq_none {s : Stream} {length : Nat} (h : ¬ s.offset + length ≤ s.bytes.length) :
    s.read length = some none := dif_neg h

theorem seek_eq {s : Stream} {offset : Nat} (h : offset ≤ s.bytes.length) :
    s.seek offset = some ⟨s.bytes, offset, h⟩ := dif_pos h

theorem seek_eq_none {s : Stream} {offset : Nat} (h : ¬ offset ≤ s.bytes.length) :
    s.seek offset = none := dif_neg h

theorem mkAt_offset {bytes : List UInt8} {offset : Nat} (h : offset ≤ bytes.length) :
    (mkAt bytes offset).offset = offset := Nat.min_eq_left h

end Stream

/-- `Bps::PatchApplier` -/
structure PatchApplier where
  source : Stream
  target : Stream
  patch : Stream
  sourceRelativeOffset : Nat
  targetRelativeOffset : Nat

namespace PatchApplier

/-- `Stream::CopyFrom` into the target; the inner `none` if it returns false. -/
def copyFrom (target other : Stream) (length : Nat) : Option (Option (Stream × Stream)) :=
  if target.offset + length ≤ target.bytes.length then
    (other.read length).bind fun r =>
      match r with
      | none => some none
      | some (data, other) =>
          (checkedCopy target.bytes target.offset data).map fun bytes =>
            some (Stream.mkAt bytes (target.offset + length), other)
  else some none

/-- `SourceRead` -/
def sourceRead (a : PatchApplier) (length : Nat) : Option (Option PatchApplier) :=
  match a.source.seek a.target.offset with
  | none => some none
  | some source =>
      (copyFrom a.target source length).map fun r =>
        r.map fun r => { a with target := r.1, source := r.2 }

/-- `TargetRead` -/
def targetRead (a : PatchApplier) (length : Nat) : Option (Option PatchApplier) :=
  (copyFrom a.target a.patch length).map fun r =>
    r.map fun r => { a with target := r.1, patch := r.2 }

/-- `(data & 1 ? -1 : +1) * int(data >> 1)` added to an offset, which wraps around. -/
def moveOffset (offset data : Nat) : Nat :=
  if data % 2 = 1 then (offset + (sizeRange - data / 2)) % sizeRange
  else (offset + data / 2) % sizeRange

/-- `SourceCopy` -/
def sourceCopy (a : PatchApplier) (length : Nat) : Option (Option PatchApplier) :=
  let (data, patch) := a.patch.readNumber
  let offset := moveOffset a.sourceRelativeOffset data
  match a.source.seek offset with
  | none => some none
  | some source =>
      (copyFrom a.target source length).map fun r =>
        r.map fun r =>
          { a with
            target := r.1
            source := r.2
            patch := patch
            sourceRelativeOffset := (offset + length) % sizeRange }

/-- The loop of `TargetCopy`, byte by byte. -/
def copyWithin (place : Nat) : Nat → Nat → List UInt8 → Option (List UInt8)
  | _, 0, bytes => some bytes
  | offset, length + 1, bytes =>
      (bytes[offset]?).bind fun v =>
        (checkedSet bytes place v).bind fun bytes =>
          copyWithin (place + 1) ((offset + 1) % sizeRange) length bytes

/-- `TargetCopy` -/
def targetCopy (a : PatchApplier) (length : Nat) : Option (Option PatchApplier) :=
  let (data, patch) := a.patch.readNumber
  let offset := moveOffset a.targetRelativeOffset data
  if a.target.bytes.length < a.target.offset + length then some none
  else if a.target.bytes.length < (offset + length) % sizeRange then some none
  else
    (copyWithin a.target.offset offset length a.target.bytes).map fun bytes =>
      some { a with
        target := (Stream.mkAt bytes a.target.offset).seekAnyway (a.target.offset + length)
        patch := patch
        targetRelativeOffset := (offset + length) % sizeRange }

/-- `HandleCommand`; the inner `none` if it returns false. -/
def handleCommand (a : PatchApplier) : Option (Option PatchApplier) :=
  let (data, patch) := a.patch.readNumber
  let a := { a with patch := patch }
  let length := data / 4 + 1
  match data % 4 with
  | 0 => a.sourceRead length
  | 1 => a.targetRead length
  | 2 => a.sourceCopy length
  | _ => a.targetCopy length

/-! ## What a command does to the target -/

/-- `CopyFrom` copies a block that fits on both sides. -/
theorem copyFrom_fits {target other : Stream} {length : Nat}
    (htarget : target.offset + length ≤ target.bytes.length)
    (hother : other.offset + length ≤ other.bytes.length) :
    ∃ target' other' : Stream, copyFrom target other length = some (some (target', other')) ∧
      target'.bytes = memcpy target.bytes target.offset (slice other.bytes other.offset length) ∧
      target'.offset = target.offset + length ∧ other'.bytes = other.bytes ∧
      other'.offset = other.offset + length := by
  have hcopy : target.offset + (slice other.bytes other.offset length).length ≤
      target.bytes.length := by
    rw [length_slice hother]
    exact htarget
  refine ⟨_, ⟨other.bytes, other.offset + length, hother⟩, ?_, rfl, Stream.mkAt_offset ?_, rfl, rfl⟩
  · unfold copyFrom
    rw [if_pos htarget, Stream.read_eq hother, Option.bind_some]
    simp only
    rw [checkedCopy_eq hcopy]
    rfl
  · exact (length_memcpy hcopy).symm ▸ htarget

/-- `CopyFrom` refuses any other. -/
theorem copyFrom_refuses {target other : Stream} {length : Nat}
    (h : ¬ (target.offset + length ≤ target.bytes.length ∧
      other.offset + length ≤ other.bytes.length)) :
    copyFrom target other length = some none := by
  unfold copyFrom
  by_cases htarget : target.offset + length ≤ target.bytes.length
  · have hother : ¬ other.offset + length ≤ other.bytes.length := fun hcon => h ⟨htarget, hcon⟩
    rw [if_pos htarget, Stream.read_eq_none hother]
    rfl
  · rw [if_neg htarget]

/-- The target goes on by `length` bytes and keeps its size. -/
def Advances (a a' : PatchApplier) (length : Nat) : Prop :=
  a'.target.bytes.length = a.target.bytes.length ∧
    a'.target.offset = a.target.offset + length ∧
    a'.target.offset ≤ a.target.bytes.length

theorem advances_copyFrom {target other : Stream} {length : Nat} {r : Stream × Stream}
    (h : copyFrom target other length = some (some r)) :
    r.1.bytes.length = target.bytes.length ∧ r.1.offset = target.offset + length ∧
      r.1.offset ≤ target.bytes.length := by
  by_cases hfits : target.offset + length ≤ target.bytes.length ∧
      other.offset + length ≤ other.bytes.length
  · obtain ⟨target', other', hcopy, hbytes, hoffset, -⟩ := copyFrom_fits hfits.1 hfits.2
    rw [hcopy] at h
    cases h
    refine ⟨?_, hoffset, by rw [hoffset]; exact hfits.1⟩
    rw [hbytes, length_memcpy (by rw [length_slice hfits.2]; exact hfits.1)]
  · rw [copyFrom_refuses hfits] at h
    cases h

theorem length_copyWithin {place offset length : Nat} {bytes bytes' : List UInt8}
    (h : copyWithin place offset length bytes = some bytes') : bytes'.length = bytes.length := by
  induction length generalizing place offset bytes with
  | zero =>
    cases h
    rfl
  | succ length ih =>
    simp only [copyWithin, Option.bind_eq_some_iff] at h
    obtain ⟨v, -, bytes₁, hset, h⟩ := h
    unfold checkedSet at hset
    split at hset
    · cases hset
      rw [ih h, List.length_set]
    · cases hset

theorem advances_targetCopy {a a' : PatchApplier} {length : Nat}
    (h : a.targetCopy length = some (some a')) : Advances a a' length := by
  unfold targetCopy at h
  simp only at h
  split at h
  · cases h
  · rename_i hfits
    split at h
    · cases h
    · obtain ⟨bytes, hbytes, h⟩ := Option.map_eq_some_iff.1 h
      cases h
      have hlength := length_copyWithin hbytes
      have hinside : a.target.offset + length ≤ (Stream.mkAt bytes a.target.offset).bytes.length := by
        change _ ≤ bytes.length
        omega
      have hseek : (Stream.mkAt bytes a.target.offset).seekAnyway (a.target.offset + length) =
          ⟨bytes, a.target.offset + length, hinside⟩ := by
        unfold Stream.seekAnyway
        rw [Stream.seek_eq hinside]
        rfl
      rw [hseek]
      exact ⟨hlength, rfl, by change _ + _ ≤ _; omega⟩

theorem advances_handleCommand {a a' : PatchApplier} (h : a.handleCommand = some (some a')) :
    Advances a a' ((a.patch.readNumber).1 / 4 + 1) := by
  -- a command that copies from another stream
  have hcopy : ∀ (b : PatchApplier) (other : Stream) (length : Nat)
      (f : Stream × Stream → PatchApplier), (∀ r, (f r).target = r.1) → b.target = a.target →
      ((copyFrom b.target other length).map fun r => r.map f) = some (some a') →
      Advances a a' length := by
    intro b other length f hf hb h
    obtain ⟨r, hr, h⟩ := Option.map_eq_some_iff.1 h
    obtain ⟨r', rfl, rfl⟩ := Option.map_eq_some_iff.1 h
    rw [hb] at hr
    unfold Advances
    rw [hf]
    exact advances_copyFrom hr
  unfold handleCommand at h
  simp only at h
  split at h
  · unfold sourceRead at h
    split at h
    · cases h
    · exact hcopy _ _ _ _ (fun _ => rfl) rfl h
  · exact hcopy _ _ _ _ (fun _ => rfl) rfl h
  · unfold sourceCopy at h
    simp only at h
    split at h
    · cases h
    · exact hcopy _ _ _ _ (fun _ => rfl) rfl h
  · obtain ⟨h₁, h₂, h₃⟩ := advances_targetCopy h
    exact ⟨h₁, h₂, h₃⟩

/-- The loop over the commands. -/
def runCommands (commandEnd : Nat) (a : PatchApplier) : Option (Bool × PatchApplier) :=
  if a.patch.offset < commandEnd then
    match _h : a.handleCommand with
    | none => none
    | some none => some (false, a)
    | some (some a') => runCommands commandEnd a'
  else some (true, a)
  termination_by a.target.bytes.length - a.target.offset
  decreasing_by
    obtain ⟨h₁, h₂, h₃⟩ := advances_handleCommand _h
    omega

/-- One turn of the loop. -/
theorem runCommands_step {commandEnd : Nat} {a : PatchApplier} (h : a.patch.offset < commandEnd) :
    runCommands commandEnd a =
      a.handleCommand.bind fun r =>
        match r with
        | none => some (false, a)
        | some a' => runCommands commandEnd a' := by
  rw [runCommands, if_pos h]
  split
  · rename_i hnone
    rw [hnone]
    rfl
  · rename_i hrefused
    rw [hrefused]
    rfl
  · rename_i hnext
    rw [hnext]
    rfl

/-- `Apply` behind the head of the file: what it returns, and the bytes of the target. -/
def applyCommands (a : PatchApplier) (sourceSize targetSize : Nat) :
    Option (Bool × List UInt8) :=
  let commandStart := a.patch.offset
  let commandEnd := (a.patch.bytes.length + sizeRange - footerSize) % sizeRange
  ((a.patch.seekAnyway commandEnd).read 4).bind fun sourceCrc =>
    match sourceCrc with
    | none => none
    | some (sourceCrc, patch) =>
        (patch.read 4).bind fun targetCrc =>
          match targetCrc with
          | none => none
          | some (targetCrc, patch) =>
              (checkedSlice a.source.bytes 0 sourceSize).bind fun source =>
                if crc32 source ≠ leValue sourceCrc then some (false, a.target.bytes)
                else
                  (runCommands commandEnd
                    { a with
                      patch := patch.seekAnyway commandStart
                      target := Stream.mkAt (List.replicate a.target.bytes.length 0)
                        a.target.offset }).bind fun r =>
                    if r.1 = false then some (false, r.2.target.bytes)
                    else
                      (checkedSlice r.2.target.bytes 0 targetSize).bind fun target =>
                        some (crc32 target = leValue targetCrc, r.2.target.bytes)

/-- `Apply`: what it returns, and the bytes of the target. -/
def apply (a : PatchApplier) : Option (Bool × List UInt8) :=
  (a.patch.read magicSize).bind fun magic =>
    match magic with
    | none => none
    | some (magic, patch) =>
        if magic ≠ bpsMagic then some (false, a.target.bytes)
        else
          let (sourceSize, patch) := patch.readNumber
          let (targetSize, patch) := patch.readNumber
          let (metadataSize, patch) := patch.readNumber
          if a.source.bytes.length < sourceSize ∨ a.target.bytes.length < targetSize ∨
              metadataSize ≠ 0 then some (false, a.target.bytes)
          else { a with patch := patch }.applyCommands sourceSize targetSize

end PatchApplier

/-- `ApplyBpsPatch`: what it returns, and the buffer afterwards. -/
def applyBpsPatch (patch buffer : List UInt8) : Option (Bool × List UInt8) :=
  let patchStream := (Stream.ofBytes patch).seekAnyway magicSize
  let (sourceSize, patchStream) := patchStream.readNumber
  let (targetSize, patchStream) := patchStream.readNumber
  let buffer :=
    if sourceSize < targetSize then
      buffer.take targetSize ++ List.replicate (targetSize - buffer.length) 0
    else buffer
  PatchApplier.apply
    { source := Stream.ofBytes buffer
      target := Stream.ofBytes buffer
      patch := patchStream.seekAnyway 0
      sourceRelativeOffset := 0
      targetRelativeOffset := 0 }

/-! ## What the head of a BPS file says -/

/-- The number at an offset, and the offset behind it. -/
def numberAt (patch : List UInt8) (offset : Nat) : Nat × Nat :=
  ((Stream.numberLoop (patch.drop offset) 0 1).1,
    offset + (Stream.numberLoop (patch.drop offset) 0 1).2)

/-- The numbers behind the mark, and where the commands start. -/
structure BpsHead where
  sourceSize : Nat
  targetSize : Nat
  metadataSize : Nat
  commands : Nat

/-- The head of a file. -/
def bpsHead (patch : List UInt8) : BpsHead :=
  let source := numberAt patch magicSize
  let target := numberAt patch source.2
  let metadata := numberAt patch target.2
  ⟨source.1, target.1, metadata.1, metadata.2⟩

/-- The buffer after the resizing, which is also the source. -/
def resized (patch buffer : List UInt8) : List UInt8 :=
  if (bpsHead patch).sourceSize < (bpsHead patch).targetSize then
    buffer.take (bpsHead patch).targetSize ++
      List.replicate ((bpsHead patch).targetSize - buffer.length) 0
  else buffer

/-- The sizes in the head are refused. -/
def InvalidSizes (patch buffer : List UInt8) : Prop :=
  (resized patch buffer).length < (bpsHead patch).sourceSize ∨
    (resized patch buffer).length < (bpsHead patch).targetSize ∨ (bpsHead patch).metadataSize ≠ 0

instance (patch buffer : List UInt8) : Decidable (InvalidSizes patch buffer) :=
  inferInstanceAs (Decidable (_ ∨ _))

/-- The state behind the head. -/
def headState (patch buffer : List UInt8) : PatchApplier where
  source := Stream.ofBytes (resized patch buffer)
  target := Stream.ofBytes (resized patch buffer)
  patch := Stream.mkAt patch (bpsHead patch).commands
  sourceRelativeOffset := 0
  targetRelativeOffset := 0

/-- The state before the first command. -/
def firstState (patch buffer : List UInt8) : PatchApplier :=
  { headState patch buffer with
    target := Stream.ofBytes (List.replicate (resized patch buffer).length 0) }

theorem readNumber_eq (s : Stream) :
    s.readNumber.1 = (numberAt s.bytes s.offset).1 ∧ s.readNumber.2.bytes = s.bytes ∧
      s.readNumber.2.offset = (numberAt s.bytes s.offset).2 :=
  ⟨rfl, rfl, rfl⟩

theorem numberAt_le {patch : List UInt8} {offset : Nat} (h : offset ≤ patch.length) :
    (numberAt patch offset).2 ≤ patch.length :=
  Stream.offset_numberLoop_le ⟨patch, offset, h⟩

theorem numberAt_ge (patch : List UInt8) (offset : Nat) : offset ≤ (numberAt patch offset).2 :=
  Nat.le_add_right _ _

theorem commands_le {patch : List UInt8} (h : magicSize ≤ patch.length) :
    (bpsHead patch).commands ≤ patch.length :=
  numberAt_le (numberAt_le (numberAt_le h))

theorem commands_ge (patch : List UInt8) : magicSize ≤ (bpsHead patch).commands :=
  (numberAt_ge _ _).trans ((numberAt_ge _ _).trans (numberAt_ge _ _))

/-! ## `ApplyBpsPatch` up to the commands -/

theorem seekAnyway_eq {s : Stream} {offset : Nat} (h : offset ≤ s.bytes.length) :
    s.seekAnyway offset = ⟨s.bytes, offset, h⟩ := by
  rw [Stream.seekAnyway, Stream.seek_eq h]
  rfl

theorem seekAnyway_of_gt {s : Stream} {offset : Nat} (h : ¬ offset ≤ s.bytes.length) :
    s.seekAnyway offset = s := by
  rw [Stream.seekAnyway, Stream.seek_eq_none h]
  rfl

/-- Back to where another stream over the same bytes is. -/
theorem seekAnyway_back {s t : Stream} (h : s.bytes = t.bytes) : s.seekAnyway t.offset = t := by
  rw [seekAnyway_eq (h ▸ t.inside)]
  exact Stream.ext h rfl

/-- The stream of the patch when `Apply` begins. -/
theorem rewound (patch : List UInt8) :
    (((Stream.ofBytes patch).seekAnyway magicSize).readNumber.2.readNumber.2).seekAnyway 0 =
      Stream.ofBytes patch := by
  have hbytes : (((Stream.ofBytes patch).seekAnyway magicSize).readNumber.2.readNumber.2).bytes =
      patch := by
    change ((Stream.ofBytes patch).seekAnyway magicSize).bytes = patch
    unfold Stream.seekAnyway Stream.seek
    split <;> rfl
  rw [seekAnyway_eq (Nat.zero_le _)]
  exact Stream.ext hbytes rfl

/-- A file without room for the mark: the optional that holds none is looked into. -/
theorem applyBpsPatch_short {patch : List UInt8} (buffer : List UInt8)
    (h : patch.length < magicSize) : applyBpsPatch patch buffer = none := by
  have hmark : ¬ (Stream.ofBytes patch).offset + magicSize ≤ (Stream.ofBytes patch).bytes.length :=
    by
    change ¬ 0 + magicSize ≤ patch.length
    omega
  unfold applyBpsPatch PatchApplier.apply
  simp only [rewound]
  rw [Stream.read_eq_none hmark]
  rfl

/-- The bytes of the buffer that `Apply` gets. -/
theorem resized_eq {patch : List UInt8} (buffer : List UInt8) (h : magicSize ≤ patch.length) :
    (if ((Stream.ofBytes patch).seekAnyway magicSize).readNumber.1 <
        ((Stream.ofBytes patch).seekAnyway magicSize).readNumber.2.readNumber.1 then
      buffer.take ((Stream.ofBytes patch).seekAnyway magicSize).readNumber.2.readNumber.1 ++
        List.replicate (((Stream.ofBytes patch).seekAnyway magicSize).readNumber.2.readNumber.1 -
          buffer.length) 0
    else buffer) = resized patch buffer := by
  rw [seekAnyway_eq (s := Stream.ofBytes patch) h]
  rfl

theorem applyBpsPatch_head {patch : List UInt8} (buffer : List UInt8)
    (h : magicSize ≤ patch.length) :
    applyBpsPatch patch buffer =
      if slice patch 0 magicSize ≠ bpsMagic then some (false, resized patch buffer)
      else if InvalidSizes patch buffer then some (false, resized patch buffer)
      else (headState patch buffer).applyCommands (bpsHead patch).sourceSize
        (bpsHead patch).targetSize := by
  have hmark : (Stream.ofBytes patch).offset + magicSize ≤ (Stream.ofBytes patch).bytes.length := by
    change 0 + magicSize ≤ patch.length
    omega
  have hstart : (⟨patch, 0 + magicSize, hmark⟩ : Stream).readNumber.2.readNumber.2.readNumber.2 =
      Stream.mkAt patch (bpsHead patch).commands := by
    refine Stream.ext rfl ?_
    rw [Stream.mkAt_offset (commands_le h)]
    rfl
  unfold headState
  rw [← hstart]
  unfold applyBpsPatch PatchApplier.apply
  simp only [rewound, resized_eq buffer h]
  rw [Stream.read_eq hmark, Option.bind_some]
  rfl

/-- A file without room for the checksums: the optional that holds none is looked into. -/
theorem applyCommands_short {a : PatchApplier} {sourceSize targetSize : Nat}
    (h : a.patch.bytes.length < footerSize) (hoffset : magicSize ≤ a.patch.offset) :
    a.applyCommands sourceSize targetSize = none := by
  have hseek : ¬ (a.patch.bytes.length + sizeRange - footerSize) % sizeRange ≤
      a.patch.bytes.length := by
    unfold footerSize sizeRange at *
    omega
  unfold PatchApplier.applyCommands
  simp only
  rw [seekAnyway_of_gt hseek]
  by_cases hfirst : a.patch.offset + 4 ≤ a.patch.bytes.length
  · rw [Stream.read_eq hfirst, Option.bind_some]
    have hsecond : ¬ a.patch.offset + 4 + 4 ≤ a.patch.bytes.length := by
      unfold magicSize footerSize at *
      omega
    simp only
    rw [Stream.read_eq_none hsecond]
    rfl
  · rw [Stream.read_eq_none hfirst]
    rfl

/-- What follows the head, where there is room for the checksums. -/
theorem applyCommands_eq {patch buffer : List UInt8}
    (hfooter : footerSize ≤ patch.length) (hpatch : patch.length < sizeRange)
    (hsizes : ¬ InvalidSizes patch buffer) :
    (headState patch buffer).applyCommands (bpsHead patch).sourceSize (bpsHead patch).targetSize =
      if crc32 (slice (resized patch buffer) 0 (bpsHead patch).sourceSize) ≠
          leValue (slice patch (patch.length - footerSize) 4) then
        some (false, resized patch buffer)
      else
        (PatchApplier.runCommands (patch.length - footerSize) (firstState patch buffer)).bind
          fun r =>
            if r.1 = false then some (false, r.2.target.bytes)
            else
              (checkedSlice r.2.target.bytes 0 (bpsHead patch).targetSize).bind fun target =>
                some (crc32 target = leValue (slice patch (patch.length - footerSize + 4) 4),
                  r.2.target.bytes) := by
  have hend : ((headState patch buffer).patch.bytes.length + sizeRange - footerSize) % sizeRange =
      patch.length - footerSize := by
    change (patch.length + sizeRange - footerSize) % sizeRange = _
    unfold footerSize sizeRange at *
    omega
  have hinside : patch.length - footerSize ≤ (headState patch buffer).patch.bytes.length :=
    Nat.sub_le _ _
  have hfirst : patch.length - footerSize + 4 ≤ (headState patch buffer).patch.bytes.length := by
    change _ ≤ patch.length
    unfold footerSize at *
    omega
  have hsecond : patch.length - footerSize + 4 + 4 ≤
      (headState patch buffer).patch.bytes.length := by
    change _ ≤ patch.length
    unfold footerSize at *
    omega
  have hsource : 0 + (bpsHead patch).sourceSize ≤
      (headState patch buffer).source.bytes.length := by
    change 0 + _ ≤ (resized patch buffer).length
    unfold InvalidSizes at hsizes
    omega
  have hback : Stream.seekAnyway ⟨_, _, hsecond⟩ (headState patch buffer).patch.offset =
      (headState patch buffer).patch := seekAnyway_back rfl
  unfold PatchApplier.applyCommands
  simp only [hend]
  rw [seekAnyway_eq hinside, Stream.read_eq hfirst, Option.bind_some]
  simp only
  rw [Stream.read_eq hsecond, Option.bind_some]
  simp only
  rw [checkedSlice_eq hsource, Option.bind_some]
  rw [hback]
  rfl

end AzaharPlus.FileSys.Patch
