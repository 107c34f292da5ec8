import AzaharPlus.FileSys.IpsMeaning

/-!
# BPS files

The format as a list of commands that derive a target from a source, and what `ApplyBpsPatch`
makes of a file in that format.  The numbers of the format have no bound; those of the code have 32
bits.

* `numberAt_encode` — a number of the format is read modulo 2^32.
* `Command`, `derive`, `bpsFile` — the commands, what they derive, and the file that holds them.
* `handleCommand_encode` — one command: the interpreter does what the derivation does.
* `patches_mean` — both formats.
-/

namespace AzaharPlus.FileSys.Patch

open Bytes

/-! ## Numbers -/

/-- The encoding of a number: seven bits at a time, the last byte marked. -/
def encodeNumber (n : Nat) : List UInt8 :=
  if n < 128 then [UInt8.ofNat (128 + n)]
  else UInt8.ofNat (n % 128) :: encodeNumber (n / 128 - 1)
  termination_by n
  decreasing_by omega

theorem encodeNumber_small {n : Nat} (h : n < 128) : encodeNumber n = [UInt8.ofNat (128 + n)] := by
  rw [encodeNumber, if_pos h]

theorem encodeNumber_large {n : Nat} (h : ¬ n < 128) :
    encodeNumber n = UInt8.ofNat (n % 128) :: encodeNumber (n / 128 - 1) := by
  rw [encodeNumber, if_neg h]

theorem encodeNumber_pos (n : Nat) : 0 < (encodeNumber n).length := by
  by_cases h : n < 128
  · rw [encodeNumber_small h]
    exact Nat.one_pos
  · rw [encodeNumber_large h]
    exact Nat.succ_pos _

theorem numberLoop_encode (n data shift : Nat) (rest : List UInt8) :
    Stream.numberLoop (encodeNumber n ++ rest) data shift =
      ((data + n * shift) % numberRange, (encodeNumber n).length) := by
  induction n using Nat.strong_induction_on generalizing data shift with
  | _ n ih =>
    by_cases hsmall : n < 128
    · have hbyte : (UInt8.ofNat (128 + n)).toNat = 128 + n := by
        rw [UInt8.toNat_ofNat']
        omega
      have hbits : (128 + n) % 128 = n := by omega
      rw [encodeNumber_small hsmall, List.singleton_append]
      simp only [Stream.numberLoop, hbyte, hbits]
      rw [if_pos (Nat.le_add_right _ _)]
      rfl
    · have hbyte : (UInt8.ofNat (n % 128)).toNat = n % 128 := by
        rw [UInt8.toNat_ofNat']
        omega
      have hlast : ¬ 128 ≤ n % 128 := by omega
      rw [encodeNumber_large hsmall, List.cons_append]
      simp only [Stream.numberLoop, hbyte]
      rw [if_neg hlast, ih _ (by omega), List.length_cons]
      have hsplit : n = n % 128 + 128 * (n / 128 - 1 + 1) := by omega
      have hvalue : ((data + n % 128 % 128 * shift) % numberRange + shift * 128 % numberRange) %
            numberRange + (n / 128 - 1) * (shift * 128 % numberRange) ≡
          data + n * shift [MOD numberRange] := by
        calc ((data + n % 128 % 128 * shift) % numberRange + shift * 128 % numberRange) %
              numberRange + (n / 128 - 1) * (shift * 128 % numberRange)
            ≡ data + n % 128 * shift + shift * 128 + (n / 128 - 1) * (shift * 128)
              [MOD numberRange] := by
              refine Nat.ModEq.add ((Nat.mod_modEq _ _).trans ?_)
                (Nat.ModEq.mul_left _ (Nat.mod_modEq _ _))
              rw [Nat.mod_mod]
              exact Nat.ModEq.add (Nat.mod_modEq _ _) (Nat.mod_modEq _ _)
          _ = data + n * shift := by
              conv_rhs => rw [hsplit]
              ring
      exact Prod.ext hvalue rfl

/-- A number of the format as the code reads it. -/
theorem numberAt_encode {file : List UInt8} (pre rest : List UInt8) {n : Nat}
    (hfile : file = pre ++ encodeNumber n ++ rest) :
    numberAt file pre.length = (n % numberRange, (pre ++ encodeNumber n).length) := by
  rw [numberAt, hfile, List.append_assoc, List.drop_left, numberLoop_encode, Nat.zero_add,
    Nat.mul_one, List.length_append]

/-! ## Commands -/

/-- The commands, with the way that a relative offset moves. -/
inductive Command where
  | sourceRead (length : Nat)
  | targetRead (bytes : List UInt8)
  | sourceCopy (length : Nat) (move : Int)
  | targetCopy (length : Nat) (move : Int)

/-- A derivation on its way: what there is of the target, and the relative offsets. -/
structure Derivation where
  out : List UInt8
  sourceRelative : Nat
  targetRelative : Nat

/-- Bytes of the target are copied behind it one by one, so that a copy may read what it wrote. -/
def copyBehind (out : List UInt8) (place : Nat) : Nat → List UInt8
  | 0 => out
  | length + 1 => copyBehind (out ++ [byteAt out place]) (place + 1) length

namespace Command

/-- How many bytes a command is for. -/
def length : Command → Nat
  | sourceRead length => length
  | targetRead bytes => bytes.length
  | sourceCopy length _ => length
  | targetCopy length _ => length

/-- What a command derives; each is for at least one byte. -/
def derive (source : List UInt8) (d : Derivation) : Command → Option Derivation
  | sourceRead length =>
      if 0 < length ∧ d.out.length + length ≤ source.length then
        some { d with out := d.out ++ slice source d.out.length length }
      else none
  | targetRead bytes =>
      if 0 < bytes.length then some { d with out := d.out ++ bytes } else none
  | sourceCopy length move =>
      let place := (d.sourceRelative : Int) + move
      if 0 < length ∧ 0 ≤ place ∧ place + length ≤ source.length then
        some { d with
          out := d.out ++ slice source place.toNat length
          sourceRelative := place.toNat + length }
      else none
  | targetCopy length move =>
      let place := (d.targetRelative : Int) + move
      if 0 < length ∧ 0 ≤ place ∧ place < d.out.length then
        some { d with
          out := copyBehind d.out place.toNat length
          targetRelative := place.toNat + length }
      else none

/-- The number of a relative offset: the lowest bit is the sign. -/
def moveNumber (move : Int) : Nat := move.natAbs * 2 + if move < 0 then 1 else 0

/-- The number in front of a command. -/
def number (c : Command) : Nat :=
  (c.length - 1) * 4 +
    match c with
    | sourceRead _ => 0
    | targetRead _ => 1
    | sourceCopy _ _ => 2
    | targetCopy _ _ => 3

/-- What stands behind the number. -/
def operand : Command → List UInt8
  | sourceRead _ => []
  | targetRead bytes => bytes
  | sourceCopy _ move => encodeNumber (moveNumber move)
  | targetCopy _ move => encodeNumber (moveNumber move)

/-- The command in the file. -/
def encode (c : Command) : List UInt8 := encodeNumber c.number ++ c.operand

/-- The numbers of the command are numbers of the code. -/
def Numbers32 (c : Command) : Prop :=
  c.number < numberRange ∧
    match c with
    | sourceCopy _ move => moveNumber move < numberRange
    | targetCopy _ move => moveNumber move < numberRange
    | _ => True

end Command

/-- What a list of commands derives. -/
def derive (source : List UInt8) (commands : List Command) (d : Derivation) : Option Derivation :=
  commands.foldlM (Command.derive source) d

/-- A derivation of a target from a source. -/
structure BpsPatch where
  source : List UInt8
  target : List UInt8
  commands : List Command
  derives : (derive source commands ⟨[], 0, 0⟩).map Derivation.out = some target

namespace BpsPatch

/-- The file up to the commands. -/
def head (p : BpsPatch) : List UInt8 :=
  bpsMagic ++ encodeNumber p.source.length ++ encodeNumber p.target.length ++ encodeNumber 0

/-- The file up to its own checksum. -/
def body (p : BpsPatch) : List UInt8 :=
  p.head ++ p.commands.flatMap Command.encode ++ leBytes 4 (crc32 p.source) ++
    leBytes 4 (crc32 p.target)

/-- The file. -/
def file (p : BpsPatch) : List UInt8 := p.body ++ leBytes 4 (crc32 p.body)

/-- All numbers in the file are numbers of the code. -/
structure Numbers32 (p : BpsPatch) : Prop where
  source : p.source.length < numberRange
  target : p.target.length < numberRange
  commands : ∀ c ∈ p.commands, c.Numbers32

end BpsPatch

/-! ## The pieces of a step -/

/-- Bytes copied behind what there is. -/
theorem memcpy_behind {out data : List UInt8} {k : Nat} :
    memcpy (out ++ List.replicate k 0) out.length data =
      out ++ data ++ List.replicate (k - data.length) 0 := by
  have hdrop : (out ++ List.replicate k 0).drop (out.length + data.length) =
      List.replicate (k - data.length) (0 : UInt8) := by
    rw [List.drop_length_add_append, List.drop_replicate]
  rw [memcpy, List.take_left, hdrop]

theorem length_copyBehind (out : List UInt8) (place length : Nat) :
    (copyBehind out place length).length = out.length + length := by
  induction length generalizing out place with
  | zero => rfl
  | succ length ih =>
    rw [copyBehind, ih, List.length_append, List.length_singleton]
    omega

/-- The loop of `TargetCopy` over a target of which the rest is still zero. -/
theorem copyWithin_behind {out : List UInt8} {place length k : Nat} (hplace : place < out.length)
    (hk : length ≤ k) (hrange : out.length + length ≤ sizeRange) :
    PatchApplier.copyWithin out.length place length (out ++ List.replicate k 0) =
      some (copyBehind out place length ++ List.replicate (k - length) 0) := by
  induction length generalizing out place k with
  | zero => rfl
  | succ length ih =>
    obtain ⟨k, rfl⟩ : ∃ k', k = k' + 1 := ⟨k - 1, by omega⟩
    have hget : (out ++ List.replicate (k + 1) 0)[place]? = some (byteAt out place) := by
      rw [List.getElem?_append_left hplace, byteAt_eq_getElem hplace,
        List.getElem?_eq_getElem hplace]
    have hset : (out ++ List.replicate (k + 1) 0).set out.length (byteAt out place) =
        (out ++ [byteAt out place]) ++ List.replicate k 0 := by
      rw [List.set_append_right _ _ (Nat.le_refl _), Nat.sub_self, List.replicate_succ,
        List.set_cons_zero, List.append_assoc, List.singleton_append]
    have hlength : (out ++ [byteAt out place]).length = out.length + 1 := by simp
    rw [PatchApplier.copyWithin, hget, Option.bind_some, checkedSet_eq _ (by simp),
      Option.bind_some, hset, Nat.mod_eq_of_lt (by omega), ← hlength,
      ih (by omega) (by omega) (by omega), copyBehind, Nat.add_sub_add_right]

/-- A relative offset moves as the format says. -/
theorem moveOffset_moveNumber {offset place : Nat} {move : Int} (h : (offset : Int) + move = place)
    (hoffset : offset < sizeRange) (hplace : place < sizeRange) :
    PatchApplier.moveOffset offset (Command.moveNumber move) = place := by
  unfold PatchApplier.moveOffset Command.moveNumber
  by_cases hneg : move < 0
  · rw [if_pos hneg, if_pos (by omega)]
    have habs : (move.natAbs : Int) = -move := by omega
    have hhalf : (move.natAbs * 2 + 1) / 2 = move.natAbs := by omega
    rw [hhalf]
    have hsum : offset + (sizeRange - move.natAbs) = place + sizeRange := by omega
    rw [hsum, Nat.add_mod_right, Nat.mod_eq_of_lt hplace]
  · rw [if_neg hneg, if_neg (by omega)]
    have habs : (move.natAbs : Int) = move := by omega
    have hsum : offset + (move.natAbs * 2 + 0) / 2 = place := by omega
    rw [hsum, Nat.mod_eq_of_lt hplace]

/-! ## The interpreter follows the derivation -/

/-- The state of the interpreter and a derivation: the target holds what there is and zeros behind
it. -/
structure Follows (source tail : List UInt8) (size : Nat) (a : PatchApplier) (d : Derivation) :
    Prop where
  sourceBytes : a.source.bytes = source ++ tail
  targetBytes : a.target.bytes = d.out ++ List.replicate (size - d.out.length) 0
  targetOffset : a.target.offset = d.out.length
  sourceRelative : a.sourceRelativeOffset = d.sourceRelative
  targetRelative : a.targetRelativeOffset = d.targetRelative
  sourceInside : d.sourceRelative ≤ source.length
  targetInside : d.targetRelative ≤ d.out.length

namespace Follows

variable {source tail : List UInt8} {size : Nat} {a : PatchApplier} {d d' : Derivation}

theorem withPatch (h : Follows source tail size a d) (patch : Stream) :
    Follows source tail size { a with patch := patch } d :=
  ⟨h.sourceBytes, h.targetBytes, h.targetOffset, h.sourceRelative, h.targetRelative,
    h.sourceInside, h.targetInside⟩

/-- `CopyFrom` puts a block behind what there is. -/
theorem copyFrom (h : Follows source tail size a d) (other : Stream) {length : Nat}
    (hfits : d.out.length + length ≤ size)
    (hother : other.offset + length ≤ other.bytes.length) :
    ∃ target other' : Stream,
      PatchApplier.copyFrom a.target other length = some (some (target, other')) ∧
      target.bytes = d.out ++ slice other.bytes other.offset length ++
        List.replicate (size - (d.out ++ slice other.bytes other.offset length).length) 0 ∧
      target.offset = (d.out ++ slice other.bytes other.offset length).length ∧
      other'.bytes = other.bytes ∧ other'.offset = other.offset + length := by
  have htarget : a.target.offset + length ≤ a.target.bytes.length := by
    rw [h.targetOffset, h.targetBytes, List.length_append, List.length_replicate]
    omega
  obtain ⟨target, other', hcopy, hbytes, hoffset, hrest⟩ :=
    PatchApplier.copyFrom_fits htarget hother
  refine ⟨target, other', hcopy, ?_, ?_, hrest⟩
  · rw [hbytes, h.targetBytes, h.targetOffset, memcpy_behind, List.length_append, length_slice hother,
      Nat.sub_sub]
  · rw [hoffset, h.targetOffset, List.length_append, length_slice hother]

theorem sourceRead {length : Nat} (h : Follows source tail size a d)
    (hd : (Command.sourceRead length).derive source d = some d') (hfits : d'.out.length ≤ size) :
    ∃ a', a.sourceRead length = some (some a') ∧ Follows source tail size a' d' ∧
      a'.patch = a.patch := by
  simp only [Command.derive] at hd
  split at hd
  · rename_i hcond
    cases hd
    have hlength : (slice source d.out.length length).length = length := length_slice hcond.2
    have hseek : a.target.offset ≤ a.source.bytes.length := by
      rw [h.targetOffset, h.sourceBytes, List.length_append]
      omega
    have hother : a.target.offset + length ≤ a.source.bytes.length := by
      rw [h.targetOffset, h.sourceBytes, List.length_append]
      omega
    have hslice : slice a.source.bytes a.target.offset length =
        slice source d.out.length length := by
      rw [h.sourceBytes, h.targetOffset, slice_append_left hcond.2]
    rw [List.length_append, hlength] at hfits
    obtain ⟨target, source', hcopy, hbytes, hoffset, hsource, -⟩ :=
      h.copyFrom ⟨a.source.bytes, a.target.offset, hseek⟩ hfits hother
    simp only [hslice] at hbytes hoffset
    refine ⟨{ a with target := target, source := source' }, ?_, ?_, rfl⟩
    · rw [PatchApplier.sourceRead, Stream.seek_eq hseek]
      simp only [hcopy, Option.map_some]
    · exact ⟨hsource.trans h.sourceBytes, hbytes, hoffset, h.sourceRelative, h.targetRelative,
        h.sourceInside, h.targetInside.trans (by simp)⟩
  · cases hd

theorem targetRead {bytes pre rest : List UInt8} (h : Follows source tail size a d)
    (hd : (Command.targetRead bytes).derive source d = some d') (hfits : d'.out.length ≤ size)
    (hpatch : a.patch.bytes = pre ++ bytes ++ rest) (hoffset : a.patch.offset = pre.length) :
    ∃ a', a.targetRead bytes.length = some (some a') ∧ Follows source tail size a' d' ∧
      a'.patch.bytes = a.patch.bytes ∧ a'.patch.offset = (pre ++ bytes).length := by
  simp only [Command.derive] at hd
  split at hd
  · cases hd
    have hother : a.patch.offset + bytes.length ≤ a.patch.bytes.length := by
      rw [hoffset, hpatch, List.length_append, List.length_append]
      omega
    have hslice : slice a.patch.bytes a.patch.offset bytes.length = bytes :=
      slice_at pre bytes rest hpatch hoffset.symm rfl
    rw [List.length_append] at hfits
    obtain ⟨target, patch', hcopy, hbytes, htarget, hrest, hnext⟩ :=
      h.copyFrom a.patch hfits hother
    rw [hslice] at hbytes htarget
    refine ⟨{ a with target := target, patch := patch' }, ?_, ?_, hrest, ?_⟩
    · rw [PatchApplier.targetRead, hcopy]
      rfl
    · exact ⟨h.sourceBytes, hbytes, htarget, h.sourceRelative, h.targetRelative, h.sourceInside,
        h.targetInside.trans (by simp)⟩
    · exact hnext.trans (by rw [hoffset, List.length_append])
  · cases hd

theorem sourceCopy {length : Nat} {move : Int} {pre rest : List UInt8}
    (h : Follows source tail size a d)
    (hd : (Command.sourceCopy length move).derive source d = some d')
    (hfits : d'.out.length ≤ size) (hmove : Command.moveNumber move < numberRange)
    (hsource : source.length < numberRange)
    (hpatch : a.patch.bytes = pre ++ encodeNumber (Command.moveNumber move) ++ rest)
    (hoffset : a.patch.offset = pre.length) :
    ∃ a', a.sourceCopy length = some (some a') ∧ Follows source tail size a' d' ∧
      a'.patch.bytes = a.patch.bytes ∧
      a'.patch.offset = (pre ++ encodeNumber (Command.moveNumber move)).length := by
  simp only [Command.derive] at hd
  split at hd
  · rename_i hcond
    cases hd
    obtain ⟨hpos, hnonneg, hinside⟩ := hcond
    obtain ⟨place, hplace⟩ : ∃ place : Nat, (d.sourceRelative : Int) + move = place :=
      ⟨_, (Int.toNat_of_nonneg hnonneg).symm⟩
    simp only [hplace, Int.toNat_natCast] at hfits hinside ⊢
    have hend : place + length ≤ source.length := by omega
    have hbelow : numberRange < sizeRange := by decide
    have hinsideNow := h.sourceInside
    have hnumber := numberAt_encode pre rest hpatch
    rw [Nat.mod_eq_of_lt hmove, ← hoffset] at hnumber
    have hmoved : PatchApplier.moveOffset a.sourceRelativeOffset a.patch.readNumber.1 = place := by
      rw [(readNumber_eq a.patch).1, hnumber, h.sourceRelative]
      exact moveOffset_moveNumber hplace (by omega) (by omega)
    have hseek : place ≤ a.source.bytes.length := by
      rw [h.sourceBytes, List.length_append]
      omega
    have hother : place + length ≤ a.source.bytes.length := by
      rw [h.sourceBytes, List.length_append]
      omega
    have hslice : slice a.source.bytes place length = slice source place length := by
      rw [h.sourceBytes, slice_append_left hend]
    have hlength : (slice source place length).length = length := length_slice hend
    rw [List.length_append, hlength] at hfits
    obtain ⟨target, source', hcopy, hbytes, htarget, hsource', -⟩ :=
      h.copyFrom ⟨a.source.bytes, place, hseek⟩ hfits hother
    simp only [hslice] at hbytes htarget
    refine ⟨⟨source', target, a.patch.readNumber.2, (place + length) % sizeRange,
      a.targetRelativeOffset⟩, ?_, ?_, rfl, congrArg Prod.snd hnumber⟩
    · unfold PatchApplier.sourceCopy
      simp only [hmoved]
      rw [Stream.seek_eq hseek]
      simp only [hcopy, Option.map_some]
    · exact ⟨hsource'.trans h.sourceBytes, hbytes, htarget, Nat.mod_eq_of_lt (by omega),
        h.targetRelative, hend, h.targetInside.trans (by simp)⟩
  · cases hd

theorem targetCopy {length : Nat} {move : Int} {pre rest : List UInt8}
    (h : Follows source tail size a d)
    (hd : (Command.targetCopy length move).derive source d = some d')
    (hfits : d'.out.length ≤ size) (hmove : Command.moveNumber move < numberRange)
    (hsmall : d'.out.length < numberRange)
    (hpatch : a.patch.bytes = pre ++ encodeNumber (Command.moveNumber move) ++ rest)
    (hoffset : a.patch.offset = pre.length) :
    ∃ a', a.targetCopy length = some (some a') ∧ Follows source tail size a' d' ∧
      a'.patch.bytes = a.patch.bytes ∧
      a'.patch.offset = (pre ++ encodeNumber (Command.moveNumber move)).length := by
  simp only [Command.derive] at hd
  split at hd
  · rename_i hcond
    cases hd
    obtain ⟨hpos, hnonneg, hinside⟩ := hcond
    obtain ⟨place, hplace⟩ : ∃ place : Nat, (d.targetRelative : Int) + move = place :=
      ⟨_, (Int.toNat_of_nonneg hnonneg).symm⟩
    simp only [hplace, Int.toNat_natCast] at hfits hinside hsmall ⊢
    rw [length_copyBehind] at hfits hsmall
    have hbefore : place < d.out.length := by omega
    have hbelow : numberRange < sizeRange := by decide
    have hinsideNow := h.targetInside
    have hnumber := numberAt_encode pre rest hpatch
    rw [Nat.mod_eq_of_lt hmove, ← hoffset] at hnumber
    have hmoved : PatchApplier.moveOffset a.targetRelativeOffset a.patch.readNumber.1 = place := by
      rw [(readNumber_eq a.patch).1, hnumber, h.targetRelative]
      exact moveOffset_moveNumber hplace (by omega) (by omega)
    have hsize : a.target.bytes.length = size := by
      rw [h.targetBytes, List.length_append, List.length_replicate]
      omega
    have hwrap : (place + length) % sizeRange = place + length := Nat.mod_eq_of_lt (by omega)
    have hcopy : PatchApplier.copyWithin a.target.offset place length a.target.bytes =
        some (copyBehind d.out place length ++
          List.replicate (size - (copyBehind d.out place length).length) 0) := by
      rw [h.targetOffset, h.targetBytes, copyWithin_behind hbefore (by omega) (by omega),
        length_copyBehind, Nat.sub_sub]
    have hseek : a.target.offset + length ≤ (Stream.mkAt (copyBehind d.out place length ++
        List.replicate (size - (copyBehind d.out place length).length) 0)
        a.target.offset).bytes.length := by
      change _ ≤ (_ ++ List.replicate _ (0 : UInt8)).length
      rw [h.targetOffset, List.length_append, length_copyBehind]
      omega
    refine ⟨⟨a.source, ⟨_, a.target.offset + length, hseek⟩, a.patch.readNumber.2,
      a.sourceRelativeOffset, (place + length) % sizeRange⟩, ?_, ?_, rfl, congrArg Prod.snd hnumber⟩
    · unfold PatchApplier.targetCopy
      simp only [hmoved]
      rw [if_neg (by rw [hsize, h.targetOffset]; omega), if_neg (by rw [hsize, hwrap]; omega), hcopy,
        Option.map_some, seekAnyway_eq hseek]
    · refine ⟨h.sourceBytes, rfl, ?_, h.sourceRelative, hwrap, h.sourceInside, ?_⟩
      · exact (congrArg (· + length) h.targetOffset).trans (length_copyBehind _ _ _).symm
      · exact (Nat.le_of_lt (Nat.add_lt_add_right hbefore _)).trans_eq
          (length_copyBehind _ _ _).symm
  · cases hd

end Follows

/-! ## The loop over the commands -/

/-- A command puts as many bytes behind what there is as it is for; never none. -/
theorem Command.length_derive {source : List UInt8} {d d' : Derivation} {c : Command}
    (h : c.derive source d = some d') :
    0 < c.length ∧ d'.out.length = d.out.length + c.length := by
  cases c with
  | sourceRead length =>
    simp only [Command.derive] at h
    split at h
    · rename_i hcond
      cases h
      exact ⟨hcond.1, by rw [List.length_append, length_slice hcond.2]; rfl⟩
    · cases h
  | targetRead bytes =>
    simp only [Command.derive] at h
    split at h
    · rename_i hcond
      cases h
      exact ⟨hcond, List.length_append⟩
    · cases h
  | sourceCopy length move =>
    simp only [Command.derive] at h
    split at h
    · rename_i hcond
      cases h
      exact ⟨hcond.1, by rw [List.length_append, length_slice (by omega)]; rfl⟩
    · cases h
  | targetCopy length move =>
    simp only [Command.derive] at h
    split at h
    · rename_i hcond
      cases h
      exact ⟨hcond.1, length_copyBehind _ _ _⟩
    · cases h

theorem length_le_derive {source : List UInt8} {commands : List Command} {d d' : Derivation}
    (h : derive source commands d = some d') : d.out.length ≤ d'.out.length := by
  induction commands generalizing d with
  | nil =>
    cases h
    exact Nat.le_refl _
  | cons c rest ih =>
    rw [derive, List.foldlM_cons] at h
    obtain ⟨d₁, hfirst, hrest⟩ := Option.bind_eq_some_iff.1 h
    have hle := ih hrest
    rw [(Command.length_derive hfirst).2] at hle
    omega

/-- The number of a command is read, and the command is done behind it. -/
theorem handleCommand_number {a : PatchApplier} {pre rest : List UInt8} {n : Nat}
    (hpatch : a.patch.bytes = pre ++ encodeNumber n ++ rest)
    (hoffset : a.patch.offset = pre.length) :
    (a.handleCommand =
      match n % numberRange % 4 with
      | 0 => { a with patch := a.patch.readNumber.2 }.sourceRead (n % numberRange / 4 + 1)
      | 1 => { a with patch := a.patch.readNumber.2 }.targetRead (n % numberRange / 4 + 1)
      | 2 => { a with patch := a.patch.readNumber.2 }.sourceCopy (n % numberRange / 4 + 1)
      | _ => { a with patch := a.patch.readNumber.2 }.targetCopy (n % numberRange / 4 + 1)) ∧
    a.patch.readNumber.2.offset = (pre ++ encodeNumber n).length := by
  have hnumber := numberAt_encode pre _ hpatch
  rw [← hoffset] at hnumber
  refine ⟨?_, congrArg Prod.snd hnumber⟩
  have hdata : a.patch.readNumber.1 = n % numberRange := by
    rw [(readNumber_eq a.patch).1, hnumber]
  exact hdata ▸ rfl

/-- One command of the file: the interpreter does what the derivation does. -/
theorem handleCommand_encode {source tail pre rest : List UInt8} {size : Nat} {a : PatchApplier}
    {d d' : Derivation} {c : Command} (h : Follows source tail size a d)
    (hd : c.derive source d = some d') (hfits : d'.out.length ≤ size)
    (hsmall : d'.out.length < numberRange) (hsource : source.length < numberRange)
    (hc : c.Numbers32) (hpatch : a.patch.bytes = pre ++ c.encode ++ rest)
    (hoffset : a.patch.offset = pre.length) :
    ∃ a', a.handleCommand = some (some a') ∧ Follows source tail size a' d' ∧
      a'.patch.bytes = a.patch.bytes ∧ a'.patch.offset = (pre ++ c.encode).length := by
  have hpos := (Command.length_derive hd).1
  -- the state behind the command's number
  let b : PatchApplier := { a with patch := a.patch.readNumber.2 }
  have hb : Follows source tail size b d := h.withPatch _
  have hsplit : a.patch.bytes = pre ++ encodeNumber c.number ++ (c.operand ++ rest) := by
    rw [hpatch, Command.encode]
    simp
  obtain ⟨hcommand, hboffset⟩ := handleCommand_number hsplit hoffset
  rw [Nat.mod_eq_of_lt hc.1] at hcommand
  have hbpatch : b.patch.bytes = pre ++ encodeNumber c.number ++ c.operand ++ rest := by
    rw [List.append_assoc, ← hsplit]
    rfl
  have hencode : pre ++ c.encode = pre ++ encodeNumber c.number ++ c.operand := by
    rw [Command.encode, List.append_assoc]
  have hlength : c.number / 4 + 1 = c.length := by
    unfold Command.number
    split <;> omega
  rw [hlength] at hcommand
  rw [hencode, hcommand]
  cases c with
  | sourceRead length =>
    have hkind : (Command.sourceRead length).number % 4 = 0 := Nat.mul_add_mod_self_right _ _ 0
    obtain ⟨a', hrun, hfollows, hsame⟩ := hb.sourceRead hd hfits
    rw [hkind]
    refine ⟨a', hrun, hfollows, congrArg (·.bytes) (hsame.trans rfl), ?_⟩
    rw [hsame, hboffset, Command.operand, List.append_nil]
  | targetRead bytes =>
    have hkind : (Command.targetRead bytes).number % 4 = 1 := Nat.mul_add_mod_self_right _ _ 1
    rw [hkind]
    exact hb.targetRead hd hfits hbpatch hboffset
  | sourceCopy length move =>
    have hkind : (Command.sourceCopy length move).number % 4 = 2 :=
      Nat.mul_add_mod_self_right _ _ 2
    rw [hkind]
    exact hb.sourceCopy hd hfits hc.2 hsource hbpatch hboffset
  | targetCopy length move =>
    have hkind : (Command.targetCopy length move).number % 4 = 3 :=
      Nat.mul_add_mod_self_right _ _ 3
    rw [hkind]
    exact hb.targetCopy hd hfits hc.2 hsmall hbpatch hboffset

/-- The commands of the file that are left. -/
theorem runCommands_encode {source tail pre rest : List UInt8} {size : Nat} {a : PatchApplier}
    {commands : List Command} {d d' : Derivation} (h : Follows source tail size a d)
    (hd : derive source commands d = some d') (hfits : d'.out.length ≤ size)
    (hsmall : d'.out.length < numberRange) (hsource : source.length < numberRange)
    (hc : ∀ c ∈ commands, c.Numbers32)
    (hpatch : a.patch.bytes = pre ++ commands.flatMap Command.encode ++ rest)
    (hoffset : a.patch.offset = pre.length) :
    ∃ a', PatchApplier.runCommands (pre ++ commands.flatMap Command.encode).length a =
        some (true, a') ∧ Follows source tail size a' d' := by
  induction commands generalizing a d pre with
  | nil =>
    cases hd
    refine ⟨a, ?_, h⟩
    rw [PatchApplier.runCommands, if_neg (by rw [hoffset]; simp)]
  | cons c commands ih =>
    rw [derive, List.foldlM_cons] at hd
    obtain ⟨d₁, hfirst, hrest⟩ := Option.bind_eq_some_iff.1 hd
    have hle : d₁.out.length ≤ d'.out.length := length_le_derive hrest
    have hfile : pre ++ (c :: commands).flatMap Command.encode =
        pre ++ c.encode ++ commands.flatMap Command.encode := by simp
    rw [hfile] at hpatch ⊢
    have hsplit : a.patch.bytes =
        pre ++ c.encode ++ (commands.flatMap Command.encode ++ rest) := by
      rw [hpatch, List.append_assoc (pre ++ c.encode)]
    obtain ⟨a₁, hcommand, hfollows, hbytes, hnext⟩ := handleCommand_encode h hfirst
      (by omega) (by omega) hsource (hc c List.mem_cons_self) hsplit hoffset
    have hlt : a.patch.offset <
        (pre ++ c.encode ++ commands.flatMap Command.encode).length := by
      have hpos := encodeNumber_pos c.number
      rw [hoffset, Command.encode]
      simp only [List.length_append]
      omega
    rw [PatchApplier.runCommands_step hlt, hcommand, Option.bind_some]
    exact ih hfollows hrest (fun c' hc' => hc c' (List.mem_cons_of_mem c hc'))
      (hbytes.trans hpatch) hnext

/-! ## The file -/

namespace BpsPatch

/-- What stands behind the commands. -/
def footer (p : BpsPatch) : List UInt8 :=
  leBytes 4 (crc32 p.source) ++ leBytes 4 (crc32 p.target) ++ leBytes 4 (crc32 p.body)

theorem file_eq (p : BpsPatch) :
    p.file = p.head ++ p.commands.flatMap Command.encode ++ p.footer := by
  simp [file, body, footer]

theorem length_footer (p : BpsPatch) : p.footer.length = footerSize := by
  simp [footer, footerSize]

theorem crc32_lt (data : List UInt8) : crc32 data < 256 ^ 4 := UInt32.toNat_lt _

theorem bpsHead_file {p : BpsPatch} (hsource : p.source.length < numberRange)
    (htarget : p.target.length < numberRange) :
    bpsHead p.file = ⟨p.source.length, p.target.length, 0, p.head.length⟩ := by
  have hfirst : numberAt p.file bpsMagic.length = (p.source.length % numberRange, _) :=
    numberAt_encode bpsMagic (encodeNumber p.target.length ++ encodeNumber 0 ++
      (p.commands.flatMap Command.encode ++ p.footer)) (by simp [file_eq, head])
  have hsecond : numberAt p.file (bpsMagic ++ encodeNumber p.source.length).length =
      (p.target.length % numberRange, _) :=
    numberAt_encode (bpsMagic ++ encodeNumber p.source.length)
      (encodeNumber 0 ++ (p.commands.flatMap Command.encode ++ p.footer))
      (by simp [file_eq, head])
  have hthird : numberAt p.file
      (bpsMagic ++ encodeNumber p.source.length ++ encodeNumber p.target.length).length =
      (0 % numberRange, _) :=
    numberAt_encode (bpsMagic ++ encodeNumber p.source.length ++ encodeNumber p.target.length)
      (p.commands.flatMap Command.encode ++ p.footer) (by simp [file_eq, head])
  rw [Nat.mod_eq_of_lt hsource] at hfirst
  rw [Nat.mod_eq_of_lt htarget] at hsecond
  have hmagic : magicSize = bpsMagic.length := rfl
  unfold bpsHead
  simp only [hmagic, hfirst, hsecond, hthird]
  rfl

theorem resized_file {p : BpsPatch} (hsource : p.source.length < numberRange)
    (htarget : p.target.length < numberRange) (tail : List UInt8) :
    ∃ tail', resized p.file (p.source ++ tail) = p.source ++ tail' ∧
      p.target.length ≤ (p.source ++ tail').length := by
  unfold resized
  rw [bpsHead_file hsource htarget]
  simp only
  by_cases hlt : p.source.length < p.target.length
  · rw [if_pos hlt, List.take_append, List.take_of_length_le (Nat.le_of_lt hlt),
      List.append_assoc]
    refine ⟨_, rfl, ?_⟩
    simp only [List.length_append, List.length_take, List.length_replicate]
    omega
  · rw [if_neg hlt]
    refine ⟨tail, rfl, ?_⟩
    rw [List.length_append]
    omega

/-- The state before the first command: nothing is there yet. -/
theorem follows_firstState {patch buffer source tail : List UInt8}
    (h : resized patch buffer = source ++ tail) :
    Follows source tail (source ++ tail).length (firstState patch buffer) ⟨[], 0, 0⟩ where
  sourceBytes := h
  targetBytes := by rw [← h]; rfl
  targetOffset := rfl
  sourceRelative := rfl
  targetRelative := rfl
  sourceInside := Nat.zero_le _
  targetInside := Nat.zero_le _

theorem length_file (p : BpsPatch) :
    p.file.length = (p.head ++ p.commands.flatMap Command.encode).length + footerSize := by
  rw [file_eq, List.length_append, length_footer]

theorem magicSize_le_file (p : BpsPatch) : magicSize ≤ p.file.length := by
  simp [file_eq, head, bpsMagic, magicSize]

theorem offset_firstState {p : BpsPatch} (hsource : p.source.length < numberRange)
    (htarget : p.target.length < numberRange) (buffer : List UInt8) :
    (firstState p.file buffer).patch.offset = p.head.length := by
  change (Stream.mkAt _ _).offset = _
  rw [Stream.mkAt_offset (commands_le p.magicSize_le_file), bpsHead_file hsource htarget]

/-- `ApplyBpsPatch` on the file of a derivation, if the loop over the commands comes to its end. -/
theorem applyBpsPatch_of_run {p : BpsPatch} (hsource : p.source.length < numberRange)
    (htarget : p.target.length < numberRange) (hfile : p.file.length < sizeRange)
    {tail : List UInt8} {a : PatchApplier}
    (hrun : PatchApplier.runCommands (p.head ++ p.commands.flatMap Command.encode).length
      (firstState p.file (p.source ++ tail)) = some (true, a)) :
    applyBpsPatch p.file (p.source ++ tail) =
      some (decide (crc32 (slice a.target.bytes 0 p.target.length) = crc32 p.target),
        a.target.bytes) := by
  obtain ⟨tail', hresized, hroom⟩ := resized_file hsource htarget tail
  have hhead := bpsHead_file hsource htarget
  have hlength := p.length_file
  have hend : p.file.length - footerSize = (p.head ++ p.commands.flatMap Command.encode).length := by
    omega
  have hmagic : slice p.file 0 magicSize = bpsMagic :=
    slice_at [] _ (encodeNumber p.source.length ++ encodeNumber p.target.length ++ encodeNumber 0 ++
      p.commands.flatMap Command.encode ++ p.footer) (by simp [file_eq, head]) rfl rfl
  have hsizes : ¬ InvalidSizes p.file (p.source ++ tail) := by
    unfold InvalidSizes
    rw [hresized, hhead]
    simp only [List.length_append] at hroom ⊢
    omega
  have hsourceCrc : slice p.file (p.file.length - footerSize) 4 = leBytes 4 (crc32 p.source) :=
    slice_at (p.head ++ p.commands.flatMap Command.encode) _
      (leBytes 4 (crc32 p.target) ++ leBytes 4 (crc32 p.body)) (by simp [file_eq, footer])
      hend.symm (length_leBytes _ _)
  have htargetCrc : slice p.file (p.file.length - footerSize + 4) 4 =
      leBytes 4 (crc32 p.target) :=
    slice_at (p.head ++ p.commands.flatMap Command.encode ++ leBytes 4 (crc32 p.source)) _
      (leBytes 4 (crc32 p.body)) (by simp [file_eq, footer])
      (by rw [hend, List.length_append, length_leBytes]) (length_leBytes _ _)
  have hprefix : slice (p.source ++ tail') 0 p.source.length = p.source :=
    slice_at [] _ tail' rfl rfl rfl
  have hinside : 0 + p.target.length ≤ a.target.bytes.length := by
    have hkept : a.target.bytes.length = (resized p.file (p.source ++ tail)).length :=
      (PatchApplier.length_runCommands hrun).trans List.length_replicate
    rw [hkept, hresized]
    omega
  rw [applyBpsPatch_head _ p.magicSize_le_file, if_neg (not_not_intro hmagic), if_neg hsizes,
    applyCommands_eq (by omega) hfile hsizes, hsourceCrc, htargetCrc,
    leValue_leBytes (crc32_lt _), leValue_leBytes (crc32_lt _), hresized, hhead, hprefix,
    if_neg (not_not_intro rfl), hend, hrun, Option.bind_some]
  simp only
  rw [if_neg (by decide), checkedSlice_eq hinside, Option.bind_some]

/-- The file of a derivation: `ApplyBpsPatch` returns true, and the buffer begins with the
target. -/
theorem applyBpsPatch_file {p : BpsPatch} (hp : p.Numbers32) (tail : List UInt8)
    (hfile : p.file.length < sizeRange) :
    ∃ buffer', applyBpsPatch p.file (p.source ++ tail) = some (true, buffer') ∧
      slice buffer' 0 p.target.length = p.target := by
  obtain ⟨tail', hresized, hroom⟩ := resized_file hp.source hp.target tail
  obtain ⟨d, hd, hout⟩ := Option.map_eq_some_iff.1 p.derives
  obtain ⟨a, hrun, hfollows⟩ := runCommands_encode (follows_firstState hresized) hd
    (by rw [hout]; exact hroom) (by rw [hout]; exact hp.target) hp.source hp.commands
    p.file_eq (offset_firstState hp.source hp.target _)
  have htarget : slice a.target.bytes 0 p.target.length = p.target :=
    slice_at [] p.target _ (by rw [hfollows.targetBytes, hout]; rfl) rfl rfl
  refine ⟨a.target.bytes, ?_, htarget⟩
  rw [applyBpsPatch_of_run hp.source hp.target hfile hrun, htarget, decide_eq_true rfl]

end BpsPatch

/-- Both formats.  An IPS file gives true exactly if every record fits, and then the records are
written in order.  A BPS file whose numbers are numbers of the code gives true, for every buffer
that begins with the source, and the buffer then begins with the target. -/
theorem patches_mean {records : List IpsRecord} (buffer : List UInt8) {p : BpsPatch}
    (tail : List UInt8) (hips : (ipsFile records).length < 2 ^ 63) (hbps : p.file.length < 2 ^ 63)
    (hp : p.Numbers32) :
    (∃ buffer', applyIpsPatch (ipsFile records) buffer =
        some (decide (∀ r ∈ records, r.Fits buffer.length), buffer') ∧
      ((∀ r ∈ records, r.Fits buffer.length) →
        buffer' = records.foldl IpsRecord.write buffer)) ∧
    ∃ buffer', applyBpsPatch p.file (p.source ++ tail) = some (true, buffer') ∧
      slice buffer' 0 p.target.length = p.target :=
  ⟨applyIpsPatch_file buffer (hips.trans (by decide)),
    BpsPatch.applyBpsPatch_file hp tail (hbps.trans (by decide))⟩

/-- A run of two bytes. -/
def smallRecord : IpsRecord := ⟨1, .run 2 7 (by decide), by decide, by decide⟩

/-- A patch with all four commands, among them a copy that reads what it writes. -/
def smallPatch : BpsPatch where
  source := [1, 2, 3]
  target := [1, 9, 2, 3, 3, 3]
  commands := [.sourceRead 1, .targetRead [9], .sourceCopy 2 1, .targetCopy 2 3]
  derives := by decide

/-- One IPS record, and a patch with all four commands. -/
theorem patches_mean_small :
    (∃ buffer', applyIpsPatch (ipsFile [smallRecord]) [0, 0, 0] = some (true, buffer') ∧
        buffer' = [0, 7, 7]) ∧
      ∃ buffer', applyBpsPatch smallPatch.file [1, 2, 3, 4] = some (true, buffer') ∧
        slice buffer' 0 6 = [1, 9, 2, 3, 3, 3] := by
  have hrecords : (ipsFile [smallRecord]).length < 2 ^ 63 := by decide
  have hp : smallPatch.Numbers32 := by
    refine ⟨by decide, by decide, fun c hc => ?_⟩
    simp only [smallPatch, List.mem_cons, List.not_mem_nil, or_false] at hc
    rcases hc with rfl | rfl | rfl | rfl <;> exact ⟨by decide, by decide⟩
  obtain ⟨⟨buffer', hips, hwrite⟩, hbps⟩ :=
    patches_mean [0, 0, 0] [4] hrecords (by decide +kernel) hp
  exact ⟨⟨buffer', hips, hwrite (by decide)⟩, hbps⟩

/-- A patch that copies `n` bytes with one command. -/
def copyPatch (n : Nat) (h : 0 < n) : BpsPatch where
  source := List.replicate n 1
  target := List.replicate n 1
  commands := [.sourceRead n]
  derives := by simp [derive, Command.derive, slice, h]

theorem length_encodeNumber_le (n : Nat) : (encodeNumber n).length ≤ n + 1 := by
  induction n using Nat.strong_induction_on with
  | _ n ih =>
    by_cases h : n < 128
    · rw [encodeNumber_small h]
      exact Nat.le_add_left 1 n
    · have hrest := ih (n / 128 - 1) (by omega)
      rw [encodeNumber_large h, List.length_cons]
      omega

/-- A command for 2^30 + 1 bytes has the number 2^32, which the code reads as a `SourceRead` of one
byte. -/
theorem runCommands_long {n : Nat} (h : 0 < n) (hn : n < numberRange)
    (hnumber : (n - 1) * 4 % numberRange = 0) :
    ∃ a, PatchApplier.runCommands ((copyPatch n h).head ++
        (copyPatch n h).commands.flatMap Command.encode).length
        (firstState (copyPatch n h).file ((copyPatch n h).source ++ [])) = some (true, a) ∧
      ∃ tail, Follows (copyPatch n h).source tail ((copyPatch n h).source ++ tail).length a
        ⟨[1], 0, 0⟩ := by
  have hlength : (copyPatch n h).source.length < numberRange := by
    simpa [copyPatch] using hn
  obtain ⟨tail, hresized, hroom⟩ := BpsPatch.resized_file hlength hlength []
  have hstart := BpsPatch.follows_firstState hresized
  have hoffset := BpsPatch.offset_firstState hlength hlength ((copyPatch n h).source ++ [])
  have hencode : (copyPatch n h).commands.flatMap Command.encode = encodeNumber ((n - 1) * 4) := by
    simp [copyPatch, Command.encode, Command.number, Command.operand, Command.length]
  have hpatch := (copyPatch n h).file_eq
  rw [hencode] at hpatch ⊢
  obtain ⟨hcommand, hend⟩ := handleCommand_number hpatch hoffset
  rw [hnumber] at hcommand
  have hone : (Command.sourceRead 1).derive (copyPatch n h).source ⟨[], 0, 0⟩ =
      some ⟨[1], 0, 0⟩ := by
    obtain ⟨k, rfl⟩ : ∃ k, n = k + 1 := ⟨n - 1, by omega⟩
    simp [copyPatch, Command.derive, slice, List.replicate_succ]
  have hone_le : 1 ≤ ((copyPatch n h).source ++ tail).length := by
    simp [copyPatch]
    omega
  obtain ⟨a, hread, hfollows, hsame⟩ :=
    (hstart.withPatch (firstState (copyPatch n h).file _).patch.readNumber.2).sourceRead hone hone_le
  have hlt : (firstState (copyPatch n h).file ((copyPatch n h).source ++ [])).patch.offset <
      ((copyPatch n h).head ++ encodeNumber ((n - 1) * 4)).length := by
    have hpos := encodeNumber_pos ((n - 1) * 4)
    rw [hoffset, List.length_append]
    omega
  refine ⟨a, ?_, tail, hfollows⟩
  rw [PatchApplier.runCommands_step hlt, hcommand]
  change (PatchApplier.sourceRead _ 1).bind _ = _
  rw [hread, Option.bind_some]
  simp only
  rw [PatchApplier.runCommands, hsame, if_neg (by rw [hend]; exact Nat.lt_irrefl _)]

theorem length_copyPatch_file {n : Nat} (h : 0 < n) (hn : n < numberRange) :
    (copyPatch n h).file.length < 2 ^ 63 := by
  have hlength := length_encodeNumber_le n
  have hzero := length_encodeNumber_le 0
  have hcommand := length_encodeNumber_le ((n - 1) * 4)
  rw [BpsPatch.length_file, BpsPatch.head]
  simp only [copyPatch, List.length_append, List.length_replicate, bpsMagic, List.flatMap_cons,
    List.flatMap_nil, Command.encode, Command.number, Command.operand, Command.length,
    List.length_cons, List.length_nil, footerSize, numberRange, Nat.add_zero] at *
  omega

/-- The target of such a patch is not what the code writes. -/
theorem copyPatch_long {n : Nat} (h : 1 < n) (hn : n < numberRange)
    (hnumber : (n - 1) * 4 % numberRange = 0) :
    ¬ ∃ buffer', applyBpsPatch (copyPatch n (by omega)).file (copyPatch n (by omega)).source =
        some (true, buffer') ∧ slice buffer' 0 n = List.replicate n 1 := by
  have hpos : 0 < n := by omega
  rintro ⟨buffer', happly, hslice⟩
  obtain ⟨a, hrun, tail, hfollows⟩ := runCommands_long hpos hn hnumber
  have hsize : (copyPatch n hpos).source.length < numberRange := by
    simpa [copyPatch] using hn
  have hresult := BpsPatch.applyBpsPatch_of_run hsize hsize
    ((length_copyPatch_file hpos hn).trans (by decide)) hrun
  rw [List.append_nil] at hresult
  have hbuffer : a.target.bytes = buffer' :=
    congrArg Prod.snd (Option.some.inj (hresult.symm.trans happly))
  -- the second byte is still zero
  have hone : byteAt (slice buffer' 0 n) 1 = 1 := by
    rw [hslice, byteAt_eq_getElem (by simpa using h), List.getElem_replicate]
  have hzero : byteAt (slice buffer' 0 n) 1 = 0 := by
    rw [byteAt_slice _ _ h, ← hbuffer, hfollows.targetBytes]
    simp [byteAt]
  exact absurd (hone.symm.trans hzero) (by decide)

/-- A `SourceRead` of 2^30 + 1 bytes: the target is not what the code writes. -/
theorem bps_long_read : ∃ p : BpsPatch, p.file.length < 2 ^ 63 ∧
    ¬ ∃ buffer', applyBpsPatch p.file p.source = some (true, buffer') ∧
      slice buffer' 0 p.target.length = p.target := by
  refine ⟨copyPatch (2 ^ 30 + 1) (Nat.succ_pos _), length_copyPatch_file _ (by decide), ?_⟩
  have hlong := copyPatch_long (n := 2 ^ 30 + 1) (by decide) (by decide) (by decide)
  rwa [show (copyPatch (2 ^ 30 + 1) (Nat.succ_pos _)).target.length = 2 ^ 30 + 1 from
    List.length_replicate]

end AzaharPlus.FileSys.Patch
