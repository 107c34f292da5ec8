import AzaharPlus.FileSys.PatchSafety

/-!
# IPS files

The format as a list of records, and what `ApplyIpsPatch` makes of a file in that format.

* `IpsRecord`, `ipsFile` — the records and the file that holds them.
* `applyIpsPatch_file` — the function returns true exactly if every record fits; then the records
  are written in order.
-/

namespace AzaharPlus.FileSys.Patch

open Bytes

/-- What a record brings: bytes, or a run of one byte. -/
inductive IpsContent where
  | data (bytes : List UInt8) (nonempty : bytes ≠ []) (short : bytes.length < 2 ^ 16)
  | run (length : Nat) (value : UInt8) (short : length < 2 ^ 16)

/-- A record.  An offset that reads `EOF` cannot be written. -/
structure IpsRecord where
  offset : Nat
  content : IpsContent
  offset_lt : offset < 2 ^ 24
  offset_ne : offset ≠ 0x454F46

/-- A number in two bytes, the higher one first. -/
def be16 (n : Nat) : List UInt8 := [UInt8.ofNat (n / 256), UInt8.ofNat n]

/-- A number in three bytes, the highest one first. -/
def be24 (n : Nat) : List UInt8 := UInt8.ofNat (n / 65536) :: be16 n

namespace IpsContent

/-- The bytes that are written. -/
def bytes : IpsContent → List UInt8
  | data bytes _ _ => bytes
  | run length value _ => List.replicate length value

/-- The content in the file. -/
def encode : IpsContent → List UInt8
  | data bytes _ _ => be16 bytes.length ++ bytes
  | run length value _ => be16 0 ++ be16 length ++ [value]

end IpsContent

namespace IpsRecord

/-- The record in the file. -/
def encode (r : IpsRecord) : List UInt8 := be24 r.offset ++ r.content.encode

/-- The record stays inside a buffer of this size. -/
def Fits (size : Nat) (r : IpsRecord) : Prop := r.offset + r.content.bytes.length ≤ size

instance (size : Nat) (r : IpsRecord) : Decidable (r.Fits size) :=
  inferInstanceAs (Decidable (_ ≤ _))

/-- The record is written into the buffer. -/
def write (buffer : List UInt8) (r : IpsRecord) : List UInt8 :=
  memcpy buffer r.offset r.content.bytes

end IpsRecord

/-- The file that holds the records. -/
def ipsFile (records : List IpsRecord) : List UInt8 :=
  ipsHeader ++ records.flatMap IpsRecord.encode ++ ipsEof

/-! ## Reading what was written -/

theorem beValue_be16 {n : Nat} (h : n < 2 ^ 16) : beValue (be16 n) = n := by
  simp only [beValue, be16, List.foldl_cons, List.foldl_nil, UInt8.toNat_ofNat']
  omega

theorem beValue_be24 {n : Nat} (h : n < 2 ^ 24) : beValue (be24 n) = n := by
  simp only [beValue, be24, be16, List.foldl_cons, List.foldl_nil, UInt8.toNat_ofNat']
  omega

theorem be24_ne_ipsEof {n : Nat} (h : n < 2 ^ 24) (hne : n ≠ 0x454F46) : be24 n ≠ ipsEof := by
  intro heq
  have hvalue := congrArg beValue heq
  rw [beValue_be24 h] at hvalue
  exact hne (hvalue.trans (by decide))

/-- The block behind a part of the file of known length. -/
theorem slice_at (pre block rest : List UInt8) {file : List UInt8} {offset n : Nat}
    (hfile : file = pre ++ block ++ rest) (hoffset : pre.length = offset)
    (hn : block.length = n) : slice file offset n = block := by
  subst hfile hoffset hn
  exact slice_append_middle pre block rest

section OneRecord

variable {pre rest buffer : List UInt8} {r : IpsRecord} {patchLength : Nat}

theorem slice_record :
    slice (pre ++ r.encode ++ rest) pre.length 3 = be24 r.offset :=
  slice_at pre (be24 r.offset) (r.content.encode ++ rest) (by simp [IpsRecord.encode]) rfl rfl

theorem recordOffset_record : recordOffset (pre ++ r.encode ++ rest) pre.length = r.offset := by
  rw [recordOffset, slice_record, beValue_be24 r.offset_lt]

theorem slice_record_ne : slice (pre ++ r.encode ++ rest) pre.length 3 ≠ ipsEof := by
  rw [slice_record]
  exact be24_ne_ipsEof r.offset_lt r.offset_ne

/-- The turn of the loop at a record with data. -/
theorem ipsRecords_dataRecord {bytes : List UInt8} {nonempty short}
    (hr : r.content = .data bytes nonempty short) (hlt : pre.length < patchLength) :
    ipsRecords (pre ++ r.encode ++ rest) patchLength pre.length buffer =
      if r.Fits buffer.length then
        ipsRecords (pre ++ r.encode ++ rest) patchLength (pre ++ r.encode).length (r.write buffer)
      else some (false, buffer) := by
  have hencode : r.encode = be24 r.offset ++ (be16 bytes.length ++ bytes) := by
    rw [IpsRecord.encode, hr, IpsContent.encode]
  have hlength : recordLength (pre ++ r.encode ++ rest) pre.length = bytes.length := by
    have hslice : slice (pre ++ r.encode ++ rest) (pre.length + 3) 2 = be16 bytes.length :=
      slice_at (pre ++ be24 r.offset) _ (bytes ++ rest) (by simp [hencode])
        (by simp [be24, be16]) rfl
    rw [recordLength, hslice, beValue_be16 short]
  have hdata : slice (pre ++ r.encode ++ rest) (pre.length + 5) bytes.length = bytes :=
    slice_at (pre ++ be24 r.offset ++ be16 bytes.length) _ rest (by simp [hencode])
      (by simp [be24, be16]) rfl
  have hsize : pre.length + 5 + bytes.length ≤ (pre ++ r.encode ++ rest).length := by
    simp [hencode, be24, be16]
    omega
  have hpos : bytes.length ≠ 0 := fun h => nonempty (List.length_eq_zero_iff.1 h)
  have hnext : pre.length + (bytes.length + 5) = (pre ++ r.encode).length := by
    simp [hencode, be24, be16]
  rw [ipsRecords_data buffer hlt slice_record_ne (by omega) (by rw [hlength]; exact hpos),
    recordOffset_record, hlength, checkedSlice_eq hsize, Option.bind_some, hdata, hnext]
  have hbytes : r.content.bytes = bytes := by rw [hr, IpsContent.bytes]
  have hfits_iff : r.Fits buffer.length ↔ r.offset + bytes.length ≤ buffer.length := by
    rw [IpsRecord.Fits, hbytes]
  by_cases hfits : r.offset + bytes.length ≤ buffer.length
  · rw [if_neg (by omega), if_pos (hfits_iff.2 hfits), checkedCopy_eq hfits, Option.bind_some,
      IpsRecord.write, hbytes]
  · rw [if_pos (by omega), if_neg fun h => hfits (hfits_iff.1 h)]

/-- The turn of the loop at a run. -/
theorem ipsRecords_runRecord {length : Nat} {value : UInt8} {short}
    (hr : r.content = .run length value short) (hlt : pre.length < patchLength) :
    ipsRecords (pre ++ r.encode ++ rest) patchLength pre.length buffer =
      if r.Fits buffer.length then
        ipsRecords (pre ++ r.encode ++ rest) patchLength (pre ++ r.encode).length (r.write buffer)
      else some (false, buffer) := by
  have hencode : r.encode = be24 r.offset ++ (be16 0 ++ be16 length ++ [value]) := by
    rw [IpsRecord.encode, hr, IpsContent.encode]
  have hzero : recordLength (pre ++ r.encode ++ rest) pre.length = 0 := by
    have hslice : slice (pre ++ r.encode ++ rest) (pre.length + 3) 2 = be16 0 :=
      slice_at (pre ++ be24 r.offset) _ (be16 length ++ [value] ++ rest) (by simp [hencode])
        (by simp [be24, be16]) rfl
    rw [recordLength, hslice, beValue_be16 (by decide)]
  have hlength : runLength (pre ++ r.encode ++ rest) pre.length = length := by
    have hslice : slice (pre ++ r.encode ++ rest) (pre.length + 5) 2 = be16 length :=
      slice_at (pre ++ be24 r.offset ++ be16 0) _ ([value] ++ rest) (by simp [hencode])
        (by simp [be24, be16]) rfl
    rw [runLength, hslice, beValue_be16 short]
  have hvalue : (pre ++ r.encode ++ rest)[pre.length + 7]? = some value := by
    rw [List.append_assoc, List.getElem?_append_right (by omega)]
    simp [hencode, be24, be16]
  have hsize : (pre ++ r.encode).length = pre.length + 8 := by
    simp [hencode, be24, be16]
  rw [ipsRecords_run buffer hlt slice_record_ne
    (by rw [List.length_append, hsize]; omega) hzero, recordOffset_record, hlength, hsize]
  have hbytes : r.content.bytes = List.replicate length value := by rw [hr, IpsContent.bytes]
  have hfits_iff : r.Fits buffer.length ↔ r.offset + length ≤ buffer.length := by
    rw [IpsRecord.Fits, hbytes, List.length_replicate]
  by_cases hfits : r.offset + length ≤ buffer.length
  · rw [if_neg (by omega), if_pos (hfits_iff.2 hfits), fillRun_eq hvalue hfits, Option.bind_some,
      IpsRecord.write, hbytes]
  · rw [if_pos (by omega), if_neg fun h => hfits (hfits_iff.1 h)]

/-- The turn of the loop at a record. -/
theorem ipsRecords_record (pre rest buffer : List UInt8) (r : IpsRecord) (hlt : pre.length < patchLength) :
    ipsRecords (pre ++ r.encode ++ rest) patchLength pre.length buffer =
      if r.Fits buffer.length then
        ipsRecords (pre ++ r.encode ++ rest) patchLength (pre ++ r.encode).length (r.write buffer)
      else some (false, buffer) := by
  cases hr : r.content with
  | data bytes nonempty short => exact ipsRecords_dataRecord hr hlt
  | run length value short => exact ipsRecords_runRecord hr hlt

end OneRecord

theorem IpsRecord.length_write {buffer : List UInt8} {r : IpsRecord} (h : r.Fits buffer.length) :
    (r.write buffer).length = buffer.length :=
  length_memcpy h

/-- The loop over the records that are left. -/
theorem ipsRecords_all (records : List IpsRecord) (pre buffer : List UInt8) :
    ∃ buffer', ipsRecords (pre ++ records.flatMap IpsRecord.encode ++ ipsEof)
        (pre ++ records.flatMap IpsRecord.encode).length pre.length buffer =
      some (decide (∀ r ∈ records, r.Fits buffer.length), buffer') ∧
      ((∀ r ∈ records, r.Fits buffer.length) →
        buffer' = records.foldl IpsRecord.write buffer) := by
  induction records generalizing pre buffer with
  | nil =>
    refine ⟨buffer, ?_, fun _ => rfl⟩
    rw [ipsRecords, if_neg (by simp)]
    simp
  | cons r rest ih =>
    have hlt : pre.length < (pre ++ (r :: rest).flatMap IpsRecord.encode).length := by
      simp [IpsRecord.encode, be24, be16]
    have hfile : pre ++ (r :: rest).flatMap IpsRecord.encode =
        pre ++ r.encode ++ rest.flatMap IpsRecord.encode := by simp
    have hturn := ipsRecords_record pre (rest.flatMap IpsRecord.encode ++ ipsEof) buffer r hlt
    rw [hfile] at hturn ⊢
    rw [List.append_assoc (pre ++ r.encode), hturn]
    by_cases hfits : r.Fits buffer.length
    · obtain ⟨buffer', hrun, hwrite⟩ := ih (pre ++ r.encode) (r.write buffer)
      rw [IpsRecord.length_write hfits] at hrun hwrite
      refine ⟨buffer', ?_, fun hall => ?_⟩
      · rw [if_pos hfits, ← List.append_assoc, hrun]
        simp [hfits]
      · exact hwrite fun r' hr' => hall r' (List.mem_cons_of_mem r hr')
    · refine ⟨buffer, ?_, fun hall => absurd (hall r List.mem_cons_self) hfits⟩
      rw [if_neg hfits]
      simp [hfits]

/-- A file in the format: `ApplyIpsPatch` returns true exactly if every record fits, and then it has
written the records in order. -/
theorem applyIpsPatch_file {records : List IpsRecord} (buffer : List UInt8)
    (hfile : (ipsFile records).length < sizeRange) :
    ∃ buffer', applyIpsPatch (ipsFile records) buffer =
        some (decide (∀ r ∈ records, r.Fits buffer.length), buffer') ∧
      ((∀ r ∈ records, r.Fits buffer.length) →
        buffer' = records.foldl IpsRecord.write buffer) := by
  have hlength : (ipsFile records).length =
      (ipsHeader ++ records.flatMap IpsRecord.encode).length + 3 := by
    rw [ipsFile, List.length_append]
    rfl
  have hpatchLength : ((ipsFile records).length + sizeRange - 3) % sizeRange =
      (ipsHeader ++ records.flatMap IpsRecord.encode).length := by
    unfold sizeRange at *
    omega
  have hheader : slice (ipsFile records) 0 5 = ipsHeader :=
    slice_at [] _ (records.flatMap IpsRecord.encode ++ ipsEof) (by simp [ipsFile]) rfl rfl
  have hroom : 0 + 5 ≤ (ipsFile records).length := by
    simp [ipsFile, ipsHeader]
  unfold applyIpsPatch
  simp only [hpatchLength]
  rw [checkedSlice_eq hroom, Option.bind_some, hheader, if_neg (not_not_intro rfl)]
  exact ipsRecords_all records ipsHeader buffer

end AzaharPlus.FileSys.Patch
