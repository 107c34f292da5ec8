import AzaharPlus.Lib.CheckedBytes

/-!
# Tickets and title metadata

`core/file_sys/ticket.cpp` and `core/file_sys/title_metadata.cpp`: both files begin with a signature of
one of a few sizes, and their body follows at a multiple of 0x40; the metadata has a chunk for each
content behind it.  An access outside of the given bytes is `none`.

* `Ticket.load_eq`, `TitleMetadata.load_eq` — what is read from inside the given bytes.
* `Ticket.serialize_iff` — a ticket survives `Serialize` unless its signature ends at a multiple of 0x40.
* `TitleMetadata.load_save` — metadata survives `Save`.
* `TitleMetadata.load_held` — chunks of an earlier load are kept.
-/

namespace AzaharPlus.FileSys

open Bytes

/-! ## Signatures -/

/-- `Loader::ResultStatus`, the values used here. -/
inductive ResultStatus
  | success | error | errorInvalidFormat
  deriving DecidableEq, Repr

/-- `Common::AlignUp`, without a bound for the type. -/
def alignUp (value size : Nat) : Nat :=
  if value % size = 0 then value - value % size else value - value % size + size

/-- A big-endian number. -/
def beValue (bytes : List UInt8) : Nat := leValue bytes.reverse

/-- The bytes of a big-endian number. -/
def beBytes (n v : Nat) : List UInt8 := (leBytes n v).reverse

/-- `GetSignatureSize`. -/
def getSignatureSize (signatureType : UInt32) : Nat :=
  if signatureType = 0x10000 ∨ signatureType = 0x10003 then 0x200
  else if signatureType = 0x10001 ∨ signatureType = 0x10004 then 0x100
  else if signatureType = 0x10002 ∨ signatureType = 0x10005 then 0x3C
  else 0

/-- `body_start`. -/
def bodyStart (signatureType : UInt32) : Nat := alignUp (getSignatureSize signatureType + 4) 0x40

/-- `file_data.size() - offset`, of `size_t`. -/
def sizeBehind (data : List UInt8) (offset : Nat) : Nat := (data.length + 2 ^ 64 - offset) % 2 ^ 64

/-! ## Tickets -/

/-- `sizeof(Ticket::Body)`. -/
def ticketBodySize : Nat := 0x210

/-- `Ticket`. -/
structure Ticket where
  ticketBody : List UInt8
  signatureType : UInt32
  ticketSignature : List UInt8
  contentIndex : List UInt8 := []
  deriving DecidableEq, Repr

/-- `Ticket::Load`. -/
def Ticket.load (t : Ticket) (data : List UInt8) (offset : Nat) : Option (ResultStatus × Ticket) :=
  if sizeBehind data offset < 4 then some (.error, t)
  else
    (checkedSlice data offset 4).bind fun raw =>
      let t := { t with signatureType := UInt32.ofNat (beValue raw) }
      let size := getSignatureSize t.signatureType
      if size = 0 then some (.error, t)
      else if sizeBehind data offset < bodyStart t.signatureType + ticketBodySize then some (.error, t)
      else
        (checkedSlice data (offset + 4) size).bind fun signature =>
          (checkedSlice data (offset + bodyStart t.signatureType) ticketBodySize).map fun body =>
            (.success, { t with ticketSignature := signature, ticketBody := body })

/-- `Ticket::Serialize`. -/
def Ticket.serialize (t : Ticket) : List UInt8 :=
  let ret := beBytes 4 t.signatureType.toNat ++ t.ticketSignature
  let padding := 0x40 - ret.length % 0x40
  ret ++ List.replicate padding 0 ++ t.ticketBody ++ t.contentIndex

/-! ## Title metadata -/

/-- `sizeof(TitleMetadata::Body)`. -/
def tmdBodySize : Nat := 0x9C4

/-- `sizeof(ContentChunk)`. -/
def contentChunkSize : Nat := 0x30

/-- `TitleMetadata`; body and chunks are kept as the bytes they have in the file. -/
structure TitleMetadata where
  tmdBody : List UInt8
  signatureType : UInt32
  tmdSignature : List UInt8
  tmdChunks : List (List UInt8)
  deriving DecidableEq, Repr

/-- `content_count` of a body. -/
def contentCount (body : List UInt8) : Nat := beValue (slice body 0x9E 2)

/-- The chunks behind the body, one after the other. -/
def readChunks (data : List UInt8) (start : Nat) : Nat → Option (List (List UInt8))
  | 0 => some []
  | n + 1 =>
      (readChunks data start n).bind fun chunks =>
        (checkedSlice data (start + n * contentChunkSize) contentChunkSize).map fun chunk =>
          chunks ++ [chunk]

/-- `TitleMetadata::Load`. -/
def TitleMetadata.load (t : TitleMetadata) (data : List UInt8) (offset : Nat) :
    Option (ResultStatus × TitleMetadata) :=
  if sizeBehind data offset < 4 then some (.error, t)
  else
    (checkedSlice data offset 4).bind fun raw =>
      let t := { t with signatureType := UInt32.ofNat (beValue raw) }
      let size := getSignatureSize t.signatureType
      let bodyEnd := bodyStart t.signatureType + tmdBodySize
      if size = 0 then some (.error, t)
      else if sizeBehind data offset < bodyEnd then some (.error, t)
      else
        (checkedSlice data (offset + 4) size).bind fun signature =>
          (checkedSlice data (offset + bodyStart t.signatureType) tmdBodySize).bind fun body =>
            let t := { t with tmdSignature := signature, tmdBody := body }
            if sizeBehind data offset < bodyEnd + contentCount body * contentChunkSize then
              some (.errorInvalidFormat, t)
            else
              (readChunks data (offset + bodyEnd) (contentCount body)).map fun chunks =>
                (.success, { t with tmdChunks := t.tmdChunks ++ chunks })

/-- The content infos that `Save` writes: one for all chunks. -/
def savedContentInfo (sha256 : List UInt8 → Vector UInt8 32) (chunks : List (List UInt8)) :
    List UInt8 :=
  beBytes 2 0 ++ beBytes 2 chunks.length ++ (sha256 chunks.flatten).toList ++
    List.replicate (63 * 0x24) 0

/-- The body that `Save` writes. -/
def savedBody (sha256 : List UInt8 → Vector UInt8 32) (t : TitleMetadata) : List UInt8 :=
  let chunks := t.tmdChunks.take (t.tmdChunks.length % 2 ^ 16)
  let info := savedContentInfo sha256 chunks
  let body := memcpy t.tmdBody 0x9E (beBytes 2 (t.tmdChunks.length % 2 ^ 16))
  memcpy (memcpy body 0xA4 (sha256 info).toList) 0xC4 info

/-- `TitleMetadata::Save` to a new file: the status, the bytes of the file and the object.  The gap of
the seek reads as zero. -/
def TitleMetadata.save (sha256 : List UInt8 → Vector UInt8 32) (t : TitleMetadata) :
    ResultStatus × List UInt8 × TitleMetadata :=
  let size := getSignatureSize t.signatureType
  let head := beBytes 4 t.signatureType.toNat
  if size = 0 then (.error, head, t)
  else
    let body := savedBody sha256 t
    let chunks := t.tmdChunks.take (t.tmdChunks.length % 2 ^ 16)
    (.success,
      head ++ slice t.tmdSignature 0 size ++ List.replicate (bodyStart t.signatureType - (4 + size)) 0 ++ body ++
        chunks.flatten,
      { t with tmdBody := body })

/-! ## Numbers and positions -/

theorem beValue_beBytes {n v : Nat} (hv : v < 256 ^ n) : beValue (beBytes n v) = v := by
  rw [beValue, beBytes, List.reverse_reverse, leValue_leBytes hv]

@[simp] theorem length_beBytes (n v : Nat) : (beBytes n v).length = n := by
  rw [beBytes, List.length_reverse, length_leBytes]

theorem beValue_lt (bytes : List UInt8) : beValue bytes < 256 ^ bytes.length := by
  have hlt := leValue_lt bytes.reverse
  rwa [List.length_reverse] at hlt

/-- The sizes of signatures, and where the body is. -/
theorem signature_cases (signatureType : UInt32) :
    getSignatureSize signatureType = 0 ∨
      (getSignatureSize signatureType = 0x200 ∧ bodyStart signatureType = 0x240) ∨
      (getSignatureSize signatureType = 0x100 ∧ bodyStart signatureType = 0x140) ∨
      (getSignatureSize signatureType = 0x3C ∧ bodyStart signatureType = 0x40) := by
  unfold bodyStart getSignatureSize
  split
  · exact Or.inr (Or.inl ⟨rfl, rfl⟩)
  · split
    · exact Or.inr (Or.inr (Or.inl ⟨rfl, rfl⟩))
    · split
      · exact Or.inr (Or.inr (Or.inr ⟨rfl, rfl⟩))
      · exact Or.inl rfl

theorem signature_le_bodyStart (signatureType : UInt32) :
    4 + getSignatureSize signatureType ≤ bodyStart signatureType ∧
      bodyStart signatureType ≤ 0x240 := by
  unfold bodyStart getSignatureSize
  split
  · decide
  · split
    · decide
    · split <;> decide

theorem sizeBehind_eq {data : List UInt8} {offset : Nat} (hoffset : offset ≤ data.length)
    (hlength : data.length < 2 ^ 64) : sizeBehind data offset = data.length - offset := by
  unfold sizeBehind
  omega

theorem checkedSlice_some {b r : List UInt8} {off n : Nat} (h : checkedSlice b off n = some r) :
    off + n ≤ b.length ∧ r = slice b off n ∧ r.length = n := by
  unfold checkedSlice at h
  split at h
  · next hin =>
      cases h
      exact ⟨hin, rfl, length_slice hin⟩
  · cases h

/-- A part of a list and the last part of a longer list. -/
theorem eq_replicate_of_shift {l : List UInt8} {k n : Nat} (hk : 0 < k) (hlength : l.length = n)
    (h : List.replicate k 0 ++ l.take (n - k) = l) : l = List.replicate n 0 := by
  rw [List.eq_replicate_iff]
  refine ⟨hlength, fun b hb => ?_⟩
  obtain ⟨i, hi, rfl⟩ := List.getElem_of_mem hb
  -- every byte is zero or the byte `k` before it
  induction i using Nat.strongRecOn with
  | _ i ih =>
    have hbyte : (List.replicate k 0 ++ l.take (n - k))[i]? = l[i]? := by rw [h]
    by_cases hlow : i < k
    · rw [List.getElem?_append_left (by rwa [List.length_replicate]),
        List.getElem?_replicate_of_lt hlow, List.getElem?_eq_getElem hi] at hbyte
      exact (Option.some.inj hbyte).symm
    · rw [List.getElem?_append_right (by rw [List.length_replicate]; omega), List.length_replicate,
        List.getElem?_take_of_lt (by omega), List.getElem?_eq_getElem (show i - k < l.length by omega),
        List.getElem?_eq_getElem hi] at hbyte
      rw [← Option.some.inj hbyte]
      exact ih (i - k) (by omega) (by omega) (List.getElem_mem _)

/-! ## Tickets -/

/-- What a ticket that is accepted was read from. -/
theorem Ticket.load_success {t t' : Ticket} {data : List UInt8} {offset : Nat}
    (h : t.load data offset = some (.success, t')) :
    ∃ signatureType, signatureType = UInt32.ofNat (beValue (slice data offset 4)) ∧
      getSignatureSize signatureType ≠ 0 ∧
      offset + bodyStart signatureType + ticketBodySize ≤ data.length ∧
      t' = { t with
        signatureType := signatureType
        ticketSignature := slice data (offset + 4) (getSignatureSize signatureType)
        ticketBody := slice data (offset + bodyStart signatureType) ticketBodySize } := by
  unfold Ticket.load at h
  split at h
  · cases h
  · rw [Option.bind_eq_some_iff] at h
    obtain ⟨raw, hraw, h⟩ := h
    obtain ⟨-, rfl, -⟩ := checkedSlice_some hraw
    simp only at h
    split at h
    · cases h
    · next hsize =>
        split at h
        · cases h
        · rw [Option.bind_eq_some_iff] at h
          obtain ⟨signature, hsignature, h⟩ := h
          rw [Option.map_eq_some_iff] at h
          obtain ⟨body, hbody, h⟩ := h
          obtain ⟨-, rfl, -⟩ := checkedSlice_some hsignature
          obtain ⟨hin, rfl, -⟩ := checkedSlice_some hbody
          cases h
          exact ⟨_, rfl, hsize, hin, rfl⟩

/-- A ticket inside of the given bytes is accepted. -/
theorem Ticket.load_eq (t : Ticket) {data : List UInt8} {offset : Nat} {signatureType : UInt32}
    (hlength : data.length < 2 ^ 64)
    (htype : UInt32.ofNat (beValue (slice data offset 4)) = signatureType)
    (hsize : getSignatureSize signatureType ≠ 0)
    (hin : offset + bodyStart signatureType + ticketBodySize ≤ data.length) :
    t.load data offset = some (.success, { t with
      signatureType := signatureType
      ticketSignature := slice data (offset + 4) (getSignatureSize signatureType)
      ticketBody := slice data (offset + bodyStart signatureType) ticketBodySize }) := by
  have hstart := (signature_le_bodyStart signatureType).1
  have hbehind := sizeBehind_eq (show offset ≤ data.length by omega) hlength
  unfold Ticket.load
  rw [if_neg (by rw [hbehind]; omega), checkedSlice_eq (by omega), Option.bind_some]
  simp only [htype]
  rw [if_neg hsize, if_neg (by rw [hbehind]; omega), checkedSlice_eq (by omega), Option.bind_some,
    checkedSlice_eq (by omega), Option.map_some]

/-- The header of a file: its signature type. -/
theorem type_of_head (signatureType : UInt32) (rest : List UInt8) :
    UInt32.ofNat (beValue (slice (beBytes 4 signatureType.toNat ++ rest) 0 4)) = signatureType := by
  have hslice : slice (beBytes 4 signatureType.toNat ++ rest) 0 4 = beBytes 4 signatureType.toNat := by
    unfold slice
    rw [List.drop_zero]
    exact List.take_left' (length_beBytes 4 _)
  rw [hslice, beValue_beBytes signatureType.toNat_lt, UInt32.ofNat_toNat]

/-- A ticket survives `Serialize` exactly when its signature does not end at a multiple of 0x40 or its
body is zero. -/
theorem Ticket.serialize_iff {t t' : Ticket} {data : List UInt8} {offset : Nat}
    (hindex : t.contentIndex = []) (h : t.load data offset = some (.success, t')) (u : Ticket) :
    (∃ u', u.load t'.serialize 0 = some (.success, u') ∧ u'.signatureType = t'.signatureType ∧
        u'.ticketSignature = t'.ticketSignature ∧ u'.ticketBody = t'.ticketBody) ↔
      getSignatureSize t'.signatureType ≠ 0x3C ∨ t'.ticketBody = List.replicate ticketBodySize 0 := by
  obtain ⟨signatureType, -, hsize, hin, rfl⟩ := Ticket.load_success h
  obtain ⟨signature, hsignature⟩ : ∃ signature,
    signature = slice data (offset + 4) (getSignatureSize signatureType) := ⟨_, rfl⟩
  obtain ⟨body, hbody⟩ : ∃ body,
    body = slice data (offset + bodyStart signatureType) ticketBodySize := ⟨_, rfl⟩
  have hstart := (signature_le_bodyStart signatureType).1
  have hsignatureLength : signature.length = getSignatureSize signatureType := by
    rw [hsignature]
    exact length_slice (by omega)
  have hbodyLength : body.length = ticketBodySize := by
    rw [hbody]
    exact length_slice hin
  rw [← hsignature, ← hbody]
  obtain ⟨padding, hpadding⟩ : ∃ padding,
    padding = 0x40 - (4 + getSignatureSize signatureType) % 0x40 := ⟨_, rfl⟩
  have hserialize : Ticket.serialize { t with
      signatureType := signatureType, ticketSignature := signature, ticketBody := body } =
        beBytes 4 signatureType.toNat ++ (signature ++ List.replicate padding 0 ++ body) := by
    unfold Ticket.serialize
    simp only [hindex, List.length_append, length_beBytes, hsignatureLength, ← hpadding,
      List.append_nil, List.append_assoc]
  have hlength : (beBytes 4 signatureType.toNat ++
      (signature ++ List.replicate padding 0 ++ body)).length =
        4 + getSignatureSize signatureType + padding + ticketBodySize := by
    simp only [List.length_append, length_beBytes, hsignatureLength, List.length_replicate,
      hbodyLength]
    omega
  have hfits : 0 + bodyStart signatureType + ticketBodySize ≤
        4 + getSignatureSize signatureType + padding + ticketBodySize ∧
      4 + getSignatureSize signatureType + padding + ticketBodySize < 2 ^ 64 := by
    have hbodySize : ticketBodySize = 0x210 := rfl
    rcases signature_cases signatureType with hnone | ⟨hs, hb⟩ | ⟨hs, hb⟩ | ⟨hs, hb⟩
    · exact absurd hnone hsize
    all_goals
      rw [hs] at hpadding ⊢
      omega
  have hload := Ticket.load_eq u (by rw [hlength]; exact hfits.2)
    (type_of_head signatureType (signature ++ List.replicate padding 0 ++ body)) hsize
    (by rw [hlength]; exact hfits.1)
  have hreadSignature : slice (beBytes 4 signatureType.toNat ++
      (signature ++ List.replicate padding 0 ++ body)) (0 + 4) (getSignatureSize signatureType) =
        signature := by
    rw [slice_append_right (i := 0) (by rw [length_beBytes]), List.append_assoc,
      slice_append_left (by omega), ← hsignatureLength]
    unfold slice
    rw [List.drop_zero, List.take_length]
  rw [hserialize, hload]
  have hiff : (slice (beBytes 4 signatureType.toNat ++
      (signature ++ List.replicate padding 0 ++ body)) (0 + bodyStart signatureType)
        ticketBodySize = body) ↔
      getSignatureSize signatureType ≠ 0x3C ∨ body = List.replicate ticketBodySize 0 := by
    have hregroup : beBytes 4 signatureType.toNat ++
        (signature ++ List.replicate padding 0 ++ body) =
          (beBytes 4 signatureType.toNat ++ signature) ++ (List.replicate padding 0 ++ body) := by
      simp only [List.append_assoc]
    have hhead : (beBytes 4 signatureType.toNat ++ signature).length =
        4 + getSignatureSize signatureType := by
      rw [List.length_append, length_beBytes, hsignatureLength]
    rw [hregroup, Nat.zero_add]
    by_cases hshort : getSignatureSize signatureType = 0x3C
    · -- the body is written 0x40 bytes behind the place where it is read
      have hstartShort : bodyStart signatureType = 0x40 := by
        rcases signature_cases signatureType with hs | ⟨hs, hb⟩ | ⟨hs, hb⟩ | ⟨hs, hb⟩ <;> omega
      have hpaddingShort : padding = 0x40 := by
        rw [hpadding, hshort]
      have hshift : slice ((beBytes 4 signatureType.toNat ++ signature) ++
          (List.replicate padding 0 ++ body)) (bodyStart signatureType) ticketBodySize =
            List.replicate 0x40 0 ++ body.take (ticketBodySize - 0x40) := by
        rw [slice_append_right (i := 0) (by rw [hhead, hstartShort, hshort]), hpaddingShort]
        unfold slice
        rw [List.drop_zero, List.take_append, List.length_replicate,
          List.take_of_length_le (by rw [List.length_replicate]; decide)]
      rw [hshift]
      constructor
      · exact fun heq => Or.inr (eq_replicate_of_shift (by decide) hbodyLength heq)
      · rintro (hlong | hzero)
        · exact absurd hshort hlong
        · rw [hzero, List.take_replicate, ← List.replicate_add]
          rfl
    · have hend : bodyStart signatureType =
          (beBytes 4 signatureType.toNat ++ signature).length + padding := by
        rw [hhead, hpadding]
        rcases signature_cases signatureType with hs | ⟨hs, hb⟩ | ⟨hs, hb⟩ | ⟨hs, hb⟩
        · exact absurd hs hsize
        · rw [hs, hb]
        · rw [hs, hb]
        · exact absurd hs hshort
      have hread : slice ((beBytes 4 signatureType.toNat ++ signature) ++
          (List.replicate padding 0 ++ body)) (bodyStart signatureType) ticketBodySize = body := by
        rw [slice_append_right hend, slice_append_right (i := 0) (by rw [List.length_replicate]; rfl),
          ← hbodyLength]
        unfold slice
        rw [List.drop_zero, List.take_length]
      exact ⟨fun _ => Or.inl hshort, fun _ => hread⟩
  constructor
  · rintro ⟨u', hu, -, -, hread⟩
    cases hu
    exact hiff.1 hread
  · intro hor
    exact ⟨_, rfl, rfl, hreadSignature, hiff.2 hor⟩

/-! ## Title metadata -/

theorem beBytes_beValue (bytes : List UInt8) : beBytes bytes.length (beValue bytes) = bytes := by
  have hlt := beValue_lt bytes
  have hvalue : leValue (leBytes bytes.length (beValue bytes)) = leValue bytes.reverse := by
    rw [leValue_leBytes hlt, beValue]
  have heq := leValue_inj (by rw [length_leBytes, List.length_reverse]) hvalue
  rw [beBytes, heq, List.reverse_reverse]

/-- The chunks that are read, all of them inside of the given bytes. -/
theorem readChunks_success {data : List UInt8} {start n : Nat} {chunks : List (List UInt8)}
    (hstart : start ≤ data.length) (h : readChunks data start n = some chunks) :
    start + n * contentChunkSize ≤ data.length ∧
      chunks = (List.range n).map fun i => slice data (start + i * contentChunkSize) contentChunkSize := by
  induction n generalizing chunks with
  | zero =>
    cases h
    exact ⟨by omega, rfl⟩
  | succ n ih =>
    rw [readChunks, Option.bind_eq_some_iff] at h
    obtain ⟨before, hbefore, h⟩ := h
    rw [Option.map_eq_some_iff] at h
    obtain ⟨chunk, hchunk, rfl⟩ := h
    obtain ⟨-, hread⟩ := ih hbefore
    obtain ⟨hin, rfl, -⟩ := checkedSlice_some hchunk
    refine ⟨by rw [Nat.succ_mul]; omega, ?_⟩
    rw [hread, List.range_succ, List.map_append, List.map_singleton]

theorem readChunks_eq {data : List UInt8} {start n : Nat}
    (h : start + n * contentChunkSize ≤ data.length) :
    readChunks data start n =
      some ((List.range n).map fun i => slice data (start + i * contentChunkSize) contentChunkSize) := by
  induction n with
  | zero => rfl
  | succ n ih =>
    rw [Nat.succ_mul] at h
    rw [readChunks, ih (by omega), Option.bind_some, checkedSlice_eq (by omega), Option.map_some,
      List.range_succ, List.map_append, List.map_singleton]

/-- What metadata that is accepted was read from. -/
theorem TitleMetadata.load_success {t t' : TitleMetadata} {data : List UInt8} {offset : Nat}
    (h : t.load data offset = some (.success, t')) :
    ∃ signatureType body, signatureType = UInt32.ofNat (beValue (slice data offset 4)) ∧
      getSignatureSize signatureType ≠ 0 ∧
      body = slice data (offset + bodyStart signatureType) tmdBodySize ∧
      offset + (bodyStart signatureType + tmdBodySize) + contentCount body * contentChunkSize ≤
        data.length ∧
      t' = { signatureType := signatureType
             tmdSignature := slice data (offset + 4) (getSignatureSize signatureType)
             tmdBody := body
             tmdChunks := t.tmdChunks ++ (List.range (contentCount body)).map fun i =>
               slice data (offset + (bodyStart signatureType + tmdBodySize) + i * contentChunkSize)
                 contentChunkSize } := by
  unfold TitleMetadata.load at h
  split at h
  · cases h
  · rw [Option.bind_eq_some_iff] at h
    obtain ⟨raw, hraw, h⟩ := h
    obtain ⟨-, rfl, -⟩ := checkedSlice_some hraw
    simp only at h
    split at h
    · cases h
    · next hsize =>
        split at h
        · cases h
        · rw [Option.bind_eq_some_iff] at h
          obtain ⟨signature, hsignature, h⟩ := h
          rw [Option.bind_eq_some_iff] at h
          obtain ⟨body, hbody, h⟩ := h
          obtain ⟨-, rfl, -⟩ := checkedSlice_some hsignature
          obtain ⟨hin, rfl, -⟩ := checkedSlice_some hbody
          split at h
          · cases h
          · rw [Option.map_eq_some_iff] at h
            obtain ⟨chunks, hchunks, h⟩ := h
            obtain ⟨hend, rfl⟩ := readChunks_success (by omega) hchunks
            cases h
            exact ⟨_, _, rfl, hsize, rfl, hend, rfl⟩

/-- Metadata inside of the given bytes is accepted. -/
theorem TitleMetadata.load_eq (t : TitleMetadata) {data : List UInt8} {offset : Nat}
    {signatureType : UInt32} {body : List UInt8} (hlength : data.length < 2 ^ 64)
    (htype : UInt32.ofNat (beValue (slice data offset 4)) = signatureType)
    (hsize : getSignatureSize signatureType ≠ 0)
    (hbody : slice data (offset + bodyStart signatureType) tmdBodySize = body)
    (hin : offset + (bodyStart signatureType + tmdBodySize) + contentCount body * contentChunkSize ≤
      data.length) :
    t.load data offset = some (.success,
      { signatureType := signatureType
        tmdSignature := slice data (offset + 4) (getSignatureSize signatureType)
        tmdBody := body
        tmdChunks := t.tmdChunks ++ (List.range (contentCount body)).map fun i =>
          slice data (offset + (bodyStart signatureType + tmdBodySize) + i * contentChunkSize)
            contentChunkSize }) := by
  have hstart := (signature_le_bodyStart signatureType).1
  have hbehind := sizeBehind_eq (show offset ≤ data.length by omega) hlength
  unfold TitleMetadata.load
  rw [if_neg (by rw [hbehind]; omega), checkedSlice_eq (by omega), Option.bind_some]
  simp only [htype]
  rw [if_neg hsize, if_neg (by rw [hbehind]; omega), checkedSlice_eq (by omega), Option.bind_some,
    checkedSlice_eq (by omega), Option.bind_some]
  simp only [hbody]
  rw [if_neg (by rw [hbehind]; omega), readChunks_eq (by omega), Option.map_some]

/-- Blocks of one size that are written one behind the other are read back. -/
theorem slices_flatten (blocks : List (List UInt8)) {k : Nat} (hk : ∀ b ∈ blocks, b.length = k)
    (before : List UInt8) :
    (List.range blocks.length).map
      (fun i => slice (before ++ blocks.flatten) (before.length + i * k) k) = blocks := by
  induction blocks generalizing before with
  | nil => rfl
  | cons b blocks ih =>
    have hb : b.length = k := hk b (List.mem_cons_self ..)
    rw [List.length_cons, List.range_succ_eq_map, List.map_cons, List.map_map, List.flatten_cons]
    congr 1
    · rw [slice_append_right (i := 0) (by omega), slice_append_left (by omega), ← hb]
      unfold slice
      rw [List.drop_zero, List.take_length]
    · have hrest := ih (fun b hb => hk b (List.mem_cons_of_mem _ hb)) (before ++ b)
      rw [List.length_append, hb] at hrest
      conv_rhs => rw [← hrest]
      refine List.map_congr_left fun i _ => ?_
      rw [Function.comp_apply, List.append_assoc, Nat.succ_mul]
      congr 1
      omega

theorem length_flatten_blocks (blocks : List (List UInt8)) {k : Nat}
    (hk : ∀ b ∈ blocks, b.length = k) : blocks.flatten.length = blocks.length * k := by
  induction blocks with
  | nil => simp
  | cons b blocks ih =>
    rw [List.flatten_cons, List.length_append, List.length_cons, hk b (List.mem_cons_self ..),
      ih fun b hb => hk b (List.mem_cons_of_mem _ hb), Nat.succ_mul, Nat.add_comm]

/-- A body with a count, a hash and content infos. -/
def stamp (body count hash info : List UInt8) : List UInt8 :=
  memcpy (memcpy (memcpy body 0x9E count) 0xA4 hash) 0xC4 info

section

variable {body count hash info : List UInt8} (hbody : body.length = tmdBodySize)
  (hcount : count.length = 2) (hhash : hash.length = 32) (hinfo : info.length = 0x900)

include hbody hcount hhash hinfo

theorem length_stamp : (stamp body count hash info).length = tmdBodySize := by
  have hsize : tmdBodySize = 0x9C4 := rfl
  have h₁ : (memcpy body 0x9E count).length = body.length := length_memcpy (by omega)
  have h₂ : (memcpy (memcpy body 0x9E count) 0xA4 hash).length = body.length := by
    rw [length_memcpy (by omega), h₁]
  rw [stamp, length_memcpy (by omega), h₂, hbody]

theorem byteAt_stamp (i : Nat) : byteAt (stamp body count hash info) i =
    if 0xC4 ≤ i ∧ i < 0x9C4 then byteAt info (i - 0xC4)
    else if 0xA4 ≤ i ∧ i < 0xC4 then byteAt hash (i - 0xA4)
    else if 0x9E ≤ i ∧ i < 0xA0 then byteAt count (i - 0x9E)
    else byteAt body i := by
  have hsize : tmdBodySize = 0x9C4 := rfl
  have h₁ : (memcpy body 0x9E count).length = body.length := length_memcpy (by omega)
  have h₂ : (memcpy (memcpy body 0x9E count) 0xA4 hash).length = body.length := by
    rw [length_memcpy (by omega), h₁]
  rw [stamp, byteAt_memcpy (by omega), byteAt_memcpy (by omega), byteAt_memcpy (by omega), hcount,
    hhash, hinfo]

/-- A body that is stamped again is the same. -/
theorem stamp_stamp : stamp (stamp body count hash info) count hash info =
    stamp body count hash info := by
  have hlength := length_stamp hbody hcount hhash hinfo
  refine ext_byteAt ?_ fun i hi => ?_
  · rw [length_stamp hlength hcount hhash hinfo, hlength]
  · rw [byteAt_stamp hlength hcount hhash hinfo, byteAt_stamp hbody hcount hhash hinfo]
    split_ifs <;> rfl

/-- A stamp leaves the bytes before the hash, when the count is the one that is there. -/
theorem take_stamp (hsame : count = slice body 0x9E 2) :
    (stamp body count hash info).take 0xA4 = body.take 0xA4 := by
  have hlength := length_stamp hbody hcount hhash hinfo
  have hsize : tmdBodySize = 0x9C4 := rfl
  have htake : ∀ b : List UInt8, b.take 0xA4 = slice b 0 0xA4 := fun b => by
    rw [slice, List.drop_zero]
  rw [htake, htake]
  refine ext_byteAt ?_ fun i hi => ?_
  · rw [length_slice (by omega), length_slice (by omega)]
  · rw [length_slice (by omega)] at hi
    rw [byteAt_slice _ _ hi, byteAt_slice _ _ hi, Nat.zero_add,
      byteAt_stamp hbody hcount hhash hinfo, if_neg (by omega), if_neg (by omega)]
    split
    · next hin =>
        rw [hsame, byteAt_slice _ _ (by omega), Nat.add_sub_cancel' hin.1]
    · rfl

/-- The count of a stamped body. -/
theorem contentCount_stamp : contentCount (stamp body count hash info) = beValue count := by
  have hlength := length_stamp hbody hcount hhash hinfo
  have hsize : tmdBodySize = 0x9C4 := rfl
  have hread : slice (stamp body count hash info) 0x9E 2 = count := by
    have hsliceLength : (slice (stamp body count hash info) 0x9E 2).length = 2 :=
      length_slice (by omega)
    refine ext_byteAt (hsliceLength.trans hcount.symm) fun i hi => ?_
    rw [hsliceLength] at hi
    rw [byteAt_slice _ _ hi, byteAt_stamp hbody hcount hhash hinfo, if_neg (by omega),
      if_neg (by omega), if_pos (by omega), Nat.add_sub_cancel_left]
  unfold contentCount
  rw [hread]

end

theorem length_savedContentInfo (sha256 : List UInt8 → Vector UInt8 32)
    (chunks : List (List UInt8)) : (savedContentInfo sha256 chunks).length = 0x900 := by
  unfold savedContentInfo
  simp only [List.length_append, length_beBytes, Vector.length_toList, List.length_replicate]

/-- The metadata `Load` leaves: a signature type, and as many chunks as the body counts. -/
structure TitleMetadata.Loaded (t : TitleMetadata) : Prop where
  signatureType : getSignatureSize t.signatureType ≠ 0
  signature : t.tmdSignature.length = getSignatureSize t.signatureType
  body : t.tmdBody.length = tmdBodySize
  count : t.tmdChunks.length = contentCount t.tmdBody
  chunks : ∀ chunk ∈ t.tmdChunks, chunk.length = contentChunkSize

theorem TitleMetadata.loaded {t t' : TitleMetadata} {data : List UInt8} {offset : Nat}
    (hfresh : t.tmdChunks = []) (h : t.load data offset = some (.success, t')) : t'.Loaded := by
  obtain ⟨signatureType, body, -, hsize, hbody, hin, rfl⟩ := TitleMetadata.load_success h
  have hstart := (signature_le_bodyStart signatureType).1
  rw [hfresh, List.nil_append]
  refine ⟨hsize, length_slice (by omega), by rw [hbody]; exact length_slice (by omega), ?_, ?_⟩
  · rw [List.length_map, List.length_range]
  · intro chunk hchunk
    obtain ⟨i, hi, rfl⟩ := List.mem_map.1 hchunk
    have hlt := List.mem_range.1 hi
    have hle : (i + 1) * contentChunkSize ≤ contentCount body * contentChunkSize :=
      Nat.mul_le_mul_right _ hlt
    rw [Nat.succ_mul] at hle
    exact length_slice (by omega)

namespace TitleMetadata.Loaded

variable {t : TitleMetadata} (h : t.Loaded) (sha256 : List UInt8 → Vector UInt8 32)

include h

theorem count_lt : t.tmdChunks.length < 2 ^ 16 := by
  have hlt := beValue_lt (slice t.tmdBody 0x9E 2)
  rw [length_slice (by rw [h.body]; decide)] at hlt
  rw [h.count]
  exact hlt

/-- The body that is saved. -/
theorem savedBody_eq : savedBody sha256 t =
    stamp t.tmdBody (beBytes 2 t.tmdChunks.length)
      (sha256 (savedContentInfo sha256 t.tmdChunks)).toList
      (savedContentInfo sha256 t.tmdChunks) := by
  unfold savedBody stamp
  simp only [Nat.mod_eq_of_lt h.count_lt, List.take_length]

theorem length_savedBody : (savedBody sha256 t).length = tmdBodySize := by
  rw [h.savedBody_eq]
  exact length_stamp h.body (length_beBytes _ _) (Vector.length_toList) (length_savedContentInfo _ _)

theorem contentCount_savedBody : contentCount (savedBody sha256 t) = t.tmdChunks.length := by
  rw [h.savedBody_eq, contentCount_stamp h.body (length_beBytes _ _) (Vector.length_toList)
    (length_savedContentInfo _ _), beValue_beBytes h.count_lt]

theorem take_savedBody : (savedBody sha256 t).take 0xA4 = t.tmdBody.take 0xA4 := by
  rw [h.savedBody_eq]
  refine take_stamp h.body (length_beBytes _ _) (Vector.length_toList) (length_savedContentInfo _ _) ?_
  have hbytes := beBytes_beValue (slice t.tmdBody 0x9E 2)
  rw [length_slice (by rw [h.body]; decide)] at hbytes
  rw [h.count]
  exact hbytes

/-- What is saved is metadata as `Load` leaves it. -/
theorem saved : ({ t with tmdBody := savedBody sha256 t } : TitleMetadata).Loaded :=
  ⟨h.signatureType, h.signature, h.length_savedBody sha256, (h.contentCount_savedBody sha256).symm,
    h.chunks⟩

/-- Saved metadata is saved as it is. -/
theorem savedBody_saved :
    savedBody sha256 { t with tmdBody := savedBody sha256 t } = savedBody sha256 t := by
  rw [(h.saved sha256).savedBody_eq]
  simp only [h.savedBody_eq]
  exact stamp_stamp h.body (length_beBytes _ _) (Vector.length_toList) (length_savedContentInfo _ _)

/-- The file that is saved. -/
theorem save_eq : t.save sha256 = (.success,
    beBytes 4 t.signatureType.toNat ++ (t.tmdSignature ++
      (List.replicate (bodyStart t.signatureType - (4 + getSignatureSize t.signatureType)) 0 ++
        (savedBody sha256 t ++ t.tmdChunks.flatten))), { t with tmdBody := savedBody sha256 t }) := by
  have hsignature : slice t.tmdSignature 0 (getSignatureSize t.signatureType) = t.tmdSignature := by
    rw [slice, List.drop_zero, ← h.signature, List.take_length]
  unfold TitleMetadata.save
  simp only [if_neg h.signatureType, hsignature, Nat.mod_eq_of_lt h.count_lt, List.take_length,
    List.append_assoc]

/-- The saved file is read back. -/
theorem load_saved (u : TitleMetadata) (hfresh : u.tmdChunks = []) :
    u.load (t.save sha256).2.1 0 = some (.success, { t with tmdBody := savedBody sha256 t }) := by
  obtain ⟨file, hfile⟩ : ∃ file, file = (t.save sha256).2.1 := ⟨_, rfl⟩
  obtain ⟨gap, hgap⟩ : ∃ gap : List UInt8, gap =
    List.replicate (bodyStart t.signatureType - (4 + getSignatureSize t.signatureType)) 0 := ⟨_, rfl⟩
  rw [← hfile]
  rw [h.save_eq, ← hgap] at hfile
  have hstart := signature_le_bodyStart t.signatureType
  have hbodyLength := h.length_savedBody sha256
  have hchunksLength := length_flatten_blocks t.tmdChunks h.chunks
  have hgapLength : 4 + getSignatureSize t.signatureType + gap.length = bodyStart t.signatureType := by
    rw [hgap, List.length_replicate]
    omega
  have hsize : tmdBodySize = 0x9C4 := rfl
  have hchunkSize : contentChunkSize = 0x30 := rfl
  have hlength : file.length =
      bodyStart t.signatureType + tmdBodySize + t.tmdChunks.length * contentChunkSize := by
    rw [hfile]
    simp only [List.length_append, length_beBytes, h.signature, hbodyLength, hchunksLength]
    omega
  have hcount := h.count_lt
  have hhead : (beBytes 4 t.signatureType.toNat ++ t.tmdSignature ++ gap).length =
      bodyStart t.signatureType := by
    rw [List.length_append, List.length_append, length_beBytes, h.signature]
    exact hgapLength
  have hreadSignature : slice file (0 + 4) (getSignatureSize t.signatureType) = t.tmdSignature := by
    rw [hfile, slice_append_right (i := 0) (by rw [length_beBytes]),
      slice_append_left (by rw [h.signature]; omega), ← h.signature, slice, List.drop_zero,
      List.take_length]
  have hreadBody : slice file (0 + bodyStart t.signatureType) tmdBodySize = savedBody sha256 t := by
    rw [hfile, ← List.append_assoc, ← List.append_assoc,
      slice_append_right (i := 0) (by rw [hhead]; omega), slice_append_left (by omega),
      ← hbodyLength, slice, List.drop_zero, List.take_length]
  have hreadChunks : ((List.range t.tmdChunks.length).map fun i =>
      slice file (0 + (bodyStart t.signatureType + tmdBodySize) + i * contentChunkSize)
        contentChunkSize) = t.tmdChunks := by
    have hslices := slices_flatten t.tmdChunks h.chunks
      (beBytes 4 t.signatureType.toNat ++ t.tmdSignature ++ gap ++ savedBody sha256 t)
    rw [List.length_append, hhead, hbodyLength] at hslices
    conv_rhs => rw [← hslices]
    rw [hfile, Nat.zero_add]
    simp only [List.append_assoc]
  have htype : UInt32.ofNat (beValue (slice file 0 4)) = t.signatureType := by
    rw [hfile]
    exact type_of_head _ _
  have hshort : file.length < 2 ^ 64 := by
    rw [hlength, hsize, hchunkSize]
    omega
  rw [TitleMetadata.load_eq u hshort htype h.signatureType hreadBody
    (by rw [h.contentCount_savedBody, hlength]; omega), h.contentCount_savedBody, hreadChunks,
    hreadSignature, hfresh, List.nil_append]

end TitleMetadata.Loaded

/-- Metadata survives `Save`, but for its content infos and their hash, and is then saved as it is. -/
theorem TitleMetadata.load_save (sha256 : List UInt8 → Vector UInt8 32) {t t' : TitleMetadata}
    {data : List UInt8} {offset : Nat} (hfresh : t.tmdChunks = [])
    (h : t.load data offset = some (.success, t')) (u : TitleMetadata) (hu : u.tmdChunks = []) :
    ∃ file saved u', t'.save sha256 = (.success, file, saved) ∧
      u.load file 0 = some (.success, u') ∧ u'.signatureType = t'.signatureType ∧
      u'.tmdSignature = t'.tmdSignature ∧ u'.tmdChunks = t'.tmdChunks ∧
      u'.tmdBody.take 0xA4 = t'.tmdBody.take 0xA4 ∧
      (u'.save sha256).2.1 = file ∧ (saved.save sha256).2.1 = file := by
  have hloaded := TitleMetadata.loaded hfresh h
  have hload := hloaded.load_saved sha256 u hu
  have hsaved := hloaded.saved sha256
  have hagain : ((({ t' with tmdBody := savedBody sha256 t' } : TitleMetadata).save sha256).2.1) =
      (t'.save sha256).2.1 := by
    rw [hsaved.save_eq, hloaded.save_eq]
    simp only [hloaded.savedBody_saved]
  refine ⟨(t'.save sha256).2.1, { t' with tmdBody := savedBody sha256 t' },
    { t' with tmdBody := savedBody sha256 t' }, by rw [hloaded.save_eq], hload, rfl, rfl, rfl,
    hloaded.take_savedBody sha256, hagain, hagain⟩

/-- An object that held metadata keeps its chunks. -/
theorem TitleMetadata.load_held {t t' : TitleMetadata} {data : List UInt8} {offset : Nat}
    (hfresh : t.tmdChunks = []) (h : t.load data offset = some (.success, t'))
    (held : TitleMetadata) :
    held.load data offset = some (.success, { t' with tmdChunks := held.tmdChunks ++ t'.tmdChunks }) := by
  unfold TitleMetadata.load at h ⊢
  split at h
  · cases h
  · next hfour =>
      rw [if_neg hfour]
      rw [Option.bind_eq_some_iff] at h
      obtain ⟨raw, hraw, h⟩ := h
      rw [hraw, Option.bind_some]
      simp only at h ⊢
      split at h
      · cases h
      · next hsize =>
          rw [if_neg hsize]
          split at h
          · cases h
          · next hend =>
              rw [if_neg hend]
              rw [Option.bind_eq_some_iff] at h
              obtain ⟨signature, hsignature, h⟩ := h
              rw [Option.bind_eq_some_iff] at h
              obtain ⟨body, hbody, h⟩ := h
              rw [hsignature, Option.bind_some, hbody, Option.bind_some]
              split at h
              · cases h
              · next hcount =>
                  rw [if_neg hcount]
                  rw [Option.map_eq_some_iff] at h
                  obtain ⟨chunks, hchunks, h⟩ := h
                  cases h
                  rw [hchunks, Option.map_some, hfresh, List.nil_append]

/-- Tickets survive `Serialize` exactly when their signature is not of 0x3C bytes or their body is zero;
metadata survives `Save`; and loading into an object gives what loading into a fresh one gives exactly
when the object holds no chunks. -/
theorem ticket_and_metadata (sha256 : List UInt8 → Vector UInt8 32) :
    (∀ (t t' : Ticket) data offset, t.contentIndex = [] → t.load data offset = some (.success, t') →
      ∀ u : Ticket,
        ((∃ u', u.load t'.serialize 0 = some (.success, u') ∧ u'.signatureType = t'.signatureType ∧
            u'.ticketSignature = t'.ticketSignature ∧ u'.ticketBody = t'.ticketBody) ↔
          getSignatureSize t'.signatureType ≠ 0x3C ∨
            t'.ticketBody = List.replicate ticketBodySize 0)) ∧
      ∀ (t t' : TitleMetadata) data offset, t.tmdChunks = [] →
        t.load data offset = some (.success, t') →
        (∀ u : TitleMetadata, u.tmdChunks = [] →
          ∃ file saved u', t'.save sha256 = (.success, file, saved) ∧
            u.load file 0 = some (.success, u') ∧ u'.signatureType = t'.signatureType ∧
            u'.tmdSignature = t'.tmdSignature ∧ u'.tmdChunks = t'.tmdChunks ∧
            u'.tmdBody.take 0xA4 = t'.tmdBody.take 0xA4 ∧
            (u'.save sha256).2.1 = file ∧ (saved.save sha256).2.1 = file) ∧
        ∀ held : TitleMetadata,
          (held.load data offset = t.load data offset ↔ held.tmdChunks = []) := by
  refine ⟨fun t t' data offset hindex h u => Ticket.serialize_iff hindex h u,
    fun t t' data offset hfresh h => ⟨fun u hu => TitleMetadata.load_save sha256 hfresh h u hu,
      fun held => ?_⟩⟩
  rw [TitleMetadata.load_held hfresh h held, h]
  constructor
  · intro heq
    have hchunks := congrArg TitleMetadata.tmdChunks (Prod.ext_iff.1 (Option.some.inj heq)).2
    exact List.append_left_eq_self.1 hchunks
  · intro hnone
    rw [hnone, List.nil_append]

/-! ## Files -/

/-- An object no file was loaded into. -/
def Ticket.fresh : Ticket := ⟨[], 0, [], []⟩

/-- An object no file was loaded into. -/
def TitleMetadata.fresh : TitleMetadata := ⟨[], 0, [], []⟩

/-- A ticket file with a signature type, a signature of ones and a body of twos. -/
def ticketFile (signatureType : UInt32) : List UInt8 :=
  beBytes 4 signatureType.toNat ++ List.replicate (bodyStart signatureType - 4) 1 ++
    List.replicate ticketBodySize 2

/-- A metadata file with one content. -/
def tmdFile : List UInt8 :=
  beBytes 4 0x10005 ++ List.replicate 0x3C 1 ++ List.replicate 0x9E 2 ++ [0, 1] ++
    List.replicate (tmdBodySize - 0xA0) 3 ++ List.replicate contentChunkSize 4

theorem ticket_and_metadata_rsa :
    (∃ t' u', Ticket.fresh.load (ticketFile 0x10001) 0 = some (.success, t') ∧
      Ticket.fresh.load t'.serialize 0 = some (.success, u') ∧ u'.ticketBody = t'.ticketBody) ∧
    ∃ t' file saved, TitleMetadata.fresh.load tmdFile 0 = some (.success, t') ∧
      t'.save (fun _ => Vector.replicate 32 5) = (.success, file, saved) := by
  have hticket : (Ticket.fresh.load (ticketFile 0x10001) 0).map (·.1) = some .success := by
    decide +kernel
  have htmd : (TitleMetadata.fresh.load tmdFile 0).map (·.1) = some .success := by decide +kernel
  obtain ⟨⟨status, t'⟩, hload, hstatus⟩ := Option.map_eq_some_iff.1 hticket
  obtain ⟨⟨status₂, m'⟩, hload₂, hstatus₂⟩ := Option.map_eq_some_iff.1 htmd
  simp only at hstatus hstatus₂
  subst hstatus hstatus₂
  have hboth := ticket_and_metadata fun _ => Vector.replicate 32 5
  have htype : getSignatureSize t'.signatureType ≠ 0x3C := by
    obtain ⟨signatureType, htype, -, -, rfl⟩ := Ticket.load_success hload
    rw [htype]
    decide +kernel
  obtain ⟨u', hu, -, -, hbody⟩ :=
    (hboth.1 Ticket.fresh t' _ 0 rfl hload Ticket.fresh).2 (Or.inl htype)
  obtain ⟨file, saved, -, hsave, -⟩ := (hboth.2 TitleMetadata.fresh m' _ 0 rfl hload₂).1
    TitleMetadata.fresh rfl
  exact ⟨⟨t', u', hload, hu, hbody⟩, m', file, saved, hload₂, hsave⟩

/-- A ticket with an elliptic signature comes back with another body, and metadata that is loaded twice
has its chunk twice. -/
theorem elliptic_ticket_lost :
    (∃ t' u', Ticket.fresh.load (ticketFile 0x10005) 0 = some (.success, t') ∧
      Ticket.fresh.load t'.serialize 0 = some (.success, u') ∧ u'.ticketBody ≠ t'.ticketBody) ∧
    ((TitleMetadata.fresh.load tmdFile 0).bind fun r => r.2.load tmdFile 0).map
        (fun r => (r.1, r.2.tmdChunks.length)) = some (.success, 2) ∧
      (TitleMetadata.fresh.load tmdFile 0).map (fun r => (r.1, r.2.tmdChunks.length)) =
        some (.success, 1) := by
  refine ⟨?_, by decide +kernel, by decide +kernel⟩
  have hcompare : ((Ticket.fresh.load (ticketFile 0x10005) 0).bind fun r =>
      (Ticket.fresh.load r.2.serialize 0).map fun q =>
        (r.1, q.1, decide (q.2.ticketBody = r.2.ticketBody))) =
          some (.success, .success, false) := by decide +kernel
  obtain ⟨⟨status, t'⟩, hload, hsecond⟩ := Option.bind_eq_some_iff.1 hcompare
  obtain ⟨⟨status₂, u'⟩, hload₂, heq⟩ := Option.map_eq_some_iff.1 hsecond
  simp only [Prod.mk.injEq, decide_eq_false_iff_not] at heq
  obtain ⟨rfl, rfl, hne⟩ := heq
  exact ⟨t', u', hload, hload₂, hne⟩

end AzaharPlus.FileSys
