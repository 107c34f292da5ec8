import AzaharPlus.FileSys.TitleFiles

/-!
# The loaders of CIA images

`core/file_sys/cia_container.cpp`: an image is loaded from a span of all its bytes, from a file of the
host or from a file of an archive.  The loaders for files cut each section out by its size; the one for
a span passes an offset into the whole image.

* `Ticket.load_start`, `TitleMetadata.load_start` — the parsers, by what is at the start.
* `Ticket.parsed_take`, `TitleMetadata.parsed_take` — what a section of an image holds.
* `loadSpan_ends`, `loadFile_ends` — how the loaders end.
* `loaders_agree_iff` — when all three loaders agree and the span is read inside of the image.
-/

namespace AzaharPlus.FileSys

open Bytes

/-! ## The header -/

/-- `CIA_HEADER_SIZE`. -/
def ciaHeaderSize : Nat := 0x2020

/-- `CIA_METADATA_SIZE`. -/
def ciaMetadataSize : Nat := 0x400

/-- `sizeof(Loader::SMDH)`. -/
def smdhSize : Nat := 0x36C0

/-- A little-endian number of the header. -/
def headerNumber (header : List UInt8) (off n : Nat) : Nat := leValue (slice header off n)

/-- `CIAContainer`; header, metadata and SMDH are kept as their bytes. -/
structure CiaContainer where
  hasHeader : Bool
  ciaHeader : List UInt8
  ciaMetadata : List UInt8
  ciaSmdh : Option (List UInt8)
  ciaTicket : Ticket
  ciaTmd : TitleMetadata
  deriving DecidableEq, Repr

namespace CiaContainer

/-- `cia_header.header_size`. -/
def headerSize (c : CiaContainer) : Nat := headerNumber c.ciaHeader 0 4

/-- `cia_header.cert_size`. -/
def certSize (c : CiaContainer) : Nat := headerNumber c.ciaHeader 8 4

/-- `cia_header.tik_size`. -/
def tikSize (c : CiaContainer) : Nat := headerNumber c.ciaHeader 0xC 4

/-- `cia_header.tmd_size`. -/
def tmdSize (c : CiaContainer) : Nat := headerNumber c.ciaHeader 0x10 4

/-- `cia_header.meta_size`. -/
def metaSize (c : CiaContainer) : Nat := headerNumber c.ciaHeader 0x14 4

/-- `cia_header.content_size`. -/
def contentSize (c : CiaContainer) : Nat := headerNumber c.ciaHeader 0x18 8

/-- `GetCertificateOffset`; the header size is aligned as a `u32`. -/
def certificateOffset (c : CiaContainer) : Nat := alignUp c.headerSize 0x40 % 2 ^ 32

/-- `GetTicketOffset`. -/
def ticketOffset (c : CiaContainer) : Nat := alignUp (c.certificateOffset + c.certSize) 0x40

/-- `GetTitleMetadataOffset`. -/
def titleMetadataOffset (c : CiaContainer) : Nat := alignUp (c.ticketOffset + c.tikSize) 0x40

/-- `GetContentOffset` of the first content. -/
def contentOffset (c : CiaContainer) : Nat := alignUp (c.titleMetadataOffset + c.tmdSize) 0x40

/-- `GetMetadataOffset`, of `u64`. -/
def metadataOffset (c : CiaContainer) : Nat :=
  alignUp ((c.contentOffset + c.contentSize) % 2 ^ 64) 0x40 % 2 ^ 64

/-! ## The sections -/

/-- The result of a loader: `none` stands for an access outside of the given bytes. -/
abbrev Loaded := Option (ResultStatus × CiaContainer)

/-- A step that is taken after a success. -/
def andThen (r : Loaded) (k : CiaContainer → Loaded) : Loaded :=
  match r with
  | none => none
  | some (.success, c) => k c
  | some (status, c) => some (status, c)

/-- `LoadHeader`; the bytes are copied from the start of the span. -/
def loadHeader (c : CiaContainer) (data : List UInt8) (offset : Nat) : Loaded :=
  if sizeBehind data offset < ciaHeaderSize then some (.error, c)
  else
    (checkedSlice data 0 ciaHeaderSize).map fun header =>
      (.success, { c with ciaHeader := header, hasHeader := true })

/-- `LoadTicket`. -/
def loadTicket (c : CiaContainer) (data : List UInt8) (offset : Nat) : Loaded :=
  (c.ciaTicket.load data offset).map fun r => (r.1, { c with ciaTicket := r.2 })

/-- `LoadTitleMetadata`. -/
def loadTitleMetadata (c : CiaContainer) (data : List UInt8) (offset : Nat) : Loaded :=
  (c.ciaTmd.load data offset).map fun r => (r.1, { c with ciaTmd := r.2 })

/-- `LoadMetadata`; the bytes are copied from the start of the span. -/
def loadMetadata (c : CiaContainer) (data : List UInt8) (offset : Nat) : Loaded :=
  if sizeBehind data offset < ciaMetadataSize then some (.error, c)
  else
    (checkedSlice data 0 ciaMetadataSize).map fun metadata =>
      (.success, { c with ciaMetadata := metadata })

/-- `LoadSMDH`; the bytes are copied from the start of the span. -/
def loadSmdh (c : CiaContainer) (data : List UInt8) (offset : Nat) : Loaded :=
  if sizeBehind data offset < smdhSize then some (.error, c)
  else (checkedSlice data 0 smdhSize).map fun smdh => (.success, { c with ciaSmdh := some smdh })

/-! ## The loaders -/

/-- `Load` of a span. -/
def loadSpan (c : CiaContainer) (data : List UInt8) : Loaded :=
  andThen (c.loadHeader data 0) fun c =>
  andThen (c.loadTicket data c.ticketOffset) fun c =>
  andThen (c.loadTitleMetadata data c.titleMetadataOffset) fun c =>
    if c.metaSize ≠ 0 then
      andThen (c.loadMetadata data c.metadataOffset) fun c =>
        if c.metaSize ≥ ciaMetadataSize + smdhSize then
          c.loadSmdh data ((c.metadataOffset + ciaMetadataSize) % 2 ^ 64)
        else some (.success, c)
    else some (.success, c)

/-- A section is read; it has to be there as a whole. -/
def readSection {σ : Type} (readAt : σ → Nat → Nat → σ × List UInt8) (s : σ) (c : CiaContainer)
    (offset length : Nat) (k : σ → List UInt8 → Loaded) : Loaded :=
  if (readAt s offset length).2.length ≠ length then some (.error, c)
  else k (readAt s offset length).1 (readAt s offset length).2

/-- `Load` of a file whose reads are given. -/
def loadFile {σ : Type} (readAt : σ → Nat → Nat → σ × List UInt8) (s : σ) (c : CiaContainer) : Loaded :=
  readSection readAt s c 0 ciaHeaderSize fun s header =>
  andThen (c.loadHeader header 0) fun c =>
  readSection readAt s c c.ticketOffset c.tikSize fun s ticket =>
  andThen (c.loadTicket ticket 0) fun c =>
  readSection readAt s c c.titleMetadataOffset c.tmdSize fun s tmd =>
  andThen (c.loadTitleMetadata tmd 0) fun c =>
    if c.metaSize ≠ 0 then
      readSection readAt s c c.metadataOffset ciaMetadataSize fun s metadata =>
      andThen (c.loadMetadata metadata 0) fun c =>
        if c.metaSize ≥ ciaMetadataSize + smdhSize then
          readSection readAt s c ((c.metadataOffset + ciaMetadataSize) % 2 ^ 64) smdhSize fun _ smdh =>
            c.loadSmdh smdh 0
        else some (.success, c)
    else some (.success, c)

/-- `FileBackend::Read` of a file with these bytes. -/
def backendRead (bytes : List UInt8) (_ : Unit) (offset length : Nat) : Unit × List UInt8 :=
  ((), slice bytes offset length)

/-- `IOFile::Seek` and `IOFile::ReadBytes` of a file with these bytes and a position: an offset that is
no positive `s64` leaves the position, and a read of no bytes does nothing. -/
def ioRead (bytes : List UInt8) (position offset length : Nat) : Nat × List UInt8 :=
  let position := if offset < 2 ^ 63 then offset else position
  (position + (slice bytes position length).length, slice bytes position length)

/-- `Load` of a `FileBackend`. -/
def loadBackend (c : CiaContainer) (bytes : List UInt8) : Loaded := c.loadFile (backendRead bytes) ()

/-- `Load` of an `IOFile` positioned at the start. -/
def loadIOFile (c : CiaContainer) (bytes : List UInt8) : Loaded := c.loadFile (ioRead bytes) 0

end CiaContainer

/-! ## What is at a place -/

/-- The signature type at the start. -/
def typeAt (data : List UInt8) : UInt32 := UInt32.ofNat (beValue (slice data 0 4))

/-- The end of a ticket with the signature type at the start. -/
def ticketEnd (data : List UInt8) : Nat := bodyStart (typeAt data) + ticketBodySize

/-- The end of the body of metadata with the signature type at the start. -/
def bodyEnd (data : List UInt8) : Nat := bodyStart (typeAt data) + tmdBodySize

/-- The number of chunks of the metadata at the start. -/
def chunkCountAt (data : List UInt8) : Nat :=
  contentCount (slice data (bodyStart (typeAt data)) tmdBodySize)

/-- The end of metadata with all the chunks its body counts. -/
def chunksEnd (data : List UInt8) : Nat := bodyEnd data + chunkCountAt data * contentChunkSize

/-- There is a known signature type, and bytes up to some end. -/
def SignedUpTo (data : List UInt8) (fileEnd : Nat) : Prop :=
  4 ≤ data.length ∧ getSignatureSize (typeAt data) ≠ 0 ∧ fileEnd ≤ data.length

instance (data : List UInt8) (fileEnd : Nat) : Decidable (SignedUpTo data fileEnd) :=
  inferInstanceAs (Decidable (_ ∧ _ ∧ _))

/-- A prefix that reaches up to a position has the same bytes there. -/
theorem slice_take {data : List UInt8} {off n s : Nat} (h : off + n ≤ s) :
    slice (data.take s) off n = slice data off n := by
  have htake : data.take s = slice data 0 s := by rw [slice, List.drop_zero]
  rw [htake, slice_slice (by omega), Nat.zero_add]

theorem typeAt_take {data : List UInt8} {s : Nat} (h : 4 ≤ s) : typeAt (data.take s) = typeAt data := by
  unfold typeAt
  rw [slice_take (by omega)]

theorem four_le_ticketEnd (data : List UInt8) : 4 ≤ ticketEnd data :=
  Nat.le_trans (by decide) (Nat.le_add_left ticketBodySize _)

theorem four_le_bodyEnd (data : List UInt8) : 4 ≤ bodyEnd data :=
  Nat.le_trans (by decide) (Nat.le_add_left tmdBodySize _)

theorem checkedSlice_drop {data : List UInt8} {offset : Nat} (h : offset ≤ data.length) (a n : Nat) :
    checkedSlice (data.drop offset) a n = checkedSlice data (offset + a) n := by
  unfold checkedSlice
  rw [List.length_drop]
  by_cases hin : a + n ≤ data.length - offset
  · rw [if_pos hin, if_pos (by omega), slice, slice, List.drop_drop]
  · rw [if_neg hin, if_neg (by omega)]

theorem sizeBehind_drop {data : List UInt8} {offset : Nat} (h : offset ≤ data.length)
    (hlength : data.length < 2 ^ 64) : sizeBehind (data.drop offset) 0 = sizeBehind data offset := by
  have hdrop : (data.drop offset).length = data.length - offset := List.length_drop
  rw [sizeBehind_eq h hlength, sizeBehind_eq (Nat.zero_le _) (by omega), hdrop, Nat.sub_zero]

/-! ## Tickets in an image -/

/-- The ticket that is read from given bytes. -/
def Ticket.parsed (t : Ticket) (data : List UInt8) : Ticket :=
  { t with
    signatureType := typeAt data
    ticketSignature := slice data 4 (getSignatureSize (typeAt data))
    ticketBody := slice data (bodyStart (typeAt data)) ticketBodySize }

/-- A ticket behind an offset is read as from the rest of the bytes. -/
theorem Ticket.load_drop (t : Ticket) {data : List UInt8} {offset : Nat} (h : offset ≤ data.length)
    (hlength : data.length < 2 ^ 64) : t.load data offset = t.load (data.drop offset) 0 := by
  unfold Ticket.load
  simp only [sizeBehind_drop h hlength, checkedSlice_drop h, Nat.add_zero, Nat.zero_add]

/-- Behind the end of the bytes a ticket is read from outside. -/
theorem Ticket.load_outside (t : Ticket) {data : List UInt8} {offset : Nat} (h : data.length < offset)
    (hoffset : offset < 2 ^ 63) : t.load data offset = none := by
  unfold Ticket.load
  have hbehind : ¬ sizeBehind data offset < 4 := by
    unfold sizeBehind
    omega
  have hout : checkedSlice data offset 4 = none := if_neg (by omega)
  rw [if_neg hbehind, hout, Option.bind_none]

/-- A ticket is accepted exactly when it is there as a whole. -/
theorem Ticket.load_start (t : Ticket) {data : List UInt8} (hlength : data.length < 2 ^ 64) :
    (SignedUpTo data (ticketEnd data) → t.load data 0 = some (.success, t.parsed data)) ∧
      (¬ SignedUpTo data (ticketEnd data) → ∃ t', t.load data 0 = some (.error, t')) := by
  have hbehind : sizeBehind data 0 = data.length := sizeBehind_eq (Nat.zero_le _) hlength
  constructor
  · rintro ⟨-, hsize, hend⟩
    unfold ticketEnd at hend
    rw [Ticket.load_eq t hlength rfl hsize (by rw [Nat.zero_add]; exact hend)]
    simp only [Nat.zero_add]
    rfl
  · intro hnot
    unfold Ticket.load
    rw [hbehind]
    by_cases hfour : data.length < 4
    · exact ⟨t, if_pos hfour⟩
    · rw [if_neg hfour, checkedSlice_eq (by omega), Option.bind_some]
      simp only
      by_cases hsize : getSignatureSize (UInt32.ofNat (beValue (slice data 0 4))) = 0
      · exact ⟨_, if_pos hsize⟩
      · rw [if_neg hsize]
        refine ⟨_, if_pos ?_⟩
        by_contra hend
        exact hnot ⟨Nat.le_of_not_lt hfour, hsize, Nat.le_of_not_lt hend⟩

/-- A prefix holds the whole ticket when it reaches to the end of it. -/
theorem Ticket.parsed_take (t : Ticket) {data : List UInt8} {s : Nat} (hs : s ≤ data.length) :
    (SignedUpTo (data.take s) (ticketEnd (data.take s)) ↔
        SignedUpTo data (ticketEnd data) ∧ ticketEnd data ≤ s) ∧
      (ticketEnd data ≤ s → t.parsed (data.take s) = t.parsed data) := by
  have htakeLength : (data.take s).length = s := List.length_take_of_le hs
  constructor
  · constructor
    · rintro ⟨hfour, hsize, hend⟩
      rw [htakeLength] at hfour hend
      have htype : typeAt (data.take s) = typeAt data := typeAt_take hfour
      unfold ticketEnd at hend ⊢
      rw [htype] at hsize hend
      exact ⟨⟨Nat.le_trans hfour hs, hsize, Nat.le_trans hend hs⟩, hend⟩
    · rintro ⟨⟨hfour, hsize, -⟩, hend⟩
      have hle : 4 ≤ s := Nat.le_trans (four_le_ticketEnd data) hend
      have htype : typeAt (data.take s) = typeAt data := typeAt_take hle
      refine ⟨by rw [htakeLength]; exact hle, by rw [htype]; exact hsize, ?_⟩
      unfold ticketEnd at hend ⊢
      rw [htype, htakeLength]
      exact hend
  · intro hend
    have hle : 4 ≤ s := Nat.le_trans (four_le_ticketEnd data) hend
    have hstart := (signature_le_bodyStart (typeAt data)).1
    unfold ticketEnd at hend
    unfold Ticket.parsed
    rw [typeAt_take hle, slice_take hend,
      slice_take (Nat.le_trans hstart (Nat.le_trans (Nat.le_add_right _ _) hend))]

/-! ## Title metadata in an image -/

/-- The metadata that is read from given bytes. -/
def TitleMetadata.parsed (t : TitleMetadata) (data : List UInt8) : TitleMetadata :=
  { signatureType := typeAt data
    tmdSignature := slice data 4 (getSignatureSize (typeAt data))
    tmdBody := slice data (bodyStart (typeAt data)) tmdBodySize
    tmdChunks := t.tmdChunks ++ (List.range (chunkCountAt data)).map fun i =>
      slice data (bodyEnd data + i * contentChunkSize) contentChunkSize }

theorem readChunks_drop {data : List UInt8} {offset : Nat} (h : offset ≤ data.length) (start n : Nat) :
    readChunks (data.drop offset) start n = readChunks data (offset + start) n := by
  induction n with
  | zero => rfl
  | succ n ih => rw [readChunks, readChunks, ih, checkedSlice_drop h, Nat.add_assoc]

/-- Metadata behind an offset is read as from the rest of the bytes. -/
theorem TitleMetadata.load_drop (t : TitleMetadata) {data : List UInt8} {offset : Nat}
    (h : offset ≤ data.length) (hlength : data.length < 2 ^ 64) :
    t.load data offset = t.load (data.drop offset) 0 := by
  unfold TitleMetadata.load
  simp only [sizeBehind_drop h hlength, checkedSlice_drop h, readChunks_drop h, Nat.add_zero,
    Nat.zero_add]

/-- Behind the end of the bytes metadata is read from outside. -/
theorem TitleMetadata.load_outside (t : TitleMetadata) {data : List UInt8} {offset : Nat}
    (h : data.length < offset) (hoffset : offset < 2 ^ 63) : t.load data offset = none := by
  unfold TitleMetadata.load
  have hbehind : ¬ sizeBehind data offset < 4 := by
    unfold sizeBehind
    omega
  have hout : checkedSlice data offset 4 = none := if_neg (by omega)
  rw [if_neg hbehind, hout, Option.bind_none]

/-- Metadata is accepted exactly when it is there with all the chunks it counts. -/
theorem TitleMetadata.load_start (t : TitleMetadata) {data : List UInt8} (hlength : data.length < 2 ^ 64) :
    (SignedUpTo data (bodyEnd data) → chunksEnd data ≤ data.length →
        t.load data 0 = some (.success, t.parsed data)) ∧
      (SignedUpTo data (bodyEnd data) → ¬ chunksEnd data ≤ data.length →
        ∃ t', t.load data 0 = some (.errorInvalidFormat, t')) ∧
      (¬ SignedUpTo data (bodyEnd data) → ∃ t', t.load data 0 = some (.error, t')) := by
  have hbehind : sizeBehind data 0 = data.length := sizeBehind_eq (Nat.zero_le _) hlength
  have hstart := (signature_le_bodyStart (typeAt data)).1
  refine ⟨?_, ?_, ?_⟩
  · rintro ⟨-, hsize, -⟩ hchunks
    rw [TitleMetadata.load_eq t hlength rfl hsize rfl (by simp only [Nat.zero_add]; exact hchunks)]
    simp only [Nat.zero_add]
    rfl
  · rintro ⟨hfour, hsize, hend⟩ hchunks
    unfold TitleMetadata.load
    unfold chunksEnd chunkCountAt at hchunks
    unfold bodyEnd at hend hchunks
    rw [hbehind, if_neg (Nat.not_lt.mpr hfour), checkedSlice_eq (by omega), Option.bind_some]
    simp only [Nat.zero_add]
    change ∃ t', (if getSignatureSize (typeAt data) = 0 then _ else _) = _
    rw [if_neg hsize]
    change ∃ t', (if data.length < bodyStart (typeAt data) + tmdBodySize then _ else _) = _
    rw [if_neg (Nat.not_lt.mpr hend)]
    change ∃ t', (checkedSlice data 4 (getSignatureSize (typeAt data))).bind _ = _
    rw [checkedSlice_eq (by omega), Option.bind_some]
    change ∃ t', (checkedSlice data (bodyStart (typeAt data)) tmdBodySize).bind _ = _
    rw [checkedSlice_eq hend, Option.bind_some]
    exact ⟨_, if_pos (Nat.lt_of_not_le hchunks)⟩
  · intro hnot
    unfold TitleMetadata.load
    rw [hbehind]
    by_cases hfour : data.length < 4
    · exact ⟨t, if_pos hfour⟩
    · rw [if_neg hfour, checkedSlice_eq (by omega), Option.bind_some]
      simp only
      by_cases hsize : getSignatureSize (UInt32.ofNat (beValue (slice data 0 4))) = 0
      · exact ⟨_, if_pos hsize⟩
      · rw [if_neg hsize]
        refine ⟨_, if_pos ?_⟩
        by_contra hend
        exact hnot ⟨Nat.le_of_not_lt hfour, hsize, Nat.le_of_not_lt hend⟩

theorem bodyEnd_take {data : List UInt8} {s : Nat} (h : 4 ≤ s) : bodyEnd (data.take s) = bodyEnd data := by
  unfold bodyEnd
  rw [typeAt_take h]

theorem chunkCountAt_take {data : List UInt8} {s : Nat} (h : bodyEnd data ≤ s) :
    chunkCountAt (data.take s) = chunkCountAt data := by
  unfold chunkCountAt
  rw [typeAt_take (Nat.le_trans (four_le_bodyEnd data) h), slice_take h]

/-- A prefix holds the body when it reaches to the end of it, and then as much as it reaches to. -/
theorem TitleMetadata.parsed_take (t : TitleMetadata) {data : List UInt8} {s : Nat} (hs : s ≤ data.length) :
    (SignedUpTo (data.take s) (bodyEnd (data.take s)) ↔
        SignedUpTo data (bodyEnd data) ∧ bodyEnd data ≤ s) ∧
      (bodyEnd data ≤ s → chunksEnd (data.take s) = chunksEnd data) ∧
      (chunksEnd data ≤ s → t.parsed (data.take s) = t.parsed data) := by
  have htakeLength : (data.take s).length = s := List.length_take_of_le hs
  refine ⟨⟨?_, ?_⟩, ?_, ?_⟩
  · rintro ⟨hfour, hsize, hend⟩
    rw [htakeLength] at hfour hend
    rw [typeAt_take hfour] at hsize
    rw [bodyEnd_take hfour] at hend
    exact ⟨⟨Nat.le_trans hfour hs, hsize, Nat.le_trans hend hs⟩, hend⟩
  · rintro ⟨⟨hfour, hsize, -⟩, hend⟩
    have hle : 4 ≤ s := Nat.le_trans (four_le_bodyEnd data) hend
    refine ⟨by rw [htakeLength]; exact hle, by rw [typeAt_take hle]; exact hsize, ?_⟩
    rw [bodyEnd_take hle, htakeLength]
    exact hend
  · intro hend
    unfold chunksEnd
    rw [chunkCountAt_take hend, bodyEnd_take (Nat.le_trans (four_le_bodyEnd data) hend)]
  · intro hchunks
    have hend : bodyEnd data ≤ s := Nat.le_trans (Nat.le_add_right _ _) hchunks
    have hle : 4 ≤ s := Nat.le_trans (four_le_bodyEnd data) hend
    have hstart := (signature_le_bodyStart (typeAt data)).1
    have hsections : (List.range (chunkCountAt data)).map (fun i =>
          slice (data.take s) (bodyEnd data + i * contentChunkSize) contentChunkSize) =
        (List.range (chunkCountAt data)).map fun i =>
          slice data (bodyEnd data + i * contentChunkSize) contentChunkSize := by
      refine List.map_congr_left fun i hi => slice_take ?_
      have hcount : (i + 1) * contentChunkSize ≤ chunkCountAt data * contentChunkSize :=
        Nat.mul_le_mul_right _ (List.mem_range.mp hi)
      unfold chunksEnd at hchunks
      rw [Nat.succ_mul] at hcount
      omega
    unfold TitleMetadata.parsed
    rw [typeAt_take hle, slice_take (show bodyStart (typeAt data) + tmdBodySize ≤ s from hend),
      slice_take (Nat.le_trans hstart (Nat.le_trans (Nat.le_add_right _ _) hend)),
      chunkCountAt_take hend, bodyEnd_take hle, hsections]

namespace CiaContainer

/-! ## What the loaders find -/

/-- The container with the header of an image. -/
def headed (c : CiaContainer) (image : List UInt8) : CiaContainer :=
  { c with ciaHeader := slice image 0 ciaHeaderSize, hasHeader := true }

/-- The container with the ticket and the metadata of the title, too. -/
def titled (c : CiaContainer) (image : List UInt8) : CiaContainer :=
  { c with
    ciaTicket := c.ciaTicket.parsed (image.drop c.ticketOffset)
    ciaTmd := c.ciaTmd.parsed (image.drop c.titleMetadataOffset) }

/-- There is a whole ticket at its offset. -/
def TicketThere (c : CiaContainer) (image : List UInt8) : Prop :=
  SignedUpTo (image.drop c.ticketOffset) (ticketEnd (image.drop c.ticketOffset))

/-- The section of the ticket is there and reaches to the end of a whole ticket. -/
def TicketCut (c : CiaContainer) (image : List UInt8) : Prop :=
  c.TicketThere image ∧ ticketEnd (image.drop c.ticketOffset) ≤ c.tikSize ∧
    c.ticketOffset + c.tikSize ≤ image.length

/-- There is a whole body of metadata at its offset. -/
def BodyThere (c : CiaContainer) (image : List UInt8) : Prop :=
  SignedUpTo (image.drop c.titleMetadataOffset) (bodyEnd (image.drop c.titleMetadataOffset))

/-- The section of the metadata is there and reaches to the end of a whole body. -/
def BodyCut (c : CiaContainer) (image : List UInt8) : Prop :=
  c.BodyThere image ∧ bodyEnd (image.drop c.titleMetadataOffset) ≤ c.tmdSize ∧
    c.titleMetadataOffset + c.tmdSize ≤ image.length

/-- All chunks that the body counts are in the image. -/
def ChunksThere (c : CiaContainer) (image : List UInt8) : Prop :=
  chunksEnd (image.drop c.titleMetadataOffset) ≤ (image.drop c.titleMetadataOffset).length

/-- All chunks that the body counts are in the section. -/
def ChunksCut (c : CiaContainer) (image : List UInt8) : Prop :=
  chunksEnd (image.drop c.titleMetadataOffset) ≤ c.tmdSize

/-- There is an SMDH behind the metadata of the CIA. -/
def HasSmdh (c : CiaContainer) : Prop := c.metaSize ≥ ciaMetadataSize + smdhSize

/-- `GetMetadataOffset() + CIA_METADATA_SIZE`. -/
def smdhOffset (c : CiaContainer) : Nat := (c.metadataOffset + ciaMetadataSize) % 2 ^ 64

/-- The span ends before the metadata of the CIA or its SMDH does. -/
def MetaMissing (c : CiaContainer) (image : List UInt8) : Prop :=
  c.metaSize ≠ 0 ∧ (sizeBehind image c.metadataOffset < ciaMetadataSize ∨
    (c.HasSmdh ∧ sizeBehind image c.smdhOffset < smdhSize))

/-- The bytes of a section are there, and those at the start of the image are the same. -/
def AtStart (image : List UInt8) (offset n : Nat) : Prop :=
  offset + n ≤ image.length ∧ slice image offset n = slice image 0 n

/-- The metadata of the CIA and its SMDH repeat the start of the image. -/
def MetaAtStart (c : CiaContainer) (image : List UInt8) : Prop :=
  c.metaSize ≠ 0 → AtStart image c.metadataOffset ciaMetadataSize ∧
    (c.HasSmdh → AtStart image c.smdhOffset smdhSize)

/-- When loaders agree on an image whose header is `c`'s, but for the metadata of the CIA: the image is
too short for a header, or ticket and metadata of the title begin in the image, and
* with no whole ticket or no whole body nothing more is asked for;
* with a body but not its chunks, both sections have to reach to the ends of ticket and body;
* with the chunks but not the metadata of the CIA, such sections have to hold the chunks, too;
* with all of it, the sections hold ticket, body and chunks, and the loaders agree on the rest. -/
def ConsistentWith (c : CiaContainer) (image : List UInt8) (rest : Prop) : Prop :=
  image.length < ciaHeaderSize ∨ (c.ticketOffset ≤ image.length ∧ (c.TicketThere image →
    c.titleMetadataOffset ≤ image.length ∧ (c.BodyThere image →
      (¬ c.ChunksThere image → c.TicketCut image ∧ c.BodyCut image) ∧
      (c.ChunksThere image → c.MetaMissing image → c.TicketCut image → c.BodyCut image →
        c.ChunksCut image) ∧
      (c.ChunksThere image → ¬ c.MetaMissing image →
        c.TicketCut image ∧ c.BodyCut image ∧ c.ChunksCut image ∧ rest))))

/-- When all loaders agree on an image whose header is `c`'s. -/
def Consistent (c : CiaContainer) (image : List UInt8) : Prop :=
  c.ConsistentWith image (c.MetaAtStart image)

instance (c : CiaContainer) (image : List UInt8) : Decidable (c.TicketThere image) :=
  inferInstanceAs (Decidable (SignedUpTo _ _))

instance (c : CiaContainer) (image : List UInt8) : Decidable (c.TicketCut image) :=
  inferInstanceAs (Decidable (_ ∧ _ ∧ _))

instance (c : CiaContainer) (image : List UInt8) : Decidable (c.BodyThere image) :=
  inferInstanceAs (Decidable (SignedUpTo _ _))

instance (c : CiaContainer) (image : List UInt8) : Decidable (c.BodyCut image) :=
  inferInstanceAs (Decidable (_ ∧ _ ∧ _))

instance (c : CiaContainer) (image : List UInt8) : Decidable (c.ChunksThere image) :=
  inferInstanceAs (Decidable (_ ≤ _))

instance (c : CiaContainer) (image : List UInt8) : Decidable (c.ChunksCut image) :=
  inferInstanceAs (Decidable (_ ≤ _))

instance (c : CiaContainer) : Decidable c.HasSmdh := inferInstanceAs (Decidable (_ ≥ _))

instance (c : CiaContainer) (image : List UInt8) : Decidable (c.MetaMissing image) :=
  inferInstanceAs (Decidable (_ ∧ (_ ∨ (_ ∧ _))))

instance (image : List UInt8) (offset n : Nat) : Decidable (AtStart image offset n) :=
  inferInstanceAs (Decidable (_ ∧ _))

instance (c : CiaContainer) (image : List UInt8) : Decidable (c.MetaAtStart image) :=
  inferInstanceAs (Decidable (_ → _ ∧ (_ → _)))

instance (c : CiaContainer) (image : List UInt8) : Decidable (c.Consistent image) := by
  unfold Consistent ConsistentWith
  infer_instance

/-! ## The steps of the loaders -/

theorem andThen_success (c : CiaContainer) (k : CiaContainer → Loaded) :
    andThen (some (.success, c)) k = k c := rfl

theorem andThen_of_status {status : ResultStatus} (h : status ≠ .success) (c : CiaContainer)
    (k : CiaContainer → Loaded) : andThen (some (status, c)) k = some (status, c) := by
  cases status with
  | success => exact absurd rfl h
  | error => rfl
  | errorInvalidFormat => rfl

theorem titleMetadataOffset_ticket (c : CiaContainer) (t : Ticket) :
    ({ c with ciaTicket := t } : CiaContainer).titleMetadataOffset = c.titleMetadataOffset := rfl

theorem bodyThere_ticket (c : CiaContainer) (t : Ticket) (image : List UInt8) :
    ({ c with ciaTicket := t } : CiaContainer).BodyThere image ↔ c.BodyThere image := Iff.rfl

theorem bodyCut_ticket (c : CiaContainer) (t : Ticket) (image : List UInt8) :
    ({ c with ciaTicket := t } : CiaContainer).BodyCut image ↔ c.BodyCut image := Iff.rfl

theorem chunksThere_ticket (c : CiaContainer) (t : Ticket) (image : List UInt8) :
    ({ c with ciaTicket := t } : CiaContainer).ChunksThere image ↔ c.ChunksThere image := Iff.rfl

theorem chunksCut_ticket (c : CiaContainer) (t : Ticket) (image : List UInt8) :
    ({ c with ciaTicket := t } : CiaContainer).ChunksCut image ↔ c.ChunksCut image := Iff.rfl

theorem loadHeader_start (c : CiaContainer) {image : List UInt8} (h : ciaHeaderSize ≤ image.length)
    (hlength : image.length < 2 ^ 63) : c.loadHeader image 0 = some (.success, c.headed image) := by
  unfold loadHeader
  rw [sizeBehind_eq (Nat.zero_le _) (by omega), if_neg (by omega), checkedSlice_eq (by omega),
    Option.map_some]
  rfl

theorem alignUp_le (v : Nat) : alignUp v 0x40 ≤ v + 0x40 := by
  unfold alignUp
  split <;> omega

theorem headerNumber_lt (header : List UInt8) (off n : Nat) : headerNumber header off n < 256 ^ n := by
  refine Nat.lt_of_lt_of_le (leValue_lt _) (Nat.pow_le_pow_right (by decide) ?_)
  exact List.length_take_le _ _

theorem ticketOffset_lt (c : CiaContainer) : c.ticketOffset < 2 ^ 34 := by
  have hcert : c.certSize < 256 ^ 4 := headerNumber_lt _ _ _
  have halign := alignUp_le (c.certificateOffset + c.certSize)
  have hoffset : c.certificateOffset < 2 ^ 32 := Nat.mod_lt _ (by decide)
  unfold ticketOffset
  omega

theorem titleMetadataOffset_lt (c : CiaContainer) : c.titleMetadataOffset < 2 ^ 35 := by
  have htik : c.tikSize < 256 ^ 4 := headerNumber_lt _ _ _
  have halign := alignUp_le (c.ticketOffset + c.tikSize)
  have hoffset := c.ticketOffset_lt
  unfold titleMetadataOffset
  omega

variable {image : List UInt8}

/-- What the span gives of a ticket that begins in the image. -/
theorem loadTicket_inside (c : CiaContainer) (hlength : image.length < 2 ^ 63)
    (h : c.ticketOffset ≤ image.length) :
    (c.TicketThere image → c.loadTicket image c.ticketOffset =
        some (.success, { c with ciaTicket := c.ciaTicket.parsed (image.drop c.ticketOffset) })) ∧
      (¬ c.TicketThere image → ∃ c', c.loadTicket image c.ticketOffset = some (.error, c')) := by
  have hdrop : (image.drop c.ticketOffset).length < 2 ^ 64 := by
    rw [List.length_drop]
    omega
  obtain ⟨hthere, hbroken⟩ := c.ciaTicket.load_start hdrop
  unfold loadTicket
  rw [c.ciaTicket.load_drop h (by omega)]
  constructor
  · intro h
    rw [hthere h, Option.map_some]
  · intro h
    obtain ⟨t, ht⟩ := hbroken h
    exact ⟨{ c with ciaTicket := t }, by rw [ht, Option.map_some]⟩

/-- What the span gives of metadata that begins in the image. -/
theorem loadTitleMetadata_inside (c : CiaContainer) (hlength : image.length < 2 ^ 63)
    (h : c.titleMetadataOffset ≤ image.length) :
    (c.BodyThere image → c.ChunksThere image → c.loadTitleMetadata image c.titleMetadataOffset =
        some (.success, { c with ciaTmd := c.ciaTmd.parsed (image.drop c.titleMetadataOffset) })) ∧
      (c.BodyThere image → ¬ c.ChunksThere image →
        ∃ c', c.loadTitleMetadata image c.titleMetadataOffset = some (.errorInvalidFormat, c')) ∧
      (¬ c.BodyThere image →
        ∃ c', c.loadTitleMetadata image c.titleMetadataOffset = some (.error, c')) := by
  have hdrop : (image.drop c.titleMetadataOffset).length < 2 ^ 64 := by
    rw [List.length_drop]
    omega
  obtain ⟨hthere, hchunks, hbroken⟩ := c.ciaTmd.load_start hdrop
  unfold loadTitleMetadata
  rw [c.ciaTmd.load_drop h (by omega)]
  refine ⟨?_, ?_, ?_⟩
  · intro hb hc
    rw [hthere hb hc, Option.map_some]
  · intro hb hc
    obtain ⟨t, ht⟩ := hchunks hb hc
    exact ⟨{ c with ciaTmd := t }, by rw [ht, Option.map_some]⟩
  · intro hb
    obtain ⟨t, ht⟩ := hbroken hb
    exact ⟨{ c with ciaTmd := t }, by rw [ht, Option.map_some]⟩

/-- A reader of an image: an offset of a file is read as it is, and nothing is longer than the file. -/
structure Reads {σ : Type} (readAt : σ → Nat → Nat → σ × List UInt8) (image : List UInt8) : Prop where
  inside : ∀ s off n, off < 2 ^ 63 → (readAt s off n).2 = slice image off n
  short : ∀ s off n, (readAt s off n).2.length ≤ image.length

theorem length_slice_le (image : List UInt8) (off n : Nat) : (slice image off n).length ≤ image.length - off := by
  rw [slice, List.length_take, List.length_drop]
  exact Nat.min_le_right _ _

/-- A block that is there as a whole. -/
theorem length_slice_iff {off n : Nat} (hn : n ≠ 0) :
    (slice image off n).length = n ↔ off + n ≤ image.length := by
  constructor
  · intro h
    have hle := length_slice_le image off n
    omega
  · exact fun h => length_slice h

variable {σ : Type} {readAt : σ → Nat → Nat → σ × List UInt8}

/-- What a file gives of its ticket. -/
theorem readSection_ticket (hreads : Reads readAt image) (s : σ) (c : CiaContainer)
    (hlength : image.length < 2 ^ 63) (k : σ → CiaContainer → Loaded) :
    (c.TicketCut image →
      readSection readAt s c c.ticketOffset c.tikSize
          (fun s ticket => andThen (c.loadTicket ticket 0) (k s)) =
        k (readAt s c.ticketOffset c.tikSize).1
          { c with ciaTicket := c.ciaTicket.parsed (image.drop c.ticketOffset) }) ∧
      (¬ c.TicketCut image → ∃ c',
        readSection readAt s c c.ticketOffset c.tikSize
          (fun s ticket => andThen (c.loadTicket ticket 0) (k s)) = some (.error, c')) := by
  have hoffset := c.ticketOffset_lt
  have hread := hreads.inside s c.ticketOffset c.tikSize (by omega)
  have hdropLength : (image.drop c.ticketOffset).length = image.length - c.ticketOffset :=
    List.length_drop
  unfold readSection
  rw [hread]
  by_cases hcut : (slice image c.ticketOffset c.tikSize).length = c.tikSize
  · rw [if_neg (not_not.mpr hcut)]
    have hle : c.tikSize ≤ (image.drop c.ticketOffset).length := by
      have := length_slice_le image c.ticketOffset c.tikSize
      omega
    obtain ⟨htake, hparsed⟩ := c.ciaTicket.parsed_take hle
    have htakeLength : ((image.drop c.ticketOffset).take c.tikSize).length = c.tikSize :=
      List.length_take_of_le hle
    obtain ⟨hthere, hbroken⟩ := c.ciaTicket.load_start
      (show ((image.drop c.ticketOffset).take c.tikSize).length < 2 ^ 64 by omega)
    unfold loadTicket slice
    beta_reduce
    constructor
    · rintro ⟨h, hend, -⟩
      rw [hthere (htake.mpr ⟨h, hend⟩), Option.map_some, hparsed hend]
      rfl
    · intro hnot
      obtain ⟨t, ht⟩ := hbroken fun h => hnot ⟨(htake.mp h).1, (htake.mp h).2, by
        have hend := four_le_ticketEnd (image.drop c.ticketOffset)
        have := (htake.mp h).2
        omega⟩
      exact ⟨{ c with ciaTicket := t }, by rw [ht, Option.map_some]; rfl⟩
  · rw [if_pos hcut]
    constructor
    · rintro ⟨-, -, hin⟩
      exact absurd (length_slice hin) hcut
    · exact fun _ => ⟨c, rfl⟩

/-- What a file gives of the metadata of its title. -/
theorem readSection_tmd (hreads : Reads readAt image) (s : σ) (c : CiaContainer)
    (hlength : image.length < 2 ^ 63) (k : σ → CiaContainer → Loaded) :
    (c.BodyCut image → c.ChunksCut image →
      readSection readAt s c c.titleMetadataOffset c.tmdSize
          (fun s tmd => andThen (c.loadTitleMetadata tmd 0) (k s)) =
        k (readAt s c.titleMetadataOffset c.tmdSize).1
          { c with ciaTmd := c.ciaTmd.parsed (image.drop c.titleMetadataOffset) }) ∧
      (c.BodyCut image → ¬ c.ChunksCut image → ∃ c',
        readSection readAt s c c.titleMetadataOffset c.tmdSize
          (fun s tmd => andThen (c.loadTitleMetadata tmd 0) (k s)) = some (.errorInvalidFormat, c')) ∧
      (¬ c.BodyCut image → ∃ c',
        readSection readAt s c c.titleMetadataOffset c.tmdSize
          (fun s tmd => andThen (c.loadTitleMetadata tmd 0) (k s)) = some (.error, c')) := by
  have hoffset := c.titleMetadataOffset_lt
  have hread := hreads.inside s c.titleMetadataOffset c.tmdSize (by omega)
  have hdropLength : (image.drop c.titleMetadataOffset).length =
    image.length - c.titleMetadataOffset := List.length_drop
  unfold readSection
  rw [hread]
  by_cases hcut : (slice image c.titleMetadataOffset c.tmdSize).length = c.tmdSize
  · rw [if_neg (not_not.mpr hcut)]
    have hle : c.tmdSize ≤ (image.drop c.titleMetadataOffset).length := by
      have := length_slice_le image c.titleMetadataOffset c.tmdSize
      omega
    have htakeLength : ((image.drop c.titleMetadataOffset).take c.tmdSize).length = c.tmdSize :=
      List.length_take_of_le hle
    obtain ⟨htake, hchunksTake, hparsed⟩ := c.ciaTmd.parsed_take hle
    obtain ⟨hthere, hchunks, hbroken⟩ := c.ciaTmd.load_start
      (show ((image.drop c.titleMetadataOffset).take c.tmdSize).length < 2 ^ 64 by omega)
    unfold loadTitleMetadata slice
    beta_reduce
    refine ⟨?_, ?_, ?_⟩
    · rintro ⟨h, hend, -⟩ hc
      rw [hthere (htake.mpr ⟨h, hend⟩) (by rw [hchunksTake hend, htakeLength]; exact hc),
        Option.map_some, hparsed hc]
      rfl
    · rintro ⟨h, hend, -⟩ hc
      obtain ⟨t, ht⟩ := hchunks (htake.mpr ⟨h, hend⟩) (by rw [hchunksTake hend, htakeLength]; exact hc)
      exact ⟨{ c with ciaTmd := t }, by rw [ht, Option.map_some]; rfl⟩
    · intro hnot
      obtain ⟨t, ht⟩ := hbroken fun h => hnot ⟨(htake.mp h).1, (htake.mp h).2, by
        have hend := four_le_bodyEnd (image.drop c.titleMetadataOffset)
        have := (htake.mp h).2
        omega⟩
      exact ⟨{ c with ciaTmd := t }, by rw [ht, Option.map_some]; rfl⟩
  · rw [if_pos hcut]
    refine ⟨?_, ?_, fun _ => ⟨c, rfl⟩⟩
    · rintro ⟨-, -, hin⟩ _
      exact absurd (length_slice hin) hcut
    · rintro ⟨-, -, hin⟩ _
      exact absurd (length_slice hin) hcut

/-! ## How the loaders end -/

/-- What the span gives behind the metadata of the title. -/
def spanTail (c : CiaContainer) (image : List UInt8) : Loaded :=
  if c.metaSize ≠ 0 then
    andThen (c.loadMetadata image c.metadataOffset) fun c =>
      if c.metaSize ≥ ciaMetadataSize + smdhSize then c.loadSmdh image c.smdhOffset
      else some (.success, c)
  else some (.success, c)

/-- What a file gives behind the metadata of the title. -/
def fileTail (readAt : σ → Nat → Nat → σ × List UInt8) (s : σ) (c : CiaContainer) : Loaded :=
  if c.metaSize ≠ 0 then
    readSection readAt s c c.metadataOffset ciaMetadataSize fun s metadata =>
    andThen (c.loadMetadata metadata 0) fun c =>
      if c.metaSize ≥ ciaMetadataSize + smdhSize then
        readSection readAt s c c.smdhOffset smdhSize fun _ smdh => c.loadSmdh smdh 0
      else some (.success, c)
  else some (.success, c)

/-- The state of a reader behind the metadata of the title. -/
def afterTitle (readAt : σ → Nat → Nat → σ × List UInt8) (s : σ) (c : CiaContainer) : σ :=
  (readAt (readAt (readAt s 0 ciaHeaderSize).1 c.ticketOffset c.tikSize).1 c.titleMetadataOffset
    c.tmdSize).1

/-- Both loaders end, with one status, and after a success with the same container. -/
def Same (r f : Loaded) : Prop :=
  ∃ status c₁ c₂, r = some (status, c₁) ∧ f = some (status, c₂) ∧ (status = .success → c₁ = c₂)

theorem same_of_status {r f : Loaded} {status : ResultStatus} {c₁ c₂ : CiaContainer}
    (hr : r = some (status, c₁)) (hf : f = some (status, c₂)) (hstatus : status ≠ .success) : Same r f :=
  ⟨status, c₁, c₂, hr, hf, fun h => absurd h hstatus⟩

theorem not_same_of_status {r f : Loaded} {status status' : ResultStatus} {c₁ c₂ : CiaContainer}
    (hr : r = some (status, c₁)) (hf : f = some (status', c₂)) (hstatus : status ≠ status') :
    ¬ Same r f := by
  rintro ⟨s, a, b, ha, hb, -⟩
  rw [hr] at ha
  rw [hf] at hb
  cases ha
  cases hb
  exact hstatus rfl

section Whole

variable (c : CiaContainer) (hlength : image.length < 2 ^ 63) (hheader : ciaHeaderSize ≤ image.length)
include hlength hheader

theorem loadSpan_outside (h : image.length < (c.headed image).ticketOffset) :
    c.loadSpan image = none := by
  have hoffset := (c.headed image).ticketOffset_lt
  unfold loadSpan
  rw [c.loadHeader_start hheader hlength, andThen_success, loadTicket,
    Ticket.load_outside _ h (by omega), Option.map_none]
  rfl

theorem loadSpan_no_ticket (h : (c.headed image).ticketOffset ≤ image.length)
    (hticket : ¬ (c.headed image).TicketThere image) :
    ∃ c', c.loadSpan image = some (.error, c') := by
  obtain ⟨c', hc'⟩ := ((c.headed image).loadTicket_inside hlength h).2 hticket
  refine ⟨c', ?_⟩
  unfold loadSpan
  rw [c.loadHeader_start hheader hlength, andThen_success, hc', andThen_of_status (by decide)]

/-- Behind a whole ticket the span goes on with the metadata of the title. -/
theorem loadSpan_ticket (h : (c.headed image).ticketOffset ≤ image.length)
    (hticket : (c.headed image).TicketThere image) :
    c.loadSpan image =
      andThen (({ c.headed image with ciaTicket :=
          (c.headed image).ciaTicket.parsed (image.drop (c.headed image).ticketOffset) } :
            CiaContainer).loadTitleMetadata image (c.headed image).titleMetadataOffset)
        fun c => c.spanTail image := by
  unfold loadSpan
  rw [c.loadHeader_start hheader hlength, andThen_success,
    ((c.headed image).loadTicket_inside hlength h).1 hticket, andThen_success,
    titleMetadataOffset_ticket]
  rfl

/-- How the span ends behind a whole ticket. -/
theorem loadSpan_ends (h : (c.headed image).ticketOffset ≤ image.length)
    (hticket : (c.headed image).TicketThere image) :
    (image.length < (c.headed image).titleMetadataOffset → c.loadSpan image = none) ∧
      ((c.headed image).titleMetadataOffset ≤ image.length →
        (¬ (c.headed image).BodyThere image → ∃ c', c.loadSpan image = some (.error, c')) ∧
        ((c.headed image).BodyThere image → ¬ (c.headed image).ChunksThere image →
          ∃ c', c.loadSpan image = some (.errorInvalidFormat, c')) ∧
        ((c.headed image).BodyThere image → (c.headed image).ChunksThere image →
          c.loadSpan image = ((c.headed image).titled image).spanTail image)) := by
  rw [c.loadSpan_ticket hlength hheader h hticket]
  have htitled : ∀ t, t = (c.headed image).ciaTicket.parsed (image.drop (c.headed image).ticketOffset) →
      (c.headed image).titled image = { c.headed image with
        ciaTicket := t
        ciaTmd := (c.headed image).ciaTmd.parsed (image.drop (c.headed image).titleMetadataOffset) } := by
    rintro t rfl
    rfl
  obtain ⟨t, ht⟩ : ∃ t, t =
    (c.headed image).ciaTicket.parsed (image.drop (c.headed image).ticketOffset) := ⟨_, rfl⟩
  rw [← ht, htitled t ht]
  constructor
  · intro hout
    have hoffset := (c.headed image).titleMetadataOffset_lt
    rw [loadTitleMetadata, TitleMetadata.load_outside _ hout (by omega), Option.map_none]
    rfl
  · intro hin
    have hinside := ({ c.headed image with ciaTicket := t } : CiaContainer).loadTitleMetadata_inside
      hlength hin
    rw [titleMetadataOffset_ticket, bodyThere_ticket, chunksThere_ticket] at hinside
    obtain ⟨hboth, hnoChunks, hnoBody⟩ := hinside
    refine ⟨fun hb => ?_, fun hb hc => ?_, fun hb hc => ?_⟩
    · obtain ⟨c', hc'⟩ := hnoBody hb
      exact ⟨c', by rw [hc', andThen_of_status (by decide)]⟩
    · obtain ⟨c', hc'⟩ := hnoChunks hb hc
      exact ⟨c', by rw [hc', andThen_of_status (by decide)]⟩
    · rw [hboth hb hc, andThen_success]

/-- How a file ends, by what its sections hold. -/
theorem loadFile_ends (hreads : Reads readAt image) (s : σ) :
    (¬ ((c.headed image).TicketCut image ∧ (c.headed image).BodyCut image) →
        ∃ c', loadFile readAt s c = some (.error, c')) ∧
      ((c.headed image).TicketCut image → (c.headed image).BodyCut image →
        ¬ (c.headed image).ChunksCut image →
        ∃ c', loadFile readAt s c = some (.errorInvalidFormat, c')) ∧
      ((c.headed image).TicketCut image → (c.headed image).BodyCut image →
        (c.headed image).ChunksCut image →
        loadFile readAt s c = fileTail readAt (afterTitle readAt s (c.headed image))
          ((c.headed image).titled image)) := by
  have hread : (readAt s 0 ciaHeaderSize).2 = slice image 0 ciaHeaderSize :=
    hreads.inside s 0 ciaHeaderSize (by decide)
  have hcut : (slice image 0 ciaHeaderSize).length = ciaHeaderSize := length_slice (by omega)
  have hheaded : c.headed (slice image 0 ciaHeaderSize) = c.headed image := by
    unfold headed
    have hagain : slice (slice image 0 ciaHeaderSize) 0 ciaHeaderSize = slice image 0 ciaHeaderSize :=
      slice_slice (by decide)
    rw [hagain]
  have hstart : loadFile readAt s c =
      readSection readAt (readAt s 0 ciaHeaderSize).1 (c.headed image) (c.headed image).ticketOffset
        (c.headed image).tikSize (fun s ticket => andThen ((c.headed image).loadTicket ticket 0)
          fun c => readSection readAt s c c.titleMetadataOffset c.tmdSize
            (fun s tmd => andThen (c.loadTitleMetadata tmd 0) (fileTail readAt s))) := by
    unfold loadFile
    rw [readSection, hread, if_neg (not_not.mpr hcut),
      loadHeader_start c (Nat.le_of_eq hcut.symm) (by omega), andThen_success, hheaded]
    rfl
  rw [hstart]
  obtain ⟨hticket, hnoTicket⟩ := readSection_ticket hreads (readAt s 0 ciaHeaderSize).1
    (c.headed image) hlength (fun s c => readSection readAt s c c.titleMetadataOffset c.tmdSize
      (fun s tmd => andThen (c.loadTitleMetadata tmd 0) (fileTail readAt s)))
  by_cases hcutTicket : (c.headed image).TicketCut image
  · rw [hticket hcutTicket]
    unfold titled
    obtain ⟨t, ht⟩ : ∃ t, t =
      (c.headed image).ciaTicket.parsed (image.drop (c.headed image).ticketOffset) := ⟨_, rfl⟩
    rw [← ht]
    have htmd := readSection_tmd hreads
      (readAt (readAt s 0 ciaHeaderSize).1 (c.headed image).ticketOffset (c.headed image).tikSize).1
      ({ c.headed image with ciaTicket := t } : CiaContainer) hlength (fileTail readAt)
    rw [bodyCut_ticket, chunksCut_ticket] at htmd
    obtain ⟨hchunks, hnoChunks, hnoBody⟩ := htmd
    exact ⟨fun hnot => hnoBody fun hbody => hnot ⟨hcutTicket, hbody⟩,
      fun _ hbody hnot => hnoChunks hbody hnot, fun _ hbody hcut => hchunks hbody hcut⟩
  · exact ⟨fun _ => hnoTicket hcutTicket, fun h => absurd h hcutTicket, fun h => absurd h hcutTicket⟩

end Whole

/-! ## The rest of an image -/

/-- A section that the span takes to end too early is not there for a file. -/
theorem readSection_missing (hreads : Reads readAt image) (hlength : image.length < 2 ^ 63) (s : σ)
    (c : CiaContainer) {off n : Nat} (hn : n < 2 ^ 32) (hoff : off < 2 ^ 64) (h : sizeBehind image off < n)
    (k : σ → List UInt8 → Loaded) : readSection readAt s c off n k = some (.error, c) := by
  unfold readSection
  refine if_pos fun hlengthRead => ?_
  unfold sizeBehind at h
  by_cases hpositive : off < 2 ^ 63
  · rw [hreads.inside s off n hpositive] at hlengthRead
    have hle := length_slice_le image off n
    omega
  · have hle := hreads.short s off n
    omega

theorem readSection_there (hreads : Reads readAt image) (hlength : image.length < 2 ^ 63) (s : σ)
    (c : CiaContainer) {off n : Nat} (hn : 0 < n) (h : off + n ≤ image.length) (k : σ → List UInt8 → Loaded) :
    readSection readAt s c off n k = k (readAt s off n).1 (slice image off n) := by
  have hread := hreads.inside s off n (by omega)
  unfold readSection
  rw [hread, if_neg (not_not.mpr (length_slice h))]

theorem loadMetadata_whole (c : CiaContainer) {metadata : List UInt8}
    (h : metadata.length = ciaMetadataSize) :
    c.loadMetadata metadata 0 = some (.success, { c with ciaMetadata := metadata }) := by
  have hwhole : slice metadata 0 ciaMetadataSize = metadata := by
    unfold slice
    rw [List.drop_zero, ← h, List.take_length]
  have hshort : metadata.length < 2 ^ 64 := by
    rw [h]
    decide
  unfold loadMetadata
  rw [sizeBehind_eq (Nat.zero_le _) hshort, h, if_neg (by decide), checkedSlice_eq (by omega), hwhole,
    Option.map_some]

theorem loadSmdh_whole (c : CiaContainer) {smdh : List UInt8} (h : smdh.length = smdhSize) :
    c.loadSmdh smdh 0 = some (.success, { c with ciaSmdh := some smdh }) := by
  have hwhole : slice smdh 0 smdhSize = smdh := by
    unfold slice
    rw [List.drop_zero, ← h, List.take_length]
  have hshort : smdh.length < 2 ^ 64 := by
    rw [h]
    decide
  unfold loadSmdh
  rw [sizeBehind_eq (Nat.zero_le _) hshort, h, if_neg (by decide), checkedSlice_eq (by omega), hwhole,
    Option.map_some]

/-- When the metadata of the CIA or its SMDH is missing, the span says so. -/
theorem spanTail_missing (t : CiaContainer) (h : t.MetaMissing image)
    (hwhole : ciaMetadataSize ≤ image.length) : ∃ c', t.spanTail image = some (.error, c') := by
  obtain ⟨hsize, hmissing⟩ := h
  unfold spanTail
  rw [if_pos hsize, loadMetadata]
  by_cases hshort : sizeBehind image t.metadataOffset < ciaMetadataSize
  · rw [if_pos hshort]
    exact ⟨t, andThen_of_status (by decide) ..⟩
  · -- the metadata is taken to be there, but its SMDH is not
    obtain ⟨hsmdh, hsmdhShort⟩ := hmissing.resolve_left hshort
    rw [if_neg hshort, checkedSlice_eq (by omega), Option.map_some, andThen_success]
    exact ⟨{ t with ciaMetadata := slice image 0 ciaMetadataSize },
      (if_pos hsmdh).trans (if_pos hsmdhShort)⟩

/-- When the metadata of the CIA or its SMDH is missing, a file says so. -/
theorem fileTail_missing (hreads : Reads readAt image) (hlength : image.length < 2 ^ 63) (s : σ)
    (t : CiaContainer) (h : t.MetaMissing image) :
    ∃ c', fileTail readAt s t = some (.error, c') := by
  obtain ⟨hsize, hmissing⟩ := h
  have hoffset : t.metadataOffset < 2 ^ 64 := Nat.mod_lt _ (by decide)
  have hsmdhOffset : t.smdhOffset < 2 ^ 64 := Nat.mod_lt _ (by decide)
  unfold fileTail
  rw [if_pos hsize]
  by_cases hshort : sizeBehind image t.metadataOffset < ciaMetadataSize
  · exact ⟨t, readSection_missing hreads hlength s t (by decide) hoffset hshort _⟩
  · obtain ⟨hsmdh, hsmdhShort⟩ := hmissing.resolve_left hshort
    by_cases hread : (readAt s t.metadataOffset ciaMetadataSize).2.length ≠ ciaMetadataSize
    · exact ⟨t, if_pos hread⟩
    · have hsection : readSection readAt s t t.metadataOffset ciaMetadataSize = fun k =>
          k (readAt s t.metadataOffset ciaMetadataSize).1
            (readAt s t.metadataOffset ciaMetadataSize).2 := funext fun k => if_neg hread
      rw [hsection]
      beta_reduce
      rw [loadMetadata_whole t (not_not.mp hread), andThen_success]
      exact ⟨_, (if_pos hsmdh).trans
        (readSection_missing hreads hlength _ _ (by decide) hsmdhOffset hsmdhShort _)⟩

/-- When what is behind repeats the start of the image, both loaders read the same. -/
theorem tails_of_atStart (hreads : Reads readAt image) (hlength : image.length < 2 ^ 63) (s : σ)
    (t : CiaContainer) (hpresent : ¬ t.MetaMissing image) (h : t.MetaAtStart image) :
    Same (t.spanTail image) (fileTail readAt s t) := by
  unfold spanTail fileTail
  by_cases hsize : t.metaSize ≠ 0
  · obtain ⟨⟨hin, hsame⟩, hsmdhStart⟩ := h hsize
    have hshort : ¬ sizeBehind image t.metadataOffset < ciaMetadataSize := fun hs =>
      hpresent ⟨hsize, Or.inl hs⟩
    have hlengthMetadata := length_slice hin
    rw [if_pos hsize, if_pos hsize, readSection_there hreads hlength s t (by decide) hin, loadMetadata, if_neg hshort,
      checkedSlice_eq (by omega), Option.map_some, andThen_success,
      loadMetadata_whole t hlengthMetadata, andThen_success, hsame]
    by_cases hsmdh : t.HasSmdh
    · obtain ⟨hinSmdh, hsameSmdh⟩ := hsmdhStart hsmdh
      have hshortSmdh : ¬ sizeBehind image t.smdhOffset < smdhSize := fun hs =>
        hpresent ⟨hsize, Or.inr ⟨hsmdh, hs⟩⟩
      refine ⟨.success, { t with
        ciaMetadata := slice image 0 ciaMetadataSize, ciaSmdh := some (slice image 0 smdhSize) }, _,
        (if_pos hsmdh).trans ?_, (if_pos hsmdh).trans ((readSection_there hreads hlength _ _ (by decide) hinSmdh _).trans ?_),
        fun _ => rfl⟩
      · refine (if_neg hshortSmdh).trans ?_
        rw [checkedSlice_eq (by omega), Option.map_some]
      · rw [loadSmdh_whole _ (length_slice hinSmdh), hsameSmdh]
    · exact ⟨.success, _, _, if_neg hsmdh, if_neg hsmdh, fun _ => rfl⟩
  · rw [if_neg hsize, if_neg hsize]
    exact ⟨.success, t, t, rfl, rfl, fun _ => rfl⟩

/-- A reader of an ideal file: what is behind its end is not read. -/
theorem reads_backend (image : List UInt8) : Reads (backendRead image) image where
  inside := fun _ _ _ _ => rfl
  short := fun _ off n => Nat.le_trans (length_slice_le image off n) (Nat.sub_le _ _)

theorem reads_ioFile (image : List UInt8) : Reads (ioRead image) image where
  inside := by
    intro s off n hoff
    unfold ioRead
    rw [if_pos hoff]
  short := fun s off n => by
    unfold ioRead
    exact Nat.le_trans (length_slice_le image _ n) (Nat.sub_le _ _)

/-- A span with all of its metadata ends well, unless its SMDH is copied from outside. -/
theorem spanTail_present (t : CiaContainer) (hpresent : ¬ t.MetaMissing image) :
    t.spanTail image = none ∨ ∃ c', t.spanTail image = some (.success, c') ∧
      (t.metaSize ≠ 0 → c'.ciaMetadata = slice image 0 ciaMetadataSize ∧
        (t.HasSmdh → c'.ciaSmdh = some (slice image 0 smdhSize))) := by
  unfold spanTail
  by_cases hsize : t.metaSize ≠ 0
  · have hshort : ¬ sizeBehind image t.metadataOffset < ciaMetadataSize := fun hs =>
      hpresent ⟨hsize, Or.inl hs⟩
    rw [if_pos hsize, loadMetadata, if_neg hshort]
    by_cases hwhole : 0 + ciaMetadataSize ≤ image.length
    · rw [checkedSlice_eq hwhole, Option.map_some, andThen_success]
      by_cases hsmdh : t.HasSmdh
      · have hshortSmdh : ¬ sizeBehind image t.smdhOffset < smdhSize := fun hs =>
          hpresent ⟨hsize, Or.inr ⟨hsmdh, hs⟩⟩
        have hload : ∀ c : CiaContainer, c.smdhOffset = t.smdhOffset →
            c.loadSmdh image c.smdhOffset = (checkedSlice image 0 smdhSize).map fun smdh =>
              (.success, { c with ciaSmdh := some smdh }) := fun c hc => by
          rw [hc]
          exact if_neg hshortSmdh
        by_cases hwholeSmdh : 0 + smdhSize ≤ image.length
        · refine Or.inr ⟨{ t with
            ciaMetadata := slice image 0 ciaMetadataSize
            ciaSmdh := some (slice image 0 smdhSize) }, (if_pos hsmdh).trans ?_,
            fun _ => ⟨rfl, fun _ => rfl⟩⟩
          rw [hload { t with ciaMetadata := slice image 0 ciaMetadataSize } rfl,
            checkedSlice_eq hwholeSmdh, Option.map_some]
        · refine Or.inl ((if_pos hsmdh).trans ?_)
          rw [hload { t with ciaMetadata := slice image 0 ciaMetadataSize } rfl, checkedSlice,
            if_neg hwholeSmdh, Option.map_none]
      · exact Or.inr ⟨{ t with ciaMetadata := slice image 0 ciaMetadataSize }, if_neg hsmdh,
          fun _ => ⟨rfl, fun h => absurd h hsmdh⟩⟩
    · left
      rw [checkedSlice, if_neg hwhole, Option.map_none]
      rfl
  · rw [if_neg hsize]
    exact Or.inr ⟨t, rfl, fun h => absurd h hsize⟩

/-- A section that an ideal file gives is there. -/
theorem readSection_success {c c' : CiaContainer} {off n : Nat} (hn : n ≠ 0)
    {k : Unit → List UInt8 → Loaded}
    (h : readSection (backendRead image) () c off n k = some (.success, c')) :
    off + n ≤ image.length ∧ k () (slice image off n) = some (.success, c') := by
  unfold readSection at h
  split at h
  · cases h
  · next hread => exact ⟨(length_slice_iff hn).mp (not_not.mp hread), h⟩

/-- What an ideal file gives behind the metadata of the title. -/
theorem fileTail_success {t c' : CiaContainer} (hsize : t.metaSize ≠ 0)
    (h : fileTail (backendRead image) () t = some (.success, c')) :
    t.metadataOffset + ciaMetadataSize ≤ image.length ∧
      c'.ciaMetadata = slice image t.metadataOffset ciaMetadataSize ∧
      (t.HasSmdh → t.smdhOffset + smdhSize ≤ image.length ∧
        c'.ciaSmdh = some (slice image t.smdhOffset smdhSize)) := by
  unfold fileTail at h
  rw [if_pos hsize] at h
  obtain ⟨hin, h⟩ := readSection_success (by decide) h
  rw [loadMetadata_whole t (length_slice hin), andThen_success] at h
  by_cases hsmdh : t.HasSmdh
  · obtain ⟨hinSmdh, h⟩ := readSection_success (by decide) ((if_pos hsmdh).symm.trans h)
    have hloaded := loadSmdh_whole { t with ciaMetadata := slice image t.metadataOffset ciaMetadataSize }
      (length_slice hinSmdh)
    cases hloaded.symm.trans h
    exact ⟨hin, rfl, fun _ => ⟨hinSmdh, rfl⟩⟩
  · cases (if_neg hsmdh).symm.trans h
    exact ⟨hin, rfl, fun h => absurd h hsmdh⟩

/-- A file with ideal reads and the span read the same only when what is behind repeats the start. -/
theorem atStart_of_tails (t : CiaContainer) (hpresent : ¬ t.MetaMissing image)
    (h : Same (t.spanTail image) (fileTail (backendRead image) () t)) : t.MetaAtStart image := by
  intro hsize
  obtain ⟨status, c₁, c₂, hspan, hfile, hsame⟩ := h
  rcases t.spanTail_present hpresent with hnone | ⟨c', hc', hread⟩
  · rw [hnone] at hspan
    cases hspan
  · rw [hc'] at hspan
    cases hspan
    cases hsame rfl
    obtain ⟨hmetadata, hsmdhRead⟩ := hread hsize
    obtain ⟨hin, hmetadata', hsmdhFile⟩ := fileTail_success hsize hfile
    refine ⟨⟨hin, hmetadata'.symm.trans hmetadata⟩, fun hsmdh => ?_⟩
    obtain ⟨hinSmdh, hsmdh'⟩ := hsmdhFile hsmdh
    exact ⟨hinSmdh, Option.some.inj (hsmdh'.symm.trans (hsmdhRead hsmdh))⟩

theorem metaMissing_title (c : CiaContainer) (t : Ticket) (m : TitleMetadata) (image : List UInt8) :
    ({ c with ciaTicket := t, ciaTmd := m } : CiaContainer).MetaMissing image ↔ c.MetaMissing image :=
  Iff.rfl

theorem metaAtStart_title (c : CiaContainer) (t : Ticket) (m : TitleMetadata) (image : List UInt8) :
    ({ c with ciaTicket := t, ciaTmd := m } : CiaContainer).MetaAtStart image ↔ c.MetaAtStart image :=
  Iff.rfl

theorem chunksThere_of_cut {c : CiaContainer} (hbody : c.BodyCut image) (hcut : c.ChunksCut image) :
    c.ChunksThere image := by
  have hin := hbody.2.2
  unfold ChunksCut at hcut
  unfold ChunksThere
  rw [List.length_drop]
  omega

section Compared

variable (hreads : Reads readAt image) (s : σ) (c : CiaContainer) (hlength : image.length < 2 ^ 63)
  (hheader : ciaHeaderSize ≤ image.length)
include hreads hlength hheader

/-- The span finds a body without its chunks. -/
theorem same_iff_of_invalid {c₁ : CiaContainer} (hspan : c.loadSpan image = some (.errorInvalidFormat, c₁))
    (hchunks : ¬ (c.headed image).ChunksThere image) :
    Same (c.loadSpan image) (loadFile readAt s c) ↔
      (c.headed image).TicketCut image ∧ (c.headed image).BodyCut image := by
  obtain ⟨hfileError, hfileInvalid, -⟩ := c.loadFile_ends hlength hheader hreads s
  constructor
  · intro h
    by_contra hn
    obtain ⟨c₂, hc₂⟩ := hfileError hn
    exact not_same_of_status hspan hc₂ (by decide) h
  · rintro ⟨ht, hb⟩
    obtain ⟨c₂, hc₂⟩ := hfileInvalid ht hb fun hcut => hchunks (chunksThere_of_cut hb hcut)
    exact same_of_status hspan hc₂ (by decide)

/-- The span finds the metadata of the title, but not that of the CIA. -/
theorem same_iff_of_missing (hmissing : ((c.headed image).titled image).MetaMissing image) :
    Same (((c.headed image).titled image).spanTail image) (loadFile readAt s c) ↔
      ((c.headed image).TicketCut image → (c.headed image).BodyCut image →
        (c.headed image).ChunksCut image) := by
  obtain ⟨hfileError, hfileInvalid, hfileTail⟩ := c.loadFile_ends hlength hheader hreads s
  obtain ⟨c₁, hc₁⟩ := spanTail_missing _ hmissing (Nat.le_trans (by decide) hheader)
  constructor
  · intro h ht hb
    by_contra hcut
    obtain ⟨c₂, hc₂⟩ := hfileInvalid ht hb hcut
    exact not_same_of_status hc₁ hc₂ (by decide) h
  · intro hcut
    by_cases hsections : (c.headed image).TicketCut image ∧ (c.headed image).BodyCut image
    · obtain ⟨c₂, hc₂⟩ := fileTail_missing hreads hlength
        (afterTitle readAt s (c.headed image)) _ hmissing
      rw [hfileTail hsections.1 hsections.2 (hcut hsections.1 hsections.2)]
      exact same_of_status hc₁ hc₂ (by decide)
    · obtain ⟨c₂, hc₂⟩ := hfileError hsections
      exact same_of_status hc₁ hc₂ (by decide)

/-- The span finds everything, or reads outside. -/
theorem same_iff_of_present (hmissing : ¬ ((c.headed image).titled image).MetaMissing image) :
    Same (((c.headed image).titled image).spanTail image) (loadFile readAt s c) ↔
      (c.headed image).TicketCut image ∧ (c.headed image).BodyCut image ∧
        (c.headed image).ChunksCut image ∧
        Same (((c.headed image).titled image).spanTail image)
          (fileTail readAt (afterTitle readAt s (c.headed image)) ((c.headed image).titled image)) := by
  obtain ⟨hfileError, hfileInvalid, hfileTail⟩ := c.loadFile_ends hlength hheader hreads s
  have hsuccess : ∀ {status c₂}, status ≠ .success → loadFile readAt s c = some (status, c₂) →
      ¬ Same (((c.headed image).titled image).spanTail image) (loadFile readAt s c) := by
    intro status c₂ hstatus hc₂
    rcases spanTail_present _ hmissing with hnone | ⟨c₁, hc₁, -⟩
    · rintro ⟨_, _, _, hr, -⟩
      cases hnone.symm.trans hr
    · exact not_same_of_status hc₁ hc₂ hstatus.symm
  constructor
  · intro h
    have hsections : (c.headed image).TicketCut image ∧ (c.headed image).BodyCut image := by
      by_contra hn
      obtain ⟨c₂, hc₂⟩ := hfileError hn
      exact hsuccess (by decide) hc₂ h
    have hcut : (c.headed image).ChunksCut image := by
      by_contra hn
      obtain ⟨c₂, hc₂⟩ := hfileInvalid hsections.1 hsections.2 hn
      exact hsuccess (by decide) hc₂ h
    rw [hfileTail hsections.1 hsections.2 hcut] at h
    exact ⟨hsections.1, hsections.2, hcut, h⟩
  · rintro ⟨ht, hb, hcut, hrest⟩
    rw [hfileTail ht hb hcut]
    exact hrest

end Compared

theorem not_same_none (f : Loaded) : ¬ Same none f := by
  rintro ⟨_, _, _, hr, -⟩
  cases hr

/-- When the span and a file agree, by how they end behind the metadata of the title. -/
theorem same_iff (hreads : Reads readAt image) (s : σ) (c : CiaContainer)
    (hlength : image.length < 2 ^ 63) :
    Same (c.loadSpan image) (loadFile readAt s c) ↔
      (c.headed image).ConsistentWith image
        (Same (((c.headed image).titled image).spanTail image)
          (fileTail readAt (afterTitle readAt s (c.headed image)) ((c.headed image).titled image))) := by
  by_cases hshort : image.length < ciaHeaderSize
  · refine iff_of_true ?_ (Or.inl hshort)
    have hread : (readAt s 0 ciaHeaderSize).2.length ≠ ciaHeaderSize := by
      have hle := hreads.short s 0 ciaHeaderSize
      omega
    have hspan : c.loadSpan image = some (.error, c) := by
      unfold loadSpan loadHeader
      rw [sizeBehind_eq (Nat.zero_le _) (by omega), if_pos (by omega), andThen_of_status (by decide)]
    exact same_of_status hspan (if_pos hread) (by decide)
  · have hheader := Nat.le_of_not_lt hshort
    have hfileError := (c.loadFile_ends hlength hheader hreads s).1
    unfold ConsistentWith
    rw [or_iff_right hshort]
    by_cases hoffset : (c.headed image).ticketOffset ≤ image.length
    · rw [and_iff_right hoffset]
      by_cases hticket : (c.headed image).TicketThere image
      · obtain ⟨hspanNone, hspanInside⟩ := c.loadSpan_ends hlength hheader hoffset hticket
        rw [forall_prop_of_true hticket]
        by_cases htmd : (c.headed image).titleMetadataOffset ≤ image.length
        · obtain ⟨hspanError, hspanInvalid, hspanTail⟩ := hspanInside htmd
          rw [and_iff_right htmd]
          by_cases hbody : (c.headed image).BodyThere image
          · rw [forall_prop_of_true hbody]
            by_cases hchunks : (c.headed image).ChunksThere image
            · rw [hspanTail hbody hchunks]
              have hmissingIff : ((c.headed image).titled image).MetaMissing image ↔
                (c.headed image).MetaMissing image := metaMissing_title (c.headed image) _ _ image
              by_cases hmissing : (c.headed image).MetaMissing image
              · rw [same_iff_of_missing hreads s c hlength hheader (hmissingIff.mpr hmissing)]
                exact ⟨fun h => ⟨fun hn => absurd hchunks hn, fun _ _ => h,
                  fun _ hn => absurd hmissing hn⟩, fun h => h.2.1 hchunks hmissing⟩
              · rw [same_iff_of_present hreads s c hlength hheader fun h => hmissing (hmissingIff.mp h)]
                exact ⟨fun h => ⟨fun hn => absurd hchunks hn, fun _ hm => absurd hm hmissing,
                  fun _ _ => h⟩, fun h => h.2.2 hchunks hmissing⟩
            · obtain ⟨c₁, hc₁⟩ := hspanInvalid hbody hchunks
              rw [same_iff_of_invalid hreads s c hlength hheader hc₁ hchunks]
              exact ⟨fun h => ⟨fun _ => h, fun hc => absurd hc hchunks, fun hc => absurd hc hchunks⟩,
                fun h => h.1 hchunks⟩
          · obtain ⟨c₁, hc₁⟩ := hspanError hbody
            obtain ⟨c₂, hc₂⟩ := hfileError fun h => hbody h.2.1
            exact iff_of_true (same_of_status hc₁ hc₂ (by decide)) fun h => absurd h hbody
        · rw [hspanNone (Nat.lt_of_not_le htmd)]
          exact iff_of_false (not_same_none _) fun h => htmd h.1
      · obtain ⟨c₁, hc₁⟩ := c.loadSpan_no_ticket hlength hheader hoffset hticket
        obtain ⟨c₂, hc₂⟩ := hfileError fun h => hticket h.1.1
        exact iff_of_true (same_of_status hc₁ hc₂ (by decide)) fun h => absurd h hticket
    · rw [c.loadSpan_outside hlength hheader (Nat.lt_of_not_le hoffset)]
      exact iff_of_false (not_same_none _) fun h => hoffset h.1

theorem ConsistentWith.imp {c : CiaContainer} {rest rest' : Prop} (h : c.ConsistentWith image rest)
    (himp : ¬ c.MetaMissing image → rest → rest') : c.ConsistentWith image rest' := by
  rcases h with hshort | ⟨hoffset, hrest⟩
  · exact Or.inl hshort
  · refine Or.inr ⟨hoffset, fun hticket => ⟨(hrest hticket).1, fun hbody => ?_⟩⟩
    obtain ⟨hnoChunks, hmissing, hpresent⟩ := (hrest hticket).2 hbody
    refine ⟨hnoChunks, hmissing, fun hchunks hn => ?_⟩
    obtain ⟨ht, hb, hcut, hr⟩ := hpresent hchunks hn
    exact ⟨ht, hb, hcut, himp hn hr⟩

/-! ## The three loaders -/

/-- The three loaders agree on an image. -/
def LoadersAgree (c : CiaContainer) (image : List UInt8) : Prop :=
  Same (c.loadSpan image) (c.loadBackend image) ∧ Same (c.loadSpan image) (c.loadIOFile image)

/-- When the three loaders agree, and the span is read inside of the image only. -/
theorem loaders_agree_iff (c : CiaContainer) (image : List UInt8) (hlength : image.length < 2 ^ 63) :
    c.LoadersAgree image ↔ (c.headed image).Consistent image := by
  have hmissing := metaMissing_title (c.headed image)
    ((c.headed image).ciaTicket.parsed (image.drop (c.headed image).ticketOffset))
    ((c.headed image).ciaTmd.parsed (image.drop (c.headed image).titleMetadataOffset)) image
  have hatStart := metaAtStart_title (c.headed image)
    ((c.headed image).ciaTicket.parsed (image.drop (c.headed image).ticketOffset))
    ((c.headed image).ciaTmd.parsed (image.drop (c.headed image).titleMetadataOffset)) image
  unfold LoadersAgree loadBackend loadIOFile Consistent
  rw [same_iff (reads_backend image) () c hlength, same_iff (reads_ioFile image) 0 c hlength]
  constructor
  · rintro ⟨hbackend, -⟩
    exact hbackend.imp fun hn h => hatStart.mp (atStart_of_tails _ (fun hm => hn (hmissing.mp hm)) h)
  · intro h
    exact ⟨h.imp fun hn hr => tails_of_atStart (reads_backend image) hlength _ _
        (fun hm => hn (hmissing.mp hm)) (hatStart.mpr hr),
      h.imp fun hn hr => tails_of_atStart (reads_ioFile image) hlength _ _
        (fun hm => hn (hmissing.mp hm)) (hatStart.mpr hr)⟩

/-! ## Small images -/

/-- A container that nothing was loaded into. -/
def fresh : CiaContainer := ⟨false, [], [], none, Ticket.fresh, TitleMetadata.fresh⟩

/-- An image of a ticket and metadata without contents, with these sizes and these bytes behind. -/
def smallImage (certSize metaSize : Nat) (behind : List UInt8) : List UInt8 :=
  leBytes 4 ciaHeaderSize ++ leBytes 4 0 ++ leBytes 4 certSize ++ leBytes 4 0x250 ++ leBytes 4 0xA04 ++
    leBytes 4 metaSize ++ List.replicate 0x2028 0 ++ beBytes 4 0x10002 ++ List.replicate 0x27C 0 ++
    beBytes 4 0x10002 ++ List.replicate 0xA3C 0 ++ behind

theorem length_smallImage (certSize metaSize : Nat) (behind : List UInt8) :
    (smallImage certSize metaSize behind).length = 0x2D00 + behind.length := by
  simp only [smallImage, List.length_append, length_leBytes, length_beBytes, List.length_replicate,
    Nat.reduceAdd]

theorem loaders_agree_small : fresh.LoadersAgree (smallImage 0 0 []) :=
  (loaders_agree_iff fresh (smallImage 0 0 []) (by rw [length_smallImage]; decide)).mpr
    (by decide +kernel)

/-- The span copies the metadata of the CIA from the start of the image, and with a large enough section
of certificates it reads a ticket from outside. -/
theorem span_ignores_offset :
    ¬ fresh.LoadersAgree (smallImage 0 0x400 (List.replicate 0x400 1)) ∧
      fresh.loadSpan (smallImage 0xFFFFFFFF 0 []) = none := by
  constructor
  · rintro ⟨⟨status, c₁, c₂, hspan, hfile, hsame⟩, -⟩
    have hspanMetadata : (fresh.loadSpan (smallImage 0 0x400 (List.replicate 0x400 1))).map
        (fun r => (r.1, r.2.ciaMetadata.take 4)) = some (.success, leBytes 4 ciaHeaderSize) := by
      decide +kernel
    have hfileMetadata : (fresh.loadBackend (smallImage 0 0x400 (List.replicate 0x400 1))).map
        (fun r => (r.1, r.2.ciaMetadata.take 4)) = some (.success, List.replicate 4 1) := by
      decide +kernel
    rw [hspan] at hspanMetadata
    rw [hfile] at hfileMetadata
    cases hspanStatus : status with
    | success =>
        rw [hsame hspanStatus, Option.map_some, hspanStatus] at hspanMetadata
        rw [Option.map_some, hspanStatus] at hfileMetadata
        exact absurd (hspanMetadata.symm.trans hfileMetadata) (by decide)
    | error =>
        rw [hspanStatus] at hspanMetadata
        cases hspanMetadata
    | errorInvalidFormat =>
        rw [hspanStatus] at hspanMetadata
        cases hspanMetadata
  · decide +kernel

end CiaContainer

end AzaharPlus.FileSys
