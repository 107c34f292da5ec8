import AzaharPlus.Hw.Arithmetic128
import AzaharPlus.Lib.Bytes
import AzaharPlus.Lib.Streams

/-!
# Writing an installed content

`NCCHCryptoFile` receives the bytes of a content in any pieces and writes them to a file, decrypted
when the content is an encrypted NCCH.  The header is collected first; it names the keys, the
counters and the regions that are encrypted.  The regions of the ExeFS sections are known once the
ExeFS header has been decrypted.
-/

namespace AzaharPlus.Service.Ncch

open Bytes Lib Hw.Arithmetic128

/-! ## Headers -/

/-- `NCCH_Header`, by its bytes. -/
abbrev NCCHHeader := List UInt8

/-- `sizeof(NCCH_Header)`, `sizeof(ExHeader_Header)`, `sizeof(ExeFs_Header)` and the block size. -/
def ncchHeaderSize : Nat := 0x200
def exHeaderSize : Nat := 0x800
def exefsHeaderSize : Nat := 0x200
def kBlockSize : Nat := 0x200

/-- `Loader::MakeMagic('N', 'C', 'C', 'H')` -/
def ncchMagic : Nat := leValue [0x4E, 0x43, 0x43, 0x48]

namespace NCCHHeader

variable (header : NCCHHeader)

def magic : Nat := leValue (slice header 0x100 4)
def partitionId : List UInt8 := slice header 0x108 8
def version : Nat := leValue (slice header 0x112 2)
def programId : Nat := leValue (slice header 0x118 8)
def extendedHeaderSize : Nat := leValue (slice header 0x180 4)
def secondaryKeySlot : Nat := (byteAt header 0x18B).toNat
def fixedKey : Bool := (byteAt header 0x18F).toNat.testBit 0
def noCrypto : Bool := (byteAt header 0x18F).toNat.testBit 2
def seedCrypto : Bool := (byteAt header 0x18F).toNat.testBit 5
def exefsOffset : Nat := leValue (slice header 0x1A0 4)
def exefsSize : Nat := leValue (slice header 0x1A4 4)
def romfsOffset : Nat := leValue (slice header 0x1B0 4)
def romfsSize : Nat := leValue (slice header 0x1B4 4)

/-- The header with `no_crypto` assigned 1. -/
def withNoCrypto : NCCHHeader := header.set 0x18F (byteAt header 0x18F ||| 4)

end NCCHHeader

/-- A multiple of `size` from the value on. -/
def roundUp (value size : Nat) : Nat :=
  if value % size = 0 then value else value - value % size + size

/-- `Common::AlignUp` of a 32-bit value. -/
def alignUp (value size : Nat) : Nat := roundUp value size % 2 ^ 32

/-! ## Keys and counters -/

/-- What the file is given from outside: the key slots' normal key material, the seeds, the digest
and the keystream of the cipher in counter mode. -/
structure NcchEnv where
  keyX : Nat → Option AESKey
  generatorConstant : AESKey
  getSeed : Nat → Option AESKey
  sha256 : List UInt8 → List UInt8
  keystream : AESKey → AESKey → Nat → UInt8

/-- The keys and the counters of the sections. -/
structure SectionKeys where
  primaryKey : AESKey
  secondaryKey : AESKey
  exheaderCtr : AESKey
  exefsCtr : AESKey
  romfsCtr : AESKey

/-- The members as they are constructed. -/
def SectionKeys.zero : SectionKeys :=
  ⟨fun _ => 0, fun _ => 0, fun _ => 0, fun _ => 0, fun _ => 0⟩

namespace NcchEnv

variable (env : NcchEnv)

/-- `SetKeyY` and then the slot's normal key: `KeySlot::GenerateNormalKey`. -/
def normalKey (slot : Nat) (keyY : AESKey) : Option AESKey :=
  (env.keyX slot).map fun x =>
    lrot128 (add128 (fun i => lrot128 x 2 i ^^^ keyY i) env.generatorConstant) 87

/-- `key_y_primary` -/
def keyYPrimary (header : NCCHHeader) : AESKey := fun i => byteAt header i

/-- `key_y_secondary`; there is none when the seed is missing. -/
def keyYSecondary (header : NCCHHeader) : Option AESKey :=
  if header.seedCrypto then
    (env.getSeed header.programId).map fun seed i =>
      byteAt (env.sha256 (List.ofFn (keyYPrimary header) ++ List.ofFn seed)) i
  else some (keyYPrimary header)

/-- The slot that `secondary_key_slot` stands for: Secure1 to Secure4. -/
def secondarySlot (header : NCCHHeader) : Option Nat :=
  match header.secondaryKeySlot with
  | 0 => some 0x2C
  | 1 => some 0x25
  | 10 => some 0x18
  | 11 => some 0x1B
  | _ => none

/-- The primary and the secondary key; there are none when an error is noted on the way. -/
def findKeys (header : NCCHHeader) : Option (AESKey × AESKey) :=
  if header.fixedKey then some (fun _ => 0, fun _ => 0)
  else do
    let keyYSecondary ← env.keyYSecondary header
    let primaryKey ← env.normalKey 0x2C (keyYPrimary header)
    match secondarySlot header with
    | some slot => return (primaryKey, ← env.normalKey slot keyYSecondary)
    | none => return (primaryKey, SectionKeys.zero.secondaryKey)

end NcchEnv

/-- A product of the header's 32-bit numbers with the block size. -/
def blocks (n : Nat) : Nat := n * kBlockSize % 2 ^ 32

/-- The counter of the versions 0 and 2: the partition's name reversed and the section's number. -/
def numberedCtr (header : NCCHHeader) (number : UInt8) : AESKey := fun i =>
  if i.val = 8 then number else byteAt header.partitionId.reverse i

/-- The counter of version 1: the partition's name and the section's offset. -/
def offsetCtr (header : NCCHHeader) (offset : Nat) : AESKey := fun i =>
  if 12 ≤ i.val then UInt8.ofNat (offset / 256 ^ (15 - i.val)) else byteAt header.partitionId i

/-- The counters of the extended header, the ExeFS and the RomFS, by the version. -/
def findCtrs (header : NCCHHeader) : Option (AESKey × AESKey × AESKey) :=
  if header.version = 0 ∨ header.version = 2 then
    some (numberedCtr header 1, numberedCtr header 2, numberedCtr header 3)
  else if header.version = 1 then
    some (offsetCtr header 0x200, offsetCtr header (blocks header.exefsOffset),
      offsetCtr header (blocks header.romfsOffset))
  else none

/-- Everything an encrypted content needs. -/
def findSectionKeys (env : NcchEnv) (header : NCCHHeader) : Option SectionKeys := do
  let (primaryKey, secondaryKey) ← env.findKeys header
  let (exheaderCtr, exefsCtr, romfsCtr) ← findCtrs header
  return { primaryKey, secondaryKey, exheaderCtr, exefsCtr, romfsCtr }

/-! ## Regions -/

/-- `CryptoRegion::Type` -/
inductive RegionType where
  | exheader
  | exefsHdr
  | exefsPri
  | exefsSec
  | romfs
  deriving DecidableEq

/-- `CryptoRegion` -/
structure CryptoRegion where
  type : RegionType
  offset : Nat
  size : Nat
  seekFrom : Nat
  deriving DecidableEq

/-- The end of a region. -/
def CryptoRegion.stop (reg : CryptoRegion) : Nat := reg.offset + reg.size

/-- The regions that the header names, by what its products with the block size come to. -/
def headerRegionsBy (blocks : Nat → Nat) (header : NCCHHeader) : List CryptoRegion :=
  (if header.extendedHeaderSize ≠ 0 then
    [{ type := .exheader, offset := ncchHeaderSize, size := exHeaderSize
       seekFrom := ncchHeaderSize }] else []) ++
  (if header.exefsSize ≠ 0 then
    [{ type := .exefsHdr, offset := blocks header.exefsOffset, size := exefsHeaderSize
       seekFrom := blocks header.exefsOffset }] else []) ++
  (if header.romfsSize ≠ 0 then
    [{ type := .romfs, offset := blocks header.romfsOffset, size := blocks header.romfsSize
       seekFrom := blocks header.romfsOffset }] else [])

/-- The regions that the header names. -/
def headerRegions (header : NCCHHeader) : List CryptoRegion := headerRegionsBy blocks header

/-- The name of a section is that of the icon or the banner. -/
def isPrimary (name : List UInt8) : Bool :=
  name.take 4 = [0x69, 0x63, 0x6F, 0x6E] ∨ name.take 6 = [0x62, 0x61, 0x6E, 0x6E, 0x65, 0x72]

/-- The region of a section of the ExeFS at `start`, by its entry of the ExeFS header and by what
its size is aligned to. -/
def sectionRegionBy (alignUp : Nat → Nat) (start : Nat) (entry : List UInt8) :
    Option CryptoRegion :=
  if leValue (slice entry 12 4) ≠ 0 then
    some
      { type := if isPrimary (slice entry 0 8) then .exefsPri else .exefsSec
        offset := start + exefsHeaderSize + leValue (slice entry 8 4)
        size := alignUp (leValue (slice entry 12 4))
        seekFrom := start }
  else none

/-- The regions of the sections that the ExeFS header names. -/
def sectionRegionsBy (alignUp : Nat → Nat) (start : Nat) (exefsHeader : List UInt8) :
    List CryptoRegion :=
  (List.range 8).filterMap fun i => sectionRegionBy alignUp start (slice exefsHeader (16 * i) 16)

/-- The regions of the sections that the ExeFS header names. -/
def sectionRegions (start : Nat) (exefsHeader : List UInt8) : List CryptoRegion :=
  sectionRegionsBy (fun size => alignUp size 0x200) start exefsHeader

/-- The loop of `find_closest_region`, with the closest region behind the position so far. -/
def closestFrom (offset : Nat) (closest : Option CryptoRegion) :
    List CryptoRegion → Option CryptoRegion
  | [] => closest
  | reg :: regions =>
      if offset ≥ reg.offset ∧ offset < reg.offset + reg.size then some reg
      else if offset < reg.offset ∧ ∀ c ∈ closest, c.offset - offset > reg.offset - offset then
        closestFrom offset (some reg) regions
      else closestFrom offset closest regions

/-- `find_closest_region` -/
def findClosestRegion (regions : List CryptoRegion) (offset : Nat) : Option CryptoRegion :=
  closestFrom offset none regions

/-- The key and the counter of a region. -/
def SectionKeys.ofType (keys : SectionKeys) : RegionType → AESKey × AESKey
  | .exheader => (keys.primaryKey, keys.exheaderCtr)
  | .exefsHdr | .exefsPri => (keys.primaryKey, keys.exefsCtr)
  | .exefsSec => (keys.secondaryKey, keys.exefsCtr)
  | .romfs => (keys.secondaryKey, keys.romfsCtr)

/-- `CTR_Mode<AES>::Decryption`: a seek to an offset of the stream and the data behind it. -/
def NcchEnv.processData (env : NcchEnv) (key : AESKey × AESKey) (offset : Nat) (data : List UInt8) :
    List UInt8 :=
  data.mapIdx fun i b => b ^^^ env.keystream key.1 key.2 (offset + i)

/-- A region contains the position. -/
abbrev CryptoRegion.Covers (reg : CryptoRegion) (p : Nat) : Prop :=
  Streams.Covers CryptoRegion.offset CryptoRegion.stop reg p

theorem closestFrom_none {p : Nat} {regions : List CryptoRegion} :
    ∀ {closest : Option CryptoRegion}, closestFrom p closest regions = none →
      closest = none ∧ ∀ reg ∈ regions, reg.stop ≤ p := by
  induction regions with
  | nil => intro closest h; exact ⟨h, by simp⟩
  | cons reg regions ih =>
    intro closest h
    rw [closestFrom] at h
    split at h
    case isTrue hin => exact absurd h (by simp)
    case isFalse hout =>
      split at h
      case isTrue hbehind => exact absurd (ih h).1 (by simp)
      case isFalse hnot =>
        obtain ⟨rfl, hrest⟩ := ih h
        have hle : reg.offset ≤ p := Nat.le_of_not_lt fun hlt => hnot ⟨hlt, by simp⟩
        have hstop : reg.offset + reg.size ≤ p := Nat.le_of_not_lt fun hlt => hout ⟨hle, hlt⟩
        exact ⟨rfl, List.forall_mem_cons.mpr ⟨hstop, hrest⟩⟩

theorem closestFrom_some {p : Nat} {regions : List CryptoRegion} {found : CryptoRegion} :
    ∀ {closest : Option CryptoRegion}, (∀ c ∈ closest, p < c.offset) →
      closestFrom p closest regions = some found →
      (closest = some found ∨ found ∈ regions) ∧
        (found.Covers p ∨
          p < found.offset ∧ (∀ c ∈ closest, found.offset ≤ c.offset) ∧
            ∀ reg ∈ regions, reg.stop ≤ p ∨ found.offset ≤ reg.offset) := by
  induction regions with
  | nil =>
    intro closest hc h
    rw [closestFrom] at h
    subst h
    exact ⟨.inl rfl, .inr ⟨hc found rfl, by simp, by simp⟩⟩
  | cons reg regions ih =>
    intro closest hc h
    rw [closestFrom] at h
    split at h
    case isTrue hin =>
      obtain rfl := Option.some.inj h
      exact ⟨.inr List.mem_cons_self, .inl hin⟩
    case isFalse hout =>
      split at h
      case isTrue hbehind =>
        obtain ⟨hmem, hplace⟩ := ih (by simpa using hbehind.1) h
        refine ⟨.inr ?_, ?_⟩
        · rcases hmem with hmem | hmem
          · exact Option.some.inj hmem ▸ List.mem_cons_self
          · exact List.mem_cons_of_mem _ hmem
        · rcases hplace with hcovers | ⟨hlt, hle, hall⟩
          · exact .inl hcovers
          · have hreg : found.offset ≤ reg.offset := hle reg rfl
            refine .inr ⟨hlt, ?_, List.forall_mem_cons.mpr ⟨.inr hreg, hall⟩⟩
            intro c hmem
            have := hbehind.2 c hmem
            omega
      case isFalse hnot =>
        obtain ⟨hmem, hplace⟩ := ih hc h
        refine ⟨hmem.imp_right (List.mem_cons_of_mem _), ?_⟩
        rcases hplace with hcovers | ⟨hlt, hle, hall⟩
        · exact .inl hcovers
        · refine .inr ⟨hlt, hle, List.forall_mem_cons.mpr ⟨?_, hall⟩⟩
          by_cases hoff : p < reg.offset
          · -- the region is not nearer than the closest one, so neither than the one found
            right
            have hfar : ∃ c ∈ closest, ¬ c.offset - p > reg.offset - p := by
              by_contra hno
              exact hnot ⟨hoff, fun c hmem => by_contra fun hle => hno ⟨c, hmem, hle⟩⟩
            obtain ⟨c, hmemc, hfar⟩ := hfar
            have := hle c hmemc
            have := hc c hmemc
            omega
          · left
            exact Nat.le_of_not_lt fun hin => hout ⟨Nat.le_of_not_lt hoff, hin⟩

/-- No region found: all of them end up to the position. -/
theorem findClosestRegion_none {regions : List CryptoRegion} {p : Nat}
    (h : findClosestRegion regions p = none) : ∀ reg ∈ regions, reg.stop ≤ p :=
  (closestFrom_none h).2

/-- A region found contains the position, or it is the next one. -/
theorem findClosestRegion_some {regions : List CryptoRegion} {p : Nat} {found : CryptoRegion}
    (h : findClosestRegion regions p = some found) :
    found ∈ regions ∧
      (found.Covers p ∨
        p < found.offset ∧ ∀ reg ∈ regions, reg.stop ≤ p ∨ found.offset ≤ reg.offset) := by
  obtain ⟨hmem, hplace⟩ := closestFrom_some (by simp) h
  exact ⟨hmem.resolve_left (by simp), hplace.imp_right fun ⟨hlt, _, hall⟩ => ⟨hlt, hall⟩⟩

/-! ## The file -/

/-- `NCCHCryptoFile`; the headers are the bytes collected of them, so that `header_size` and
`exefs_header_written` are their lengths. -/
structure NCCHCryptoFile where
  file : List UInt8
  isError : Bool
  isNotNcch : Bool
  decryptionAuthorized : Bool
  written : Nat
  ncchHeader : NCCHHeader
  headerParsed : Bool
  isEncrypted : Bool
  keys : SectionKeys
  regions : List CryptoRegion
  exefsHeader : List UInt8
  exefsHeaderProcessed : Bool

namespace NCCHCryptoFile

/-- The file as its owner sets it up. -/
def fresh (authorized : Bool) : NCCHCryptoFile :=
  { file := [], isError := false, isNotNcch := false, decryptionAuthorized := authorized
    written := 0, ncchHeader := [], headerParsed := false, isEncrypted := false
    keys := SectionKeys.zero, regions := [], exefsHeader := [], exefsHeaderProcessed := false }

/-- Bytes go to the file and count as written. -/
def writeBytes (f : NCCHCryptoFile) (bytes : List UInt8) : NCCHCryptoFile :=
  { f with file := f.file ++ bytes, written := f.written + bytes.length }

/-- The header has been parsed and goes to the file, without crypto. -/
def writeHeader (f : NCCHCryptoFile) : NCCHCryptoFile :=
  { f with headerParsed := true }.writeBytes f.ncchHeader.withNoCrypto

/-- What `Write` does when the header is complete. -/
def parseHeader (env : NcchEnv) (f : NCCHCryptoFile) : NCCHCryptoFile :=
  if f.ncchHeader.magic ≠ ncchMagic then
    { f with isNotNcch := true, file := f.file ++ f.ncchHeader }
  else if f.ncchHeader.noCrypto then { f with isEncrypted := false }.writeHeader
  else if !f.decryptionAuthorized then { f with isError := true }
  else
    match findSectionKeys env f.ncchHeader with
    | none => { f with isEncrypted := true, headerParsed := true, isError := true }
    | some keys =>
        { f with
          isEncrypted := true
          keys := keys
          regions := f.regions ++ headerRegions f.ncchHeader }.writeHeader

/-- Decrypted bytes of the ExeFS header are collected, and a complete header gives the regions of
the sections. -/
def collectExefsHeader (f : NCCHCryptoFile) (reg : CryptoRegion) (temp : List UInt8) :
    NCCHCryptoFile :=
  let exefsHeader :=
    if f.exefsHeader.length ≠ exefsHeaderSize then f.exefsHeader ++ temp else f.exefsHeader
  if f.exefsHeaderProcessed = false ∧ exefsHeader.length = exefsHeaderSize then
    { f with
      exefsHeader := exefsHeader
      regions := f.regions ++ sectionRegions reg.offset exefsHeader
      exefsHeaderProcessed := true }
  else { f with exefsHeader := exefsHeader }

/-- Bytes of a region are decrypted on their way to the file. -/
def writeRegion (env : NcchEnv) (f : NCCHCryptoFile) (reg : CryptoRegion) (bytes : List UInt8) :
    NCCHCryptoFile :=
  let temp := env.processData (f.keys.ofType reg.type) (f.written - reg.seekFrom) bytes
  (if reg.type = .exefsHdr then f.collectExefsHeader reg temp else f).writeBytes temp

/-- The number of bytes that a turn of the loop takes. -/
def toWrite (f : NCCHCryptoFile) (length : Nat) : Nat :=
  match findClosestRegion f.regions f.written with
  | none => length
  | some reg =>
      if f.written < reg.offset then min length (reg.offset - f.written)
      else min length (reg.offset + reg.size - f.written)

/-- What a turn of the loop does with its bytes. -/
def turn (env : NcchEnv) (f : NCCHCryptoFile) (bytes : List UInt8) : NCCHCryptoFile :=
  match findClosestRegion f.regions f.written with
  | none => f.writeBytes bytes
  | some reg =>
      if f.written < reg.offset then f.writeBytes bytes
      else if f.isEncrypted then f.writeRegion env reg bytes
      else f.writeBytes bytes

/-- A turn takes a byte at least. -/
theorem toWrite_pos (f : NCCHCryptoFile) {length : Nat} (h : 0 < length) : 0 < f.toWrite length := by
  unfold toWrite
  cases hfound : findClosestRegion f.regions f.written with
  | none => exact h
  | some reg =>
    obtain ⟨-, ⟨hle, hlt⟩ | ⟨hlt, -⟩⟩ := findClosestRegion_some hfound
    · have hlt : f.written < reg.offset + reg.size := hlt
      simp only [if_neg (Nat.not_lt.mpr hle)]
      omega
    · simp only [if_pos hlt]
      omega

theorem toWrite_le (f : NCCHCryptoFile) (length : Nat) : f.toWrite length ≤ length := by
  unfold toWrite
  split
  · exact Nat.le_refl _
  · split <;> exact Nat.min_le_left _ _

/-- The loop over the bytes of a call. -/
def writeLoop (env : NcchEnv) (f : NCCHCryptoFile) (buffer : List UInt8) : NCCHCryptoFile :=
  if _h : buffer = [] then f
  else
    writeLoop env (f.turn env (buffer.take (f.toWrite buffer.length)))
      (buffer.drop (f.toWrite buffer.length))
  termination_by buffer.length
  decreasing_by
    have hpos := List.length_pos_iff.mpr ‹¬ buffer = []›
    have := f.toWrite_pos hpos
    rw [List.length_drop]
    omega

/-- The bytes of a call that complete the header go there. -/
def collectHeader (f : NCCHCryptoFile) (buffer : List UInt8) : NCCHCryptoFile :=
  { f with ncchHeader := f.ncchHeader ++ buffer.take (ncchHeaderSize - f.ncchHeader.length) }

/-- `Write` -/
def write (env : NcchEnv) (f : NCCHCryptoFile) (buffer : List UInt8) : NCCHCryptoFile :=
  if f.isError then f
  else if f.isNotNcch then { f with file := f.file ++ buffer }
  else
    let rest := buffer.drop (ncchHeaderSize - f.ncchHeader.length)
    let f := f.collectHeader buffer
    if f.headerParsed = false ∧ f.ncchHeader.length = ncchHeaderSize then
      let f := f.parseHeader env
      if f.isNotNcch then { f with file := f.file ++ rest }
      else if f.isError then f
      else f.writeLoop env rest
    else f.writeLoop env rest

end NCCHCryptoFile

end AzaharPlus.Service.Ncch
