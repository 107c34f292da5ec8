import AzaharPlus.Lib.BlockMemory
import AzaharPlus.Lib.CheckedBytes

/-!
# The loader of homebrew executables

`Load3DSXFile` of `3dsx.cpp`: it rounds the sizes of three segments to pages, reads the segments
into one image, clears the BSS and relocates words that the file selects by runs of "skip some,
patch some".  The image is a vector; what the loader reads, clears and patches are addresses, and
an access outside the vector is an outcome of its own here.

* `load3DSXFile` — the loader;
* `roundUp_mod`, `roundUp_le` — the sizes of the segments.
-/

namespace AzaharPlus.Loader.Threedsx

open Bytes BlockMemory

/-! ## Files and images -/

/-- `THREEDSX_Error`, without the value for success. -/
inductive THREEDSXError where
  | read
  | file
  | alloc
  deriving DecidableEq

/-- Why loading stops early: with an error, with an access outside the image, or, as a loop with too
few turns would, still running. -/
inductive Stop where
  | error (e : THREEDSXError)
  | outside
  | running
  deriving DecidableEq

/-- `program_image` -/
structure Image where
  size : Nat
  bytes : Memory

/-- A word of an image. -/
def Image.word (image : Image) (pos : Nat) : Nat := leValue (readBlock image.bytes pos 4)

/-- The image with a word changed. -/
def Image.setWord (image : Image) (pos w : Nat) : Image :=
  { image with bytes := writeBlock image.bytes pos (leBytes 4 w) 4 }

/-- `THREEDSX_Header`, the fields the loader uses. -/
structure Header where
  headerSize : Nat
  relocHdrSize : Nat
  codeSegSize : Nat
  rodataSegSize : Nat
  dataSegSize : Nat
  bssSize : Nat

/-- A little-endian number of a file. -/
def field (file : List UInt8) (offset n : Nat) : Nat := leValue (slice file offset n)

/-- The header, if the file is long enough for it. -/
def readHeader (file : List UInt8) : Option Header :=
  if file.length < 44 then none
  else
    some
      { headerSize := field file 4 2
        relocHdrSize := field file 6 2
        codeSegSize := field file 16 4
        rodataSegSize := field file 20 4
        dataSegSize := field file 24 4
        bssSize := field file 28 4 }

/-- `(size + 0xFFF) & ~0xFFF` -/
def roundUp (size : Nat) : Nat := (size + 0xFFF) % 2 ^ 32 / 0x1000 * 0x1000

namespace Header

variable (hdr : Header)

/-- `loadinfo.seg_sizes` -/
def segSize : Nat → Nat
  | 0 => roundUp hdr.codeSegSize
  | 1 => roundUp hdr.rodataSegSize
  | _ => roundUp hdr.dataSegSize

/-- `loadinfo.seg_ptrs`, from the start of the image. -/
def segPtr : Nat → Nat
  | 0 => 0
  | 1 => hdr.segSize 0
  | _ => hdr.segSize 0 + hdr.segSize 1

/-- `loadinfo.seg_addrs` -/
def segAddr (baseAddr : Nat) : Nat → Nat
  | 0 => baseAddr
  | 1 => (baseAddr + hdr.segSize 0) % 2 ^ 32
  | _ => ((baseAddr + hdr.segSize 0) % 2 ^ 32 + hdr.segSize 1) % 2 ^ 32

/-- The size of `program_image`, a sum of 32-bit numbers. -/
def imageSize : Nat := (hdr.segSize 0 + hdr.segSize 1 + hdr.segSize 2) % 2 ^ 32

/-- Rounding up did not overflow. -/
def Rounds : Prop :=
  hdr.codeSegSize ≤ hdr.segSize 0 ∧ hdr.rodataSegSize ≤ hdr.segSize 1 ∧
    hdr.dataSegSize ≤ hdr.segSize 2

instance : Decidable hdr.Rounds := by unfold Rounds; infer_instance

/-- `n_reloc_tables` -/
def nRelocTables : Nat := hdr.relocHdrSize / 4

/-- `hdr.data_seg_size - hdr.bss_size` -/
def loadedData : Nat := (hdr.dataSegSize + 2 ^ 32 - hdr.bssSize) % 2 ^ 32

/-! Where the parts of the file start, each behind the one before. -/

def codeStart : Nat := hdr.headerSize + 12 * hdr.nRelocTables
def rodataStart : Nat := hdr.codeStart + hdr.codeSegSize
def dataStart : Nat := hdr.rodataStart + hdr.rodataSegSize
def relocStart : Nat := hdr.dataStart + hdr.loadedData

/-- The number of relocations of a table; the tables of a segment follow each other. -/
def relocCount (file : List UInt8) (k : Nat) : Nat := field file (hdr.headerSize + 4 * k) 4

/-- The relocation headers of the three segments can be read. -/
def relocHdrsRead (file : List UInt8) : Bool :=
  (List.range 3).all fun seg =>
    (slice file (hdr.headerSize + 4 * (seg * hdr.nRelocTables)) (4 * hdr.nRelocTables)).length =
      4 * hdr.nRelocTables

end Header

/-! ## Segments -/

/-- `ReadBytes` to a place in the image; a short file fills what it can. -/
def readInto (file : List UInt8) (image : Image) (pos start n : Nat) : Except Stop Image :=
  if slice file pos n ≠ [] ∧ image.size < start + (slice file pos n).length then .error .outside
  else if (slice file pos n).length ≠ n then .error (.error .read)
  else .ok { image with bytes := writeBlock image.bytes start (slice file pos n) n }

/-- The `memset` of the BSS; the pointer is moved forward first, then back. -/
def clearBss (hdr : Header) (image : Image) : Except Stop Image :=
  if hdr.bssSize ≠ 0 ∧ (hdr.segPtr 2 + hdr.dataSegSize < hdr.bssSize ∨
      image.size < hdr.segPtr 2 + hdr.dataSegSize) then .error .outside
  else
    .ok
      { image with
        bytes := writeBlock image.bytes (hdr.segPtr 2 + hdr.dataSegSize - hdr.bssSize)
          (List.replicate hdr.bssSize 0) hdr.bssSize }

/-! ## Relocations -/

section Relocate

variable (hdr : Header) (baseAddr : Nat)

/-- `TranslateAddr` -/
def translateAddr (addr : Nat) : Nat :=
  if addr < hdr.segSize 0 then (hdr.segAddr baseAddr 0 + addr) % 2 ^ 32
  else if addr < (hdr.segSize 0 + hdr.segSize 1) % 2 ^ 32 then
    (hdr.segAddr baseAddr 1 + addr + 2 ^ 32 - hdr.segSize 0) % 2 ^ 32
  else
    (hdr.segAddr baseAddr 2 + addr + 2 ^ 32 - (hdr.segSize 0 + hdr.segSize 1) % 2 ^ 32) % 2 ^ 32

/-- The patched word of a table, if its sub-type is one of the table's. -/
def patchWord (table inAddr origData : Nat) : Option Nat :=
  if table = 0 then
    if origData / 2 ^ 28 = 0 then some (translateAddr hdr baseAddr (origData % 2 ^ 28)) else none
  else if origData / 2 ^ 28 = 0 then
    some ((translateAddr hdr baseAddr (origData % 2 ^ 28) + 2 ^ 32 - inAddr) % 2 ^ 32)
  else if origData / 2 ^ 28 = 1 then
    some ((translateAddr hdr baseAddr (origData % 2 ^ 28) + 2 ^ 32 - inAddr) % 2 ^ 32 % 2 ^ 31)
  else none

/-- The loop over the words of a run, in a segment that ends at `endPos`. -/
def patchRun (table endPos : Nat) : Nat → Nat → Image → Except Stop (Nat × Image)
  | 0, pos, image => .ok (pos, image)
  | numPatches + 1, pos, image =>
      if endPos ≤ pos then .ok (pos, image)
      else if image.size < pos + 4 then .error .outside
      else
        match patchWord hdr baseAddr table ((baseAddr + pos) % 2 ^ 32) (image.word pos) with
        | none => .error (.error .read)
        | some w => patchRun table endPos numPatches (pos + 4) (image.setWord pos w)

/-- The loop over a buffer of `THREEDSX_Reloc`s, each a skip and a patch count. -/
def patchRuns (table endPos : Nat) : List (Nat × Nat) → Nat → Image → Except Stop (Nat × Image)
  | [], pos, image => .ok (pos, image)
  | (skip, patch) :: runs, pos, image =>
      if endPos ≤ pos then .ok (pos, image)
      else
        match patchRun hdr baseAddr table endPos patch (pos + 4 * skip) image with
        | .error stop => .error stop
        | .ok (pos', image') => patchRuns table endPos runs pos' image'

/-- `RELOCBUFSIZE` -/
def relocBufSize : Nat := 512

/-- The `n` relocations of a file from a position on. -/
def relocsAt (file : List UInt8) (pos n : Nat) : List (Nat × Nat) :=
  (List.range n).map fun i => (field file (pos + 4 * i) 2, field file (pos + 4 * i + 2) 2)

/-- The loop over the buffers of a table, with at most `turns` turns. -/
def relocTable (file : List UInt8) (table endPos : Nat) :
    Nat → Nat → Nat → Nat → Image → Except Stop (Nat × Image)
  | 0, nRelocs, filePos, _, image => if nRelocs = 0 then .ok (filePos, image) else .error .running
  | turns + 1, nRelocs, filePos, pos, image =>
      if nRelocs = 0 then .ok (filePos, image)
      else if (slice file filePos (4 * min relocBufSize nRelocs)).length ≠
          4 * min relocBufSize nRelocs then .error (.error .read)
      else
        match patchRuns hdr baseAddr table endPos
            (relocsAt file filePos (min relocBufSize nRelocs)) pos image with
        | .error stop => .error stop
        | .ok (pos', image') =>
            relocTable file table endPos turns (nRelocs - min relocBufSize nRelocs)
              (filePos + 4 * min relocBufSize nRelocs) pos' image'

/-- The loop over the tables of a segment; all but the first two are skipped. -/
def relocTables (file : List UInt8) (seg : Nat) :
    List Nat → Nat → Image → Except Stop (Nat × Image)
  | [], filePos, image => .ok (filePos, image)
  | table :: tables, filePos, image =>
      if 2 ≤ table then
        relocTables file seg tables
          (filePos + 4 * hdr.relocCount file (seg * hdr.nRelocTables + table)) image
      else
        match relocTable hdr baseAddr file table (hdr.segPtr seg + hdr.segSize seg)
            (hdr.relocCount file (seg * hdr.nRelocTables + table))
            (hdr.relocCount file (seg * hdr.nRelocTables + table)) filePos (hdr.segPtr seg)
            image with
        | .error stop => .error stop
        | .ok (filePos', image') => relocTables file seg tables filePos' image'

/-- The loop over the segments. -/
def relocSegments (file : List UInt8) : List Nat → Nat → Image → Except Stop Image
  | [], _, image => .ok image
  | seg :: segs, filePos, image =>
      match relocTables hdr baseAddr file seg (List.range hdr.nRelocTables) filePos image with
      | .error stop => .error stop
      | .ok (filePos', image') => relocSegments file segs filePos' image'

end Relocate

/-! ## The loader -/

/-- The segments are read and the BSS is cleared. -/
def readSegments (file : List UInt8) (hdr : Header) : Except Stop Image := do
  let image ← readInto file ⟨hdr.imageSize, fun _ => 0⟩ hdr.codeStart (hdr.segPtr 0) hdr.codeSegSize
  let image ← readInto file image hdr.rodataStart (hdr.segPtr 1) hdr.rodataSegSize
  let image ← readInto file image hdr.dataStart (hdr.segPtr 2) hdr.loadedData
  clearBss hdr image

/-- `Load3DSXFile` on an open file: the memory of the code set. -/
def load3DSXFile (file : List UInt8) (baseAddr : Nat) : Except Stop Image :=
  match readHeader file with
  | none => .error (.error .read)
  | some hdr =>
      if ¬ hdr.Rounds then .error (.error .read)
      else if hdr.relocHdrsRead file = false then .error (.error .read)
      else
        match readSegments file hdr with
        | .error stop => .error stop
        | .ok image => relocSegments hdr baseAddr file [0, 1, 2] hdr.relocStart image

/-! ## Sizes -/

theorem roundUp_mod (n : Nat) : roundUp n % 0x1000 = 0 := Nat.mul_mod_left _ _

theorem roundUp_lt (n : Nat) : roundUp n < 2 ^ 32 := by
  have := Nat.div_mul_le_self ((n + 0xFFF) % 2 ^ 32) 0x1000
  have := Nat.mod_lt (n + 0xFFF) (show 0 < 2 ^ 32 by decide)
  unfold roundUp
  omega

/-- A size that is rounded up without overflow grows by less than a page. -/
theorem roundUp_le {n : Nat} : roundUp n ≤ n + 0xFFF := by
  have := Nat.div_mul_le_self ((n + 0xFFF) % 2 ^ 32) 0x1000
  have := Nat.mod_le (n + 0xFFF) (2 ^ 32)
  unfold roundUp
  omega

theorem segSize_mod (hdr : Header) (seg : Nat) : hdr.segSize seg % 0x1000 = 0 := by
  rcases seg with _ | _ | seg
  · exact roundUp_mod _
  · exact roundUp_mod _
  · exact roundUp_mod _

theorem field_lt (file : List UInt8) (offset : Nat) {n : Nat} : field file offset n < 256 ^ n := by
  refine Nat.lt_of_lt_of_le (leValue_lt _) (Nat.pow_le_pow_right (by decide) ?_)
  exact List.length_take_le _ _

end AzaharPlus.Loader.Threedsx
