import Mathlib.Algebra.Group.Nat.Defs
import AzaharPlus.Lib.HostFile

/-!
# Files of the save data archive

The model of `CreateFile` and `OpenFile` of `SaveDataArchive`
(`core/file_sys/savedata_archive.cpp`) for one path, and of the files they give out:
`DiskFile` (`core/file_sys/disk_archive.cpp`) and `XoredDiskFile`
(`core/file_sys/xored_disk_file.h`), which is what `OpenFile` returns.

A `FileBackend` says how the bytes of a buffer are kept in the host file.  The values in the
host file are of any type, so that the same archive can be run with bytes that are marked.
-/

namespace AzaharPlus.FileSys

/-- The errors that are returned. -/
inductive FsError
  | invalidPath
  | unsupportedOpenFlags
  | invalidOpenFlags
  | fileNotFound
  | pathNotFound
  | unexpectedFileOrDirectory
  | fileAlreadyExists
  | tooLarge
  deriving DecidableEq, Repr

/-- `Mode::read_flag`. -/
def readFlag (mode : UInt32) : Bool := mode &&& 1 ≠ 0

/-- `Mode::write_flag`. -/
def writeFlag (mode : UInt32) : Bool := mode &&& 2 ≠ 0

/-- `Mode::create_flag`. -/
def createFlag (mode : UInt32) : Bool := mode &&& 4 ≠ 0

/-- What `PathParser` finds at the path: it is not valid, or its `HostStatus`. -/
inductive HostEntry (α : Type)
  | invalidPath
  | invalidMountPoint
  | pathNotFound
  | fileInPath
  | directoryFound
  | notFound
  | fileFound (data : List α)

/-- An open file: its mode, and the position of its `IOFile`. -/
structure OpenHandle where
  mode : UInt32
  position : Nat

/-- How a class of files keeps the bytes of a buffer in the host file.  `zero` is what gaps
of the host file read as. -/
structure FileBackend (α : Type) where
  zero : α
  encode : UInt64 → List UInt8 → List α
  decode : UInt64 → List α → List UInt8

/-- A `SaveDataArchive`, seen at one path, with the files that were opened there. -/
structure Archive (α : Type) where
  allowZeroSizeCreate : Bool
  entry : HostEntry α
  handles : List OpenHandle

/-- The calls. -/
inductive FileOp
  | createFile (size : UInt64)
  | openFile (mode : UInt32)
  | write (handle : Nat) (offset : UInt64) (buffer : List UInt8)
  | setSize (handle : Nat) (size : UInt64)
  | read (handle : Nat) (offset : UInt64) (length : UInt64)

/-- What a call returns.  A `Read` returns values of the host file and where it began; there
is no answer to a call on a file that was not opened. -/
inductive Outcome (α : Type)
  | error (e : FsError)
  | success
  | opened
  | written (count : Nat)
  | resized
  | read (offset : UInt64) (data : List α)
  | noHandle
  deriving DecidableEq

/-! ## The host file -/

/-- `IOFile::Seek` with `SEEK_SET`: the offset is converted to a signed one, and a negative
one is refused. -/
def OpenHandle.seek (h : OpenHandle) (offset : UInt64) : OpenHandle :=
  if offset.toNat < 2 ^ 63 then { h with position := offset.toNat } else h

/-- `IOFile::Resize`: it needs a file that was opened for writing and a size that is not
negative. -/
def OpenHandle.resize {α : Type} (zero : α) (h : OpenHandle) (size : UInt64) (data : List α) :
    List α :=
  if writeFlag h.mode ∧ size.toNat < 2 ^ 63 then HostFile.resize zero data size.toNat else data

namespace Archive

variable {α : Type}

/-- `SaveDataArchive::CreateFile`. -/
def createFile (zero : α) (a : Archive α) (size : UInt64) : Archive α × Outcome α :=
  match a.entry with
  | .invalidPath => (a, .error .invalidPath)
  | .invalidMountPoint => (a, .error .fileNotFound)
  | .pathNotFound => (a, .error .pathNotFound)
  | .fileInPath => (a, .error .unexpectedFileOrDirectory)
  | .directoryFound => (a, .error .fileAlreadyExists)
  | .fileFound _ => (a, .error .fileAlreadyExists)
  | .notFound =>
      if size = 0 then
        if a.allowZeroSizeCreate then ({ a with entry := .fileFound [] }, .success)
        else (a, .error .unsupportedOpenFlags)
      else if size.toNat - 1 < 2 ^ 63 then
        ({ a with entry := .fileFound (HostFile.write zero [] (size.toNat - 1) [zero]) }, .success)
      else ({ a with entry := .fileFound [] }, .error .tooLarge)

/-- The end of `SaveDataArchive::OpenFile`: a file for the host file. -/
def openHandle (a : Archive α) (mode : UInt32) (data : List α) : Archive α × Outcome α :=
  ({ a with entry := .fileFound data, handles := a.handles ++ [⟨mode, 0⟩] }, .opened)

/-- `SaveDataArchive::OpenFile`, from the host status on. -/
def openEntry (a : Archive α) (mode : UInt32) : Archive α × Outcome α :=
  match a.entry with
  | .invalidPath => (a, .error .invalidPath)
  | .invalidMountPoint => (a, .error .fileNotFound)
  | .pathNotFound => (a, .error .pathNotFound)
  | .fileInPath => (a, .error .unexpectedFileOrDirectory)
  | .directoryFound => (a, .error .unexpectedFileOrDirectory)
  | .notFound => if createFlag mode then a.openHandle mode [] else (a, .error .fileNotFound)
  | .fileFound data => a.openHandle mode data

/-- `SaveDataArchive::OpenFile`. -/
def openFile (a : Archive α) (mode : UInt32) : Archive α × Outcome α :=
  match a.entry with
  | .invalidPath => (a, .error .invalidPath)
  | _ =>
      if mode = 0 then (a, .error .unsupportedOpenFlags)
      else if createFlag mode ∧ ¬ writeFlag mode then (a, .error .unsupportedOpenFlags)
      else a.openEntry mode

/-- A call on an open file: what it does to the handle and the host file, and its outcome. -/
def onHandle (a : Archive α) (handle : Nat)
    (call : OpenHandle → List α → OpenHandle × List α × Outcome α) : Archive α × Outcome α :=
  match a.handles[handle]?, a.entry with
  | some h, .fileFound data =>
      ({ a with
          entry := .fileFound (call h data).2.1
          handles := a.handles.set handle (call h data).1 },
        (call h data).2.2)
  | _, _ => (a, .noHandle)

end Archive

/-- `DiskFile::Read`, and the values it finds. -/
def diskFileRead {α : Type} (offset length : UInt64) (h : OpenHandle) (data : List α) :
    OpenHandle × List α × Outcome α :=
  if readFlag h.mode then
    let h := h.seek offset
    let bytes := HostFile.read data h.position length.toNat
    ({ h with position := h.position + bytes.length }, data, .read offset bytes)
  else (h, data, .error .invalidOpenFlags)

/-- `DiskFile::Write`. -/
def diskFileWrite {α : Type} (zero : α) (offset : UInt64) (buffer : List α) (h : OpenHandle)
    (data : List α) : OpenHandle × List α × Outcome α :=
  if writeFlag h.mode then
    let h := h.seek offset
    ({ h with position := h.position + buffer.length },
      HostFile.write zero data h.position buffer, .written buffer.length)
  else (h, data, .error .invalidOpenFlags)

/-- `DiskFile::SetSize`, which does not look at the result of `Resize`. -/
def diskFileSetSize {α : Type} (zero : α) (size : UInt64) (h : OpenHandle) (data : List α) :
    OpenHandle × List α × Outcome α :=
  (h, h.resize zero size data, .resized)

/-! ## The two classes -/

/-- The bytes of `xor_key`, `"ivo708"`. -/
def keyByte : Fin 6 → UInt8
  | 0 => 0x69
  | 1 => 0x76
  | 2 => 0x6F
  | 3 => 0x37
  | 4 => 0x30
  | 5 => 0x38

/-- The place in the key for byte `i` of a buffer: `(offset + i) % key_len_`. -/
def keyIndex (offset : UInt64) (i : Nat) : Fin 6 :=
  ⟨(offset.toNat + i) % 2 ^ 64 % 6, Nat.mod_lt _ (by decide)⟩

/-- `XoredDiskFile::XorBuffer`. -/
def xorBuffer (offset : UInt64) (buffer : List UInt8) : List UInt8 :=
  buffer.mapIdx fun i b => b ^^^ keyByte (keyIndex offset i)

/-- `DiskFile`: a buffer is kept as it is. -/
def diskFile : FileBackend UInt8 where
  zero := 0
  encode := fun _ buffer => buffer
  decode := fun _ bytes => bytes

/-- `XoredDiskFile`: `Write` stores the buffer after `XorBuffer`, and `Read` applies it to
what was read. -/
def xoredDiskFile : FileBackend UInt8 where
  zero := 0
  encode := xorBuffer
  decode := xorBuffer

/-! ## Runs -/

section Runs

variable {α : Type} (B : FileBackend α)

/-- One call. -/
def Archive.step (a : Archive α) : FileOp → Archive α × Outcome α
  | .createFile size => a.createFile B.zero size
  | .openFile mode => a.openFile mode
  | .write handle offset buffer =>
      a.onHandle handle (diskFileWrite B.zero offset (B.encode offset buffer))
  | .setSize handle size => a.onHandle handle (diskFileSetSize B.zero size)
  | .read handle offset length => a.onHandle handle (diskFileRead offset length)

/-- A sequence of calls. -/
def Archive.run (a : Archive α) : List FileOp → List (Outcome α)
  | [] => []
  | op :: ops => (a.step B op).2 :: (a.step B op).1.run ops

/-- What the caller sees of an outcome. -/
def Outcome.view : Outcome α → Outcome UInt8
  | .error e => .error e
  | .success => .success
  | .opened => .opened
  | .written count => .written count
  | .resized => .resized
  | .read offset data => .read offset (B.decode offset data)
  | .noHandle => .noHandle

/-- The results and bytes that a sequence of calls returns. -/
def Archive.results (a : Archive α) (ops : List FileOp) : List (Outcome UInt8) :=
  (a.run B ops).map (Outcome.view B)

end Runs

/-- The archive that keeps a clear file with a class of files. -/
def Archive.keep {α : Type} (B : FileBackend α) (a : Archive UInt8) : Archive α where
  allowZeroSizeCreate := a.allowZeroSizeCreate
  handles := a.handles
  entry :=
    match a.entry with
    | .invalidPath => .invalidPath
    | .invalidMountPoint => .invalidMountPoint
    | .pathNotFound => .pathNotFound
    | .fileInPath => .fileInPath
    | .directoryFound => .directoryFound
    | .notFound => .notFound
    | .fileFound data => .fileFound (B.encode 0 data)

end AzaharPlus.FileSys
