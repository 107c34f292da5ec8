import AzaharPlus.FileSys.SaveData

/-!
# Is the encrypted save file transparent?

A caller can tell a `XoredDiskFile` from a `DiskFile` with the clear bytes when `Read` gives
it a byte that did not go through `Write`: gaps and extensions of the host file are zero, and
`Read` applies the key to them all the same.

To say exactly when, the archive is run with `stamped` bytes, which remember the place in the
key they were written with.  The host files of the two classes are images of that run
(`run_map`), and `results_eq_iff` compares them: the results are the same when every byte that
is read is read at the place in the key it was written with.
-/

namespace AzaharPlus.FileSys

/-! ## The same calls on other bytes -/

section Map

variable {α β : Type}

/-- An entry with a function applied to its bytes. -/
def HostEntry.map (f : α → β) : HostEntry α → HostEntry β
  | .invalidPath => .invalidPath
  | .invalidMountPoint => .invalidMountPoint
  | .pathNotFound => .pathNotFound
  | .fileInPath => .fileInPath
  | .directoryFound => .directoryFound
  | .notFound => .notFound
  | .fileFound data => .fileFound (data.map f)

/-- An archive with a function applied to its bytes. -/
def Archive.map (f : α → β) (a : Archive α) : Archive β :=
  ⟨a.allowZeroSizeCreate, a.entry.map f, a.handles⟩

/-- An outcome with a function applied to its bytes. -/
def Outcome.map (f : α → β) : Outcome α → Outcome β
  | .error e => .error e
  | .success => .success
  | .opened => .opened
  | .written count => .written count
  | .resized => .resized
  | .read offset data => .read offset (data.map f)
  | .noHandle => .noHandle

variable (f : α → β)

theorem createFile_map (zero : α) (a : Archive α) (size : UInt64) :
    (a.map f).createFile (f zero) size =
      ((a.createFile zero size).1.map f, (a.createFile zero size).2.map f) := by
  obtain ⟨allow, entry, handles⟩ := a
  cases entry with
  | notFound =>
    simp only [Archive.map, HostEntry.map, Archive.createFile]
    by_cases h0 : size = 0
    · rw [if_pos h0, if_pos h0]
      cases allow <;> rfl
    · rw [if_neg h0, if_neg h0]
      by_cases hlarge : size.toNat - 1 < 2 ^ 63
      · rw [if_pos hlarge, if_pos hlarge]
        simp only [Outcome.map, HostFile.map_write, List.map_nil, List.map_cons]
      · rw [if_neg hlarge, if_neg hlarge]
        rfl
  | _ => rfl

theorem openEntry_map (a : Archive α) (mode : UInt32) :
    (a.map f).openEntry mode = ((a.openEntry mode).1.map f, (a.openEntry mode).2.map f) := by
  obtain ⟨allow, entry, handles⟩ := a
  cases entry with
  | notFound =>
    simp only [Archive.map, HostEntry.map, Archive.openEntry]
    by_cases hc : createFlag mode
    · rw [if_pos hc, if_pos hc]
      rfl
    · rw [if_neg hc, if_neg hc]
      rfl
  | _ => rfl

theorem openFile_map (a : Archive α) (mode : UInt32) :
    (a.map f).openFile mode = ((a.openFile mode).1.map f, (a.openFile mode).2.map f) := by
  have hopen : ∀ (a : Archive α), (if mode = 0 then (a.map f, .error .unsupportedOpenFlags)
      else if createFlag mode ∧ ¬ writeFlag mode then (a.map f, .error .unsupportedOpenFlags)
      else (a.map f).openEntry mode) =
      ((if mode = 0 then (a, .error .unsupportedOpenFlags)
        else if createFlag mode ∧ ¬ writeFlag mode then (a, .error .unsupportedOpenFlags)
        else a.openEntry mode).1.map f,
      (if mode = 0 then (a, .error .unsupportedOpenFlags)
        else if createFlag mode ∧ ¬ writeFlag mode then (a, .error .unsupportedOpenFlags)
        else a.openEntry mode).2.map f) := by
    intro a
    by_cases h0 : mode = 0
    · rw [if_pos h0, if_pos h0]
      rfl
    rw [if_neg h0, if_neg h0]
    by_cases hc : createFlag mode ∧ ¬ writeFlag mode
    · rw [if_pos hc, if_pos hc]
      rfl
    · rw [if_neg hc, if_neg hc]
      exact openEntry_map f a mode
  obtain ⟨allow, entry, handles⟩ := a
  cases entry with
  | invalidPath => rfl
  | invalidMountPoint => exact hopen ⟨allow, .invalidMountPoint, handles⟩
  | pathNotFound => exact hopen ⟨allow, .pathNotFound, handles⟩
  | fileInPath => exact hopen ⟨allow, .fileInPath, handles⟩
  | directoryFound => exact hopen ⟨allow, .directoryFound, handles⟩
  | notFound => exact hopen ⟨allow, .notFound, handles⟩
  | fileFound data => exact hopen ⟨allow, .fileFound data, handles⟩

/-- A call on an open file that does not look at the bytes. -/
theorem onHandle_map {call : OpenHandle → List α → OpenHandle × List α × Outcome α}
    {call' : OpenHandle → List β → OpenHandle × List β × Outcome β}
    (hcall : ∀ h data, call' h (data.map f) =
      ((call h data).1, (call h data).2.1.map f, (call h data).2.2.map f))
    (a : Archive α) (handle : Nat) : (a.map f).onHandle handle call' =
      ((a.onHandle handle call).1.map f, (a.onHandle handle call).2.map f) := by
  obtain ⟨allow, entry, handles⟩ := a
  unfold Archive.onHandle
  cases hh : handles[handle]? with
  | none => simp only [Archive.map, hh, Outcome.map]
  | some h =>
    cases entry with
    | fileFound data => simp only [Archive.map, HostEntry.map, hh, hcall]
    | _ => simp only [Archive.map, HostEntry.map, hh, Outcome.map]

theorem diskFileRead_map (offset length : UInt64) (h : OpenHandle) (data : List α) :
    diskFileRead offset length h (data.map f) = ((diskFileRead offset length h data).1,
      (diskFileRead offset length h data).2.1.map f,
      (diskFileRead offset length h data).2.2.map f) := by
  unfold diskFileRead
  by_cases hr : readFlag h.mode
  · simp only [if_pos hr, Outcome.map, ← HostFile.map_read, List.length_map]
  · simp only [if_neg hr, Outcome.map]

theorem diskFileWrite_map (zero : α) (offset : UInt64) (buffer : List α) (h : OpenHandle)
    (data : List α) : diskFileWrite (f zero) offset (buffer.map f) h (data.map f) =
      ((diskFileWrite zero offset buffer h data).1,
        (diskFileWrite zero offset buffer h data).2.1.map f,
        (diskFileWrite zero offset buffer h data).2.2.map f) := by
  unfold diskFileWrite
  by_cases hw : writeFlag h.mode
  · simp only [if_pos hw, Outcome.map, HostFile.map_write, List.length_map]
  · simp only [if_neg hw, Outcome.map]

theorem diskFileSetSize_map (zero : α) (size : UInt64) (h : OpenHandle) (data : List α) :
    diskFileSetSize (f zero) size h (data.map f) = ((diskFileSetSize zero size h data).1,
      (diskFileSetSize zero size h data).2.1.map f,
      (diskFileSetSize zero size h data).2.2.map f) := by
  unfold diskFileSetSize OpenHandle.resize
  by_cases hw : writeFlag h.mode ∧ size.toNat < 2 ^ 63
  · simp only [if_pos hw, Outcome.map, HostFile.map_resize]
  · simp only [if_neg hw, Outcome.map]

variable {f}

/-- A call on the image of an archive is the image of the call. -/
theorem step_map {B : FileBackend α} {C : FileBackend β} (hzero : f B.zero = C.zero)
    (hencode : ∀ offset buffer, (B.encode offset buffer).map f = C.encode offset buffer)
    (a : Archive α) (op : FileOp) :
    (a.map f).step C op = ((a.step B op).1.map f, (a.step B op).2.map f) := by
  cases op with
  | createFile size =>
    simp only [Archive.step, ← hzero]
    exact createFile_map f B.zero a size
  | openFile mode => exact openFile_map f a mode
  | write handle offset buffer =>
    simp only [Archive.step, ← hzero, ← hencode]
    exact onHandle_map f (diskFileWrite_map f B.zero offset _) a handle
  | setSize handle size =>
    simp only [Archive.step, ← hzero]
    exact onHandle_map f (diskFileSetSize_map f B.zero size) a handle
  | read handle offset length => exact onHandle_map f (diskFileRead_map f offset length) a handle

/-- A sequence of calls on the image of an archive. -/
theorem run_map {B : FileBackend α} {C : FileBackend β} (hzero : f B.zero = C.zero)
    (hencode : ∀ offset buffer, (B.encode offset buffer).map f = C.encode offset buffer)
    (a : Archive α) (ops : List FileOp) :
    (a.map f).run C ops = (a.run B ops).map (Outcome.map f) := by
  induction ops generalizing a with
  | nil => rfl
  | cons op ops ih =>
    simp only [Archive.run, List.map_cons, step_map hzero hencode a op, ih]

/-- The image of an archive that keeps a clear file. -/
theorem keep_map {B : FileBackend α} {C : FileBackend β}
    (hencode : ∀ offset buffer, (B.encode offset buffer).map f = C.encode offset buffer)
    (a : Archive UInt8) : (a.keep B).map f = a.keep C := by
  obtain ⟨allow, entry, handles⟩ := a
  cases entry with
  | fileFound data => simp only [Archive.map, Archive.keep, HostEntry.map, hencode]
  | _ => rfl

end Map

/-! ## Stamped bytes -/

/-- A clear byte, and the place in the key it was written with, if it was written. -/
structure Stamped where
  byte : UInt8
  place : Option (Fin 6)

/-- The byte in the host file of a `XoredDiskFile`. -/
def Stamped.stored (t : Stamped) : UInt8 := t.byte ^^^ t.place.elim 0 keyByte

/-- Clear bytes that remember how they were written. -/
def stamped : FileBackend Stamped where
  zero := ⟨0, none⟩
  encode := fun offset buffer => buffer.mapIdx fun i b => ⟨b, some (keyIndex offset i)⟩
  decode := fun _ data => data.map Stamped.byte

/-- Every byte that is read is read at the place in the key it was written with. -/
def Outcome.Matching : Outcome Stamped → Prop
  | .read offset data => ∀ i t, data[i]? = some t → t.place = some (keyIndex offset i)
  | _ => True

theorem keyByte_inj : ∀ p q : Fin 6, keyByte p = keyByte q → p = q := by decide

theorem keyByte_ne_zero : ∀ p : Fin 6, keyByte p ≠ 0 := by decide

theorem xor_left_cancel (b k l : UInt8) : (b ^^^ k) ^^^ l = b ↔ k = l := by
  constructor
  · intro h
    have h' : b ^^^ (b ^^^ k ^^^ l) = b ^^^ b := by rw [h]
    rw [← UInt8.xor_assoc, ← UInt8.xor_assoc, UInt8.xor_self, UInt8.zero_xor] at h'
    have h'' : k ^^^ l ^^^ l = 0 ^^^ l := by rw [h']
    rwa [UInt8.xor_assoc, UInt8.xor_self, UInt8.xor_zero, UInt8.zero_xor] at h''
  · rintro rfl
    rw [UInt8.xor_assoc, UInt8.xor_self, UInt8.xor_zero]

/-- A stored byte is read as the clear one exactly at its place in the key. -/
theorem stored_xor_iff (t : Stamped) (p : Fin 6) :
    t.stored ^^^ keyByte p = t.byte ↔ t.place = some p := by
  unfold Stamped.stored
  rw [xor_left_cancel]
  cases t.place with
  | none => simpa using (keyByte_ne_zero p).symm
  | some q =>
    simp only [Option.elim_some, Option.some.injEq]
    exact ⟨keyByte_inj q p, fun h => by rw [h]⟩

theorem xorBuffer_stored_iff (offset : UInt64) (data : List Stamped) :
    xorBuffer offset (data.map Stamped.stored) = data.map Stamped.byte ↔
      ∀ i t, data[i]? = some t → t.place = some (keyIndex offset i) := by
  constructor
  · intro h i t ht
    have hi := congrArg (·[i]?) h
    simp only [xorBuffer, List.getElem?_mapIdx, List.getElem?_map, ht, Option.map_some,
      Option.some.injEq] at hi
    exact (stored_xor_iff t _).1 hi
  · intro h
    apply List.ext_getElem?
    intro i
    simp only [xorBuffer, List.getElem?_mapIdx, List.getElem?_map]
    cases ht : data[i]? with
    | none => rfl
    | some t =>
      simp only [Option.map_some, Option.some.injEq]
      exact (stored_xor_iff t _).2 (h i t ht)

theorem encode_stored (offset : UInt64) (buffer : List UInt8) :
    (stamped.encode offset buffer).map Stamped.stored = xoredDiskFile.encode offset buffer := by
  apply List.ext_getElem?
  intro i
  simp only [stamped, xoredDiskFile, xorBuffer, List.getElem?_map, List.getElem?_mapIdx,
    Option.map_map]
  rfl

theorem encode_byte (offset : UInt64) (buffer : List UInt8) :
    (stamped.encode offset buffer).map Stamped.byte = diskFile.encode offset buffer := by
  apply List.ext_getElem?
  intro i
  simp only [stamped, diskFile, List.getElem?_map, List.getElem?_mapIdx, Option.map_map]
  exact Option.map_id'

/-- What the two classes return for one call. -/
theorem view_eq_iff (o : Outcome Stamped) :
    (o.map Stamped.stored).view xoredDiskFile = (o.map Stamped.byte).view diskFile ↔
      o.Matching := by
  cases o with
  | read offset data =>
    simp only [Outcome.map, Outcome.view, xoredDiskFile, diskFile, Outcome.read.injEq, true_and,
      Outcome.Matching]
    exact xorBuffer_stored_iff offset data
  | _ => simp [Outcome.map, Outcome.view, Outcome.Matching]

/-- For every archive and every sequence of calls: a `XoredDiskFile` returns what a `DiskFile`
with the clear bytes returns exactly when every byte that is read is read at the place in the
key it was written with. -/
theorem results_eq_iff (a : Archive UInt8) (ops : List FileOp) :
    (a.keep xoredDiskFile).results xoredDiskFile ops = (a.keep diskFile).results diskFile ops ↔
      ∀ o ∈ (a.keep stamped).run stamped ops, o.Matching := by
  have hstored : stamped.zero.stored = xoredDiskFile.zero := rfl
  have hbyte : stamped.zero.byte = diskFile.zero := rfl
  unfold Archive.results
  rw [← keep_map encode_stored a, ← keep_map encode_byte a, run_map hstored encode_stored,
    run_map hbyte encode_byte, List.map_map, List.map_map, List.map_inj_left]
  simp only [Function.comp_apply, view_eq_iff]

/-- A file of four bytes that was created and not written reads as a part of the key. -/
theorem created_file_not_transparent :
    ¬ ∀ (a : Archive UInt8) (ops : List FileOp),
      (a.keep xoredDiskFile).results xoredDiskFile ops =
        (a.keep diskFile).results diskFile ops := by
  intro h
  have hread := h ⟨true, .notFound, []⟩ [.createFile 4, .openFile 1, .read 0 0 4]
  revert hread
  decide

end AzaharPlus.FileSys
