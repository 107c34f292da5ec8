import AzaharPlus.Lib.Bytes

/-!
# Movies

`Movie` of `core/movie.cpp`: recording and playing back the state of the controllers, the file of a
movie, and what a savestate keeps of it.  The clock overrides of `PrepareForPlayback` and
`PrepareForRecording` are left out.

* `handles_isSome_iff` — for which accepted files the bound `Handle` asserts always holds.
* `load_throws` — when loading a savestate throws, and what it has changed then.
* `robust_iff` — when movie loading is robust.
-/

namespace AzaharPlus.Core

open Bytes

/-! ## The state of the controllers -/

/-- The arguments of the six `Handle` functions, with the fields that are recorded. -/
inductive ControllerInput where
  | padAndCircle (buttons : BitVec 14) (circlePadX circlePadY : Int16)
  | touch (x y : UInt16) (valid : BitVec 7)
  | accelerometer (x y z : Int16)
  | gyroscope (x y z : Int16)
  | irRst (zl zr : BitVec 1) (cStickX cStickY : Int16)
  | extraHidResponse (batteryLevel : BitVec 5) (zlNotHeld zrNotHeld rNotHeld : BitVec 1)
      (cStickX cStickY : BitVec 12)
  deriving DecidableEq

/-- `ControllerStateType`. -/
def ControllerInput.type : ControllerInput → UInt8
  | .padAndCircle .. => 0
  | .touch .. => 1
  | .accelerometer .. => 2
  | .gyroscope .. => 3
  | .irRst .. => 4
  | .extraHidResponse .. => 5

/-- `sizeof(ControllerState)` -/
def controllerStateSize : Nat := 7

def le16 (value : Int16) : List UInt8 := leBytes 2 value.toUInt16.toNat

/-- The `ControllerState` the overloads of `Record` build. -/
def toControllerState : ControllerInput → List UInt8
  | .padAndCircle buttons circlePadX circlePadY =>
      0 :: (leBytes 2 buttons.toNat ++ le16 circlePadX ++ le16 circlePadY)
  | .touch x y valid => 1 :: (leBytes 2 x.toNat ++ leBytes 2 y.toNat ++ leBytes 1 valid.toNat ++ [0])
  | .accelerometer x y z => 2 :: (le16 x ++ le16 y ++ le16 z)
  | .gyroscope x y z => 3 :: (le16 x ++ le16 y ++ le16 z)
  | .irRst zl zr cStickX cStickY =>
      4 :: (le16 cStickX ++ le16 cStickY ++ leBytes 1 zl.toNat ++ leBytes 1 zr.toNat)
  | .extraHidResponse batteryLevel zlNotHeld zrNotHeld rNotHeld cStickX cStickY =>
      let hex : BitVec 32 :=
        cStickY ++ cStickX ++ rNotHeld ++ zrNotHeld ++ zlNotHeld ++ batteryLevel
      5 :: (leBytes 4 hex.toNat ++ [0, 0])

/-- A 16-bit field of a `ControllerState`. -/
def field16 (s : List UInt8) (offset : Nat) : UInt16 := UInt16.ofNat (leValue (slice s offset 2))

/-- What the overloads of `Play` assign from a `ControllerState`; one of another type leaves the
arguments alone. -/
def fromControllerState (s : List UInt8) : ControllerInput → ControllerInput
  | .padAndCircle buttons circlePadX circlePadY =>
      if byteAt s 0 ≠ 0 then .padAndCircle buttons circlePadX circlePadY
      else .padAndCircle (BitVec.ofNat 14 (field16 s 1).toNat) (field16 s 3).toInt16
        (field16 s 5).toInt16
  | .touch x y valid =>
      if byteAt s 0 ≠ 1 then .touch x y valid
      else .touch (field16 s 1) (field16 s 3) (BitVec.ofNat 7 (byteAt s 5).toNat)
  | .accelerometer x y z =>
      if byteAt s 0 ≠ 2 then .accelerometer x y z
      else .accelerometer (field16 s 1).toInt16 (field16 s 3).toInt16 (field16 s 5).toInt16
  | .gyroscope x y z =>
      if byteAt s 0 ≠ 3 then .gyroscope x y z
      else .gyroscope (field16 s 1).toInt16 (field16 s 3).toInt16 (field16 s 5).toInt16
  | .irRst zl zr cStickX cStickY =>
      if byteAt s 0 ≠ 4 then .irRst zl zr cStickX cStickY
      else .irRst (BitVec.ofNat 1 (byteAt s 5).toNat) (BitVec.ofNat 1 (byteAt s 6).toNat)
        (field16 s 1).toInt16 (field16 s 3).toInt16
  | .extraHidResponse batteryLevel zlNotHeld zrNotHeld rNotHeld cStickX cStickY =>
      if byteAt s 0 ≠ 5 then
        .extraHidResponse batteryLevel zlNotHeld zrNotHeld rNotHeld cStickX cStickY
      else
        let hex : BitVec 32 := BitVec.ofNat 32 (leValue (slice s 1 4))
        .extraHidResponse (hex.extractLsb' 0 5) (hex.extractLsb' 5 1) (hex.extractLsb' 6 1)
          (hex.extractLsb' 7 1) (hex.extractLsb' 8 12) (hex.extractLsb' 20 12)

/-! ## The movie -/

/-- `PlayMode` -/
inductive PlayMode where
  | None
  | Recording
  | Playing
  | MovieFinished
  deriving DecidableEq, Repr

/-- `Movie`; positions and sizes of the recorded input do not wrap.  `savedFile` is the file
`SaveMovie` wrote last. -/
structure Movie where
  playMode : PlayMode
  recordMovieAuthor : List UInt8
  initTime : UInt64
  baseTicks : Int64
  recordedInput : List UInt8
  currentByte : Nat
  currentInput : UInt64
  totalInput : UInt64
  id : UInt64
  programId : UInt64
  rerecordCount : UInt32
  readOnly : Bool
  savedFile : Option (List UInt8)

/-- The loop of `GetInputCount`, from a position on. -/
def inputCountFrom (input : List UInt8) : Nat → Nat → Nat
  | 0, _ => 0
  | turns + 1, pos =>
      if input.length < pos + controllerStateSize then 0
      else (if byteAt input pos = 0 then 1 else 0) +
        inputCountFrom input turns (pos + controllerStateSize)

/-- `GetInputCount` -/
def getInputCount (input : List UInt8) : Nat := inputCountFrom input input.length 0

/-- `header_magic_bytes` -/
def headerMagicBytes : List UInt8 := [67, 84, 77, 0x1B]

/-- `sizeof(CTMHeader)` -/
def headerSize : Nat := 256

/-- The header `SaveMovie` writes. -/
def Movie.header (m : Movie) (revision : Fin 20 → UInt8) : List UInt8 :=
  headerMagicBytes ++ leBytes 8 m.programId.toNat ++ List.ofFn revision ++
    leBytes 8 m.initTime.toNat ++ leBytes 8 m.id.toNat ++
    (m.recordMovieAuthor.take 32 ++ List.replicate (32 - m.recordMovieAuthor.length) 0) ++
    leBytes 4 m.rerecordCount.toNat ++ leBytes 8 (getInputCount m.recordedInput) ++
    leBytes 8 m.baseTicks.toUInt64.toNat ++ List.replicate 156 0

/-- `SaveMovie` -/
def Movie.saveMovie (m : Movie) (revision : Fin 20 → UInt8) : Movie :=
  { m with savedFile := some (m.header revision ++ m.recordedInput) }

/-- What `StartPlayback` requires of a file: that it is longer than a header, and that the header is
not `Invalid`. -/
def accepts (file : List UInt8) : Bool :=
  headerSize < file.length && slice file 0 4 = headerMagicBytes

/-- `StartPlayback` -/
def Movie.startPlayback (m : Movie) (file : List UInt8) : Movie :=
  if accepts file then
    { m with
      playMode := .Playing
      recordMovieAuthor := (slice file 48 32).takeWhile (· ≠ 0)
      rerecordCount := UInt32.ofNat (leValue (slice file 80 4))
      totalInput := UInt64.ofNat (leValue (slice file 84 8))
      recordedInput := file.drop headerSize
      currentByte := 0
      currentInput := 0
      id := UInt64.ofNat (leValue (slice file 40 8))
      programId := UInt64.ofNat (leValue (slice file 4 8)) }
  else m

/-! ### Recording and playing -/

/-- `CheckInputEnd` -/
def Movie.checkInputEnd (m : Movie) : Movie :=
  if m.currentByte + controllerStateSize > m.recordedInput.length then
    { m with playMode := .MovieFinished }
  else m

/-- `Play`; only records of the pad count. -/
def Movie.play (m : Movie) (input : ControllerInput) : Movie × ControllerInput :=
  ({ m with
      currentByte := m.currentByte + controllerStateSize
      currentInput := if input.type = 0 then m.currentInput + 1 else m.currentInput },
    fromControllerState (slice m.recordedInput m.currentByte controllerStateSize) input)

/-- `recorded_input.resize` to the end of the next record, and the record written there. -/
def putRecord (recordedInput : List UInt8) (currentByte : Nat) (state : List UInt8) : List UInt8 :=
  recordedInput.take currentByte ++ List.replicate (currentByte - recordedInput.length) 0 ++ state

/-- `Record` -/
def Movie.record (m : Movie) (input : ControllerInput) : Movie :=
  { m with
    recordedInput := putRecord m.recordedInput m.currentByte (toControllerState input)
    currentByte := m.currentByte + controllerStateSize
    currentInput := if input.type = 0 then m.currentInput + 1 else m.currentInput }

/-- `Handle`: the movie and what the arguments are set to; nothing when the assertion fails. -/
def Movie.handle (m : Movie) (input : ControllerInput) : Option (Movie × ControllerInput) :=
  match m.playMode with
  | .Playing =>
      if m.currentByte + controllerStateSize ≤ m.recordedInput.length then
        let (m, input) := m.play input
        some (m.checkInputEnd, input)
      else none
  | .Recording => some (m.record input, input)
  | _ => some (m, input)

/-- A sequence of calls of the `Handle` functions. -/
def Movie.handles (m : Movie) : List ControllerInput → Option (Movie × List ControllerInput)
  | [] => some (m, [])
  | input :: inputs =>
      (m.handle input).bind fun first =>
        (first.1.handles inputs).map fun rest => (rest.1, first.2 :: rest.2)

/-! ### Savestates -/

/-- What a savestate keeps of a movie. -/
structure SavedMovie where
  currentByte : Nat
  currentInput : UInt64
  recordedInput : List UInt8
  initTime : UInt64
  baseTicks : Int64
  id : UInt64
  postMovie : Bool

/-- The errors `serialize` throws while loading. -/
inductive LoadError where
  | closeMovie
  | otherMovie
  | futureEvent
  | timelineMismatch
  deriving DecidableEq, Repr

/-- `serialize`, saving. -/
def Movie.save (m : Movie) : SavedMovie :=
  ⟨m.currentByte, m.currentInput, m.recordedInput, m.initTime, m.baseTicks, m.id,
    m.playMode = .MovieFinished⟩

/-- `serialize`, loading: the movie it leaves, and the error if it throws. -/
def Movie.load (m : Movie) (revision : Fin 20 → UInt8) (ar : SavedMovie) :
    Movie × Option LoadError :=
  let m := { m with
    currentByte := ar.currentByte
    currentInput := ar.currentInput
    initTime := ar.initTime
    baseTicks := ar.baseTicks }
  if m.id ≠ ar.id then (m, some (if ar.id = 0 then .closeMovie else .otherMovie))
  else if m.id = 0 then (m, none)
  else
    let m := if m.readOnly then m else { m with recordedInput := ar.recordedInput }
    if ar.postMovie then ({ m with playMode := .MovieFinished }, none)
    else if m.readOnly then
      let m := if m.playMode = .Recording then m.saveMovie revision else m
      if m.recordedInput.length ≤ ar.recordedInput.length then (m, some .futureEvent)
      else if ¬ ar.recordedInput <+: m.recordedInput then (m, some .timelineMismatch)
      else
        ({ m with
            playMode := .Playing
            totalInput := UInt64.ofNat (getInputCount m.recordedInput) }, none)
    else
      ({ m with playMode := .Recording, rerecordCount := m.rerecordCount + 1 }, none)

/-! ## The assertion of `Handle` -/

/-- While a movie plays, a whole record is left. -/
def RecordLeft (m : Movie) : Prop :=
  m.playMode = .Playing → m.currentByte + controllerStateSize ≤ m.recordedInput.length

/-- A call of `Handle` succeeds when a record is left, and leaves one when it plays on. -/
theorem handle_of_recordLeft {m : Movie} (h : RecordLeft m) (input : ControllerInput) :
    ∃ m' output, m.handle input = some (m', output) ∧ RecordLeft m' := by
  cases hmode : m.playMode with
  | Playing =>
    have hleft := h hmode
    refine ⟨(m.play input).1.checkInputEnd, (m.play input).2, ?_, ?_⟩
    · simp only [Movie.handle, hmode, if_pos hleft]
    · intro hplaying
      unfold Movie.checkInputEnd at hplaying ⊢
      by_cases hend : (m.play input).1.currentByte + controllerStateSize >
          (m.play input).1.recordedInput.length
      · rw [if_pos hend] at hplaying
        cases hplaying
      · rw [if_neg hend]
        exact Nat.le_of_not_gt hend
  | Recording =>
    refine ⟨m.record input, input, by simp only [Movie.handle, hmode], fun hplaying => ?_⟩
    exact absurd (hmode.symm.trans hplaying) (by decide)
  | None => exact ⟨m, input, by simp only [Movie.handle, hmode], h⟩
  | MovieFinished => exact ⟨m, input, by simp only [Movie.handle, hmode], h⟩

/-- So does a sequence of calls. -/
theorem handles_of_recordLeft {m : Movie} (h : RecordLeft m) (inputs : List ControllerInput) :
    (m.handles inputs).isSome := by
  induction inputs generalizing m with
  | nil => rfl
  | cons input inputs ih =>
    obtain ⟨m', output, hfirst, hnext⟩ := handle_of_recordLeft h input
    obtain ⟨rest, hrest⟩ := Option.isSome_iff_exists.1 (ih hnext)
    rw [Movie.handles, hfirst, Option.bind_some, hrest]
    rfl

/-- The bound `Handle` asserts always holds behind `StartPlayback` exactly when the file has a whole
record behind its header. -/
theorem handles_isSome_iff (m : Movie) {file : List UInt8} (hfile : accepts file = true) :
    (∀ inputs, ((m.startPlayback file).handles inputs).isSome) ↔
      headerSize + controllerStateSize ≤ file.length := by
  have hplayback : RecordLeft (m.startPlayback file) ↔
      headerSize + controllerStateSize ≤ file.length := by
    rw [RecordLeft, Movie.startPlayback, if_pos hfile]
    simp only [List.length_drop, forall_const, headerSize, controllerStateSize]
    omega
  refine ⟨fun h => ?_, fun h inputs => handles_of_recordLeft (hplayback.2 h) inputs⟩
  -- the first call finds out
  obtain ⟨result, hresult⟩ := Option.isSome_iff_exists.1 (h [.accelerometer 0 0 0])
  refine hplayback.1 fun hplaying => ?_
  by_contra hshort
  rw [Movie.handles, Movie.handle, hplaying] at hresult
  simp only [if_neg hshort, Option.bind_none] at hresult
  cases hresult

/-! ## Loading a savestate -/

/-- The archive is one of those `serialize` does not load: of another movie, or, when the movie is
read-only and goes on, not of an earlier point of its recorded input. -/
def Throws (m : Movie) (ar : SavedMovie) : Prop :=
  m.id ≠ ar.id ∨ m.id ≠ 0 ∧ ar.postMovie = false ∧ m.readOnly = true ∧
    (m.recordedInput.length ≤ ar.recordedInput.length ∨ ¬ ar.recordedInput <+: m.recordedInput)

/-- The members that loading assigns are as before. -/
structure Kept (m m' : Movie) : Prop where
  currentByte : m'.currentByte = m.currentByte
  currentInput : m'.currentInput = m.currentInput
  initTime : m'.initTime = m.initTime
  baseTicks : m'.baseTicks = m.baseTicks
  recordedInput : m'.recordedInput = m.recordedInput
  playMode : m'.playMode = m.playMode

/-- Loading throws exactly then, and it has assigned the four members read first. -/
theorem load_throws (m : Movie) (revision : Fin 20 → UInt8) (ar : SavedMovie) :
    ((m.load revision ar).2.isSome ↔ Throws m ar) ∧
      (Throws m ar →
        (m.load revision ar).1.currentByte = ar.currentByte ∧
        (m.load revision ar).1.currentInput = ar.currentInput ∧
        (m.load revision ar).1.initTime = ar.initTime ∧
        (m.load revision ar).1.baseTicks = ar.baseTicks ∧
        (m.load revision ar).1.recordedInput = m.recordedInput ∧
        (m.load revision ar).1.playMode = m.playMode) := by
  unfold Movie.load Throws
  by_cases hid : m.id = ar.id
  · by_cases hzero : ar.id = 0
    · simp [hid, hzero]
    · cases hpost : ar.postMovie with
      | true => simp [hid, hzero]
      | false =>
        cases hreadOnly : m.readOnly with
        | false => simp [hid, hzero]
        | true =>
          by_cases hfuture : m.recordedInput.length ≤ ar.recordedInput.length
          · by_cases hrecording : m.playMode = .Recording <;>
              simp [hid, hzero, hfuture, hrecording, Movie.saveMovie]
          · by_cases hprefix : ar.recordedInput <+: m.recordedInput <;>
              by_cases hrecording : m.playMode = .Recording <;>
              simp [hid, hzero, hfuture, hprefix, hrecording, Movie.saveMovie]
  · simp [hid]

/-- The members loading assigns are as before when it throws, exactly when the archive has the
values the movie has. -/
theorem kept_iff (m : Movie) (revision : Fin 20 → UInt8) (ar : SavedMovie) (h : Throws m ar) :
    Kept m (m.load revision ar).1 ↔ ar.currentByte = m.currentByte ∧
      ar.currentInput = m.currentInput ∧ ar.initTime = m.initTime ∧ ar.baseTicks = m.baseTicks := by
  obtain ⟨hbyte, hinput, htime, hticks, hrecorded, hmode⟩ := (load_throws m revision ar).2 h
  constructor
  · rintro ⟨h₁, h₂, h₃, h₄, -, -⟩
    exact ⟨hbyte.symm.trans h₁, hinput.symm.trans h₂, htime.symm.trans h₃, hticks.symm.trans h₄⟩
  · rintro ⟨h₁, h₂, h₃, h₄⟩
    exact ⟨hbyte.trans h₁, hinput.trans h₂, htime.trans h₃, hticks.trans h₄, hrecorded, hmode⟩

/-- **Movie loading is robust exactly when the file has a whole record behind its header, and an
archive that is refused has the values of the movie in the four members that are read first.** -/
theorem robust_iff (m : Movie) (revision : Fin 20 → UInt8) (file : List UInt8) (ar : SavedMovie) :
    ((accepts file = true → ∀ inputs, ((m.startPlayback file).handles inputs).isSome) ∧
        ((m.load revision ar).2.isSome → Kept m (m.load revision ar).1)) ↔
      (accepts file = true → headerSize + controllerStateSize ≤ file.length) ∧
        (Throws m ar → ar.currentByte = m.currentByte ∧ ar.currentInput = m.currentInput ∧
          ar.initTime = m.initTime ∧ ar.baseTicks = m.baseTicks) := by
  refine and_congr (imp_congr_right fun hfile => handles_isSome_iff m hfile) ?_
  rw [(load_throws m revision ar).1]
  exact imp_congr_right fun hthrows => kept_iff m revision ar hthrows

/-- A movie that was played to its 21st byte, of three records. -/
def playedMovie : Movie where
  playMode := .Playing
  recordMovieAuthor := []
  initTime := 5
  baseTicks := 7
  recordedInput := List.replicate 28 2
  currentByte := 21
  currentInput := 0
  totalInput := 0
  id := 1
  programId := 0
  rerecordCount := 1
  readOnly := true
  savedFile := none

/-- A file with a header and one byte is accepted and fails the assertion at the first call, and the
savestate of another movie is refused behind the first four members. -/
theorem loading_not_robust :
    (accepts (headerMagicBytes ++ List.replicate 253 0) = true ∧
        (playedMovie.startPlayback (headerMagicBytes ++ List.replicate 253 0)).handle
          (.accelerometer 0 0 0) = none) ∧
      (playedMovie.load (fun _ => 0) ⟨0, 0, [], 9, 9, 2, false⟩).2 = some .otherMovie ∧
        (playedMovie.load (fun _ => 0) ⟨0, 0, [], 9, 9, 2, false⟩).1.currentByte = 0 ∧
        playedMovie.currentByte = 21 := by
  refine ⟨⟨by decide +kernel, ?_⟩, by decide +kernel, by decide +kernel, rfl⟩
  exact Option.isNone_iff_eq_none.1 (by decide +kernel)

end AzaharPlus.Core
