import AzaharPlus.Pica.InternalRegs

/-!
# Command lists

`ProcessCmdList` of `video_core/pica/pica_core.cpp` reads commands from a list: a word to write, a
header, and further words that the header announces.  It looks at the length of the list only between
two commands, and a write may switch to another list.

* `cmdList_extras` — where in which list the further words of a command are read.
* `readsInside_command` — the words of one command lie in their lists when it fits.
* `reads_in_list_iff` — the same for whole lists.
-/

namespace AzaharPlus.Pica

/-! ## The header of a command -/

/-- `CommandHeader::cmd_id` -/
def cmdId (header : BitVec 32) : Nat := bitField header 0 16

/-- `CommandHeader::parameter_mask` -/
def parameterMask (header : BitVec 32) : BitVec 4 := BitVec.ofNat 4 (bitField header 16 4)

/-- `CommandHeader::extra_data_length` -/
def extraDataLength (header : BitVec 32) : Nat := bitField header 20 8

/-- `CommandHeader::group_commands` -/
def groupCommands (header : BitVec 32) : Bool := bitField header 31 1 = 1

/-- The register of the write `j` of a command, counted from 0. -/
def writtenReg (header : BitVec 32) (j : Nat) : Nat :=
  cmdId header + (if groupCommands header then j else 0)

namespace PicaCore

variable {F : Type} (floats : FloatFormats F) (memory : Nat → BitVec 32)

/-! ## The code -/

/-- A word of the list is read, and the index advances. -/
def readWord (s : PicaCore F) : BitVec 32 × PicaCore F :=
  (memory (s.cmdList.addr + 4 * s.cmdList.currentIndex),
    { s with cmdList := { s.cmdList with currentIndex := s.cmdList.currentIndex + 1 } }.record
      (.read s.cmdList.currentIndex s.cmdList.length))

/-- The read pointer is aligned to 8 bytes. -/
def alignIndex (s : PicaCore F) : PicaCore F :=
  if s.cmdList.currentIndex % 2 ≠ 0 then
    { s with cmdList := { s.cmdList with currentIndex := s.cmdList.currentIndex + 1 } }
  else s

/-- The header of the next command. -/
def nextHeader (s : PicaCore F) : BitVec 32 :=
  (readWord memory (readWord memory s.alignIndex).2).1

/-- The first write of a command. -/
def firstWrite (s : PicaCore F) : PicaCore F :=
  let (value, s) := readWord memory s.alignIndex
  let (header, s) := readWord memory s
  s.writeInternalReg floats (cmdId header) value (parameterMask header)

/-- One turn of the loop over the extra parameters. -/
def extraParameter (header : BitVec 32) (i : Nat) (s : PicaCore F) : PicaCore F :=
  if s.stopRequested then s
  else
    let (extraValue, s) := readWord memory s
    s.writeInternalReg floats (writtenReg header (i + 1)) extraValue (parameterMask header)

/-- The loop over the extra parameters after so many turns. -/
def extraParameters (header : BitVec 32) : Nat → PicaCore F → PicaCore F
  | 0, s => s
  | n + 1, s => extraParameter floats memory header n (extraParameters header n s)

/-- A turn of the loop over the commands. -/
def processCommand (s : PicaCore F) : PicaCore F :=
  let header := nextHeader memory s
  extraParameters floats memory header (extraDataLength header) (firstWrite floats memory s)

/-- The loop goes on. -/
def Running (s : PicaCore F) : Prop :=
  s.cmdList.currentIndex < s.cmdList.length ∧ s.stopRequested = false

instance (s : PicaCore F) : Decidable s.Running := inferInstanceAs (Decidable (_ ∧ _))

/-- The loop over the commands after so many turns. -/
def processLoop : Nat → PicaCore F → PicaCore F
  | 0, s => s
  | n + 1, s =>
      let t := processLoop n s
      if t.Running then processCommand floats memory t else t

/-- The state in which `ProcessCmdList` begins to read a list. -/
def startList (s : PicaCore F) (list size : Nat) : PicaCore F :=
  { s.resetCommandList list size with stopRequested := false, history := [] }

/-- `ProcessCmdList`, with so many turns of its loop. -/
def processCmdList (s : PicaCore F) (list size : Nat) (ignoreList : Bool) (turns : Nat) :
    PicaCore F :=
  if ignoreList then { s with history := [] }.record .signalInterrupt
  else processLoop floats memory turns (s.startList list size)

/-! ## The words that are read -/

/-- A word that is read: its index, and the length of the list. -/
def readOf : RegEvent F → Option (Nat × Nat)
  | .read index length => some (index, length)
  | _ => none

/-- The words that have been read. -/
def reads (s : PicaCore F) : List (Nat × Nat) := s.history.filterMap readOf

/-- All words that have been read lie in their lists. -/
def ReadsInside (s : PicaCore F) : Prop := ∀ r ∈ s.reads, r.1 < r.2

/-- The channel to which the write of a register switches. -/
def switchesTo (id : Nat) : Option Nat :=
  match switchLabel id with
  | .commandTrigger channel => some channel
  | _ => none

/-- The last of the writes `0` to `j` of a command that switches lists, and its channel. -/
def lastSwitch (header : BitVec 32) : Nat → Option (Nat × Nat)
  | 0 => (switchesTo (writtenReg header 0)).map (0, ·)
  | j + 1 =>
      match switchesTo (writtenReg header (j + 1)) with
      | some channel => some (j + 1, channel)
      | none => lastSwitch header j

/-- The state behind the write `j` of a command. -/
def afterWrite (s : PicaCore F) (j : Nat) : PicaCore F :=
  extraParameters floats memory (nextHeader memory s) j (firstWrite floats memory s)

/-- The word behind the write `j` of a command: its index in the list to which the command has
switched last, or in its own list, and the length of that list. -/
def placeAfter (s : PicaCore F) (j : Nat) : Nat × Nat :=
  match lastSwitch (nextHeader memory s) j with
  | none => (s.alignIndex.cmdList.currentIndex + 2 + j, s.cmdList.length)
  | some (t, channel) => (j - t, (afterWrite floats memory s t).commandBufferSize channel / 4)

/-- A command fits: its first two words lie in the list, and so does each further word in its list,
unless the command list stops before. -/
structure CommandFits (s : PicaCore F) : Prop where
  head : s.alignIndex.cmdList.currentIndex + 1 < s.cmdList.length
  extra : ∀ j < extraDataLength (nextHeader memory s),
    (afterWrite floats memory s j).stopRequested = false →
      (placeAfter floats memory s j).1 < (placeAfter floats memory s j).2

/-! ## What a write does to the list -/

variable {floats memory}

theorem reads_record (s : PicaCore F) (event : RegEvent F) :
    (s.record event).reads = s.reads ++ (readOf event).toList := by
  unfold reads record
  rw [List.filterMap_append]
  cases event with
  | read index length => rfl
  | _ => rfl

/-- The list is the same, and nothing has been read. -/
structure KeepsList (s t : PicaCore F) : Prop where
  cmdList : t.cmdList = s.cmdList
  reads : t.reads = s.reads

theorem KeepsList.refl (s : PicaCore F) : KeepsList s s := ⟨rfl, rfl⟩

theorem KeepsList.trans {s t u : PicaCore F} (h : KeepsList s t) (h' : KeepsList t u) :
    KeepsList s u := ⟨h'.cmdList.trans h.cmdList, h'.reads.trans h.reads⟩

theorem keepsList_record (s : PicaCore F) {event : RegEvent F} (h : readOf event = none) :
    KeepsList s (s.record event) := by
  refine ⟨rfl, ?_⟩
  rw [reads_record, h]
  exact List.append_nil _

theorem keepsList_withSetup (s : PicaCore F) (kind : ShaderKind) (setup : ShaderSetup F) :
    KeepsList s (s.withSetup kind setup) := by
  cases kind with
  | vs => exact ⟨rfl, rfl⟩
  | gs => exact ⟨rfl, rfl⟩

theorem keepsList_setReg (s : PicaCore F) (id : Nat) (value : BitVec 32) :
    KeepsList s (s.setReg id value) := ⟨rfl, rfl⟩

theorem keepsList_writeShaderWord (s : PicaCore F) (kind : ShaderKind) (offsetReg limit : Nat)
    (value : BitVec 32) (store : ShaderSetup F → Nat → BitVec 32 → ShaderSetup F) :
    KeepsList s (s.writeShaderWord kind offsetReg limit value store) := by
  unfold writeShaderWord
  simp only
  split
  · exact KeepsList.refl s
  · refine KeepsList.trans ?_ (keepsList_setReg _ _ _)
    split
    · exact (keepsList_withSetup s kind _).trans (keepsList_withSetup _ .gs _)
    · exact keepsList_withSetup s kind _

theorem keepsList_forBoth (s : PicaCore F) (kind : ShaderKind)
    {write : ShaderKind → PicaCore F → PicaCore F} (h : ∀ kind t, KeepsList t (write kind t)) :
    KeepsList s (s.forBoth kind write) := by
  unfold forBoth
  simp only
  split
  · exact (h kind s).trans (h .gs _)
  · exact h kind s

theorem keepsList_placeAttribute (s : PicaCore F) (attr : Vec4 F) :
    KeepsList s (s.placeAttribute attr) := by
  unfold placeAttribute
  split
  · refine KeepsList.trans ?_ (keepsList_record _ rfl)
    exact ⟨rfl, rfl⟩
  · have hplaced : KeepsList s
        ({ s with
          immediate := { s.immediate with
            inputVertex :=
              Function.update s.immediate.inputVertex s.immediate.currentAttribute attr } }.record
          (.storeInput s.immediate.currentAttribute)) := by
      refine KeepsList.trans ?_ (keepsList_record _ rfl)
      exact ⟨rfl, rfl⟩
    simp only
    split
    · exact hplaced.trans ⟨rfl, rfl⟩
    · refine hplaced.trans (KeepsList.trans ?_ (keepsList_record _ rfl))
      exact ⟨rfl, rfl⟩

theorem keepsList_submitImmediate (s : PicaCore F) (value : BitVec 32) :
    KeepsList s (s.submitImmediate floats value) := by
  have hpushed (queue : PackedAttribute) (index : Nat) : KeepsList s
      ({ s with immediate := { s.immediate with queue := queue } }.record (.push index)) := by
    refine KeepsList.trans ?_ (keepsList_record _ rfl)
    exact ⟨rfl, rfl⟩
  unfold submitImmediate
  simp only
  split
  · exact hpushed _ _
  · split
    · exact hpushed _ _
    · refine KeepsList.trans ?_ (keepsList_placeAttribute _ _)
      refine KeepsList.trans ?_ (keepsList_record _ rfl)
      exact (hpushed _ _).trans ⟨rfl, rfl⟩

theorem keepsList_writeUniformFloatReg (s : PicaCore F) (kind : ShaderKind) (value : BitVec 32) :
    KeepsList s (s.writeUniformFloatReg floats kind value).1 := by
  have hpushed : KeepsList s (s.pushUniform kind value).1 :=
    (keepsList_withSetup s kind _).trans (keepsList_record _ rfl)
  unfold writeUniformFloatReg
  simp only
  split
  · exact hpushed
  · have htaken : KeepsList s ((s.pushUniform kind value).1.takeUniform floats kind).1 :=
      hpushed.trans ((keepsList_withSetup _ kind _).trans
        (keepsList_record _ rfl))
    unfold storeUniform
    simp only
    split
    · exact htaken
    · exact htaken.trans ((keepsList_withSetup _ kind _).trans (keepsList_setReg _ _ _))

/-- Only a trigger of the command buffer switches to another list. -/
theorem keepsList_sideEffect (s : PicaCore F) (value : BitVec 32) {c : RegCase}
    (h : ∀ channel, c ≠ .commandTrigger channel) : KeepsList s (s.sideEffect floats value c) := by
  cases c with
  | irqRequest =>
    rw [sideEffect]
    split
    · refine KeepsList.trans ?_ (keepsList_record _ rfl)
      exact ⟨rfl, rfl⟩
    · exact KeepsList.refl s
  | triangleTopology => exact keepsList_record s rfl
  | restartPrimitive => exact keepsList_record s rfl
  | defaultAttributeIndex => exact ⟨rfl, rfl⟩
  | defaultAttributeValue => exact keepsList_submitImmediate s value
  | commandTrigger channel => exact absurd rfl (h channel)
  | triggerDraw isIndexed => exact keepsList_record s rfl
  | boolUniforms kind =>
    rw [sideEffect]
    exact keepsList_forBoth s kind fun kind t => keepsList_withSetup t kind _
  | intUniform kind index =>
    rw [sideEffect]
    exact keepsList_forBoth s kind fun kind t => keepsList_withSetup t kind _
  | floatUniform kind =>
    have hwritten : KeepsList s (s.writeUniformFloatReg floats kind value).1 :=
      keepsList_writeUniformFloatReg s kind value
    rw [sideEffect]
    simp only
    split
    · exact hwritten
    · split
      · exact hwritten.trans (keepsList_withSetup _ .gs _)
      · exact hwritten
  | programWord kind =>
    rw [sideEffect]
    exact keepsList_writeShaderWord s kind _ _ value _
  | swizzleWord kind =>
    rw [sideEffect]
    exact keepsList_writeShaderWord s kind _ _ value _
  | vsOutputMask =>
    rw [sideEffect]
    split
    · exact keepsList_setReg s _ _
    · exact KeepsList.refl s
  | lightingLut => exact keepsList_setReg s _ _
  | fogLut => exact keepsList_setReg s _ _
  | proctexLut => exact keepsList_setReg s _ _
  | other => exact KeepsList.refl s

theorem shaderLabel_ne (kind : ShaderKind) (offset channel : Nat) :
    shaderLabel kind offset ≠ .commandTrigger channel := by
  unfold shaderLabel
  intro h
  repeat' split at h
  all_goals cases h

/-- The two registers that switch lists. -/
theorem switchLabel_commandTrigger {id channel : Nat}
    (h : switchLabel id = .commandTrigger channel) :
    (id = 0x23c ∧ channel = 0) ∨ (id = 0x23d ∧ channel = 1) := by
  by_cases htrigger : id = 0x23c ∨ id = 0x23d
  · rcases htrigger with rfl | rfl
    · cases h
      exact Or.inl ⟨rfl, rfl⟩
    · cases h
      exact Or.inr ⟨rfl, rfl⟩
  · unfold switchLabel at h
    simp only [if_neg htrigger] at h
    repeat' split at h
    all_goals first | exact absurd h (shaderLabel_ne _ _ _) | cases h

/-- A write to another register. -/
theorem keepsList_write (s : PicaCore F) {id : Nat} (h : switchesTo id = none)
    (value : BitVec 32) (mask : BitVec 4) :
    KeepsList s (s.writeInternalReg floats id value mask) := by
  unfold writeInternalReg
  split
  · exact KeepsList.refl s
  · refine (keepsList_setReg s id _).trans (keepsList_sideEffect _ value fun channel hcase => ?_)
    rw [switchesTo, hcase] at h
    cases h

/-- A write that switches lists. -/
theorem cmdList_trigger (s : PicaCore F) {id channel : Nat} (h : switchesTo id = some channel)
    (value : BitVec 32) (mask : BitVec 4) :
    (s.writeInternalReg floats id value mask).cmdList.currentIndex = 0 ∧
      (s.writeInternalReg floats id value mask).cmdList.length =
        (s.writeInternalReg floats id value mask).commandBufferSize channel / 4 ∧
      (s.writeInternalReg floats id value mask).reads = s.reads := by
  have hcase : switchLabel id = .commandTrigger channel := by
    unfold switchesTo at h
    split at h
    · rename_i hcase
      cases h
      exact hcase
    · cases h
  have hregs := switchLabel_commandTrigger hcase
  unfold writeInternalReg
  rw [if_neg (by unfold numRegs; omega), hcase]
  exact ⟨rfl, rfl, rfl⟩

/-! ## The words of a command -/

theorem reads_readWord (s : PicaCore F) : (readWord memory s).2.reads =
    s.reads ++ [(s.cmdList.currentIndex, s.cmdList.length)] := reads_record _ _

theorem reads_write (s : PicaCore F) (id : Nat) (value : BitVec 32) (mask : BitVec 4) :
    (s.writeInternalReg floats id value mask).reads = s.reads := by
  cases h : switchesTo id with
  | none => exact (keepsList_write s h value mask).reads
  | some channel => exact (cmdList_trigger s h value mask).2.2

theorem alignIndex_length (s : PicaCore F) : s.alignIndex.cmdList.length = s.cmdList.length := by
  unfold alignIndex
  split
  · rfl
  · rfl

theorem reads_alignIndex (s : PicaCore F) : s.alignIndex.reads = s.reads := by
  unfold alignIndex
  split
  · rfl
  · rfl

theorem lastSwitch_le {header : BitVec 32} {j t channel : Nat}
    (h : lastSwitch header j = some (t, channel)) : t ≤ j := by
  induction j with
  | zero =>
    rw [lastSwitch, Option.map_eq_some_iff] at h
    obtain ⟨_, _, heq⟩ := h
    cases heq
    exact Nat.le_refl 0
  | succ j ih =>
    rw [lastSwitch] at h
    split at h
    · cases h
      exact Nat.le_refl _
    · exact Nat.le_succ_of_le (ih h)

/-- The states behind the writes of a command, one after another. -/
theorem afterWrite_succ (s : PicaCore F) (j : Nat) :
    afterWrite floats memory s (j + 1) =
      extraParameter floats memory (nextHeader memory s) j (afterWrite floats memory s j) := rfl

/-- A further write while the list goes on. -/
theorem afterWrite_succ_running (s : PicaCore F) (j : Nat)
    (h : (afterWrite floats memory s j).stopRequested = false) :
    afterWrite floats memory s (j + 1) =
      (readWord memory (afterWrite floats memory s j)).2.writeInternalReg floats
        (writtenReg (nextHeader memory s) (j + 1))
        (readWord memory (afterWrite floats memory s j)).1
        (parameterMask (nextHeader memory s)) := by
  rw [afterWrite_succ, extraParameter, if_neg (by rw [h]; exact Bool.false_ne_true)]

/-- Once the list stops nothing more is written. -/
theorem running_of_running {s : PicaCore F} {i j : Nat} (hij : i ≤ j)
    (h : (afterWrite floats memory s j).stopRequested = false) :
    (afterWrite floats memory s i).stopRequested = false := by
  induction j with
  | zero => exact Nat.le_zero.1 hij ▸ h
  | succ j ih =>
    rcases Nat.le_or_eq_of_le_succ hij with hle | heq
    · refine ih hle ?_
      by_contra hstop
      rw [Bool.not_eq_false] at hstop
      rw [afterWrite_succ, extraParameter, if_pos hstop, hstop] at h
      cases h
    · exact heq ▸ h

/-- Where in which list the word behind a write is read. -/
theorem cmdList_extras (s : PicaCore F) (j : Nat)
    (h : (afterWrite floats memory s j).stopRequested = false) :
    (afterWrite floats memory s j).cmdList.currentIndex = (placeAfter floats memory s j).1 ∧
      (afterWrite floats memory s j).cmdList.length = (placeAfter floats memory s j).2 := by
  induction j with
  | zero =>
    have hreg : writtenReg (nextHeader memory s) 0 = cmdId (nextHeader memory s) := by
      unfold writtenReg
      simp
    unfold placeAfter lastSwitch
    cases hswitch : switchesTo (writtenReg (nextHeader memory s) 0) with
    | none =>
      rw [hreg] at hswitch
      have hkeeps : (firstWrite floats memory s).cmdList = _ :=
        (keepsList_write (readWord memory (readWord memory s.alignIndex).2).2 hswitch
          (readWord memory s.alignIndex).1 (parameterMask (nextHeader memory s))).cmdList
      change (firstWrite floats memory s).cmdList.currentIndex = _ ∧
        (firstWrite floats memory s).cmdList.length = _
      rw [hkeeps]
      exact ⟨rfl, alignIndex_length s⟩
    | some channel =>
      rw [hreg] at hswitch
      have hwritten : (firstWrite floats memory s).cmdList.currentIndex = 0 ∧
          (firstWrite floats memory s).cmdList.length =
            (firstWrite floats memory s).commandBufferSize channel / 4 ∧ _ :=
        cmdList_trigger (readWord memory (readWord memory s.alignIndex).2).2 hswitch
          (readWord memory s.alignIndex).1 (parameterMask (nextHeader memory s))
      exact ⟨hwritten.1, hwritten.2.1⟩
  | succ j ih =>
    have hbefore := running_of_running (Nat.le_succ j) h
    obtain ⟨hindex, hlength⟩ := ih hbefore
    have hafter := afterWrite_succ_running s j hbefore
    unfold placeAfter lastSwitch
    cases hswitch : switchesTo (writtenReg (nextHeader memory s) (j + 1)) with
    | none =>
      have hkeeps : (afterWrite floats memory s (j + 1)).cmdList =
          (readWord memory (afterWrite floats memory s j)).2.cmdList := by
        rw [hafter]
        exact (keepsList_write _ hswitch _ _).cmdList
      have hnext : (afterWrite floats memory s (j + 1)).cmdList.currentIndex =
          (placeAfter floats memory s j).1 + 1 := by
        rw [hkeeps, ← hindex]
        rfl
      have hsame : (afterWrite floats memory s (j + 1)).cmdList.length =
          (placeAfter floats memory s j).2 := by
        rw [hkeeps, ← hlength]
        rfl
      rw [hnext, hsame]
      unfold placeAfter
      cases hlast : lastSwitch (nextHeader memory s) j with
      | none => exact ⟨Nat.add_assoc _ j 1, rfl⟩
      | some last =>
        obtain ⟨t, channel⟩ := last
        have hle : t ≤ j := lastSwitch_le hlast
        exact ⟨(Nat.sub_add_comm hle).symm, rfl⟩
    | some channel =>
      have hwritten : (afterWrite floats memory s (j + 1)).cmdList.currentIndex = 0 ∧
          (afterWrite floats memory s (j + 1)).cmdList.length =
            (afterWrite floats memory s (j + 1)).commandBufferSize channel / 4 := by
        rw [hafter]
        exact (cmdList_trigger _ hswitch _ _).imp_right And.left
      exact ⟨hwritten.1.trans (Nat.sub_self _).symm, hwritten.2⟩

/-! ## The words of whole lists -/

/-- The words that are read with an extra parameter. -/
theorem reads_extraParameter (header : BitVec 32) (i : Nat) (s : PicaCore F) :
    (extraParameter floats memory header i s).reads =
      s.reads ++
        if s.stopRequested then [] else [(s.cmdList.currentIndex, s.cmdList.length)] := by
  unfold extraParameter
  cases hstop : s.stopRequested with
  | true => exact (List.append_nil _).symm
  | false =>
    have hread : (readWord memory s).2.reads = _ := reads_readWord s
    exact (reads_write _ _ _ _).trans hread

/-- The first two words of a command are read. -/
theorem reads_firstWrite (s : PicaCore F) :
    (firstWrite floats memory s).reads = s.reads ++
      [(s.alignIndex.cmdList.currentIndex, s.cmdList.length),
        (s.alignIndex.cmdList.currentIndex + 1, s.cmdList.length)] := by
  have hread : (firstWrite floats memory s).reads =
      (readWord memory (readWord memory s.alignIndex).2).2.reads := reads_write _ _ _ _
  rw [hread, reads_readWord, reads_readWord, reads_alignIndex, List.append_assoc,
    ← alignIndex_length s]
  rfl

/-- The words read up to a write of a command lie in their lists. -/
theorem readsInside_afterWrite (s : PicaCore F) (n : Nat) :
    ReadsInside (afterWrite floats memory s n) ↔
      ReadsInside s ∧ s.alignIndex.cmdList.currentIndex + 1 < s.cmdList.length ∧
        ∀ j < n, (afterWrite floats memory s j).stopRequested = false →
          (placeAfter floats memory s j).1 < (placeAfter floats memory s j).2 := by
  induction n with
  | zero =>
    have hreads : (afterWrite floats memory s 0).reads = _ := reads_firstWrite s
    unfold ReadsInside
    rw [hreads]
    simp only [List.forall_mem_append, List.forall_mem_cons, List.not_mem_nil, false_implies,
      implies_true, and_true, Nat.not_lt_zero]
    exact and_congr_right fun _ => ⟨fun h => h.2, fun h => ⟨by omega, h⟩⟩
  | succ n ih =>
    have hreads : ReadsInside (afterWrite floats memory s (n + 1)) ↔
        ReadsInside (afterWrite floats memory s n) ∧
          ((afterWrite floats memory s n).stopRequested = false →
            (placeAfter floats memory s n).1 < (placeAfter floats memory s n).2) := by
      rw [ReadsInside, afterWrite_succ, reads_extraParameter, List.forall_mem_append]
      refine and_congr_right fun _ => ?_
      cases hstop : (afterWrite floats memory s n).stopRequested with
      | true => simp
      | false =>
        obtain ⟨hindex, hlength⟩ := cmdList_extras s n hstop
        simp [hindex, hlength]
    rw [hreads, ih, and_assoc, and_assoc]
    refine and_congr_right fun _ => and_congr_right fun _ => ?_
    constructor
    · rintro ⟨hall, hlast⟩ j hj
      rcases Nat.lt_or_eq_of_le (Nat.le_of_lt_succ hj) with hlt | rfl
      · exact hall j hlt
      · exact hlast
    · intro hall
      exact ⟨fun j hj => hall j (Nat.lt_succ_of_lt hj), hall n (Nat.lt_succ_self n)⟩

/-- The words of one command lie in their lists when it fits, and only then. -/
theorem readsInside_command (s : PicaCore F) :
    ReadsInside (processCommand floats memory s) ↔
      ReadsInside s ∧ CommandFits floats memory s := by
  refine (readsInside_afterWrite s (extraDataLength (nextHeader memory s))).trans ?_
  exact and_congr_right fun _ => ⟨fun h => ⟨h.1, h.2⟩, fun h => ⟨h.head, h.extra⟩⟩

/-- A turn of the loop. -/
theorem processLoop_succ (s : PicaCore F) (n : Nat) :
    processLoop floats memory (n + 1) s =
      if (processLoop floats memory n s).Running then
        processCommand floats memory (processLoop floats memory n s)
      else processLoop floats memory n s := rfl

/-- The words read in so many turns lie in their lists. -/
theorem readsInside_processLoop {s : PicaCore F} (h : ReadsInside s) (turns : Nat) :
    ReadsInside (processLoop floats memory turns s) ↔
      ∀ k < turns, (processLoop floats memory k s).Running →
        CommandFits floats memory (processLoop floats memory k s) := by
  induction turns with
  | zero => exact ⟨fun _ k hk => absurd hk (Nat.not_lt_zero k), fun _ => h⟩
  | succ n ih =>
    have hturn : ReadsInside (processLoop floats memory (n + 1) s) ↔
        ReadsInside (processLoop floats memory n s) ∧
          ((processLoop floats memory n s).Running →
            CommandFits floats memory (processLoop floats memory n s)) := by
      rw [processLoop_succ]
      by_cases hrun : (processLoop floats memory n s).Running
      · rw [if_pos hrun, readsInside_command]
        simp [hrun]
      · rw [if_neg hrun]
        simp [hrun]
    rw [hturn, ih]
    constructor
    · rintro ⟨hall, hlast⟩ k hk
      rcases Nat.lt_or_eq_of_le (Nat.le_of_lt_succ hk) with hlt | rfl
      · exact hall k hlt
      · exact hlast
    · intro hall
      exact ⟨fun k hk => hall k (Nat.lt_succ_of_lt hk), hall n (Nat.lt_succ_self n)⟩

/-- Every word that `ProcessCmdList` reads lies in its list when every command that it comes to fits,
and only then. -/
theorem reads_in_list_iff (floats : FloatFormats F) (memory : Nat → BitVec 32) (s : PicaCore F)
    (list size : Nat) :
    (∀ turns, ReadsInside (processCmdList floats memory s list size false turns)) ↔
      ∀ k, (processCmdList floats memory s list size false k).Running →
        CommandFits floats memory (processCmdList floats memory s list size false k) := by
  have hstart : ReadsInside (s.startList list size) := by
    intro r hr
    cases hr
  have hloop (turns : Nat) :
      ReadsInside (processCmdList floats memory s list size false turns) ↔ _ :=
    readsInside_processLoop hstart turns
  constructor
  · intro hall k hrun
    exact (hloop (k + 1)).1 (hall (k + 1)) k (Nat.lt_succ_self k) hrun
  · intro hall turns
    exact (hloop turns).2 fun k _ => hall k

/-- A list of 8 bytes whose one command announces a third word: the write goes to no register, and
the third word is read behind the list. -/
theorem reads_announced :
    (processCmdList rawFloats (fun a => if a = 4 then 0x0010ffff else 0) emptyCore 0 8 false 1).reads =
        [(0, 2), (1, 2), (2, 2)] ∧
      ¬ ReadsInside (processCmdList rawFloats (fun a => if a = 4 then 0x0010ffff else 0)
        emptyCore 0 8 false 1) := by
  have hreads : (processCmdList rawFloats (fun a => if a = 4 then 0x0010ffff else 0)
      emptyCore 0 8 false 1).reads = [(0, 2), (1, 2), (2, 2)] := by
    decide +kernel
  refine ⟨hreads, fun h => ?_⟩
  have hlast := h (2, 2) (by rw [hreads]; decide)
  exact absurd hlast (by decide)

end PicaCore

end AzaharPlus.Pica
