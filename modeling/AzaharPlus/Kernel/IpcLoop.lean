import AzaharPlus.Kernel.Ipc

/-!
# The loop over the descriptors of a command

The descriptors of a command, without the loop that translates them: `params` reads them
off the words, and `handleWords` and `bufferWords` are the words that belong to them.

`translateParams_success` and `translateParams_exists` take the loop apart: it is the
handle words sent one after the other, and the buffers translated one after the other.
-/

namespace AzaharPlus.Kernel

/-! ## The descriptors of a command -/

/-- A descriptor with words that are translated. -/
inductive Param
  | handles (descriptor : UInt32) (pos count : Nat)
  | buffer (descriptor : UInt32) (pos : Nat)

/-- A descriptor of handles, if they are in the command; `i` is behind it. -/
def handleParam (commandSize i : Nat) (descriptor : UInt32) : Option (List Param × Nat) :=
  if i + handleNumberFromDesc descriptor > commandSize then none
  else some ([.handles descriptor i (handleNumberFromDesc descriptor)],
    i + handleNumberFromDesc descriptor)

/-- The descriptor at the word `i`, and where the next one is. -/
def param (words : Nat → UInt32) (commandSize i : Nat) : Option (List Param × Nat) :=
  match getDescriptorType (words i) with
  | .copyHandle | .moveHandle => handleParam commandSize (i + 1) (words i)
  | .callingPid => some ([], i + 1 + 1)
  | .staticBuffer | .mappedBuffer => some ([.buffer (words i) (i + 1)], i + 1 + 1)
  | .pxiBuffer | .unnamed => some ([], i + 1)

/-- The descriptors of a command from the word `i` on. -/
def params (words : Nat → UInt32) (commandSize : Nat) : Nat → Nat → Option (List Param)
  | fuel, i =>
      if i < commandSize then
        match fuel with
        | 0 => none
        | fuel + 1 =>
            match param words commandSize i with
            | none => none
            | some (ps, i) => (params words commandSize fuel i).map (ps ++ ·)
      else some []

/-- The handle words of the descriptors: each with its descriptor and its place. -/
def handleWords : List Param → List (UInt32 × Nat)
  | [] => []
  | .handles descriptor pos count :: ps =>
      (List.range' pos count).map (descriptor, ·) ++ handleWords ps
  | .buffer _ _ :: ps => handleWords ps

/-- The buffer words of the descriptors. -/
def bufferWords : List Param → List (UInt32 × Nat)
  | [] => []
  | .handles _ _ _ :: ps => bufferWords ps
  | .buffer descriptor pos :: ps => (descriptor, pos) :: bufferWords ps

theorem handleWords_append (ps qs : List Param) :
    handleWords (ps ++ qs) = handleWords ps ++ handleWords qs := by
  induction ps with
  | nil => rfl
  | cons p ps ih => cases p <;> simp [handleWords, ih]

theorem bufferWords_append (ps qs : List Param) :
    bufferWords (ps ++ qs) = bufferWords ps ++ bufferWords qs := by
  induction ps with
  | nil => rfl
  | cons p ps ih => cases p <;> simp [bufferWords, ih]

/-- The handle words with the handles in them. -/
def handleItems (words : Nat → UInt32) (ws : List (UInt32 × Nat)) : List (UInt32 × Handle) :=
  ws.map fun w => (w.1, words w.2)

namespace Translator

variable {Obj R Mem : Type} (T : Translator Obj R Mem)

/-- Handles sent one after the other. -/
def sendAll : List (UInt32 × Handle) → HandleTable Obj → R →
    Option (List UInt32 × HandleTable Obj × R)
  | [], src, receiver => some ([], src, receiver)
  | (descriptor, handle) :: items, src, receiver =>
      (T.send descriptor handle src receiver).bind fun (word, src, receiver) =>
        (sendAll items src receiver).map fun (outs, rest) => (word :: outs, rest)

/-- Buffers translated one after the other. -/
def bufferAll (words : Nat → UInt32) : List (UInt32 × Nat) → Mem → Option Mem
  | [], mem => some mem
  | (descriptor, pos) :: ws, mem =>
      (T.buffer mem descriptor (words pos)).bind fun (_, mem) => bufferAll words ws mem

theorem sendAll_append (items₁ items₂ : List (UInt32 × Handle)) (src : HandleTable Obj)
    (receiver : R) :
    T.sendAll (items₁ ++ items₂) src receiver =
      (T.sendAll items₁ src receiver).bind fun (outs₁, src, receiver) =>
        (T.sendAll items₂ src receiver).map fun (outs₂, rest) => (outs₁ ++ outs₂, rest) := by
  induction items₁ generalizing src receiver with
  | nil => simp [sendAll]
  | cons item items₁ ih =>
    obtain ⟨d, h⟩ := item
    simp only [List.cons_append, sendAll, ih]
    cases T.send d h src receiver with
    | none => rfl
    | some r =>
      obtain ⟨word, src, receiver⟩ := r
      simp only [Option.bind_some]
      cases T.sendAll items₁ src receiver with
      | none => rfl
      | some r => simp [Function.comp_def]

/-- A word is read as it was sent as long as it was not translated. -/
def ReadsAhead : Prop :=
  ∀ (cmdBuf : Nat → UInt32) (i : Nat) (word : UInt32) (p : Nat), p ≠ i →
    T.reads (Function.update cmdBuf i word) p = T.reads cmdBuf p

/-- The loop over the handles of a descriptor sends them one after the other. -/
theorem translateHandles_some (hT : T.ReadsAhead) {words : Nat → UInt32} {d : UInt32} : ∀ (n : Nat)
    {i : Nat} {s s' : Translation Obj R Mem}, (∀ p, i ≤ p → T.reads s.cmdBuf p = words p) →
    T.translateHandles d n i s = some s' → ∃ outs,
      T.sendAll (handleItems words ((List.range' i n).map (d, ·))) s.src s.receiver =
        some (outs, s'.src, s'.receiver) ∧
      List.Forall₂ (fun (w : UInt32 × Nat) o => s'.cmdBuf w.2 = o)
        ((List.range' i n).map (d, ·)) outs ∧
      s'.mem = s.mem ∧ (∀ p, p < i → s'.cmdBuf p = s.cmdBuf p) ∧
      (∀ p, i + n ≤ p → T.reads s'.cmdBuf p = words p) := by
  intro n
  induction n with
  | zero =>
    intro i s s' hw h
    obtain rfl := Option.some.inj h
    exact ⟨[], rfl, .nil, rfl, fun _ _ => rfl, hw⟩
  | succ n ih =>
    intro i s s' hw h
    rw [translateHandles, Option.bind_eq_some_iff] at h
    obtain ⟨⟨word, src, receiver⟩, hsend, h⟩ := h
    obtain ⟨outs, hall, hfor, hmem, hlow, hhigh⟩ := ih (i := i + 1) (by
      intro p hp
      simp only
      rw [hT _ _ _ _ (by omega)]
      exact hw p (by omega)) h
    refine ⟨word :: outs, ?_, ?_, hmem, ?_, fun p hp => hhigh p (by omega)⟩
    · rw [hw i le_rfl] at hsend
      simp only [List.range'_succ, List.map_cons, handleItems, sendAll, hsend, Option.bind_some]
      rw [handleItems] at hall
      simp only at hall
      rw [hall]
      rfl
    · rw [List.range'_succ, List.map_cons]
      refine .cons ?_ hfor
      rw [hlow i (by omega)]
      exact Function.update_self ..
    · intro p hp
      rw [hlow p (by omega)]
      exact Function.update_of_ne (by omega) ..

theorem translateHandles_exists (hT : T.ReadsAhead) {words : Nat → UInt32} {d : UInt32} :
    ∀ (n : Nat) {i : Nat} {s : Translation Obj R Mem},
    (∀ p, i ≤ p → T.reads s.cmdBuf p = words p) →
    (T.sendAll (handleItems words ((List.range' i n).map (d, ·))) s.src s.receiver).isSome →
    (T.translateHandles d n i s).isSome := by
  intro n
  induction n with
  | zero => intro i s _ _; rfl
  | succ n ih =>
    intro i s hw h
    simp only [List.range'_succ, List.map_cons, handleItems, sendAll] at h
    rw [translateHandles, hw i le_rfl]
    cases hsend : T.send d (words i) s.src s.receiver with
    | none => rw [hsend] at h; exact absurd h (by simp)
    | some r =>
      obtain ⟨word, src, receiver⟩ := r
      rw [hsend, Option.bind_some, Option.isSome_map] at h
      refine ih (fun p hp => ?_) h
      simp only
      rw [hT _ _ _ _ (by omega)]
      exact hw p (by omega)

theorem bufferAll_append (words : Nat → UInt32) (ws₁ ws₂ : List (UInt32 × Nat)) (mem : Mem) :
    T.bufferAll words (ws₁ ++ ws₂) mem =
      (T.bufferAll words ws₁ mem).bind (T.bufferAll words ws₂) := by
  induction ws₁ generalizing mem with
  | nil => rfl
  | cons w ws₁ ih =>
    obtain ⟨d, pos⟩ := w
    simp only [List.cons_append, bufferAll]
    cases T.buffer mem d (words pos) with
    | none => rfl
    | some r => exact ih r.2

/-- From one state of the loop to another the words of some descriptors were translated. -/
structure Did (words : Nat → UInt32) (ps : List Param) (s s' : Translation Obj R Mem)
    (outs : List UInt32) : Prop where
  buffers : T.bufferAll words (bufferWords ps) s.mem = some s'.mem
  handles : T.sendAll (handleItems words (handleWords ps)) s.src s.receiver =
    some (outs, s'.src, s'.receiver)
  written : List.Forall₂ (fun (w : UInt32 × Nat) o => s'.cmdBuf w.2 = o) (handleWords ps) outs

/-- The words from `i` on are still to be read as they were sent. -/
def Ahead (words : Nat → UInt32) (i : Nat) (s : Translation Obj R Mem) : Prop :=
  ∀ p, i ≤ p → T.reads s.cmdBuf p = words p

/-- The words below `i` are the same in both states. -/
def Behind (i : Nat) (s s' : Translation Obj R Mem) : Prop :=
  ∀ p, p < i → s'.cmdBuf p = s.cmdBuf p

variable {T}

theorem Ahead.update (hT : T.ReadsAhead) {words : Nat → UInt32} {i : Nat}
    {s : Translation Obj R Mem} (h : T.Ahead words i s) (word : UInt32) (mem : Mem) :
    T.Ahead words (i + 1) { s with cmdBuf := Function.update s.cmdBuf i word, mem := mem } := by
  intro p hp
  simp only
  rw [hT _ _ _ _ (by omega)]
  exact h p (by omega)

theorem behind_update (i : Nat) (s : Translation Obj R Mem) (word : UInt32) (mem : Mem) :
    Behind i s { s with cmdBuf := Function.update s.cmdBuf i word, mem := mem } := by
  intro p hp
  exact Function.update_of_ne (by omega) ..

theorem Behind.trans {i j : Nat} {s s₁ s₂ : Translation Obj R Mem} (h₁ : Behind i s s₁)
    (h₂ : Behind j s₁ s₂) (hij : i ≤ j) : Behind i s s₂ := by
  intro p hp
  rw [h₂ p (by omega), h₁ p hp]

theorem translateHandleParam_next (hT : T.ReadsAhead) {words : Nat → UInt32}
    {commandSize i i' : Nat} {d : UInt32} {s s' : Translation Obj R Mem} (hw : T.Ahead words i s)
    (h : T.translateHandleParam commandSize i d s = some (.next i' s')) :
    ∃ ps outs, handleParam commandSize i d = some (ps, i') ∧ T.Did words ps s s' outs ∧
      T.Ahead words i' s' ∧ Behind i s s' := by
  unfold translateHandleParam at h
  unfold handleParam
  by_cases hlarge : i + handleNumberFromDesc d > commandSize
  · rw [if_pos hlarge] at h
    obtain ⟨r, -, he⟩ := Option.map_eq_some_iff.1 h
    exact absurd he (by simp)
  · rw [if_neg hlarge] at h ⊢
    obtain ⟨s₁, hs₁, he⟩ := Option.map_eq_some_iff.1 h
    obtain ⟨rfl, rfl⟩ := Turn.next.inj he
    obtain ⟨outs, hsend, hfor, hmem, hlow, hhigh⟩ := T.translateHandles_some hT _ hw hs₁
    exact ⟨_, outs, rfl, ⟨by rw [hmem]; rfl, by simpa [handleWords] using hsend,
      by simpa [handleWords] using hfor⟩, hhigh, hlow⟩

theorem translateBufferParam_next (hT : T.ReadsAhead) {words : Nat → UInt32} {i i' : Nat}
    {d : UInt32} {s s' : Translation Obj R Mem} (hw : T.Ahead words i s)
    (h : T.translateBufferParam i d s = some (.next i' s')) :
    i' = i + 1 ∧ T.Did words [.buffer d i] s s' [] ∧ T.Ahead words i' s' ∧ Behind i s s' := by
  unfold translateBufferParam at h
  rw [hw i le_rfl] at h
  obtain ⟨⟨word, mem⟩, hbuf, he⟩ := Option.map_eq_some_iff.1 h
  obtain ⟨rfl, rfl⟩ := Turn.next.inj he
  refine ⟨rfl, ⟨?_, rfl, .nil⟩, hw.update hT word mem, behind_update i s word mem⟩
  simp [bufferWords, bufferAll, hbuf]

/-- One turn of the loop translates one descriptor. -/
theorem translateParam_next (hT : T.ReadsAhead) {words : Nat → UInt32} {commandSize i i' : Nat}
    {s s' : Translation Obj R Mem} (hw : T.Ahead words i s)
    (h : T.translateParam commandSize i s = some (.next i' s')) :
    ∃ ps outs, param words commandSize i = some (ps, i') ∧ T.Did words ps s s' outs ∧
      T.Ahead words i' s' ∧ Behind i s s' := by
  unfold translateParam at h
  unfold param
  rw [hw i le_rfl] at h
  have hw' := hw.update hT (words i) s.mem
  have hb' := behind_update i s (words i) s.mem
  -- the words are those of `s`, the tables and the memory too
  have hdid : ∀ {ps : List Param} {outs : List UInt32}, T.Did words ps
      { s with cmdBuf := Function.update s.cmdBuf i (words i) } s' outs → T.Did words ps s s' outs :=
    fun h => ⟨h.buffers, h.handles, h.written⟩
  cases hd : getDescriptorType (words i) <;> simp only [hd] at h ⊢
  case copyHandle | moveHandle =>
    obtain ⟨ps, outs, hp, hdo, ha, hb⟩ := translateHandleParam_next hT hw' h
    exact ⟨ps, outs, hp, hdid hdo, ha, hb'.trans hb (Nat.le_succ i)⟩
  case staticBuffer | mappedBuffer =>
    obtain ⟨rfl, hdo, ha, hb⟩ := translateBufferParam_next hT hw' h
    exact ⟨_, [], rfl, hdid hdo, ha, hb'.trans hb (Nat.le_succ i)⟩
  case callingPid =>
    obtain ⟨rfl, rfl⟩ := Turn.next.inj (Option.some.inj h)
    exact ⟨[], [], rfl, ⟨rfl, rfl, .nil⟩, hw'.update hT _ _,
      hb'.trans (behind_update _ _ _ _) (Nat.le_succ i)⟩
  case pxiBuffer | unnamed =>
    obtain ⟨rfl, rfl⟩ := Turn.next.inj (Option.some.inj h)
    exact ⟨[], [], rfl, ⟨rfl, rfl, .nil⟩, hw', hb'⟩

/-- A descriptor whose words can all be translated is translated. -/
theorem translateParam_exists (hT : T.ReadsAhead) {words : Nat → UInt32} {commandSize i i' : Nat}
    {s : Translation Obj R Mem} {ps : List Param} (hw : T.Ahead words i s)
    (hp : param words commandSize i = some (ps, i'))
    (hbuf : (T.bufferAll words (bufferWords ps) s.mem).isSome)
    (hsend : (T.sendAll (handleItems words (handleWords ps)) s.src s.receiver).isSome) :
    ∃ s', T.translateParam commandSize i s = some (.next i' s') := by
  have hw' := hw.update hT (words i) s.mem
  have hhandles : handleParam commandSize (i + 1) (words i) = some (ps, i') →
      ∃ s', T.translateHandleParam commandSize (i + 1) (words i)
        { s with cmdBuf := Function.update s.cmdBuf i (words i) } = some (.next i' s') := by
    intro hp
    unfold handleParam at hp
    unfold translateHandleParam
    by_cases hlarge : i + 1 + handleNumberFromDesc (words i) > commandSize
    · rw [if_pos hlarge] at hp
      exact absurd hp (by simp)
    · rw [if_neg hlarge] at hp ⊢
      obtain ⟨rfl, rfl⟩ := Prod.mk.inj (Option.some.inj hp)
      obtain ⟨s', hs'⟩ := Option.isSome_iff_exists.1
        (T.translateHandles_exists hT _ hw' (by simpa [handleWords] using hsend))
      exact ⟨s', by rw [hs']; rfl⟩
  have hbuffer : ps = [.buffer (words i) (i + 1)] → ∃ s', T.translateBufferParam (i + 1) (words i)
      { s with cmdBuf := Function.update s.cmdBuf i (words i) } = some (.next (i + 1 + 1) s') := by
    rintro rfl
    simp only [bufferWords, bufferAll] at hbuf
    unfold translateBufferParam
    rw [hw' (i + 1) le_rfl]
    cases hb : T.buffer s.mem (words i) (words (i + 1)) with
    | none => rw [hb] at hbuf; exact absurd hbuf (by simp)
    | some r => exact ⟨_, rfl⟩
  unfold param at hp
  unfold translateParam
  rw [hw i le_rfl]
  cases hd : getDescriptorType (words i) <;> simp only [hd] at hp ⊢
  case copyHandle | moveHandle => exact hhandles hp
  case staticBuffer | mappedBuffer =>
    obtain ⟨rfl, rfl⟩ := Prod.mk.inj (Option.some.inj hp)
    exact hbuffer rfl
  case callingPid | pxiBuffer | unnamed =>
    obtain ⟨rfl, rfl⟩ := Prod.mk.inj (Option.some.inj hp)
    exact ⟨_, rfl⟩

/-- The function returns from inside the loop only for a descriptor with too many handles. -/
theorem translateParam_returns {commandSize i : Nat} {s s' : Translation Obj R Mem}
    {r : TranslateResult} (h : T.translateParam commandSize i s = some (.returns r s')) :
    T.tooManyHandles = some r := by
  have hhandles : ∀ {i : Nat} {d : UInt32} {s : Translation Obj R Mem},
      T.translateHandleParam commandSize i d s = some (.returns r s') →
      T.tooManyHandles = some r := by
    intro i d s h
    unfold translateHandleParam at h
    simp only at h
    split at h
    · obtain ⟨r', hr, he⟩ := Option.map_eq_some_iff.1 h
      rw [hr, (Turn.returns.inj he).1]
    · obtain ⟨s₁, -, he⟩ := Option.map_eq_some_iff.1 h
      exact absurd he (by simp)
  unfold translateParam at h
  cases hd : getDescriptorType (T.reads s.cmdBuf i) <;> simp only [hd] at h
  case copyHandle | moveHandle => exact hhandles h
  case staticBuffer | mappedBuffer =>
    obtain ⟨r', -, he⟩ := Option.map_eq_some_iff.1 h
    exact absurd he (by simp)
  case callingPid | pxiBuffer | unnamed => exact absurd h (by simp)

end Translator

/-- A descriptor and its words end before the next one. -/
theorem param_bounds {words : Nat → UInt32} {commandSize i i' : Nat} {ps : List Param}
    (h : param words commandSize i = some (ps, i')) :
    i < i' ∧ (∀ w ∈ handleWords ps, w.2 < i') ∧
      (handleWords ps).length + (commandSize - i') ≤ commandSize - i := by
  have hhandles : ∀ {d : UInt32}, handleParam commandSize (i + 1) d = some (ps, i') →
      i < i' ∧ (∀ w ∈ handleWords ps, w.2 < i') ∧
        (handleWords ps).length + (commandSize - i') ≤ commandSize - i := by
    intro d h
    unfold handleParam at h
    split at h
    · exact absurd h (by simp)
    · obtain ⟨rfl, rfl⟩ := Prod.mk.inj (Option.some.inj h)
      refine ⟨by omega, fun w hw => ?_, ?_⟩
      · simp only [handleWords, List.append_nil, List.mem_map, List.mem_range'_1] at hw
        obtain ⟨p, hp, rfl⟩ := hw
        exact hp.2
      · simp only [handleWords, List.append_nil, List.length_map, List.length_range']
        omega
  unfold param at h
  cases hd : getDescriptorType (words i) <;> simp only [hd] at h
  case copyHandle | moveHandle => exact hhandles h
  all_goals
    obtain ⟨rfl, rfl⟩ := Prod.mk.inj (Option.some.inj h)
    exact ⟨by omega, by simp [handleWords], by simp only [handleWords, List.length_nil]; omega⟩

/-- A command has no more handle words than words. -/
theorem params_length {words : Nat → UInt32} {commandSize : Nat} {fuel i : Nat} {ps : List Param}
    (h : params words commandSize fuel i = some ps) :
    (handleWords ps).length ≤ commandSize - i := by
  induction fuel generalizing i ps with
  | zero =>
    unfold params at h
    split at h
    · exact absurd h (by simp)
    · rw [← Option.some.inj h]
      exact Nat.zero_le _
  | succ fuel ih =>
    unfold params at h
    split at h
    · cases hp : param words commandSize i with
      | none => simp [hp] at h
      | some r =>
        obtain ⟨qs, i'⟩ := r
        simp only [hp] at h
        obtain ⟨rs, hrs, rfl⟩ := Option.map_eq_some_iff.1 h
        have := (param_bounds hp).2.2
        have := ih hrs
        rw [handleWords_append, List.length_append]
        omega
    · rw [← Option.some.inj h]
      exact Nat.zero_le _

namespace Translator

variable {Obj R Mem : Type} {T : Translator Obj R Mem}

theorem forall₂_congr_left {f g : Nat → UInt32} {ws : List (UInt32 × Nat)} {outs : List UInt32}
    (hfg : ∀ w ∈ ws, g w.2 = f w.2) (h : List.Forall₂ (fun w o => f w.2 = o) ws outs) :
    List.Forall₂ (fun w o => g w.2 = o) ws outs := by
  induction h with
  | nil => exact .nil
  | cons hw _ ih =>
    exact .cons (by rw [hfg _ (by simp), hw]) (ih fun w h => hfg w (by simp [h]))

theorem Did.append {words : Nat → UInt32} {ps qs : List Param} {s s₁ s₂ : Translation Obj R Mem}
    {outs₁ outs₂ : List UInt32} {i : Nat} (h₁ : T.Did words ps s s₁ outs₁)
    (h₂ : T.Did words qs s₁ s₂ outs₂) (hb : Behind i s₁ s₂) (hi : ∀ w ∈ handleWords ps, w.2 < i) :
    T.Did words (ps ++ qs) s s₂ (outs₁ ++ outs₂) where
  buffers := by
    rw [bufferWords_append, bufferAll_append, h₁.buffers]
    exact h₂.buffers
  handles := by
    have h := h₂.handles
    rw [handleItems] at h
    rw [handleWords_append, handleItems, List.map_append, sendAll_append, ← handleItems, h₁.handles,
      Option.bind_some]
    simp only [h]
    rfl
  written := by
    rw [handleWords_append]
    refine List.rel_append ?_ h₂.written
    have hall : ∀ w ∈ handleWords ps, s₂.cmdBuf w.2 = s₁.cmdBuf w.2 := fun w hw => hb _ (hi w hw)
    exact forall₂_congr_left hall h₁.written

/-- A successful run of the loop translated the words of the command in their order. -/
theorem translateParams_success (hT : T.ReadsAhead) (htm : T.tooManyHandles ≠ some .success)
    {words : Nat → UInt32} {commandSize : Nat} : ∀ (fuel : Nat) {i : Nat}
    {s s' : Translation Obj R Mem}, T.Ahead words i s →
    T.translateParams commandSize fuel i s = some (.success, s') →
    ∃ ps outs, params words commandSize fuel i = some ps ∧ T.Did words ps s s' outs ∧
      Behind i s s' := by
  intro fuel
  induction fuel with
  | zero =>
    intro i s s' _ h
    unfold translateParams at h
    unfold params
    split at h
    · exact absurd h (by simp)
    · obtain ⟨-, rfl⟩ := Prod.mk.inj (Option.some.inj h)
      exact ⟨[], [], if_neg ‹_›, ⟨rfl, rfl, .nil⟩, fun _ _ => rfl⟩
  | succ fuel ih =>
    intro i s s' hw h
    unfold translateParams at h
    unfold params
    by_cases hi : i < commandSize
    · rw [if_pos hi] at h ⊢
      cases ht : T.translateParam commandSize i s with
      | none => simp [ht] at h
      | some turn =>
        cases turn with
        | returns r s₁ =>
          simp only [ht] at h
          obtain ⟨rfl, -⟩ := Prod.mk.inj (Option.some.inj h)
          exact absurd (translateParam_returns ht) htm
        | next i₁ s₁ =>
          simp only [ht] at h
          obtain ⟨ps, outs, hp, hd, ha, hb⟩ := translateParam_next hT hw ht
          obtain ⟨qs, outs', hq, hd', hb'⟩ := ih ha h
          obtain ⟨hlt, hpos, -⟩ := param_bounds hp
          exact ⟨ps ++ qs, outs ++ outs', by simp [hp, hq], hd.append hd' hb' hpos,
            hb.trans hb' hlt.le⟩
    · rw [if_neg hi] at h ⊢
      obtain ⟨-, rfl⟩ := Prod.mk.inj (Option.some.inj h)
      exact ⟨[], [], rfl, ⟨rfl, rfl, .nil⟩, fun _ _ => rfl⟩

/-- A command whose words can all be translated is translated. -/
theorem translateParams_exists (hT : T.ReadsAhead) {words : Nat → UInt32} {commandSize : Nat} :
    ∀ (fuel : Nat) {i : Nat} {s : Translation Obj R Mem} {ps : List Param} {mem : Mem}
      {r : List UInt32 × HandleTable Obj × R}, T.Ahead words i s →
    params words commandSize fuel i = some ps →
    T.bufferAll words (bufferWords ps) s.mem = some mem →
    T.sendAll (handleItems words (handleWords ps)) s.src s.receiver = some r →
    ∃ s', T.translateParams commandSize fuel i s = some (.success, s') := by
  intro fuel
  induction fuel with
  | zero =>
    intro i s ps mem r _ hp _ _
    unfold params at hp
    unfold translateParams
    split at hp
    · exact absurd hp (by simp)
    · exact ⟨s, if_neg ‹_›⟩
  | succ fuel ih =>
    intro i s ps mem r hw hp hbuf hsend
    unfold params at hp
    unfold translateParams
    by_cases hi : i < commandSize
    · rw [if_pos hi] at hp ⊢
      cases hq : param words commandSize i with
      | none => simp [hq] at hp
      | some q =>
        obtain ⟨qs, i₁⟩ := q
        simp only [hq] at hp
        obtain ⟨rs, hrs, rfl⟩ := Option.map_eq_some_iff.1 hp
        rw [bufferWords_append, bufferAll_append] at hbuf
        rw [handleWords_append, handleItems, List.map_append, sendAll_append] at hsend
        obtain ⟨mem₁, hmem, hbuf⟩ := Option.bind_eq_some_iff.1 hbuf
        obtain ⟨⟨outs, src, receiver⟩, hout, hsend⟩ := Option.bind_eq_some_iff.1 hsend
        obtain ⟨r', hr', -⟩ := Option.map_eq_some_iff.1 hsend
        obtain ⟨s₁, hs₁⟩ := translateParam_exists hT hw hq (by rw [hmem]; rfl)
          (by rw [handleItems, hout]; rfl)
        obtain ⟨qs', outs', hq', hd, ha, -⟩ := translateParam_next hT hw hs₁
        obtain ⟨rfl, -⟩ := Prod.mk.inj (Option.some.inj (hq.symm.trans hq'))
        -- the turn left the state that translating its words leaves
        have hsame := Option.some.inj (hout.symm.trans hd.handles)
        simp only [Prod.mk.injEq] at hsame
        rw [hsame.2.1, hsame.2.2] at hr'
        rw [Option.some.inj (hmem.symm.trans hd.buffers)] at hbuf
        simp only [hs₁]
        exact ih ha hrs hbuf hr'
    · rw [if_neg hi]
      exact ⟨s, rfl⟩

end Translator

end AzaharPlus.Kernel
