import AzaharPlus.Lib.IndexChain

/-!
# The kernel's handle table

The model of `HandleTable` in `core/hle/kernel/handle_table.cpp`.  A handle is a
32-bit value made of a slot index and a 15-bit generation.  The table stores one
object and one generation per slot; for empty slots the generation field is the
link of a free list.

The section `Sessions` runs arbitrary sequences of operations and keeps, beside
the table, what a client was told: which handles were issued, for which objects,
and which of them are still open.  The main result is `handleTable_sound`: the
free list never loses or repeats a slot, open handles are distinct, a lookup
finds only what was issued and is still open, and one handle value is issued
twice only with `32767` Creates from one to the other.
-/

namespace AzaharPlus.Kernel

/-- `Handle`, a 32-bit value. -/
abbrev Handle := UInt32

/-- The pseudo-handle `CurrentThread`. -/
def currentThreadHandle : Handle := 0xFFFF8000

/-- The pseudo-handle `CurrentProcess`. -/
def currentProcessHandle : Handle := 0xFFFF8001

/-- `HandleTable::MAX_COUNT`. -/
def maxCount : Nat := 4096

/-- The slot of a handle: `handle >> 15`, returned as a 16-bit value. -/
def getSlot (handle : Handle) : Nat := (handle >>> 15).toUInt16.toNat

/-- The generation of a handle: `handle & 0x7FFF`. -/
def getGeneration (handle : Handle) : Nat := (handle &&& 0x7FFF).toUInt16.toNat

/-- The handle of a slot and a generation: `generation | (slot << 15)`. -/
def makeHandle (generation slot : Nat) : Handle := UInt32.ofNat (generation ||| slot <<< 15)

/-- The errors the table returns. -/
inductive HandleError
  | outOfHandles
  | invalidHandle
  deriving DecidableEq, Repr

/-- The objects the two pseudo-handles stand for at the time of a lookup. -/
structure KernelContext (Obj : Type) where
  currentThread : Option Obj
  currentProcess : Option Obj

/-- The table: `objects`, `generations`, `next_generation` and `next_free_slot`.
A slot whose object is `none` is empty. -/
structure HandleTable (Obj : Type) where
  objects : Nat → Option Obj
  generations : Nat → Nat
  nextGeneration : Nat
  nextFreeSlot : Nat

namespace HandleTable

variable {Obj : Type}

/-- The table as `HandleTable::HandleTable` leaves it. -/
def init : HandleTable Obj where
  objects := fun _ => none
  generations := fun i => i + 1
  nextGeneration := 1
  nextFreeSlot := 0

/-- `HandleTable::Create`. -/
def create (t : HandleTable Obj) (obj : Obj) : Except HandleError (Handle × HandleTable Obj) :=
  let slot := t.nextFreeSlot
  if slot < maxCount then
    let generation := t.nextGeneration
    let next := (t.nextGeneration + 1) % 2 ^ 16
    .ok (makeHandle generation slot,
      { objects := Function.update t.objects slot (some obj)
        generations := Function.update t.generations slot generation
        -- the count has to fit the 15 bits a handle has for it, and `0` is not used
        nextGeneration := if next ≥ 2 ^ 15 then 1 else next
        nextFreeSlot := t.generations slot })
  else .error .outOfHandles

/-- `HandleTable::IsValid`. -/
def isValid (t : HandleTable Obj) (handle : Handle) : Bool :=
  decide (getSlot handle < maxCount) && (t.objects (getSlot handle)).isSome &&
    decide (t.generations (getSlot handle) = getGeneration handle)

/-- `HandleTable::GetGeneric`. -/
def getGeneric (t : HandleTable Obj) (k : KernelContext Obj) (handle : Handle) : Option Obj :=
  if handle = currentThreadHandle then k.currentThread
  else if handle = currentProcessHandle then k.currentProcess
  else if t.isValid handle then t.objects (getSlot handle)
  else none

/-- `HandleTable::Duplicate`. -/
def duplicate (t : HandleTable Obj) (k : KernelContext Obj) (handle : Handle) :
    Except HandleError (Handle × HandleTable Obj) :=
  match t.getGeneric k handle with
  | none => .error .invalidHandle
  | some object => t.create object

/-- `HandleTable::Close`. -/
def close (t : HandleTable Obj) (handle : Handle) : Except HandleError (HandleTable Obj) :=
  if t.isValid handle then
    let slot := getSlot handle
    .ok { t with
      objects := Function.update t.objects slot none
      generations := Function.update t.generations slot t.nextFreeSlot
      nextFreeSlot := slot }
  else .error .invalidHandle

end HandleTable

/-! ## The fields of a handle -/

theorem getSlot_eq (h : Handle) : getSlot h = h.toNat / 2 ^ 15 % 2 ^ 16 := by
  simp [getSlot, Nat.shiftRight_eq_div_pow]

theorem getGeneration_eq (h : Handle) : getGeneration h = h.toNat % 2 ^ 15 := by
  simp only [getGeneration, UInt32.toNat_toUInt16, UInt32.toNat_and]
  rw [show UInt32.toNat 0x7FFF = 2 ^ 15 - 1 by decide, Nat.and_two_pow_sub_one_eq_mod]
  omega

theorem toNat_makeHandle {g s : Nat} (hg : g < 2 ^ 15) (hs : s < maxCount) :
    (makeHandle g s).toNat = s * 2 ^ 15 + g := by
  rw [maxCount] at hs
  rw [makeHandle, UInt32.toNat_ofNat', Nat.lor_comm, ← Nat.shiftLeft_add_eq_or_of_lt hg,
    Nat.shiftLeft_eq]
  omega

@[simp] theorem getSlot_makeHandle {g s : Nat} (hg : g < 2 ^ 15) (hs : s < maxCount) :
    getSlot (makeHandle g s) = s := by
  rw [getSlot_eq, toNat_makeHandle hg hs]
  rw [maxCount] at hs
  omega

@[simp] theorem getGeneration_makeHandle {g s : Nat} (hg : g < 2 ^ 15) (hs : s < maxCount) :
    getGeneration (makeHandle g s) = g := by
  rw [getGeneration_eq, toNat_makeHandle hg hs]
  omega

theorem getGeneration_lt (h : Handle) : getGeneration h < 2 ^ 15 := by
  rw [getGeneration_eq]
  exact Nat.mod_lt _ (by decide)

/-- A handle whose top bit is clear is the one its two fields make. -/
theorem makeHandle_fields {h : Handle} (hh : h.toNat < 2 ^ 31) (hs : getSlot h < maxCount) :
    makeHandle (getGeneration h) (getSlot h) = h := by
  apply UInt32.toNat_inj.1
  rw [toNat_makeHandle (getGeneration_lt h) hs, getSlot_eq, getGeneration_eq]
  omega

/-! ## The invariant of the table -/

namespace HandleTable

variable {Obj : Type}

/-- The free list is acyclic and holds exactly the empty slots. -/
def FreeListOk (t : HandleTable Obj) : Prop :=
  ∃ l, Chain t.generations maxCount t.nextFreeSlot l ∧ l.Nodup ∧
    ∀ s, s ∈ l ↔ s < maxCount ∧ t.objects s = none

/-- What every reachable table satisfies: a good free list, and generations that
fit the field of a handle. -/
structure Ok (t : HandleTable Obj) : Prop where
  free : t.FreeListOk
  next_pos : 1 ≤ t.nextGeneration
  next_lt : t.nextGeneration < 2 ^ 15
  generation_lt : ∀ s < maxCount, t.objects s ≠ none → t.generations s < 2 ^ 15

theorem ok_init : (init : HandleTable Obj).Ok where
  free := by
    refine ⟨List.range' 0 maxCount, Chain.chain_succ maxCount maxCount 0 (by omega),
      List.nodup_range' 1, fun s => ?_⟩
    simp [init, List.mem_range'_1]
  next_pos := by simp [init]
  next_lt := by simp [init]
  generation_lt := by simp [init]

/-- The next generation after `g`: the count wraps to `1` when it hits `0x8000`. -/
theorem nextGeneration_eq {g : Nat} (hg : g < 2 ^ 15) :
    (if (g + 1) % 2 ^ 16 ≥ 2 ^ 15 then 1 else (g + 1) % 2 ^ 16) =
      if g + 1 = 2 ^ 15 then 1 else g + 1 := by
  split <;> split <;> omega

/-- Everything a successful Create does. -/
theorem create_ok {t t' : HandleTable Obj} {obj : Obj} {h : Handle}
    (hc : t.create obj = .ok (h, t')) :
    t.nextFreeSlot < maxCount ∧ h = makeHandle t.nextGeneration t.nextFreeSlot ∧
      t'.objects = Function.update t.objects t.nextFreeSlot (some obj) ∧
      t'.generations = Function.update t.generations t.nextFreeSlot t.nextGeneration ∧
      t'.nextGeneration = (if (t.nextGeneration + 1) % 2 ^ 16 ≥ 2 ^ 15 then 1
        else (t.nextGeneration + 1) % 2 ^ 16) ∧
      t'.nextFreeSlot = t.generations t.nextFreeSlot := by
  simp only [create] at hc
  split at hc
  · rename_i hlt
    injection hc with hc
    injection hc with h₁ h₂
    subst h₁ h₂
    exact ⟨hlt, rfl, rfl, rfl, rfl, rfl⟩
  · exact absurd hc (by simp)

/-- Everything a successful Close does. -/
theorem close_ok {t t' : HandleTable Obj} {h : Handle} (hc : t.close h = .ok t') :
    t.isValid h = true ∧
      t'.objects = Function.update t.objects (getSlot h) none ∧
      t'.generations = Function.update t.generations (getSlot h) t.nextFreeSlot ∧
      t'.nextGeneration = t.nextGeneration ∧ t'.nextFreeSlot = getSlot h := by
  simp only [close] at hc
  split at hc
  · rename_i hv
    injection hc with hc
    subst hc
    exact ⟨hv, rfl, rfl, rfl, rfl⟩
  · exact absurd hc (by simp)

theorem isValid_iff {t : HandleTable Obj} {h : Handle} :
    t.isValid h = true ↔ getSlot h < maxCount ∧ t.objects (getSlot h) ≠ none ∧
      t.generations (getSlot h) = getGeneration h := by
  simp only [isValid, Bool.and_eq_true, decide_eq_true_eq, Option.isSome_iff_ne_none, and_assoc]

/-- The head of the free list is an empty slot. -/
theorem FreeListOk.objects_head {t : HandleTable Obj} (h : t.FreeListOk)
    (hlt : t.nextFreeSlot < maxCount) : t.objects t.nextFreeSlot = none := by
  obtain ⟨l, hl, -, hmem⟩ := h
  obtain ⟨l', rfl, -⟩ := hl.tail hlt
  exact ((hmem _).1 (List.mem_cons_self ..)).2

theorem Ok.create {t t' : HandleTable Obj} {obj : Obj} {h : Handle} (ht : t.Ok)
    (hc : t.create obj = .ok (h, t')) : t'.Ok := by
  obtain ⟨hlt, -, hobj, hgen, hnext, hfree⟩ := create_ok hc
  rw [nextGeneration_eq ht.next_lt] at hnext
  refine ⟨?_, by rw [hnext]; split <;> omega,
    by rw [hnext]; have := ht.next_lt; split <;> omega, fun s hs hne => ?_⟩
  · -- the chain loses its head, and the new generation is written off the chain
    obtain ⟨l, hl, hnd, hmem⟩ := ht.free
    obtain ⟨l', rfl, hl'⟩ := hl.tail hlt
    rw [List.nodup_cons] at hnd
    refine ⟨l', ?_, hnd.2, fun s => ?_⟩
    · rw [hgen, hfree]
      exact hl'.update_of_notMem hnd.1
    · rw [hobj]
      by_cases hs : s = t.nextFreeSlot
      · subst hs
        simp [hnd.1]
      · rw [Function.update_of_ne hs, ← hmem s, List.mem_cons]
        simp [hs]
  · rw [hobj] at hne
    rw [hgen]
    by_cases hs' : s = t.nextFreeSlot
    · rw [hs', Function.update_self]
      exact ht.next_lt
    · rw [Function.update_of_ne hs'] at hne ⊢
      exact ht.generation_lt s hs hne

theorem Ok.close {t t' : HandleTable Obj} {h : Handle} (ht : t.Ok) (hc : t.close h = .ok t') :
    t'.Ok := by
  obtain ⟨hv, hobj, hgen, hnext, hfree⟩ := close_ok hc
  obtain ⟨hlt, hne, -⟩ := isValid_iff.1 hv
  refine ⟨?_, by rw [hnext]; exact ht.next_pos, by rw [hnext]; exact ht.next_lt,
    fun s hs hs' => ?_⟩
  · obtain ⟨l, hl, hnd, hmem⟩ := ht.free
    have hnot : getSlot h ∉ l := fun hc => hne ((hmem _).1 hc).2
    refine ⟨getSlot h :: l, ?_, List.nodup_cons.2 ⟨hnot, hnd⟩, fun s => ?_⟩
    · rw [hgen, hfree]
      exact hl.push hlt hnot
    · rw [hobj]
      by_cases hs : s = getSlot h
      · subst hs
        simp [hlt]
      · rw [List.mem_cons, Function.update_of_ne hs, hmem s]
        simp [hs]
  · rw [hobj] at hs'
    rw [hgen]
    by_cases hsl : s = getSlot h
    · rw [hsl, Function.update_self] at hs'
      exact absurd rfl hs'
    · rw [Function.update_of_ne hsl] at hs' ⊢
      exact ht.generation_lt s hs hs'

end HandleTable

/-! ## Sessions -/

/-- An operation a client asks for.  The operations that look a handle up carry
the objects the pseudo-handles stand for at that time. -/
inductive HandleOp (Obj : Type)
  | create (obj : Obj)
  | duplicate (k : KernelContext Obj) (h : Handle)
  | close (h : Handle)
  | lookup (k : KernelContext Obj) (h : Handle)

/-- A table together with what its client was told: the handles issued so far,
oldest first, with their objects, and the handles that are open. -/
structure Session (Obj : Type) where
  table : HandleTable Obj
  issued : List (Handle × Obj)
  live : Handle → Option Obj

namespace Session

variable {Obj : Type}

/-- A new table: nothing was issued. -/
def init : Session Obj where
  table := HandleTable.init
  issued := []
  live := fun _ => none

/-- Record the outcome of an operation that issues a handle for `obj`. -/
def issue (s : Session Obj) (obj : Obj) : Except HandleError (Handle × HandleTable Obj) → Session Obj
  | .ok (h, t) =>
      { table := t
        issued := s.issued ++ [(h, obj)]
        live := Function.update s.live h (some obj) }
  | .error _ => s

/-- One operation.  A successful Close ends every handle value with the slot and
the generation of the one that was passed. -/
def step (s : Session Obj) : HandleOp Obj → Session Obj
  | .create obj => s.issue obj (s.table.create obj)
  | .duplicate k h =>
      match s.table.getGeneric k h with
      | none => s
      | some obj => s.issue obj (s.table.duplicate k h)
  | .close h =>
      match s.table.close h with
      | .ok t =>
          { s with
            table := t
            live := fun h' =>
              if getSlot h' = getSlot h ∧ getGeneration h' = getGeneration h then none
              else s.live h' }
      | .error _ => s
  | .lookup _ _ => s

/-- A whole sequence of operations on a new table. -/
def run (ops : List (HandleOp Obj)) : Session Obj := ops.foldl step init

theorem run_append (ops₁ ops₂ : List (HandleOp Obj)) :
    run (ops₁ ++ ops₂) = ops₂.foldl step (run ops₁) := by
  rw [run, List.foldl_append, run]

/-- The invariant of a session: the open handles are exactly the valid ones with
a clear top bit, and generations are handed out in turn. -/
structure Ok (s : Session Obj) : Prop where
  table : s.table.Ok
  live_iff : ∀ h o, s.live h = some o ↔
    h.toNat < 2 ^ 31 ∧ s.table.isValid h = true ∧ s.table.objects (getSlot h) = some o
  next : s.table.nextGeneration = s.issued.length % 32767 + 1
  issued : ∀ i (hi : i < s.issued.length), getGeneration s.issued[i].1 = i % 32767 + 1

theorem ok_init : (init : Session Obj).Ok where
  table := HandleTable.ok_init
  live_iff := by simp [init, HandleTable.init]
  next := by simp [init, HandleTable.init]
  issued := by simp [init]

/-- A handle that is about to be issued is not open. -/
theorem Ok.live_fresh {s : Session Obj} (hs : s.Ok) {obj : Obj} {h : Handle} {t : HandleTable Obj}
    (hc : s.table.create obj = .ok (h, t)) : s.live h = none := by
  obtain ⟨hlt, rfl, -⟩ := HandleTable.create_ok hc
  by_contra hne
  obtain ⟨o, ho⟩ := Option.ne_none_iff_exists'.1 hne
  have hobj := ((hs.live_iff _ _).1 ho).2.2
  rw [getSlot_makeHandle hs.table.next_lt hlt, hs.table.free.objects_head hlt] at hobj
  exact absurd hobj (by simp)

theorem Ok.issue {s : Session Obj} (hs : s.Ok) {obj : Obj} {h : Handle} {t : HandleTable Obj}
    (hc : s.table.create obj = .ok (h, t)) : (s.issue obj (.ok (h, t))).Ok := by
  obtain ⟨hlt, hh, hobj, hgen, hnext, -⟩ := HandleTable.create_ok hc
  have hg := hs.table.next_lt
  have hslot : getSlot h = s.table.nextFreeSlot := by rw [hh, getSlot_makeHandle hg hlt]
  have hgeneration : getGeneration h = s.table.nextGeneration := by
    rw [hh, getGeneration_makeHandle hg hlt]
  refine ⟨hs.table.create hc, fun h' o => ?_, ?_, fun i hi => ?_⟩
  · simp only [Session.issue]
    rw [HandleTable.isValid_iff, hobj, hgen]
    by_cases hsl : getSlot h' = s.table.nextFreeSlot
    · rw [hsl, Function.update_self, Function.update_self]
      by_cases heq : h' = h
      · have hlt31 : h.toNat < 2 ^ 31 := by
          rw [hh, toNat_makeHandle hg hlt]
          rw [maxCount] at hlt
          omega
        rw [heq, Function.update_self, hgeneration]
        exact ⟨fun ho => ⟨hlt31, ⟨hlt, by simp, rfl⟩, ho⟩, fun hall => hall.2.2⟩
      · -- another value with this slot: it was not open, and its generation differs
        rw [Function.update_of_ne heq]
        constructor
        · intro hlive
          have := ((hs.live_iff _ _).1 hlive).2.2
          rw [hsl, hs.table.free.objects_head hlt] at this
          exact absurd this (by simp)
        · rintro ⟨h31, ⟨-, -, hgen'⟩, -⟩
          refine absurd ?_ heq
          rw [← makeHandle_fields h31 (by rw [hsl]; exact hlt), hsl, ← hgen', hh]
    · rw [Function.update_of_ne hsl, Function.update_of_ne hsl,
        Function.update_of_ne (fun heq => hsl (by rw [heq, hslot])), hs.live_iff,
        HandleTable.isValid_iff]
  · simp only [Session.issue, hnext, HandleTable.nextGeneration_eq hg, List.length_append,
      List.length_singleton]
    have := hs.next
    split <;> omega
  · simp only [Session.issue, List.length_append, List.length_singleton] at hi ⊢
    by_cases hlast : i < s.issued.length
    · rw [List.getElem_append_left hlast]
      exact hs.issued i hlast
    · rw [List.getElem_append_right (by omega)]
      simp only [List.getElem_singleton, hgeneration, hs.next]
      congr 2
      omega

theorem Ok.close {s : Session Obj} (hs : s.Ok) {h : Handle} {t : HandleTable Obj}
    (hc : s.table.close h = .ok t) : (s.step (.close h)).Ok := by
  obtain ⟨hv, hobj, hgen, hnext, -⟩ := HandleTable.close_ok hc
  obtain ⟨-, -, hvgen⟩ := HandleTable.isValid_iff.1 hv
  simp only [step, hc]
  refine ⟨hs.table.close hc, fun h' o => ?_, by rw [hnext]; exact hs.next, hs.issued⟩
  simp only
  rw [HandleTable.isValid_iff, hobj, hgen]
  by_cases hsl : getSlot h' = getSlot h
  · rw [hsl, Function.update_self]
    have hnone : (if getSlot h = getSlot h ∧ getGeneration h' = getGeneration h then none
        else s.live h') = none := by
      split
      · rfl
      · rename_i hne
        by_contra hlive
        obtain ⟨o', ho'⟩ := Option.ne_none_iff_exists'.1 hlive
        have hvalid := (HandleTable.isValid_iff.1 ((hs.live_iff _ _).1 ho').2.1).2.2
        rw [hsl, hvgen] at hvalid
        exact hne ⟨rfl, hvalid.symm⟩
    rw [hnone]
    simp
  · rw [if_neg (fun hand => hsl hand.1), Function.update_of_ne hsl, Function.update_of_ne hsl,
      hs.live_iff, HandleTable.isValid_iff]

/-- Every operation keeps the invariant. -/
theorem Ok.step {s : Session Obj} (hs : s.Ok) (op : HandleOp Obj) : (s.step op).Ok := by
  cases op with
  | create obj =>
    simp only [Session.step]
    cases hc : s.table.create obj with
    | error e => exact hs
    | ok r => exact hs.issue hc
  | duplicate k h =>
    simp only [Session.step]
    cases hg : s.table.getGeneric k h with
    | none => exact hs
    | some obj =>
      simp only [HandleTable.duplicate, hg]
      cases hc : s.table.create obj with
      | error e => exact hs
      | ok r => exact hs.issue hc
  | close h =>
    cases hc : s.table.close h with
    | error e => simpa only [Session.step, hc] using hs
    | ok t => exact hs.close hc
  | lookup k h => exact hs

theorem Ok.foldl {s : Session Obj} (hs : s.Ok) (ops : List (HandleOp Obj)) :
    (ops.foldl Session.step s).Ok := by
  induction ops generalizing s with
  | nil => exact hs
  | cons op ops ih => exact ih (hs.step op)

/-- The invariant holds after every sequence of operations. -/
theorem ok_run (ops : List (HandleOp Obj)) : (run ops).Ok := ok_init.foldl ops

/-! ## Handles that come back -/

/-- Two Creates that returned the same value are a multiple of `32767` Creates
apart. -/
theorem Ok.reuse {s : Session Obj} (hs : s.Ok) {i j : Nat} (hij : i < j)
    (hj : j < s.issued.length)
    (heq : (s.issued.get ⟨i, by omega⟩).1 = (s.issued.get ⟨j, hj⟩).1) : i + 32767 ≤ j := by
  have hi := hs.issued i (by omega)
  have hj' := hs.issued j hj
  simp only [List.get_eq_getElem] at heq
  rw [heq, hj'] at hi
  omega

/-- One operation only appends to what was issued, and a value that it opens is
among what it appends. -/
theorem step_issued (s : Session Obj) (op : HandleOp Obj) :
    ∃ new, (s.step op).issued = s.issued ++ new ∧
      ∀ h, s.live h = none → (s.step op).live h ≠ none → h ∈ new.map Prod.fst := by
  have hissue : ∀ obj (r : Except HandleError (Handle × HandleTable Obj)),
      ∃ new, (s.issue obj r).issued = s.issued ++ new ∧
        ∀ h, s.live h = none → (s.issue obj r).live h ≠ none → h ∈ new.map Prod.fst := by
    intro obj r
    cases r with
    | error e => exact ⟨[], by simp [issue], fun h h₁ h₂ => absurd h₁ h₂⟩
    | ok r =>
      refine ⟨[(r.1, obj)], rfl, fun h h₁ h₂ => ?_⟩
      by_cases heq : h = r.1
      · simp [heq]
      · simp only [issue, Function.update_of_ne heq] at h₂
        exact absurd h₁ h₂
  have hsame : ∃ new, s.issued = s.issued ++ new ∧
      ∀ h, s.live h = none → s.live h ≠ none → h ∈ new.map Prod.fst :=
    ⟨[], by simp, fun h h₁ h₂ => absurd h₁ h₂⟩
  cases op with
  | create obj => exact hissue obj _
  | duplicate k h =>
    simp only [step]
    cases s.table.getGeneric k h with
    | none => exact hsame
    | some obj => exact hissue obj _
  | close h =>
    simp only [step]
    cases s.table.close h with
    | error e => exact hsame
    | ok t =>
      refine ⟨[], by simp, fun h' h₁ h₂ => ?_⟩
      simp only at h₂
      split at h₂
      · exact absurd rfl h₂
      · exact absurd h₁ h₂
  | lookup k h => exact hsame

/-- A value that is not open and is open again later was issued in between. -/
theorem foldl_issued (ops : List (HandleOp Obj)) (s : Session Obj) :
    ∃ new, (ops.foldl step s).issued = s.issued ++ new ∧
      ∀ h, s.live h = none → (ops.foldl step s).live h ≠ none → h ∈ new.map Prod.fst := by
  induction ops generalizing s with
  | nil => exact ⟨[], by simp, fun h h₁ h₂ => absurd h₁ h₂⟩
  | cons op ops ih =>
    obtain ⟨new₁, hn₁, hl₁⟩ := step_issued s op
    obtain ⟨new₂, hn₂, hl₂⟩ := ih (s.step op)
    refine ⟨new₁ ++ new₂, ?_, fun h h₁ h₂ => ?_⟩
    · rw [List.foldl_cons, hn₂, hn₁, List.append_assoc]
    · rw [List.map_append, List.mem_append]
      by_cases hmid : (s.step op).live h = none
      · exact Or.inr (hl₂ h hmid h₂)
      · exact Or.inl (hl₁ h h₁ hmid)

end Session

/-! ## Main result -/

/-- The contract of the table after the operations `ops`. -/
structure HandleSoundness {Obj : Type} (ops : List (HandleOp Obj)) : Prop where
  /-- The free list is acyclic and holds exactly the empty slots. -/
  freeList : (Session.run ops).table.FreeListOk
  /-- Two occupied slots have different handles. -/
  distinct : ∀ s₁ < maxCount, ∀ s₂ < maxCount, s₁ ≠ s₂ →
    (Session.run ops).table.objects s₁ ≠ none → (Session.run ops).table.objects s₂ ≠ none →
    makeHandle ((Session.run ops).table.generations s₁) s₁ ≠
      makeHandle ((Session.run ops).table.generations s₂) s₂
  /-- No open handle is issued a second time. -/
  fresh : ∀ obj h t, (Session.run ops).table.create obj = .ok (h, t) →
    (Session.run ops).live h = none
  /-- With the top bit clear, a lookup finds exactly the open handles, with the
  objects they were issued for. -/
  lookup : ∀ k h o, h.toNat < 2 ^ 31 →
    ((Session.run ops).table.getGeneric k h = some o ↔ (Session.run ops).live h = some o)
  /-- A value that was closed and is open again was issued again, by at least the
  `32767`-th Create after the one that issued it before. -/
  reuse : ∀ ops₁ ops₂, ops = ops₁ ++ ops₂ → ∀ i (hi : i < (Session.run ops₁).issued.length) h,
    ((Session.run ops₁).issued.get ⟨i, hi⟩).1 = h → (Session.run ops₁).live h = none →
    (Session.run ops).live h ≠ none → i + 32767 < (Session.run ops).issued.length

theorem ne_pseudo_of_toNat_lt {h : Handle} (hh : h.toNat < 2 ^ 31) :
    h ≠ currentThreadHandle ∧ h ≠ currentProcessHandle := by
  constructor
  · rintro rfl
    exact absurd hh (by decide)
  · rintro rfl
    exact absurd hh (by decide)

/-- After every sequence of Create, Duplicate, Close and lookups, the handle
table meets its contract. -/
theorem handleTable_sound {Obj : Type} (ops : List (HandleOp Obj)) : HandleSoundness ops := by
  have hok := Session.ok_run ops
  refine ⟨hok.table.free, ?_, fun obj h t hc => hok.live_fresh hc, ?_, ?_⟩
  · intro s₁ h₁ s₂ h₂ hne ho₁ ho₂ heq
    have hslot := congrArg getSlot heq
    rw [getSlot_makeHandle (hok.table.generation_lt s₁ h₁ ho₁) h₁,
      getSlot_makeHandle (hok.table.generation_lt s₂ h₂ ho₂) h₂] at hslot
    exact hne hslot
  · intro k h o h31
    obtain ⟨hnt, hnp⟩ := ne_pseudo_of_toNat_lt h31
    rw [HandleTable.getGeneric, if_neg hnt, if_neg hnp, hok.live_iff]
    split
    · rename_i hv
      exact ⟨fun ho => ⟨h31, hv, ho⟩, fun hall => hall.2.2⟩
    · rename_i hv
      simp [hv]
  · rintro ops₁ ops₂ rfl i hi h hih hclosed hopen
    obtain ⟨new, hnew, hin⟩ := Session.foldl_issued ops₂ (Session.run ops₁)
    rw [Session.run_append] at hopen hok ⊢
    -- the second issue of the value is one of the new entries
    obtain ⟨n, hn, hnh⟩ := List.mem_iff_getElem.1 (hin h hclosed hopen)
    rw [List.length_map] at hn
    have hlen : (Session.run ops₁).issued.length + n <
        (ops₂.foldl Session.step (Session.run ops₁)).issued.length := by
      rw [hnew, List.length_append]; omega
    have hfar := hok.reuse (i := i) (j := (Session.run ops₁).issued.length + n) (by omega) hlen (by
      simp only [List.get_eq_getElem, hnew]
      rw [List.getElem_append_left hi, List.getElem_append_right (by omega)]
      rw [List.get_eq_getElem] at hih
      rw [hih, ← hnh]
      simp)
    omega

/-! ## Two things the table does not promise

The slot of a handle is cut to 16 bits although the field has 17, so the top bit
of a handle is not looked at; and the distance of `32767` Creates is counted from
the Create that issued a value, not from the Close that ended it. -/

/-- A table in which slot `0` holds the first handle, slot `1` is the next free
one, and `g` is the next generation. -/
structure Cycling (t : HandleTable Unit) (g : Nat) : Prop where
  object₀ : t.objects 0 = some ()
  generation₀ : t.generations 0 = 1
  free : t.nextFreeSlot = 1
  next : t.nextGeneration = g

/-- Open a handle in slot `1` and close it again. -/
def openClose (g : Nat) : List (HandleOp Unit) := [.create (), .close (makeHandle g 1)]

theorem Cycling.openClose {s : Session Unit} {g : Nat} (h : Cycling s.table g) (hg : g < 2 ^ 15) :
    Cycling ((openClose g).foldl Session.step s).table (if g + 1 = 2 ^ 15 then 1 else g + 1) := by
  have hs : getSlot (makeHandle g 1) = 1 := getSlot_makeHandle hg (by decide)
  have hgen : getGeneration (makeHandle g 1) = g := getGeneration_makeHandle hg (by decide)
  have hcreate : ∃ t, s.table.create () = .ok (makeHandle g 1, t) ∧ t.isValid (makeHandle g 1) ∧
      t.objects 0 = some () ∧ t.generations 0 = 1 ∧
      t.nextGeneration = if g + 1 = 2 ^ 15 then 1 else g + 1 := by
    refine ⟨_, by rw [HandleTable.create, h.free, if_pos (by decide), h.next], ?_, ?_, ?_, ?_⟩
    · rw [HandleTable.isValid_iff, hs, hgen]
      simp [maxCount]
    · simpa using h.object₀
    · simpa using h.generation₀
    · exact HandleTable.nextGeneration_eq hg
  obtain ⟨t, hc, hv, ho, hg₀, hn⟩ := hcreate
  simp only [Kernel.openClose, List.foldl_cons, List.foldl_nil, Session.step, hc, Session.issue,
    HandleTable.close, hv, if_true, hs]
  exact ⟨by simpa using ho, by simpa using hg₀, rfl, hn⟩

/-- Cycling through slot `1` for `k` generations leaves slot `0` alone. -/
theorem Cycling.openClose_many {s : Session Unit} (k : Nat) : ∀ {g : Nat}, Cycling s.table g →
    g + k = 2 ^ 15 → 0 < k →
      Cycling (((List.range' g k).flatMap Kernel.openClose).foldl Session.step s).table 1 := by
  induction k generalizing s with
  | zero => intro g _ _ hk; exact absurd hk (by omega)
  | succ k ih =>
    intro g h hgk _
    rw [List.range'_succ, List.flatMap_cons, List.foldl_append]
    have hstep := h.openClose (by omega : g < 2 ^ 15)
    rcases Nat.eq_zero_or_pos k with hk | hk
    · subst hk
      rw [if_pos (by omega)] at hstep
      exact hstep
    · rw [if_neg (by omega)] at hstep
      exact ih hstep (by omega) hk

/-- Open a first handle and cycle through all other generations in another
slot. -/
def cycleOps : List (HandleOp Unit) :=
  [.create ()] ++ (List.range' 2 32766).flatMap openClose

theorem cycling_cycleOps : Cycling (Session.run cycleOps).table 1 := by
  have h : Cycling (Session.run [HandleOp.create ()]).table 2 := by
    constructor <;> rfl
  rw [cycleOps, Session.run_append]
  exact h.openClose_many 32766 (by decide) (by decide)

/-- Where the generations have come round to `1`, closing the first handle makes
its value the next one to be issued. -/
theorem Cycling.reissued {ops : List (HandleOp Unit)} (h : Cycling (Session.run ops).table 1) :
    (Session.run (ops ++ [.close 1])).live 1 = none ∧
      (Session.run (ops ++ [.close 1])).table.getGeneric ⟨none, none⟩ 1 = none ∧
      (Session.run (ops ++ [.close 1] ++ [.create ()])).table.getGeneric ⟨none, none⟩ 1
        = some () := by
  have hslot : getSlot 1 = 0 := by decide
  have hgen : getGeneration 1 = 1 := by decide
  have hv : (Session.run ops).table.isValid 1 = true := by
    rw [HandleTable.isValid_iff, hslot, hgen, h.object₀, h.generation₀]
    decide
  have hnp := ne_pseudo_of_toNat_lt (h := 1) (by decide)
  simp only [Session.run_append, List.foldl_cons, List.foldl_nil, Session.step,
    HandleTable.close, hv, if_true, hslot, hgen]
  refine ⟨by simp, ?_, ?_⟩
  · rw [HandleTable.getGeneric, if_neg hnp.1, if_neg hnp.2]
    simp [HandleTable.isValid, hslot]
  · simp only [HandleTable.create, Session.issue, h.next, if_pos (show 0 < maxCount by decide)]
    rw [HandleTable.getGeneric, if_neg hnp.1, if_neg hnp.2]
    simp [HandleTable.isValid, hslot, hgen, maxCount]

/-- Neither the top bit of a handle nor the time of its Close is taken into
account: `0x80000001` finds the object of the only handle issued, `1`; and after
`cycleOps` the value `1`, once closed, is valid again after a single Create. -/
theorem handleTable_not_sound_32bit :
    ((Session.run [HandleOp.create ()]).issued = [(1, ())] ∧
      (Session.run [HandleOp.create ()]).table.getGeneric ⟨none, none⟩ 0x80000001 = some () ∧
      (0x80000001 : Handle) ≠ currentThreadHandle ∧
      (0x80000001 : Handle) ≠ currentProcessHandle) ∧
    ((Session.run (cycleOps ++ [.close 1])).live 1 = none ∧
      (Session.run (cycleOps ++ [.close 1])).table.getGeneric ⟨none, none⟩ 1 = none ∧
      (Session.run (cycleOps ++ [.close 1] ++ [.create ()])).table.getGeneric ⟨none, none⟩ 1
        = some ()) :=
  ⟨by decide, cycling_cycleOps.reissued⟩

end AzaharPlus.Kernel
