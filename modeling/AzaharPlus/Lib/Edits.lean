import AzaharPlus.Lib.Bytes

/-!
# Editing a buffer in place

A routine that fills in a record writes bytes and little-endian words at fixed
offsets, one assignment after the other.  Such a routine is a list of `Edit`s.
`written` follows a single byte through the list and says what it ends up as,
where the edits alone decide that; on a concrete list it computes.
`byteAt_applyEdits` says that it tells the truth about every buffer.
-/

namespace Bytes

/-- One assignment to a buffer. -/
inductive Edit where
  /-- `data[off] = v`. -/
  | byte (off : Nat) (v : UInt8)
  /-- `WriteLE16(data, off, v)`. -/
  | le16 (off : Nat) (v : UInt16)
  /-- `WriteLE32(data, off, v)`. -/
  | le32 (off : Nat) (v : UInt32)
  /-- `std::copy(src, data + off)`. -/
  | copy (off : Nat) (src : List UInt8)
  /-- `data[off] &= m`. -/
  | mask (off : Nat) (m : UInt8)

namespace Edit

/-- The buffer after the assignment. -/
def apply (b : List UInt8) : Edit → List UInt8
  | byte off v => b.set off v
  | le16 off v => writeLE16 b off v
  | le32 off v => writeLE32 b off v
  | copy off src => memcpy b off src
  | mask off m => b.set off (byteAt b off &&& m)

/-- The offset after the last byte the assignment writes. -/
def stop : Edit → Nat
  | byte off _ => off + 1
  | le16 off _ => off + 2
  | le32 off _ => off + 4
  | copy off src => off + src.length
  | mask off _ => off + 1

/-- What is known of byte `i` after the assignment, where `old` was known of it
before. -/
def writtenAt (i : Nat) (old : Option UInt8) : Edit → Option UInt8
  | byte off v => if i = off then some v else old
  | le16 off v => if i = off then some (loByte v) else if i = off + 1 then some (hiByte v) else old
  | le32 off v =>
      if i = off then some (v &&& 0xFF).toUInt8
      else if i = off + 1 then some ((v >>> 8) &&& 0xFF).toUInt8
      else if i = off + 2 then some ((v >>> 16) &&& 0xFF).toUInt8
      else if i = off + 3 then some ((v >>> 24) &&& 0xFF).toUInt8
      else old
  | copy off src => if off ≤ i ∧ i < off + src.length then some (byteAt src (i - off)) else old
  | mask off m => if i = off then old.map (· &&& m) else old

theorem length_apply {b : List UInt8} {e : Edit} (h : e.stop ≤ b.length) :
    (e.apply b).length = b.length := by
  cases e with
  | byte off v => exact List.length_set
  | le16 off v => exact length_writeLE16 ..
  | le32 off v => exact length_writeLE32 ..
  | copy off src => exact length_memcpy h
  | mask off m => exact List.length_set

/-- What is known of a byte stays true across an assignment. -/
theorem writtenAt_sound {b : List UInt8} {e : Edit} (h : e.stop ≤ b.length) {i : Nat}
    {old : Option UInt8} (hold : ∀ v ∈ old, byteAt b i = v) :
    ∀ v ∈ e.writtenAt i old, byteAt (e.apply b) i = v := by
  intro v hv
  cases e with
  | byte off w =>
    rw [apply, byteAt_set h]
    rw [writtenAt] at hv
    split_ifs at hv ⊢ with hi
    · exact Option.some.inj hv
    · exact hold v hv
  | le16 off w =>
    rw [apply, byteAt_writeLE16 w h]
    rw [writtenAt] at hv
    split_ifs at hv ⊢ with h₀ h₁
    · exact Option.some.inj hv
    · exact Option.some.inj hv
    · exact hold v hv
  | le32 off w =>
    rw [apply, byteAt_writeLE32 w h]
    rw [writtenAt] at hv
    split_ifs at hv ⊢ with h₀ h₁ h₂ h₃
    · exact Option.some.inj hv
    · exact Option.some.inj hv
    · exact Option.some.inj hv
    · exact Option.some.inj hv
    · exact hold v hv
  | copy off src =>
    rw [apply, byteAt_memcpy h]
    rw [writtenAt] at hv
    split_ifs at hv ⊢ with hi
    · exact Option.some.inj hv
    · exact hold v hv
  | mask off m =>
    rw [apply, byteAt_set h]
    rw [writtenAt] at hv
    split_ifs at hv ⊢ with hi
    · obtain ⟨w, hw, rfl⟩ := Option.map_eq_some_iff.1 hv
      rw [← hi, hold w hw]
    · exact hold v hv

end Edit

/-- The buffer after all assignments of a list, made in order. -/
def applyEdits (es : List Edit) (b : List UInt8) : List UInt8 := es.foldl Edit.apply b

/-- What the assignments of a list alone say about byte `i`. -/
def written (es : List Edit) (i : Nat) : Option UInt8 :=
  es.foldl (fun old e => e.writtenAt i old) none

theorem length_applyEdits {es : List Edit} {b : List UInt8} (h : ∀ e ∈ es, e.stop ≤ b.length) :
    (applyEdits es b).length = b.length := by
  induction es generalizing b with
  | nil => rfl
  | cons e es ih =>
    have he := Edit.length_apply (h e (List.mem_cons_self ..))
    have hes : ∀ e' ∈ es, e'.stop ≤ (e.apply b).length := by
      intro e' he'
      rw [he]
      exact h e' (List.mem_cons_of_mem _ he')
    rw [applyEdits, List.foldl_cons]
    exact (ih hes).trans he

theorem foldl_writtenAt_sound {es : List Edit} {b : List UInt8} (h : ∀ e ∈ es, e.stop ≤ b.length)
    {i : Nat} {old : Option UInt8} (hold : ∀ v ∈ old, byteAt b i = v) :
    ∀ v ∈ es.foldl (fun old e => e.writtenAt i old) old, byteAt (applyEdits es b) i = v := by
  induction es generalizing b old with
  | nil => exact hold
  | cons e es ih =>
    have he := h e (List.mem_cons_self ..)
    have hes : ∀ e' ∈ es, e'.stop ≤ (e.apply b).length := by
      intro e' he'
      rw [Edit.length_apply he]
      exact h e' (List.mem_cons_of_mem _ he')
    exact ih hes (Edit.writtenAt_sound he hold)

/-- A byte the assignments decide is what they say, in every buffer they fit. -/
theorem byteAt_applyEdits {es : List Edit} {b : List UInt8} (h : ∀ e ∈ es, e.stop ≤ b.length)
    {i : Nat} {v : UInt8} (hv : written es i = some v) : byteAt (applyEdits es b) i = v := by
  apply foldl_writtenAt_sound h _ v hv
  intro w hw
  exact absurd hw (by simp)

end Bytes
