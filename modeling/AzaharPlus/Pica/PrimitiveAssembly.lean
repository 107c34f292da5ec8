import Mathlib.Data.ZMod.IntUnitsPower
import Mathlib.GroupTheory.Perm.Sign
import Mathlib.Data.Fin.VecNotation

/-!
# Primitive assembly

`PrimitiveAssembler` of `video_core/pica/primitive_assembly.cpp` builds triangles from the vertices
of the draws.  It keeps at most two vertices, an index into them and two flags.

* `assembled` — what the assembler has kept and emitted after any operations, by induction on them.
* `run_flatten` — several draws without a reset are one.
* `triangles_emitted` — the triangles of the four topologies.
-/

namespace AzaharPlus.Pica

/-- `TriangleTopology` -/
inductive TriangleTopology where
  | list
  | strip
  | fan
  | shader
  deriving DecidableEq, Repr

/-- The three vertices of a call of the triangle handler, in their order. -/
abbrev Triangle (V : Type) := Fin 3 → V

/-- `PrimitiveAssembler` -/
structure PrimitiveAssembler (V : Type) where
  topology : TriangleTopology
  bufferIndex : Nat
  buffer : Nat → V
  stripReady : Bool
  winding : Bool

/-- What is done to the assembler between two resets. -/
inductive AssemblyOp (V : Type) where
  | submitVertex (vtx : V)
  | setWinding

/-- What begins a new sequence of vertices. -/
inductive Restart where
  | reset
  | reconfigure (topology : TriangleTopology)

namespace PrimitiveAssembler

variable {V : Type}

/-- `SubmitVertex`, with the triangle that it hands to the handler. -/
def submitVertex (s : PrimitiveAssembler V) (vtx : V) :
    PrimitiveAssembler V × Option (Triangle V) :=
  match s.topology with
  | .list | .shader =>
      if s.bufferIndex < 2 then
        ({ s with
            buffer := Function.update s.buffer s.bufferIndex vtx
            bufferIndex := s.bufferIndex + 1 }, none)
      else if s.topology = .shader ∧ s.winding = true then
        ({ s with bufferIndex := 0, winding := false }, some ![s.buffer 1, s.buffer 0, vtx])
      else ({ s with bufferIndex := 0 }, some ![s.buffer 0, s.buffer 1, vtx])
  | .strip | .fan =>
      ({ s with
          buffer := Function.update s.buffer s.bufferIndex vtx
          stripReady := s.stripReady || s.bufferIndex = 1
          bufferIndex :=
            if s.topology = .strip then (if s.bufferIndex = 0 then 1 else 0) else 1 },
        if s.stripReady then some ![s.buffer 0, s.buffer 1, vtx] else none)

/-- `SetWinding` -/
def setWinding (s : PrimitiveAssembler V) : PrimitiveAssembler V := { s with winding := true }

/-- `Reset` -/
def reset (s : PrimitiveAssembler V) : PrimitiveAssembler V :=
  { s with bufferIndex := 0, stripReady := false, winding := false }

/-- `Reconfigure` -/
def reconfigure (s : PrimitiveAssembler V) (topology : TriangleTopology) : PrimitiveAssembler V :=
  { s.reset with topology := topology }

/-- A reset or a new topology. -/
def restart (s : PrimitiveAssembler V) : Restart → PrimitiveAssembler V
  | .reset => s.reset
  | .reconfigure topology => s.reconfigure topology

/-- One operation. -/
def step (s : PrimitiveAssembler V) : AssemblyOp V → PrimitiveAssembler V × Option (Triangle V)
  | .submitVertex vtx => s.submitVertex vtx
  | .setWinding => (s.setWinding, none)

/-- The operations of a draw, and the triangles that they emit. -/
def run (s : PrimitiveAssembler V) : List (AssemblyOp V) → PrimitiveAssembler V × List (Triangle V)
  | [] => (s, [])
  | op :: ops => ((s.step op).1.run ops |>.1, (s.step op).2.toList ++ ((s.step op).1.run ops).2)

/-- Several draws, one after another. -/
def runDraws (s : PrimitiveAssembler V) :
    List (List (AssemblyOp V)) → PrimitiveAssembler V × List (Triangle V)
  | [] => (s, [])
  | draw :: draws => ((s.run draw).1.runDraws draws |>.1,
      (s.run draw).2 ++ ((s.run draw).1.runDraws draws).2)

theorem run_append (s : PrimitiveAssembler V) (ops later : List (AssemblyOp V)) :
    s.run (ops ++ later) =
      (((s.run ops).1.run later).1, (s.run ops).2 ++ ((s.run ops).1.run later).2) := by
  induction ops generalizing s with
  | nil => rfl
  | cons op ops ih => simp [run, ih, List.append_assoc]

/-- Several draws without a reset are one. -/
theorem run_flatten (s : PrimitiveAssembler V) (draws : List (List (AssemblyOp V))) :
    s.runDraws draws = s.run draws.flatten := by
  induction draws generalizing s with
  | nil => rfl
  | cons draw draws ih => rw [runDraws, ih, List.flatten_cons, run_append]

end PrimitiveAssembler

/-! ## The triangles of a sequence of vertices -/

section Triangles

variable {V : Type}

/-- The vertices among the operations. -/
def submitted : List (AssemblyOp V) → List V
  | [] => []
  | .submitVertex vtx :: ops => vtx :: submitted ops
  | .setWinding :: ops => submitted ops

/-- The triangle of three vertices of the sequence, when it has so many. -/
def corners (vs : List V) (i j k : Nat) : Option (Triangle V) := do
  let a ← vs[i]?
  let b ← vs[j]?
  let c ← vs[k]?
  some ![a, b, c]

/-- `SetWinding` was called, and the triangle `k` is the one completed next. -/
def Wound (ops : List (AssemblyOp V)) (k : Nat) : Prop :=
  ∃ before after, ops = before ++ .setWinding :: after ∧ (submitted before).length / 3 = k

/-- The triangles that are emitted for a sequence of vertices. -/
def Emits (topology : TriangleTopology) (ops : List (AssemblyOp V)) (emitted : List (Triangle V)) :
    Prop :=
  match topology with
  | .list => ∀ k, emitted[k]? = corners (submitted ops) (3 * k) (3 * k + 1) (3 * k + 2)
  | .fan => ∀ k, emitted[k]? = corners (submitted ops) 0 (k + 1) (k + 2)
  | .strip => ∀ k, ∃ σ : Equiv.Perm (Fin 3), Equiv.Perm.sign σ = (-1) ^ k ∧
      emitted[k]? = (corners (submitted ops) k (k + 1) (k + 2)).map (· ∘ σ)
  | .shader => ∀ k,
      (Wound ops k →
        emitted[k]? = corners (submitted ops) (3 * k + 1) (3 * k) (3 * k + 2)) ∧
      (¬ Wound ops k →
        emitted[k]? = corners (submitted ops) (3 * k) (3 * k + 1) (3 * k + 2))

theorem submitted_append (ops later : List (AssemblyOp V)) :
    submitted (ops ++ later) = submitted ops ++ submitted later := by
  induction ops with
  | nil => rfl
  | cons op ops ih =>
    cases op with
    | submitVertex vtx => exact congrArg (vtx :: ·) ih
    | setWinding => exact ih

theorem submitted_submit (ops : List (AssemblyOp V)) (vtx : V) :
    submitted (ops ++ [.submitVertex vtx]) = submitted ops ++ [vtx] := submitted_append _ _

theorem submitted_winding (ops : List (AssemblyOp V)) :
    submitted (ops ++ [.setWinding]) = submitted ops :=
  (submitted_append _ _).trans (List.append_nil _)

/-! ## Three vertices of a growing sequence -/

theorem corners_append {vs ws : List V} {i j k : Nat} (hi : i < vs.length) (hj : j < vs.length)
    (hk : k < vs.length) : corners (vs ++ ws) i j k = corners vs i j k := by
  simp [corners, List.getElem?_append_left, hi, hj, hk]

theorem corners_eq_none {vs : List V} (i j : Nat) {k : Nat} (hk : vs.length ≤ k) :
    corners vs i j k = none := by
  simp [corners, List.getElem?_eq_none hk]

theorem corners_eq_some {vs : List V} {i j k : Nat} {a b c : V} (ha : vs[i]? = some a)
    (hb : vs[j]? = some b) (hc : vs[k]? = some c) : corners vs i j k = some ![a, b, c] := by
  simp [corners, ha, hb, hc]

/-- A list and the function that tells its elements grow together. -/
theorem getElem?_snoc {α : Type} {l : List α} {f f' : Nat → Option α} {x : α}
    (hl : ∀ k, l[k]? = f k) (hsame : ∀ k < l.length, f' k = f k) (hnew : f' l.length = some x)
    (hnone : ∀ k, l.length < k → f' k = none) (k : Nat) : (l ++ [x])[k]? = f' k := by
  rcases Nat.lt_trichotomy k l.length with hlt | heq | hgt
  · rw [List.getElem?_append_left hlt, hl, hsame k hlt]
  · rw [heq, hnew, List.getElem?_concat_length]
  · rw [hnone k hgt]
    exact List.getElem?_eq_none (by rw [List.length_append]; exact hgt)

/-! ## Windings -/

theorem Wound.le {ops : List (AssemblyOp V)} {k : Nat} (h : Wound ops k) :
    k ≤ (submitted ops).length / 3 := by
  obtain ⟨before, after, rfl, rfl⟩ := h
  rw [submitted_append, List.length_append]
  exact Nat.div_le_div_right (Nat.le_add_right _ _)

theorem wound_submit (ops : List (AssemblyOp V)) (vtx : V) (k : Nat) :
    Wound (ops ++ [.submitVertex vtx]) k ↔ Wound ops k := by
  constructor
  · rintro ⟨before, after, hops, hk⟩
    rcases List.eq_nil_or_concat after with hnil | ⟨after', last, hlast⟩
    · rw [hnil] at hops
      have hends := List.append_inj_right' hops rfl
      cases hends
    · rw [hlast, List.concat_eq_append, ← List.cons_append, ← List.append_assoc] at hops
      exact ⟨before, after', List.append_inj_left' hops rfl, hk⟩
  · rintro ⟨before, after, rfl, hk⟩
    exact ⟨before, after ++ [.submitVertex vtx], by simp, hk⟩

theorem wound_winding (ops : List (AssemblyOp V)) (k : Nat) :
    Wound (ops ++ [.setWinding]) k ↔ Wound ops k ∨ (submitted ops).length / 3 = k := by
  constructor
  · rintro ⟨before, after, hops, hk⟩
    rcases List.eq_nil_or_concat after with hnil | ⟨after', last, hlast⟩
    · rw [hnil] at hops
      rw [List.append_inj_left' hops rfl]
      exact Or.inr hk
    · rw [hlast, List.concat_eq_append, ← List.cons_append, ← List.append_assoc] at hops
      exact Or.inl ⟨before, after', List.append_inj_left' hops rfl, hk⟩
  · rintro (⟨before, after, rfl, hk⟩ | hk)
    · exact ⟨before, after ++ [.setWinding], by simp, hk⟩
    · exact ⟨ops, [], rfl, hk⟩

/-! ## What the assembler has kept and emitted -/

/-- How many triangles a number of vertices completes. -/
def triangleCount : TriangleTopology → Nat → Nat
  | .list, n | .shader, n => n / 3
  | .strip, n | .fan, n => n - 2

open Classical in
/-- The triangle `k` of the sequence, in the order in which it is emitted. -/
noncomputable def triangleAt (topology : TriangleTopology) (ops : List (AssemblyOp V)) (k : Nat) :
    Option (Triangle V) :=
  match topology with
  | .list => corners (submitted ops) (3 * k) (3 * k + 1) (3 * k + 2)
  | .fan => corners (submitted ops) 0 (k + 1) (k + 2)
  | .strip =>
      if k % 2 = 0 then corners (submitted ops) k (k + 1) (k + 2)
      else corners (submitted ops) (k + 1) k (k + 2)
  | .shader =>
      if Wound ops k then corners (submitted ops) (3 * k + 1) (3 * k) (3 * k + 2)
      else corners (submitted ops) (3 * k) (3 * k + 1) (3 * k + 2)

/-- What the assembler keeps of the vertices. -/
def Kept (ops : List (AssemblyOp V)) (s : PrimitiveAssembler V) : Prop :=
  let vs := submitted ops
  match s.topology with
  | .list | .shader =>
      s.bufferIndex = vs.length % 3 ∧
        (∀ i < vs.length % 3, vs[3 * (vs.length / 3) + i]? = some (s.buffer i)) ∧
        (s.topology = .shader → (s.winding = true ↔ Wound ops (vs.length / 3)))
  | .strip =>
      s.bufferIndex = vs.length % 2 ∧ (s.stripReady = true ↔ 2 ≤ vs.length) ∧
        ∀ i < vs.length, vs.length ≤ i + 2 → vs[i]? = some (s.buffer (i % 2))
  | .fan =>
      s.bufferIndex = min vs.length 1 ∧ (s.stripReady = true ↔ 2 ≤ vs.length) ∧
        (0 < vs.length → vs[0]? = some (s.buffer 0)) ∧
        (2 ≤ vs.length → vs[vs.length - 1]? = some (s.buffer 1))

/-- What holds of the assembler and of the triangles it has emitted. -/
structure Assembled (t : TriangleTopology) (ops : List (AssemblyOp V))
    (r : PrimitiveAssembler V × List (Triangle V)) : Prop where
  topology : r.1.topology = t
  kept : Kept ops r.1
  count : r.2.length = triangleCount t (submitted ops).length
  emitted : ∀ k, r.2[k]? = triangleAt t ops k

/-- The triangles that are complete do not change with further vertices. -/
theorem triangleAt_submit {topology : TriangleTopology} {ops : List (AssemblyOp V)} {k : Nat}
    (hk : k < triangleCount topology (submitted ops).length) (vtx : V) :
    triangleAt topology (ops ++ [.submitVertex vtx]) k = triangleAt topology ops k := by
  cases topology with
  | list =>
    simp only [triangleCount] at hk
    simp only [triangleAt, submitted_submit]
    exact corners_append (by omega) (by omega) (by omega)
  | strip =>
    simp only [triangleCount] at hk
    simp only [triangleAt, submitted_submit]
    rw [corners_append (by omega) (by omega) (by omega),
      corners_append (by omega) (by omega) (by omega)]
  | fan =>
    simp only [triangleCount] at hk
    simp only [triangleAt, submitted_submit]
    exact corners_append (by omega) (by omega) (by omega)
  | shader =>
    simp only [triangleCount] at hk
    simp only [triangleAt, submitted_submit]
    rw [corners_append (by omega) (by omega) (by omega),
      corners_append (by omega) (by omega) (by omega)]
    classical exact if_congr (wound_submit ops vtx k) rfl rfl

theorem triangleAt_eq_none {topology : TriangleTopology} {ops : List (AssemblyOp V)} {k : Nat}
    (hk : triangleCount topology (submitted ops).length ≤ k) : triangleAt topology ops k = none := by
  cases topology with
  | list => exact corners_eq_none _ _ (by simp only [triangleCount] at hk; omega)
  | strip =>
    simp only [triangleCount] at hk
    simp only [triangleAt]
    split
    · exact corners_eq_none _ _ (by omega)
    · exact corners_eq_none _ _ (by omega)
  | fan => exact corners_eq_none _ _ (by simp only [triangleCount] at hk; omega)
  | shader =>
    simp only [triangleCount] at hk
    simp only [triangleAt]
    split
    · exact corners_eq_none _ _ (by omega)
    · exact corners_eq_none _ _ (by omega)

/-- `SetWinding` changes no triangle that is complete. -/
theorem triangleAt_winding (topology : TriangleTopology) (ops : List (AssemblyOp V)) (k : Nat) :
    triangleAt topology (ops ++ [.setWinding]) k = triangleAt topology ops k := by
  cases topology with
  | list => simp only [triangleAt, submitted_winding]
  | strip => simp only [triangleAt, submitted_winding]
  | fan => simp only [triangleAt, submitted_winding]
  | shader =>
    by_cases hk : (submitted ops).length / 3 = k
    · have hnone : triangleCount .shader (submitted ops).length ≤ k := hk.le
      rw [triangleAt_eq_none hnone]
      exact triangleAt_eq_none (by rw [submitted_winding]; exact hnone)
    · simp only [triangleAt, submitted_winding]
      classical exact if_congr ((wound_winding ops k).trans (or_iff_left hk)) rfl rfl

/-- A triangle is complete with the next vertex. -/
theorem Assembled.complete {topology : TriangleTopology} {ops : List (AssemblyOp V)}
    {r : PrimitiveAssembler V × List (Triangle V)} (h : Assembled topology ops r) {vtx : V}
    {t : Triangle V}
    (hcount : triangleCount topology ((submitted ops).length + 1) =
      triangleCount topology (submitted ops).length + 1)
    (hnew : triangleAt topology (ops ++ [.submitVertex vtx])
      (triangleCount topology (submitted ops).length) = some t) (k : Nat) :
    (r.2 ++ [t])[k]? = triangleAt topology (ops ++ [.submitVertex vtx]) k := by
  refine getElem?_snoc h.emitted ?_ (by rw [h.count]; exact hnew) ?_ k
  · intro k hk
    rw [h.count] at hk
    exact triangleAt_submit hk vtx
  · intro k hk
    rw [h.count] at hk
    refine triangleAt_eq_none ?_
    rw [submitted_submit, List.length_append]
    exact hcount.trans_le hk

/-- No triangle is complete with the next vertex. -/
theorem Assembled.incomplete {topology : TriangleTopology} {ops : List (AssemblyOp V)}
    {r : PrimitiveAssembler V × List (Triangle V)} (h : Assembled topology ops r) {vtx : V}
    (hcount : triangleCount topology ((submitted ops).length + 1) =
      triangleCount topology (submitted ops).length) (k : Nat) :
    r.2[k]? = triangleAt topology (ops ++ [.submitVertex vtx]) k := by
  rw [h.emitted]
  by_cases hk : k < triangleCount topology (submitted ops).length
  · exact (triangleAt_submit hk vtx).symm
  · rw [triangleAt_eq_none (Nat.le_of_not_lt hk)]
    refine (triangleAt_eq_none ?_).symm
    rw [submitted_submit, List.length_append]
    exact hcount.trans_le (Nat.le_of_not_lt hk)

end Triangles

/-! ## One operation -/

namespace PrimitiveAssembler

variable {V : Type} {ops : List (AssemblyOp V)} {s : PrimitiveAssembler V}
  {emitted : List (Triangle V)}

theorem submitVertex_three (h : s.topology = .list ∨ s.topology = .shader) (vtx : V) :
    s.submitVertex vtx =
      if s.bufferIndex < 2 then
        ({ s with
            buffer := Function.update s.buffer s.bufferIndex vtx
            bufferIndex := s.bufferIndex + 1 }, none)
      else if s.topology = .shader ∧ s.winding = true then
        ({ s with bufferIndex := 0, winding := false }, some ![s.buffer 1, s.buffer 0, vtx])
      else ({ s with bufferIndex := 0 }, some ![s.buffer 0, s.buffer 1, vtx]) := by
  unfold submitVertex
  rcases h with h | h
  · rw [h]
  · rw [h]

theorem kept_three (h : s.topology = .list ∨ s.topology = .shader) :
    Kept ops s ↔ s.bufferIndex = (submitted ops).length % 3 ∧
      (∀ i < (submitted ops).length % 3,
        (submitted ops)[3 * ((submitted ops).length / 3) + i]? = some (s.buffer i)) ∧
      (s.topology = .shader → (s.winding = true ↔ Wound ops ((submitted ops).length / 3))) := by
  unfold Kept
  rcases h with h | h
  · simp only [h]
  · simp only [h]

theorem triangleCount_three {t : TriangleTopology} (h : t = .list ∨ t = .shader) (n : Nat) :
    triangleCount t n = n / 3 := by
  rcases h with rfl | rfl
  · rfl
  · rfl

/-- The third vertex completes a triangle. -/
theorem triangleAt_third {t : TriangleTopology} (h : t = .list ∨ t = .shader)
    (hthird : (submitted ops).length % 3 = 2)
    (hbuffer : ∀ i < (submitted ops).length % 3,
      (submitted ops)[3 * ((submitted ops).length / 3) + i]? = some (s.buffer i)) (vtx : V) :
    ((t = .shader ∧ Wound ops ((submitted ops).length / 3)) →
      triangleAt t (ops ++ [.submitVertex vtx]) ((submitted ops).length / 3) =
        some ![s.buffer 1, s.buffer 0, vtx]) ∧
    (¬ (t = .shader ∧ Wound ops ((submitted ops).length / 3)) →
      triangleAt t (ops ++ [.submitVertex vtx]) ((submitted ops).length / 3) =
        some ![s.buffer 0, s.buffer 1, vtx]) := by
  generalize hk : (submitted ops).length / 3 = k at *
  have hlength : (submitted ops).length = 3 * k + 2 := by omega
  have hfirst : (submitted ops ++ [vtx])[3 * k]? = some (s.buffer 0) := by
    rw [List.getElem?_append_left (by omega)]
    exact hbuffer 0 (by omega)
  have hsecond : (submitted ops ++ [vtx])[3 * k + 1]? = some (s.buffer 1) := by
    rw [List.getElem?_append_left (by omega)]
    exact hbuffer 1 (by omega)
  have hlast : (submitted ops ++ [vtx])[3 * k + 2]? = some vtx := by
    rw [← hlength, List.getElem?_concat_length]
  unfold triangleAt
  rcases h with rfl | rfl
  · simp only [submitted_submit]
    exact ⟨fun hwound => (TriangleTopology.noConfusion hwound.1),
      fun _ => corners_eq_some hfirst hsecond hlast⟩
  · simp only [submitted_submit, true_and]
    refine ⟨fun hwound => ?_, fun hwound => ?_⟩
    · rw [if_pos ((wound_submit ops vtx k).2 hwound)]
      exact corners_eq_some hsecond hfirst hlast
    · rw [if_neg (mt (wound_submit ops vtx k).1 hwound)]
      exact corners_eq_some hfirst hsecond hlast

/-- A vertex in the topologies that take three vertices for each triangle. -/
theorem assembled_submit_three {t : TriangleTopology} (ht : t = .list ∨ t = .shader)
    (h : Assembled t ops (s, emitted)) (vtx : V) :
    Assembled t (ops ++ [.submitVertex vtx])
      ((s.submitVertex vtx).1, emitted ++ (s.submitVertex vtx).2.toList) := by
  have htopology : s.topology = t := h.topology
  have hthree : s.topology = .list ∨ s.topology = .shader := htopology ▸ ht
  obtain ⟨hindex, hbuffer, hwinding⟩ := (kept_three hthree).1 h.kept
  have hcount := h.count
  have hlength : (submitted (ops ++ [.submitVertex vtx])).length = (submitted ops).length + 1 := by
    rw [submitted_submit, List.length_append]
    rfl
  rw [triangleCount_three ht] at hcount
  simp only at hcount
  rw [submitVertex_three hthree]
  by_cases hroom : s.bufferIndex < 2
  · rw [if_pos hroom]
    have hsame : ((submitted ops).length + 1) / 3 = (submitted ops).length / 3 := by omega
    refine ⟨htopology, (kept_three (by exact hthree)).2 ⟨?_, ?_, ?_⟩, ?_, ?_⟩
    · simp only [hlength]
      omega
    · intro i hi
      rw [hlength] at hi
      rw [hlength, hsame, submitted_submit]
      by_cases hlast : i = s.bufferIndex
      · have hplace : 3 * ((submitted ops).length / 3) + i = (submitted ops).length := by omega
        rw [hplace, List.getElem?_concat_length, hlast]
        simp
      · rw [List.getElem?_append_left (by omega)]
        simp only [Function.update_of_ne hlast]
        exact hbuffer i (by omega)
    · intro hshader
      rw [hlength, hsame, wound_submit]
      exact hwinding hshader
    · rw [hlength, triangleCount_three ht]
      simp only [Option.toList_none, List.append_nil]
      omega
    · simp only [Option.toList_none, List.append_nil]
      refine h.incomplete ?_
      rw [triangleCount_three ht, triangleCount_three ht]
      exact hsame
  · have hthird : (submitted ops).length % 3 = 2 := by omega
    have hmore : triangleCount t ((submitted ops).length + 1) =
        triangleCount t (submitted ops).length + 1 := by
      rw [triangleCount_three ht, triangleCount_three ht]
      omega
    obtain ⟨hswapped, hplain⟩ := triangleAt_third ht hthird hbuffer vtx
    rw [← triangleCount_three ht] at hswapped hplain
    -- no winding is set for the triangle behind the one that is complete now
    have hnext : ¬ Wound (ops ++ [.submitVertex vtx])
        ((submitted (ops ++ [.submitVertex vtx])).length / 3) := by
      rw [wound_submit, hlength]
      intro hwound
      have hle := hwound.le
      omega
    have hcomplete : emitted.length + 1 =
        triangleCount t (submitted (ops ++ [.submitVertex vtx])).length := by
      rw [hlength, hmore, triangleCount_three ht, hcount]
    have hnone : ∀ i < (submitted (ops ++ [.submitVertex vtx])).length % 3,
        (submitted (ops ++ [.submitVertex vtx]))[3 *
          ((submitted (ops ++ [.submitVertex vtx])).length / 3) + i]? = some (s.buffer i) := by
      intro i hi
      rw [hlength] at hi
      omega
    have hempty : 0 = (submitted (ops ++ [.submitVertex vtx])).length % 3 := by
      rw [hlength]
      omega
    rw [if_neg hroom]
    by_cases hwound : s.topology = .shader ∧ s.winding = true
    · have hshader : t = .shader := htopology.symm.trans hwound.1
      rw [if_pos hwound]
      refine ⟨htopology, (kept_three (by exact hthree)).2 ⟨hempty, hnone, fun _ => ?_⟩, ?_, ?_⟩
      · exact iff_of_false Bool.false_ne_true hnext
      · rw [← hcomplete]
        exact List.length_append
      · refine h.complete hmore (hswapped ⟨hshader, ?_⟩)
        rw [triangleCount_three ht]
        exact (hwinding hwound.1).1 hwound.2
    · rw [if_neg hwound]
      refine ⟨htopology, (kept_three (by exact hthree)).2 ⟨hempty, hnone, fun hshader => ?_⟩, ?_, ?_⟩
      · exact iff_of_false (fun hset => hwound ⟨hshader, hset⟩) hnext
      · rw [← hcomplete]
        exact List.length_append
      · refine h.complete hmore (hplain fun hset => hwound ⟨htopology.trans hset.1, ?_⟩)
        rw [triangleCount_three ht] at hset
        exact (hwinding (htopology.trans hset.1)).2 hset.2

theorem kept_strip (h : s.topology = .strip) :
    Kept ops s ↔ s.bufferIndex = (submitted ops).length % 2 ∧
      (s.stripReady = true ↔ 2 ≤ (submitted ops).length) ∧
      ∀ i < (submitted ops).length, (submitted ops).length ≤ i + 2 →
        (submitted ops)[i]? = some (s.buffer (i % 2)) := by
  unfold Kept
  simp only [h]

/-- A vertex in a strip takes the place of the last but one. -/
theorem assembled_submit_strip (h : Assembled .strip ops (s, emitted)) (vtx : V) :
    Assembled .strip (ops ++ [.submitVertex vtx])
      ((s.submitVertex vtx).1, emitted ++ (s.submitVertex vtx).2.toList) := by
  have htopology : s.topology = .strip := h.topology
  obtain ⟨hindex, hready, hbuffer⟩ := (kept_strip htopology).1 h.kept
  have hlength : (submitted (ops ++ [.submitVertex vtx])).length = (submitted ops).length + 1 := by
    rw [submitted_submit, List.length_append]
    rfl
  have hcount : emitted.length = (submitted ops).length - 2 := h.count
  have hsubmit : s.submitVertex vtx =
      ({ s with
          buffer := Function.update s.buffer s.bufferIndex vtx
          stripReady := s.stripReady || s.bufferIndex = 1
          bufferIndex := if s.bufferIndex = 0 then 1 else 0 },
        if s.stripReady then some ![s.buffer 0, s.buffer 1, vtx] else none) := by
    unfold submitVertex
    simp only [htopology]
    rfl
  rw [hsubmit]
  have hkept : Kept (ops ++ [.submitVertex vtx])
      { s with
        buffer := Function.update s.buffer s.bufferIndex vtx
        stripReady := s.stripReady || s.bufferIndex = 1
        bufferIndex := if s.bufferIndex = 0 then 1 else 0 } := by
    refine (kept_strip (by exact htopology)).2 ⟨?_, ?_, ?_⟩
    · rw [hlength]
      simp only
      split
      · omega
      · omega
    · rw [hlength, Bool.or_eq_true, hready, decide_eq_true_iff]
      omega
    · intro i hi hlast
      rw [hlength] at hi hlast
      rw [submitted_submit]
      by_cases hnew : i = (submitted ops).length
      · have hplace : i % 2 = s.bufferIndex := by omega
        rw [hnew, List.getElem?_concat_length, ← hnew, hplace]
        simp
      · have hplace : i % 2 ≠ s.bufferIndex := by omega
        rw [List.getElem?_append_left (by omega)]
        simp only [Function.update_of_ne hplace]
        exact hbuffer i (by omega) (by omega)
  by_cases hset : s.stripReady = true
  · have htwo := hready.1 hset
    obtain ⟨k, hk⟩ : ∃ k, (submitted ops).length = k + 2 := ⟨(submitted ops).length - 2, by omega⟩
    rw [if_pos hset]
    refine ⟨htopology, hkept, ?_, h.complete ?_ ?_⟩
    · rw [hlength]
      simp only [triangleCount, Option.toList_some, List.length_append, List.length_singleton]
      omega
    · simp only [triangleCount]
      omega
    · have hfirst : (submitted ops ++ [vtx])[k]? = some (s.buffer (k % 2)) := by
        rw [List.getElem?_append_left (by omega)]
        exact hbuffer k (by omega) (by omega)
      have hsecond : (submitted ops ++ [vtx])[k + 1]? = some (s.buffer ((k + 1) % 2)) := by
        rw [List.getElem?_append_left (by omega)]
        exact hbuffer (k + 1) (by omega) (by omega)
      have hlast : (submitted ops ++ [vtx])[k + 2]? = some vtx := by
        rw [← hk, List.getElem?_concat_length]
      simp only [triangleCount, triangleAt, submitted_submit, hk, Nat.add_sub_cancel]
      by_cases heven : k % 2 = 0
      · have hodd : (k + 1) % 2 = 1 := by omega
        rw [heven] at hfirst
        rw [hodd] at hsecond
        rw [if_pos heven]
        exact corners_eq_some hfirst hsecond hlast
      · have hone : k % 2 = 1 := by omega
        have hzero : (k + 1) % 2 = 0 := by omega
        rw [hone] at hfirst
        rw [hzero] at hsecond
        rw [if_neg heven]
        exact corners_eq_some hsecond hfirst hlast
  · have htwo := mt hready.2 hset
    rw [if_neg hset]
    simp only [Option.toList_none, List.append_nil]
    refine ⟨htopology, hkept, ?_, h.incomplete ?_⟩
    · rw [hlength]
      simp only [triangleCount]
      omega
    · simp only [triangleCount]
      omega

theorem kept_fan (h : s.topology = .fan) :
    Kept ops s ↔ s.bufferIndex = min (submitted ops).length 1 ∧
      (s.stripReady = true ↔ 2 ≤ (submitted ops).length) ∧
      (0 < (submitted ops).length → (submitted ops)[0]? = some (s.buffer 0)) ∧
      (2 ≤ (submitted ops).length →
        (submitted ops)[(submitted ops).length - 1]? = some (s.buffer 1)) := by
  unfold Kept
  simp only [h]

/-- A vertex in a fan takes the place of the last. -/
theorem assembled_submit_fan (h : Assembled .fan ops (s, emitted)) (vtx : V) :
    Assembled .fan (ops ++ [.submitVertex vtx])
      ((s.submitVertex vtx).1, emitted ++ (s.submitVertex vtx).2.toList) := by
  have htopology : s.topology = .fan := h.topology
  obtain ⟨hindex, hready, hcentre, hlatest⟩ := (kept_fan htopology).1 h.kept
  have hlength : (submitted (ops ++ [.submitVertex vtx])).length = (submitted ops).length + 1 := by
    rw [submitted_submit, List.length_append]
    rfl
  have hcount : emitted.length = (submitted ops).length - 2 := h.count
  have hsubmit : s.submitVertex vtx =
      ({ s with
          buffer := Function.update s.buffer s.bufferIndex vtx
          stripReady := s.stripReady || s.bufferIndex = 1
          bufferIndex := 1 },
        if s.stripReady then some ![s.buffer 0, s.buffer 1, vtx] else none) := by
    unfold submitVertex
    simp only [htopology]
    rfl
  rw [hsubmit]
  have hkept : Kept (ops ++ [.submitVertex vtx])
      { s with
        buffer := Function.update s.buffer s.bufferIndex vtx
        stripReady := s.stripReady || s.bufferIndex = 1
        bufferIndex := 1 } := by
    refine (kept_fan (by exact htopology)).2 ⟨?_, ?_, ?_, ?_⟩
    · rw [hlength]
      exact (Nat.min_eq_right (Nat.le_add_left 1 _)).symm
    · rw [hlength, Bool.or_eq_true, hready, decide_eq_true_iff]
      omega
    · intro _
      rw [submitted_submit]
      by_cases hfirst : (submitted ops).length = 0
      · have hplace : s.bufferIndex = 0 := by omega
        have hnil : submitted ops = [] := List.length_eq_zero_iff.1 hfirst
        rw [hnil, hplace]
        simp
      · have hplace : 0 ≠ s.bufferIndex := by omega
        rw [List.getElem?_append_left (by omega)]
        simp only [Function.update_of_ne hplace]
        exact hcentre (by omega)
    · intro htwo
      rw [hlength] at htwo
      have hplace : s.bufferIndex = 1 := by omega
      rw [hlength, Nat.add_sub_cancel, submitted_submit, List.getElem?_concat_length, hplace]
      simp
  by_cases hset : s.stripReady = true
  · have htwo := hready.1 hset
    obtain ⟨k, hk⟩ : ∃ k, (submitted ops).length = k + 2 := ⟨(submitted ops).length - 2, by omega⟩
    rw [if_pos hset]
    refine ⟨htopology, hkept, ?_, h.complete ?_ ?_⟩
    · rw [hlength]
      simp only [triangleCount, Option.toList_some, List.length_append, List.length_singleton]
      omega
    · simp only [triangleCount]
      omega
    · have hfirst : (submitted ops ++ [vtx])[0]? = some (s.buffer 0) := by
        rw [List.getElem?_append_left (by omega)]
        exact hcentre (by omega)
      have hsecond : (submitted ops ++ [vtx])[k + 1]? = some (s.buffer 1) := by
        rw [List.getElem?_append_left (by omega)]
        have hone := hlatest htwo
        rw [hk] at hone
        exact hone
      have hlast : (submitted ops ++ [vtx])[k + 2]? = some vtx := by
        rw [← hk, List.getElem?_concat_length]
      simp only [triangleCount, triangleAt, submitted_submit, hk, Nat.add_sub_cancel]
      exact corners_eq_some hfirst hsecond hlast
  · have htwo := mt hready.2 hset
    rw [if_neg hset]
    simp only [Option.toList_none, List.append_nil]
    refine ⟨htopology, hkept, ?_, h.incomplete ?_⟩
    · rw [hlength]
      simp only [triangleCount]
      omega
    · simp only [triangleCount]
      omega

/-- `SetWinding` only matters for the triangle that is completed next. -/
theorem assembled_setWinding {t : TriangleTopology} (h : Assembled t ops (s, emitted)) :
    Assembled t (ops ++ [.setWinding]) (s.setWinding, emitted) := by
  have htopology : s.topology = t := h.topology
  have hkept := h.kept
  refine ⟨htopology, ?_, ?_, fun k => (h.emitted k).trans (triangleAt_winding t ops k).symm⟩
  · unfold Kept at hkept ⊢
    cases t with
    | list =>
      simp only [setWinding, htopology, submitted_winding] at hkept ⊢
      exact ⟨hkept.1, hkept.2.1, TriangleTopology.noConfusion⟩
    | strip =>
      simp only [setWinding, htopology, submitted_winding] at hkept ⊢
      exact hkept
    | fan =>
      simp only [setWinding, htopology, submitted_winding] at hkept ⊢
      exact hkept
    | shader =>
      simp only [setWinding, htopology, submitted_winding] at hkept ⊢
      exact ⟨hkept.1, hkept.2.1, fun _ => iff_of_true trivial
        ((wound_winding ops _).2 (Or.inr rfl))⟩
  · rw [submitted_winding]
    exact h.count

/-! ## Any operations -/

theorem assembled_step {t : TriangleTopology} (h : Assembled t ops (s, emitted))
    (op : AssemblyOp V) :
    Assembled t (ops ++ [op]) ((s.step op).1, emitted ++ (s.step op).2.toList) := by
  cases op with
  | submitVertex vtx =>
    cases t with
    | list => exact assembled_submit_three (Or.inl rfl) h vtx
    | strip => exact assembled_submit_strip h vtx
    | fan => exact assembled_submit_fan h vtx
    | shader => exact assembled_submit_three (Or.inr rfl) h vtx
  | setWinding =>
    have hset := assembled_setWinding h
    rw [← List.append_nil emitted] at hset
    exact hset

theorem not_wound_nil (k : Nat) : ¬ Wound ([] : List (AssemblyOp V)) k := by
  rintro ⟨before, after, hops, -⟩
  exact List.cons_ne_nil _ _ (List.append_eq_nil_iff.1 hops.symm).2

/-- Nothing is kept after a reset. -/
theorem assembled_restart (s : PrimitiveAssembler V) (r : Restart) :
    Assembled (s.restart r).topology [] (s.restart r, []) := by
  have hempty : (s.restart r).bufferIndex = 0 ∧ (s.restart r).stripReady = false ∧
      (s.restart r).winding = false := by
    cases r with
    | reset => exact ⟨rfl, rfl, rfl⟩
    | reconfigure topology => exact ⟨rfl, rfl, rfl⟩
  obtain ⟨hindex, hready, hwinding⟩ := hempty
  have hcount : triangleCount (s.restart r).topology 0 = 0 := by
    cases (s.restart r).topology <;> rfl
  refine ⟨rfl, ?_, hcount.symm, fun k => ?_⟩
  · have hnone (i : Nat) (hi : i < 0) (P : Prop) : P := absurd hi (Nat.not_lt_zero i)
    cases htopology : (s.restart r).topology with
    | list =>
      exact (kept_three (Or.inl htopology)).2 ⟨hindex, fun i hi => hnone i hi _, fun hshader =>
        TriangleTopology.noConfusion (htopology.symm.trans hshader)⟩
    | strip =>
      refine (kept_strip htopology).2 ⟨hindex, ?_, fun i hi => hnone i hi _⟩
      simp [hready, submitted]
    | fan =>
      refine (kept_fan htopology).2 ⟨hindex, ?_, fun hpos => hnone 0 hpos _, ?_⟩
      · simp [hready, submitted]
      · intro htwo
        exact absurd htwo (Nat.not_succ_le_zero 1)
    | shader =>
      refine (kept_three (Or.inr htopology)).2 ⟨hindex, fun i hi => hnone i hi _, fun _ => ?_⟩
      exact iff_of_false (by rw [hwinding]; exact Bool.false_ne_true) (not_wound_nil _)
  · refine (triangleAt_eq_none ?_).symm
    exact hcount.trans_le (Nat.zero_le k)

/-- What the assembler has kept and emitted after any operations behind a reset. -/
theorem assembled (s : PrimitiveAssembler V) (r : Restart) (ops : List (AssemblyOp V)) :
    Assembled (s.restart r).topology ops ((s.restart r).run ops) := by
  induction ops using List.reverseRecOn with
  | nil => exact assembled_restart s r
  | append_singleton ops op ih =>
    have hstep := assembled_step ih op
    rw [run_append]
    simpa only [run, List.append_nil] using hstep

/-- The triangles of the strip turn around with each vertex. -/
theorem corners_swap (vs : List V) (i j k : Nat) :
    corners vs j i k = (corners vs i j k).map (· ∘ Equiv.swap 0 1) := by
  unfold corners
  cases vs[i]? with
  | none => cases vs[j]? <;> rfl
  | some a =>
    cases vs[j]? with
    | none => rfl
    | some b =>
      cases vs[k]? with
      | none => rfl
      | some c =>
        simp only [Option.bind_eq_bind, Option.bind_some, Option.map_some, Option.some.injEq]
        funext l
        match l with
        | 0 => rfl
        | 1 => rfl
        | 2 => rfl

theorem emits_of_triangleAt {t : TriangleTopology} {emitted : List (Triangle V)}
    (h : ∀ k, emitted[k]? = triangleAt t ops k) : Emits t ops emitted := by
  cases t with
  | list => exact h
  | fan => exact h
  | strip =>
    intro k
    rw [h k]
    simp only [triangleAt]
    by_cases heven : k % 2 = 0
    · refine ⟨1, ?_, ?_⟩
      · rw [Equiv.Perm.sign_one, Even.neg_one_pow (Nat.even_iff.2 heven)]
      · rw [if_pos heven]
        exact Option.map_id'.symm
    · refine ⟨Equiv.swap 0 1, ?_, ?_⟩
      · rw [Equiv.Perm.sign_swap (by decide),
          Odd.neg_one_pow (Nat.odd_iff.2 (Nat.mod_two_ne_zero.1 heven))]
      · rw [if_neg heven]
        exact corners_swap _ _ _ _
  | shader =>
    intro k
    rw [h k]
    exact ⟨fun hwound => if_pos hwound, fun hwound => if_neg hwound⟩

/-- The triangles of any draws behind a reset: those of their operations in one sequence. -/
theorem triangles_emitted (s : PrimitiveAssembler V) (r : Restart)
    (draws : List (List (AssemblyOp V))) :
    Emits (s.restart r).topology draws.flatten ((s.restart r).runDraws draws).2 ∧
      (s.restart r).runDraws draws = (s.restart r).run draws.flatten := by
  have hflat := run_flatten (s.restart r) draws
  rw [hflat]
  exact ⟨emits_of_triangleAt (assembled s r draws.flatten).emitted, rfl⟩

end PrimitiveAssembler

end AzaharPlus.Pica
