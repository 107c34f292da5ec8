import AzaharPlus.Lib.HostFile
import AzaharPlus.Lib.Bytes

/-!
# The copies of an import

`TicketFile` and `TMDFile` of `core/hle/service/am/am.cpp`: pieces may be written at any offset, but the
size of the vector follows from the number of bytes written so far.  A copy outside of a vector or of the
given buffer ends the modelled run with a fault.

* `ImportFile.run_spec` — every copy stays inside exactly when no piece begins behind the bytes written
  before it, and what was collected then.
-/

namespace AzaharPlus.Service

open Bytes

/-! ## Copies -/

/-- A copy leaves its buffers. -/
inductive Fault
  | copy
  deriving DecidableEq, Repr

/-- `std::memcpy(dst.data() + dstOff, src + srcOff, n)`. -/
def copyBytes (dst : List UInt8) (dstOff : Nat) (src : List UInt8) (srcOff n : Nat) :
    Except Fault (List UInt8) :=
  if n = 0 then .ok dst
  else if srcOff + n ≤ src.length ∧ dstOff + n ≤ dst.length then
    .ok (memcpy dst dstOff (slice src srcOff n))
  else .error .copy

/-- `a + b` of `u64`. -/
def add64 (a b : Nat) : Nat := (a + b) % 2 ^ 64

/-! ## Tickets and title metadata -/

/-- `TicketFile` and `TMDFile`. -/
structure ImportFile where
  written : Nat
  data : List UInt8
  deriving DecidableEq, Repr

/-- A file that nothing was written to. -/
def ImportFile.fresh : ImportFile := ⟨0, []⟩

/-- A call of `Write`. -/
structure Piece where
  offset : UInt64
  buffer : List UInt8
  deriving DecidableEq, Repr

/-- `TicketFile::Write` and `TMDFile::Write`. -/
def ImportFile.write (f : ImportFile) (p : Piece) : Except Fault ImportFile :=
  let written := add64 f.written p.buffer.length
  (copyBytes (HostFile.resize 0 f.data written) p.offset.toNat p.buffer 0 p.buffer.length).map
    fun data => ⟨written, data⟩

namespace ImportFile

/-- Pieces that are written one after the other. -/
def run : List Piece → ImportFile → Except Fault ImportFile
  | [], f => .ok f
  | p :: ps, f => (f.write p).bind (run ps)

/-- What pieces lie over each other in the order in which they were written. -/
def overlay (ps : List Piece) : List UInt8 :=
  ps.foldl (fun file p => HostFile.write 0 file p.offset.toNat p.buffer) []

/-- The number of bytes of pieces. -/
def total (ps : List Piece) : Nat := (ps.map fun p => p.buffer.length).sum

/-- No piece with bytes begins behind the bytes written before it. -/
def Reached (ps : List Piece) : Prop :=
  ∀ before p after, ps = before ++ p :: after → p.buffer = [] ∨ p.offset.toNat ≤ total before

theorem total_append (ps qs : List Piece) : total (ps ++ qs) = total ps + total qs := by
  unfold total
  rw [List.map_append, List.sum_append]

theorem total_concat (ps : List Piece) (p : Piece) : total (ps ++ [p]) = total ps + p.buffer.length := by
  rw [total_append]
  rfl

theorem overlay_concat (ps : List Piece) (p : Piece) :
    overlay (ps ++ [p]) = HostFile.write 0 (overlay ps) p.offset.toNat p.buffer := by
  unfold overlay
  rw [List.foldl_append]
  rfl

/-- The file that holds what pieces lie over each other, with zeros up to the number of bytes. -/
def holding (ps : List Piece) : ImportFile := ⟨total ps, HostFile.resize 0 (overlay ps) (total ps)⟩

/-- One more piece, when everything was inside so far. -/
theorem write_holding {ps : List Piece} {p : Piece} (hoverlay : (overlay ps).length ≤ total ps)
    (htotal : total (ps ++ [p]) < 2 ^ 64) :
    (p.buffer = [] ∨ p.offset.toNat ≤ total ps →
      (holding ps).write p = .ok (holding (ps ++ [p])) ∧
        (overlay (ps ++ [p])).length ≤ total (ps ++ [p])) ∧
      (¬ (p.buffer = [] ∨ p.offset.toNat ≤ total ps) → (holding ps).write p = .error .copy) := by
  rw [total_concat] at htotal
  have hwritten : add64 (holding ps).written p.buffer.length = total (ps ++ [p]) := by
    rw [total_concat]
    exact Nat.mod_eq_of_lt htotal
  have hdata : HostFile.resize 0 (holding ps).data (total (ps ++ [p])) =
      HostFile.resize 0 (overlay ps) (total (ps ++ [p])) := by
    refine ext_byteAt (by simp) fun i hi => ?_
    rw [HostFile.length_resize] at hi
    simp only [byteAt, holding, HostFile.getD_resize, if_pos hi]
    split
    · rfl
    · exact (List.getD_eq_default _ _ (by omega)).symm
  unfold write
  simp only [hwritten, hdata]
  unfold copyBytes
  by_cases hempty : p.buffer = []
  · refine ⟨fun _ => ?_, fun h => absurd (Or.inl hempty) h⟩
    have hsame : overlay (ps ++ [p]) = overlay ps := by
      rw [overlay_concat, hempty]
      rfl
    have hlength : p.buffer.length = 0 := by rw [hempty]; rfl
    rw [if_pos hlength, hsame, total_concat]
    refine ⟨?_, by omega⟩
    rw [← total_concat, holding, hsame]
    rfl
  · have hpos : p.buffer.length ≠ 0 := fun h => hempty (List.length_eq_zero_iff.mp h)
    rw [if_neg hpos, HostFile.length_resize, total_concat, or_iff_right hempty]
    constructor
    · intro hoffset
      have hlength := HostFile.length_write 0 (overlay ps) p.offset.toNat hempty
      rw [← overlay_concat] at hlength
      refine ⟨?_, by omega⟩
      have hwhole : slice p.buffer 0 p.buffer.length = p.buffer := by
        rw [slice, List.drop_zero, List.take_length]
      have hfits : p.offset.toNat + p.buffer.length ≤
          (HostFile.resize 0 (overlay ps) (total ps + p.buffer.length)).length := by
        rw [HostFile.length_resize]
        omega
      rw [if_pos ⟨by omega, by omega⟩, hwhole, holding, total_concat]
      have hcopied : memcpy (HostFile.resize 0 (overlay ps) (total ps + p.buffer.length))
          p.offset.toNat p.buffer =
            HostFile.resize 0 (overlay (ps ++ [p])) (total ps + p.buffer.length) := by
        refine ext_byteAt (by rw [length_memcpy hfits]; simp) fun i hi => ?_
        rw [length_memcpy hfits, HostFile.length_resize] at hi
        rw [byteAt_memcpy hfits, overlay_concat]
        simp only [byteAt, HostFile.getD_resize, HostFile.getD_write, if_pos hi]
      rw [hcopied]
      rfl
    · intro hoffset
      rw [if_neg (by omega)]
      rfl

theorem run_concat (ps : List Piece) (p : Piece) (f : ImportFile) :
    run (ps ++ [p]) f = (run ps f).bind fun f => f.write p := by
  induction ps generalizing f with
  | nil =>
    change (f.write p).bind Except.ok = f.write p
    cases f.write p <;> rfl
  | cons q ps ih =>
    rw [List.cons_append, run, run]
    cases f.write q with
    | error e => rfl
    | ok f' => exact ih f'

theorem reached_concat (ps : List Piece) (p : Piece) :
    Reached (ps ++ [p]) ↔ Reached ps ∧ (p.buffer = [] ∨ p.offset.toNat ≤ total ps) := by
  constructor
  · refine fun h => ⟨fun before q after heq => ?_, h ps p [] rfl⟩
    exact h before q (after ++ [p]) (by rw [heq, List.append_assoc, List.cons_append])
  · rintro ⟨hps, hp⟩ before q after heq
    rcases List.eq_nil_or_concat after with rfl | ⟨after, r, rfl⟩
    · obtain ⟨rfl, hq⟩ := List.append_inj' heq rfl
      cases hq
      exact hp
    · rw [List.concat_eq_append, ← List.cons_append, ← List.append_assoc] at heq
      obtain ⟨rfl, -⟩ := List.append_inj' heq rfl
      exact hps before q after rfl

/-- All copies of a run are inside exactly when no piece begins behind the bytes before it, and then the
file holds what the pieces lie over each other. -/
theorem run_spec {ps : List Piece} (htotal : total ps < 2 ^ 64) :
    (Reached ps → run ps fresh = .ok (holding ps) ∧ (overlay ps).length ≤ total ps) ∧
      (¬ Reached ps → run ps fresh = .error .copy) := by
  induction ps using List.reverseRecOn with
  | nil =>
    refine ⟨fun _ => ⟨rfl, Nat.le_refl _⟩, fun h => ?_⟩
    exact absurd (fun before p after heq => by cases before <;> cases heq) h
  | append_singleton ps p ih =>
    have hbefore : total ps < 2 ^ 64 := by
      rw [total_concat] at htotal
      omega
    obtain ⟨hinside, houtside⟩ := ih hbefore
    rw [run_concat, reached_concat]
    constructor
    · rintro ⟨hps, hp⟩
      obtain ⟨hrun, hoverlay⟩ := hinside hps
      rw [hrun]
      exact (write_holding hoverlay htotal).1 hp
    · intro hnot
      by_cases hps : Reached ps
      · obtain ⟨hrun, hoverlay⟩ := hinside hps
        rw [hrun]
        exact (write_holding hoverlay htotal).2 fun hp => hnot ⟨hps, hp⟩
      · rw [houtside hps]
        rfl

theorem run_spec_behind : run [⟨0, [1, 2]⟩, ⟨3, [4]⟩] fresh = .error .copy :=
  (run_spec (by decide)).2 fun h => absurd (h [⟨0, [1, 2]⟩] _ [] rfl) (by decide)

end ImportFile

end AzaharPlus.Service
