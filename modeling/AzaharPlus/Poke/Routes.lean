import Mathlib.Data.FinEnum
import AzaharPlus.Lib.Bytes
import AzaharPlus.Lib.SortedSet

/-!
# The visited routes and their file

The routes on which a Pokémon may no longer be caught are a set of map ids.  `visRou.bin`
holds how many there are, as eight bytes, and then the ids in ascending order, two bytes
each.  The set is read from the file before every decision.

A file that is too short is read without a check: the values that are missing are whatever
the variables held.  They are an input of the model (`Junk`), and no result depends on them:
an id whose two bytes are in the file is found however the others turn out
(`mem_loadVisitedRoutes`), and every id that is saved is such an id (`recorded_routesFile`).

The count is trusted: what is loaded comes from the file exactly when the file is as long as
its count says (`loadVisitedRoutes_roundTrip_and_staysInFile_iff`).
-/

namespace AzaharPlus.Poke

open Bytes

instance mapIdOrder : LinearOrder UInt16 where
  le_refl := UInt16.le_refl
  le_trans _ _ _ := UInt16.le_trans
  le_antisymm _ _ := UInt16.le_antisymm
  le_total := UInt16.le_total
  lt_iff_le_not_ge a b := by
    rw [UInt16.not_le]
    exact ⟨fun h => ⟨UInt16.le_of_lt h, h⟩, fun h => h.2⟩
  toDecidableLE := inferInstance

/-- A `std::set` of map ids. -/
abbrev Routes := SortedSet UInt16

/-- The values of variables that were never set: `size` and `val` in `loadVisitedRoutes`,
and what stands behind the end of `evolutionLines`. -/
structure Junk where
  size : UInt64
  val : Nat → UInt16
  line : Nat → Int

/-- The bytes of a map id. -/
def routeBytes (val : UInt16) : List UInt8 := [loByte val, hiByte val]

theorem length_routeBytes (val : UInt16) : (routeBytes val).length = 2 := rfl

/-- The contents `saveVisitedRoutes` gives the file. -/
def routesFile (routes : Routes) : List UInt8 :=
  leBytes 8 routes.toList.length ++ routes.toList.flatMap routeBytes

/-- `size` after it was read. -/
def readSize (junk : Junk) (file : List UInt8) : Nat :=
  if 8 ≤ file.length then leValue (file.take 8) else junk.size.toNat

/-- `val` after it was read for the `i`-th time. -/
def readVal (junk : Junk) (file : List UInt8) (i : Nat) : UInt16 :=
  if 8 + i * 2 + 2 ≤ file.length then readLE16 file (8 + i * 2) else junk.val i

/-- `loadVisitedRoutes`: the set after it.  Without a file it stays as it is. -/
def loadVisitedRoutes (junk : Junk) (visRou : Option (List UInt8)) (routes : Routes) : Routes :=
  match visRou with
  | none => routes
  | some file =>
      (List.range (readSize junk file)).foldl (fun s i => s.insert (readVal junk file i))
        SortedSet.empty

/-- A map id is recorded: it is one of the complete ids of the file or, without a file, in
the set the process has. -/
def Recorded (visRou : Option (List UInt8)) (routes : Routes) (mapID : UInt16) : Prop :=
  match visRou with
  | none => mapID ∈ routes
  | some file => ∃ i < leValue (file.take 8),
      8 + i * 2 + 2 ≤ file.length ∧ readLE16 file (8 + i * 2) = mapID

/-- What is recorded stays recorded when the set of the process changes but keeps it. -/
theorem Recorded.of_mem {visRou : Option (List UInt8)} {routes routes' : Routes} {mapID : UInt16}
    (h : Recorded visRou routes mapID) (hm : mapID ∈ routes') : Recorded visRou routes' mapID := by
  cases visRou with
  | none => exact hm
  | some file => exact h

/-- A recorded id is in the set after loading. -/
theorem mem_loadVisitedRoutes (junk : Junk) {visRou : Option (List UInt8)} {routes : Routes}
    {mapID : UInt16} (h : Recorded visRou routes mapID) :
    mapID ∈ loadVisitedRoutes junk visRou routes := by
  cases visRou with
  | none => exact h
  | some file =>
    obtain ⟨i, hi, hlen, hval⟩ := h
    have hsize : readSize junk file = leValue (file.take 8) := if_pos (by omega)
    have hread : readVal junk file i = mapID := by rw [readVal, if_pos hlen, hval]
    rw [loadVisitedRoutes, SortedSet.mem_foldl_insert, hsize]
    exact Or.inr ⟨i, List.mem_range.2 hi, hread⟩

/-- A set of map ids has at most 65536 elements. -/
theorem length_routes_lt (routes : Routes) : routes.toList.length < 256 ^ 8 := by
  have hnodup : routes.toList.Nodup := routes.sorted.imp fun h => ne_of_lt h
  have hcard : Fintype.card UInt16 = 65536 := FinEnum.card_eq_fintypeCard.symm
  have := hnodup.length_le_card
  omega

theorem take_routesFile (routes : Routes) :
    leValue ((routesFile routes).take 8) = routes.toList.length := by
  rw [routesFile, List.take_left' (length_leBytes 8 _), leValue_leBytes (length_routes_lt routes)]

theorem length_routesFile (routes : Routes) :
    (routesFile routes).length = 8 + routes.toList.length * 2 := by
  rw [routesFile, List.length_append, length_leBytes, length_flatMap_const length_routeBytes]

/-- The ids of a saved file are those of the set. -/
theorem readLE16_routesFile (routes : Routes) {i : Nat} (hi : i < routes.toList.length) :
    readLE16 (routesFile routes) (8 + i * 2) = routes.toList[i] := by
  have hbyte : ∀ j < 2, byteAt (routesFile routes) (8 + i * 2 + j) =
      byteAt (routeBytes routes.toList[i]) j := by
    intro j hj
    rw [← byteAt_flatMap length_routeBytes routes.toList hi hj]
    simp only [routesFile, byteAt, List.getD_eq_getElem?_getD]
    rw [List.getElem?_append_right (by rw [length_leBytes]; omega), length_leBytes]
    congr 2
    omega
  rw [readLE16, hbyte 1 (by decide), show 8 + i * 2 = 8 + i * 2 + 0 from rfl, hbyte 0 (by decide)]
  simp [routeBytes, byteAt]

/-- Every id of a set is recorded once the set is saved. -/
theorem recorded_routesFile {routes s : Routes} {mapID : UInt16} (h : mapID ∈ routes) :
    Recorded (some (routesFile routes)) s mapID := by
  obtain ⟨i, hi, hget⟩ := List.getElem_of_mem (SortedSet.mem_toList.2 h)
  refine ⟨i, by rw [take_routesFile]; exact hi, ?_, ?_⟩
  · rw [length_routesFile]
    omega
  · rw [readLE16_routesFile routes hi, hget]

/-! ## What a file can make of the set -/

/-- The complete ids behind the count of a file. -/
def wordsInFile (file : List UInt8) : Nat := (file.length - 8) / 2

/-- The iterations of the loop of `loadVisitedRoutes`. -/
def loadIterations (junk : Junk) (file : List UInt8) : Nat := readSize junk file

/-- Whatever the variables held, loading stops after the ids of the file and inserts no other. -/
def LoadStaysInFile (file : List UInt8) : Prop :=
  ∀ junk routes, loadIterations junk file ≤ wordsInFile file ∧
    ∀ mapID ∈ loadVisitedRoutes junk (some file) routes,
      ∃ i < wordsInFile file, readLE16 file (8 + i * 2) = mapID

/-- The file is as long as its count says. -/
def CountCovered (file : List UInt8) : Prop :=
  8 ≤ file.length ∧ leValue (file.take 8) ≤ wordsInFile file

theorem loadStaysInFile_of_countCovered {file : List UInt8} (h : CountCovered file) :
    LoadStaysInFile file := by
  obtain ⟨hlong, hcount⟩ := h
  intro junk routes
  have hsize : readSize junk file = leValue (file.take 8) := if_pos hlong
  refine ⟨by rw [loadIterations, hsize]; exact hcount, ?_⟩
  intro mapID hmem
  rw [loadVisitedRoutes, SortedSet.mem_foldl_insert, hsize] at hmem
  rcases hmem with hmem | ⟨i, hi, hread⟩
  · exact absurd hmem (SortedSet.not_mem_empty mapID)
  · have hlt : i < wordsInFile file := Nat.lt_of_lt_of_le (List.mem_range.1 hi) hcount
    have hin : 8 + i * 2 + 2 ≤ file.length := by
      rw [wordsInFile] at hlt
      omega
    rw [readVal, if_pos hin] at hread
    exact ⟨i, hlt, hread⟩

/-- A count that is not covered is followed beyond the end of the file. -/
theorem countCovered_of_loadStaysInFile {file : List UInt8} (h : LoadStaysInFile file) :
    CountCovered file := by
  by_cases hlong : 8 ≤ file.length
  · have hcount := (h ⟨0, fun _ => 0, fun _ => 0⟩ SortedSet.empty).1
    rw [loadIterations, readSize, if_pos hlong] at hcount
    exact ⟨hlong, hcount⟩
  · have hcount := (h ⟨1, fun _ => 0, fun _ => 0⟩ SortedSet.empty).1
    rw [loadIterations, readSize, if_neg hlong, wordsInFile] at hcount
    have hone : (1 : UInt64).toNat ≤ (file.length - 8) / 2 := hcount
    have htoNat : (1 : UInt64).toNat = 1 := rfl
    omega

/-- A saved file is as long as its count says. -/
theorem countCovered_routesFile (routes : Routes) : CountCovered (routesFile routes) := by
  rw [CountCovered, take_routesFile, wordsInFile, length_routesFile]
  omega

/-- What was saved is loaded. -/
theorem loadVisitedRoutes_routesFile (junk : Junk) (routes s : Routes) :
    loadVisitedRoutes junk (some (routesFile routes)) s = routes := by
  apply SortedSet.ext
  intro mapID
  constructor
  · intro h
    obtain ⟨i, hi, hread⟩ := (loadStaysInFile_of_countCovered (countCovered_routesFile routes) junk s).2 mapID h
    have hlt : i < routes.toList.length := by
      rw [wordsInFile, length_routesFile] at hi
      omega
    rw [← hread, readLE16_routesFile routes hlt]
    exact SortedSet.mem_toList.1 (List.getElem_mem hlt)
  · intro h
    exact mem_loadVisitedRoutes junk (recorded_routesFile h)

/-- Every set is loaded as it was saved; a file of any contents is loaded without leaving it exactly when
it is as long as its count says. -/
theorem loadVisitedRoutes_roundTrip_and_staysInFile_iff (routes : Routes) (file : List UInt8) :
    (∀ junk s, loadVisitedRoutes junk (some (routesFile routes)) s = routes) ∧
      (LoadStaysInFile file ↔ CountCovered file) :=
  ⟨fun junk s => loadVisitedRoutes_routesFile junk routes s, countCovered_of_loadStaysInFile,
    loadStaysInFile_of_countCovered⟩

/-- A file with the count one and nothing behind it: the loop is run once and inserts what the variable held. -/
theorem not_loadStaysInFile_count_one :
    ¬LoadStaysInFile [1, 0, 0, 0, 0, 0, 0, 0] ∧
      7 ∈ loadVisitedRoutes ⟨0, fun _ => 7, fun _ => 0⟩ (some [1, 0, 0, 0, 0, 0, 0, 0]) SortedSet.empty := by
  refine ⟨?_, by decide +kernel⟩
  intro h
  obtain ⟨-, hcount⟩ := countCovered_of_loadStaysInFile h
  exact absurd hcount (by decide +kernel)

end AzaharPlus.Poke
