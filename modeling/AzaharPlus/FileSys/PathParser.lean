import AzaharPlus.Lib.FileTree
import Mathlib.Data.List.TakeWhile

/-!
# Paths of the guest

`PathParser` of `core/file_sys/path_parser.cpp`, which the save data, SD card and extra data
archives put between the paths of the guest and the files of the host, and `SplitString` of
`common/string_util.cpp`.  A `char` is a `Char` here.  The conversion of a UTF-16 path is a
parameter; nothing depends on what it does.

* `isValid_iff` — which paths are accepted.
* `components_buildHostPath` — the components of the host path are those of the mount point and then
  those of the guest path.
* `paths_stay_below` — in every tree of directories an accepted path stays below the mount point.
-/

namespace AzaharPlus.FileSys

/-! ## The model -/

/-- `LowPathType` -/
inductive LowPathType where
  | Invalid
  | Empty
  | Binary
  | Char
  | Wchar
  deriving DecidableEq

/-- `Path`, without the bytes of a binary one. -/
structure Path where
  type : LowPathType
  string : List Char
  u16str : List UInt16

/-- `Path::AsString` -/
def Path.asString (utf16ToUtf8 : List UInt16 → List Char) (p : Path) : List Char :=
  match p.type with
  | .Char => p.string
  | .Wchar => utf16ToUtf8 p.u16str
  | _ => []

/-- `std::getline`: the characters up to the delimiter, which is taken out of the stream; nothing at
the end of the stream. -/
def getline (delim : Char) (stream : List Char) : Option (List Char × List Char) :=
  if stream = [] then none
  else some (stream.takeWhile (· ≠ delim), (stream.dropWhile (· ≠ delim)).tail)

theorem length_getline {delim : Char} {stream line rest : List Char}
    (h : getline delim stream = some (line, rest)) : rest.length < stream.length := by
  unfold getline at h
  split at h
  · cases h
  · rename_i hne
    cases h
    have hpos : 0 < stream.length := List.length_pos_iff.2 hne
    have hle : (stream.dropWhile (· ≠ delim)).length ≤ stream.length :=
      (List.dropWhile_sublist _).length_le
    rw [List.length_tail]
    omega

/-- `SplitString` -/
def splitString (delim : Char) (str : List Char) : List (List Char) :=
  match _h : getline delim str with
  | none => []
  | some (line, rest) => line :: splitString delim rest
  termination_by str.length
  decreasing_by exact length_getline _h

/-- `invalid_chars` -/
def invalidChars : List Char := ['<', '>', '\\', '|', ':', '"', '*', '?']

def dot : List Char := ['.']
def dotDot : List Char := ['.', '.']

/-- `PathParser` -/
structure PathParser where
  pathSequence : List (List Char)
  isValid : Bool
  isRoot : Bool

namespace PathParser

/-- The loop that checks whether the path is out of bounds: the level at its end, if it is not. -/
def checkLevels : Int → List (List Char) → Option Int
  | level, [] => some level
  | level, node :: rest =>
      if node = dotDot then
        if level - 1 < 0 then none else checkLevels (level - 1) rest
      else checkLevels (level + 1) rest

/-- A path that is not accepted. -/
def invalid (pathSequence : List (List Char)) : PathParser := ⟨pathSequence, false, false⟩

/-- The constructor. -/
def ofPath (utf16ToUtf8 : List UInt16 → List Char) (path : Path) : PathParser :=
  if path.type ≠ .Char ∧ path.type ≠ .Wchar then invalid []
  else
    let pathString := path.asString utf16ToUtf8
    if pathString.length = 0 ∨ pathString.head? ≠ some '/' then invalid []
    else if pathString.any (· ∈ invalidChars) then invalid []
    else
      let pathSequence := (splitString '/' pathString).filter fun str => ¬ (str = [] ∨ str = dot)
      match checkLevels 0 pathSequence with
      | none => invalid pathSequence
      | some level => ⟨pathSequence, true, level = 0⟩

/-- `path += node`, behind a `/`; `back` needs a path that is not empty. -/
def appendNode (path node : List Char) : Option (List Char) :=
  path.getLast?.map fun last => (if last ≠ '/' then path ++ ['/'] else path) ++ node

/-- `BuildHostPath` -/
def buildHostPath (p : PathParser) (mountPoint : List Char) : Option (List Char) :=
  p.pathSequence.foldlM appendNode mountPoint

end PathParser

/-! ## Components -/

/-- The components of a path, without the empty ones. -/
def components (path : List Char) : List (List Char) := (path.splitOn '/').filter (· ≠ [])

/-- The components of a guest path that count. -/
def guestComponents (path : List Char) : List (List Char) :=
  (components path).filter (· ≠ dot)

/-- What a component means. -/
def meaning (component : List Char) : FileTree.Component (List Char) :=
  if component = dot then .here else if component = dotDot then .up else .down component

theorem components_append_slash (a b : List Char) :
    components (a ++ '/' :: b) = components a ++ components b := by
  rw [components, List.splitOn_append_cons_self, List.filter_append]
  rfl

/-- The first line and what is behind it. -/
theorem components_line (str : List Char) :
    components str =
      [str.takeWhile (· ≠ '/')].filter (· ≠ []) ++ components (str.dropWhile (· ≠ '/')).tail := by
  have hsplit := List.takeWhile_append_dropWhile (p := fun c => decide (c ≠ '/')) (l := str)
  have hline : '/' ∉ str.takeWhile (· ≠ '/') := fun h => by
    have hne := List.mem_takeWhile_imp h
    simp at hne
  have hsingle : components (str.takeWhile (· ≠ '/')) =
      [str.takeWhile (· ≠ '/')].filter (· ≠ []) := by
    rw [components, List.splitOn_eq_singleton hline]
  cases hdrop : str.dropWhile (· ≠ '/') with
  | nil =>
    rw [hdrop, List.append_nil] at hsplit
    rw [← hsingle, hsplit, List.tail_nil]
    exact (List.append_nil _).symm
  | cons c rest =>
    have hc : c = '/' := by
      have hhead := List.head?_dropWhile_not (fun c => decide (c ≠ '/')) str
      rw [hdrop] at hhead
      simpa using hhead
    subst hc
    rw [hdrop] at hsplit
    rw [← hsingle, List.tail_cons, ← components_append_slash, hsplit]

/-- The lines are the components. -/
theorem filter_splitString (str : List Char) :
    (splitString '/' str).filter (· ≠ []) = components str := by
  induction str using splitString.induct '/' with
  | case1 str hnone =>
    have hnil : str = [] := by
      unfold getline at hnone
      split at hnone
      · assumption
      · cases hnone
    subst hnil
    rw [splitString]
    rfl
  | case2 str line rest hline ih =>
    rw [splitString]
    split
    · rename_i hnone
      rw [hline] at hnone
      cases hnone
    · rename_i line' rest' hline'
      rw [hline] at hline'
      cases hline'
      unfold getline at hline
      split at hline
      · cases hline
      · cases hline
        rw [components_line str, ← ih, ← List.filter_append, List.singleton_append]

/-- What the constructor keeps of a path. -/
theorem filter_guest (str : List Char) :
    (splitString '/' str).filter (fun str => ¬ (str = [] ∨ str = dot)) = guestComponents str := by
  rw [guestComponents, ← filter_splitString, List.filter_filter]
  refine List.filter_congr fun c _ => ?_
  simp [and_comm]

/-! ## Levels -/

/-- No part of the components from the start on has more `..` than names. -/
def NeverAbove (nodes : List (List Char)) : Prop :=
  ∀ part, part <+: nodes → part.count dotDot ≤ part.countP (· ≠ dotDot)

/-- The same from a level on. -/
def LevelsFrom (level : Int) (nodes : List (List Char)) : Prop :=
  ∀ part, part <+: nodes → (part.count dotDot : Int) ≤ level + part.countP (· ≠ dotDot)

theorem levelsFrom_zero {nodes : List (List Char)} : LevelsFrom 0 nodes ↔ NeverAbove nodes := by
  refine forall₂_congr fun part _ => ?_
  rw [Int.zero_add]
  exact Int.ofNat_le

theorem levelsFrom_up {level : Int} {rest : List (List Char)} (hlevel : 0 ≤ level) :
    LevelsFrom level (dotDot :: rest) ↔ LevelsFrom (level - 1) rest := by
  constructor
  · intro h part hpart
    have hcons := h (dotDot :: part) ((List.prefix_cons_inj dotDot).2 hpart)
    simp at hcons ⊢
    omega
  · intro h part hpart
    rcases List.prefix_cons_iff.1 hpart with rfl | ⟨part, rfl, hrest⟩
    · simpa using hlevel
    · have hrest := h part hrest
      simp at hrest ⊢
      omega

theorem levelsFrom_name {level : Int} {node : List Char} {rest : List (List Char)}
    (hlevel : 0 ≤ level) (hnode : node ≠ dotDot) :
    LevelsFrom level (node :: rest) ↔ LevelsFrom (level + 1) rest := by
  constructor
  · intro h part hpart
    have hcons := h (node :: part) ((List.prefix_cons_inj node).2 hpart)
    simp [hnode] at hcons ⊢
    omega
  · intro h part hpart
    rcases List.prefix_cons_iff.1 hpart with rfl | ⟨part, rfl, hrest⟩
    · simpa using hlevel
    · have hrest := h part hrest
      simp [hnode] at hrest ⊢
      omega

/-- The loop over the levels: it comes to the end exactly if the level is never negative. -/
theorem checkLevels_eq_some {level last : Int} {nodes : List (List Char)} (hlevel : 0 ≤ level) :
    PathParser.checkLevels level nodes = some last ↔
      LevelsFrom level nodes ∧
        last = level + nodes.countP (· ≠ dotDot) - nodes.count dotDot := by
  induction nodes generalizing level with
  | nil =>
    have hnil : LevelsFrom level [] := fun part hpart => by
      rw [List.prefix_nil.1 hpart]
      simpa using hlevel
    simp [PathParser.checkLevels, hnil, eq_comm]
  | cons node rest ih =>
    by_cases hup : node = dotDot
    · subst hup
      rw [PathParser.checkLevels, if_pos rfl, levelsFrom_up hlevel]
      by_cases hout : level - 1 < 0
      · have hno : ¬ LevelsFrom (level - 1) rest := fun h => by
          have hfirst := h [] List.nil_prefix
          simp at hfirst
          omega
        simp [hout, hno]
      · rw [if_neg hout, ih (by omega)]
        refine and_congr Iff.rfl ?_
        simp
        omega
    · rw [PathParser.checkLevels, if_neg hup, ih (by omega), levelsFrom_name hlevel hup]
      refine and_congr Iff.rfl ?_
      simp [hup]
      omega

/-! ## The host path -/

/-- A component of the guest: without a `/`, and neither empty nor `.`. -/
def IsNode (node : List Char) : Prop := '/' ∉ node ∧ node ≠ [] ∧ node ≠ dot

theorem not_mem_of_mem_splitOn {str node : List Char} (h : node ∈ str.splitOn '/') :
    '/' ∉ node := by
  induction str generalizing node with
  | nil =>
    rw [List.splitOn_nil, List.mem_singleton] at h
    subst h
    exact List.not_mem_nil
  | cons c rest ih =>
    rw [List.splitOn_cons_eq_if_modifyHead] at h
    split at h
    · rcases List.mem_cons.1 h with rfl | h
      · exact List.not_mem_nil
      · exact ih h
    · rename_i hc
      cases hrest : rest.splitOn '/' with
      | nil => exact absurd hrest (List.splitOn_ne_nil _ _)
      | cons first others =>
        rw [hrest] at h ih
        rcases List.mem_cons.1 h with rfl | h
        · have hfirst := ih List.mem_cons_self
          simp only [beq_iff_eq] at hc
          exact fun hmem => (List.mem_cons.1 hmem).elim (fun heq => hc heq.symm) hfirst
        · exact ih (List.mem_cons_of_mem first h)

theorem isNode_of_mem {str node : List Char} (h : node ∈ guestComponents str) : IsNode node := by
  simp only [guestComponents, components, List.mem_filter, decide_eq_true_eq] at h
  exact ⟨not_mem_of_mem_splitOn h.1.1, h.1.2, h.2⟩

theorem components_node {node : List Char} (h : IsNode node) : components node = [node] := by
  rw [components, List.splitOn_eq_singleton h.1]
  simp [h.2.1]

/-- A node is put behind the components of the path. -/
theorem components_appendNode {path node : List Char} (hpath : path ≠ []) (hnode : IsNode node) :
    ∃ path', PathParser.appendNode path node = some path' ∧ path' ≠ [] ∧
      components path' = components path ++ [node] := by
  rcases List.eq_nil_or_concat path with rfl | ⟨init, last, rfl⟩
  · exact absurd rfl hpath
  · rw [List.concat_eq_append] at hpath ⊢
    unfold PathParser.appendNode
    rw [List.getLast?_concat, Option.map_some]
    by_cases hlast : last = '/'
    · subst hlast
      refine ⟨_, rfl, by simp, ?_⟩
      have hend : components (init ++ ['/']) = components init := by
        rw [components_append_slash]
        exact List.append_nil _
      rw [if_neg (not_not_intro rfl), hend, List.append_assoc, List.singleton_append,
        components_append_slash, components_node hnode]
    · refine ⟨_, rfl, fun h => hnode.2.1 (List.append_eq_nil_iff.1 h).2, ?_⟩
      rw [if_pos hlast, List.append_assoc, List.singleton_append, components_append_slash,
        components_node hnode]

/-- The components of the host path. -/
theorem components_buildHostPath {nodes : List (List Char)} {mount : List Char}
    (hmount : mount ≠ []) (hnodes : ∀ node ∈ nodes, IsNode node) :
    ∃ host, nodes.foldlM PathParser.appendNode mount = some host ∧
      components host = components mount ++ nodes := by
  induction nodes generalizing mount with
  | nil => exact ⟨mount, rfl, (List.append_nil _).symm⟩
  | cons node rest ih =>
    obtain ⟨path, happend, hne, hpath⟩ :=
      components_appendNode hmount (hnodes node List.mem_cons_self)
    obtain ⟨host, hrest, hhost⟩ := ih hne fun node' h => hnodes node' (List.mem_cons_of_mem _ h)
    refine ⟨host, ?_, ?_⟩
    · rw [List.foldlM_cons, happend]
      exact hrest
    · rw [hhost, hpath, List.append_assoc, List.singleton_append]

/-! ## Nodes as components of a walk -/

theorem meaning_node {node : List Char} (h : IsNode node) :
    meaning node = if node = dotDot then .up else .down node := by
  rw [meaning, if_neg h.2.2]

theorem countP_meaning {nodes : List (List Char)} (h : ∀ node ∈ nodes, IsNode node) :
    (nodes.map meaning).countP FileTree.Component.isUp = nodes.count dotDot ∧
      (nodes.map meaning).countP FileTree.Component.isDown = nodes.countP (· ≠ dotDot) := by
  rw [List.countP_map, List.countP_map, List.count_eq_countP]
  constructor
  · refine List.countP_congr fun node hnode => ?_
    rw [Function.comp_apply, meaning_node (h node hnode)]
    by_cases hup : node = dotDot <;> simp [hup, FileTree.Component.isUp]
  · refine List.countP_congr fun node hnode => ?_
    rw [Function.comp_apply, meaning_node (h node hnode)]
    by_cases hup : node = dotDot <;> simp [hup, FileTree.Component.isDown]

/-- The walk along nodes that never have more `..` than names is balanced. -/
theorem balanced_meaning {nodes : List (List Char)} (h : ∀ node ∈ nodes, IsNode node)
    (habove : NeverAbove nodes) : FileTree.Balanced (nodes.map meaning) := by
  intro part hpart
  obtain ⟨part', hpart', rfl⟩ := (List.prefix_map_iff).1 hpart
  have hnodes : ∀ node ∈ part', IsNode node := fun node hnode => h node (hpart'.subset hnode)
  rw [(countP_meaning hnodes).1, (countP_meaning hnodes).2]
  exact habove part' hpart'

/-! ## Results -/

/-- The paths that the header file calls valid: a string path that starts with `/`, without invalid
characters, and no part of whose components has more `..` than names. -/
structure Valid (utf16ToUtf8 : List UInt16 → List Char) (path : Path) : Prop where
  string : path.type = .Char ∨ path.type = .Wchar
  slash : (path.asString utf16ToUtf8).head? = some '/'
  characters : ∀ c ∈ path.asString utf16ToUtf8, c ∉ invalidChars
  neverAbove : NeverAbove (guestComponents (path.asString utf16ToUtf8))

/-- What the constructor makes of a path. -/
theorem ofPath_eq (utf16ToUtf8 : List UInt16 → List Char) (path : Path) :
    (¬ Valid utf16ToUtf8 path ∧ (PathParser.ofPath utf16ToUtf8 path).isValid = false) ∨
    Valid utf16ToUtf8 path ∧ PathParser.ofPath utf16ToUtf8 path =
      ⟨guestComponents (path.asString utf16ToUtf8), true,
        (guestComponents (path.asString utf16ToUtf8)).countP (· ≠ dotDot) =
          (guestComponents (path.asString utf16ToUtf8)).count dotDot⟩ := by
  unfold PathParser.ofPath
  by_cases htype : path.type ≠ .Char ∧ path.type ≠ .Wchar
  · rw [if_pos htype]
    exact Or.inl ⟨fun h => h.string.elim htype.1 htype.2, rfl⟩
  · rw [if_neg htype]
    simp only
    by_cases hslash : (path.asString utf16ToUtf8).length = 0 ∨
        (path.asString utf16ToUtf8).head? ≠ some '/'
    · rw [if_pos hslash]
      refine Or.inl ⟨fun h => ?_, rfl⟩
      rcases hslash with hempty | hne
      · have hhead := h.slash
        rw [List.length_eq_zero_iff.1 hempty] at hhead
        cases hhead
      · exact hne h.slash
    · rw [if_neg hslash]
      by_cases hinvalid : (path.asString utf16ToUtf8).any (· ∈ invalidChars) = true
      · rw [if_pos hinvalid]
        obtain ⟨c, hc, hmem⟩ := List.any_eq_true.1 hinvalid
        exact Or.inl ⟨fun h => h.characters c hc (by simpa using hmem), rfl⟩
      · rw [if_neg hinvalid, filter_guest]
        have hstart : Valid utf16ToUtf8 path ↔
            NeverAbove (guestComponents (path.asString utf16ToUtf8)) := by
          refine ⟨Valid.neverAbove, fun h => ⟨?_, ?_, ?_, h⟩⟩
          · by_contra hno
            exact htype (not_or.1 hno)
          · by_contra hno
            exact hslash (Or.inr hno)
          · intro c hc hmem
            exact hinvalid (List.any_eq_true.2 ⟨c, hc, by simpa using hmem⟩)
        cases hlevels : PathParser.checkLevels 0
            (guestComponents (path.asString utf16ToUtf8)) with
        | none =>
          refine Or.inl ⟨fun h => ?_, rfl⟩
          have hsome := (checkLevels_eq_some (Int.le_refl 0)).2
            ⟨levelsFrom_zero.2 (hstart.1 h), rfl⟩
          rw [hlevels] at hsome
          cases hsome
        | some level =>
          obtain ⟨habove, hlevel⟩ := (checkLevels_eq_some (Int.le_refl 0)).1 hlevels
          refine Or.inr ⟨hstart.2 (levelsFrom_zero.1 habove), ?_⟩
          simp only [PathParser.mk.injEq, true_and, hlevel, decide_eq_decide]
          omega

/-- Where a path leads in a tree of directories, from the root or the working directory on. -/
def resolve {Dir : Type} (t : FileTree.Tree Dir (List Char)) (start : Dir) (path : List Char) : Dir :=
  FileTree.walk t start ((components path).map meaning)

/-- `PathParser` accepts the valid paths and no others.  The host path of an accepted path goes to
the mount point first; from there on, in every tree of directories, each of its components leads to
a directory below the mount point, or to the mount point itself; and its end is the mount point
exactly if the path is the root directory. -/
theorem paths_stay_below (utf16ToUtf8 : List UInt16 → List Char) (path : Path) :
    ((PathParser.ofPath utf16ToUtf8 path).isValid = true ↔ Valid utf16ToUtf8 path) ∧
    ∀ mount, mount ≠ [] → (PathParser.ofPath utf16ToUtf8 path).isValid = true →
      ∃ host, (PathParser.ofPath utf16ToUtf8 path).buildHostPath mount = some host ∧
        components mount <+: components host ∧
        ∀ (Dir : Type) (t : FileTree.Tree Dir (List Char)) (start : Dir),
          (∀ visited, components mount <+: visited → visited <+: components host →
            ∃ names, FileTree.walk t start (visited.map meaning) =
              FileTree.descend t (resolve t start mount) names) ∧
          ((PathParser.ofPath utf16ToUtf8 path).isRoot = true ↔
            resolve t start host = resolve t start mount) := by
  rcases ofPath_eq utf16ToUtf8 path with ⟨hno, hfalse⟩ | ⟨hvalid, hpath⟩
  · refine ⟨⟨fun h => ?_, fun h => absurd h hno⟩, fun mount _ h => ?_⟩
    · rw [hfalse] at h
      cases h
    · rw [hfalse] at h
      cases h
  · refine ⟨⟨fun _ => hvalid, fun _ => by rw [hpath]⟩, fun mount hmount _ => ?_⟩
    have hnodes : ∀ node ∈ guestComponents (path.asString utf16ToUtf8), IsNode node :=
      fun node => isNode_of_mem
    obtain ⟨host, hbuild, hhost⟩ := components_buildHostPath hmount hnodes
    have hwalk (Dir : Type) (t : FileTree.Tree Dir (List Char)) (start : Dir)
        (part : List (List Char)) :
        FileTree.walk t start ((components mount ++ part).map meaning) =
          FileTree.walk t (resolve t start mount) (part.map meaning) := by
      rw [List.map_append, FileTree.walk_append, resolve]
    have hbalanced := balanced_meaning hnodes hvalid.neverAbove
    rw [hpath]
    refine ⟨host, hbuild, hhost ▸ List.prefix_append _ _, fun Dir t start => ⟨?_, ?_⟩⟩
    · rintro visited ⟨part, rfl⟩ hvisited
      rw [hhost, List.prefix_append_right_inj] at hvisited
      obtain ⟨names, hnames, -⟩ :=
        FileTree.walk_balanced t (hbalanced.of_prefix (hvisited.map meaning)) (resolve t start mount)
      exact ⟨names, (hwalk Dir t start part).trans hnames⟩
    · rw [resolve, hhost, hwalk, FileTree.walk_eq_self t hbalanced, (countP_meaning hnodes).1,
        (countP_meaning hnodes).2, decide_eq_true_iff, eq_comm]

-- the paths of the unit test
example : (PathParser.ofPath (fun _ => []) ⟨.Char, "/a/b/../c/../../d".toList, []⟩).isValid = true ∧
    (PathParser.ofPath (fun _ => []) ⟨.Char, "/a/b/../../c/../../d".toList, []⟩).isValid = false ∧
    (PathParser.ofPath (fun _ => []) ⟨.Char, "/a/..".toList, []⟩).isRoot = true := by
  decide +kernel

end AzaharPlus.FileSys
