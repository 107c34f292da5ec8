import Mathlib.Data.List.Induction

/-!
# Walks in a tree of directories

A tree of directories in which one can go into a directory by name and back up to its parent, and
walks in it.

* `FileTree` — the tree; every directory below another is deeper than it.
* `Balanced` — a walk that at no point has gone up more often than down.
* `walk_balanced` — such a walk never leaves what is below the directory that it starts from, and
  it ends there only if it has gone up as often as down.
-/

namespace FileTree

/-- A tree of directories with names of any type. -/
structure Tree (Dir Name : Type) where
  enter : Dir → Name → Dir
  parent : Dir → Dir
  depth : Dir → Nat
  parent_enter : ∀ d n, parent (enter d n) = d
  depth_enter : ∀ d n, depth (enter d n) = depth d + 1

/-- One component of a path. -/
inductive Component (Name : Type) where
  | here
  | up
  | down (name : Name)
  deriving DecidableEq

namespace Component

variable {Name : Type}

def isUp : Component Name → Bool
  | up => true
  | _ => false

def isDown : Component Name → Bool
  | down _ => true
  | _ => false

end Component

variable {Dir Name : Type} (t : Tree Dir Name)

/-- Where a component leads to. -/
def step (d : Dir) : Component Name → Dir
  | .here => d
  | .up => t.parent d
  | .down name => t.enter d name

/-- Where a list of components leads to. -/
def walk (d : Dir) (components : List (Component Name)) : Dir := components.foldl (step t) d

/-- The directory that is reached by names alone. -/
def descend (d : Dir) (names : List Name) : Dir := names.foldl t.enter d

/-- At no point a walk has gone up more often than down. -/
def Balanced (components : List (Component Name)) : Prop :=
  ∀ part, part <+: components → part.countP Component.isUp ≤ part.countP Component.isDown

theorem walk_append (d : Dir) (a b : List (Component Name)) :
    walk t d (a ++ b) = walk t (walk t d a) b :=
  List.foldl_append

theorem Balanced.of_prefix {a b : List (Component Name)} (h : Balanced b) (hab : a <+: b) :
    Balanced a :=
  fun part hpart => h part (hpart.trans hab)

theorem depth_descend (d : Dir) (names : List Name) :
    t.depth (descend t d names) = t.depth d + names.length := by
  induction names generalizing d with
  | nil => rfl
  | cons name rest ih =>
    have hrest := ih (t.enter d name)
    rw [t.depth_enter] at hrest
    rw [List.length_cons]
    exact hrest.trans (by omega)

/-- Names lead away. -/
theorem descend_eq_self {d : Dir} {names : List Name} : descend t d names = d ↔ names = [] := by
  constructor
  · intro h
    have hdepth := depth_descend t d names
    rw [h] at hdepth
    exact List.length_eq_zero_iff.1 (by omega)
  · rintro rfl
    rfl

/-- A walk that at no point has gone up more often than down is below where it starts, by as many
names as it has gone down more often than up. -/
theorem walk_balanced {components : List (Component Name)} (h : Balanced components) (d : Dir) :
    ∃ names, walk t d components = descend t d names ∧
      names.length + components.countP Component.isUp = components.countP Component.isDown := by
  induction components using List.reverseRecOn with
  | nil => exact ⟨[], rfl, rfl⟩
  | append_singleton components c ih =>
    obtain ⟨names, hwalk, hlength⟩ := ih (h.of_prefix (List.prefix_append _ _))
    have hlast := h _ List.prefix_rfl
    rw [List.countP_append, List.countP_append] at hlast ⊢
    rw [walk_append, hwalk]
    cases c with
    | here => exact ⟨names, rfl, by simpa [Component.isUp, Component.isDown] using hlength⟩
    | down name =>
      refine ⟨names ++ [name], ?_, ?_⟩
      · rw [descend, descend, List.foldl_append]
        rfl
      · simp [Component.isUp, Component.isDown]
        omega
    | up =>
      have hup : List.countP Component.isUp [(Component.up : Component Name)] = 1 := rfl
      have hdown : List.countP Component.isDown [(Component.up : Component Name)] = 0 := rfl
      rw [hup, hdown] at hlast ⊢
      rcases List.eq_nil_or_concat names with rfl | ⟨init, last, rfl⟩
      · simp at hlength
        omega
      · refine ⟨init, ?_, ?_⟩
        · rw [descend, List.concat_eq_append, List.foldl_append]
          exact t.parent_enter _ _
        · simp at hlength
          omega

/-- The walk ends where it starts exactly if it has gone up as often as down. -/
theorem walk_eq_self {components : List (Component Name)} (h : Balanced components) {d : Dir} :
    walk t d components = d ↔
      components.countP Component.isUp = components.countP Component.isDown := by
  obtain ⟨names, hwalk, hlength⟩ := walk_balanced t h d
  rw [hwalk, descend_eq_self, ← List.length_eq_zero_iff]
  omega

end FileTree
