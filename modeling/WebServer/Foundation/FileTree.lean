import Mathlib.Data.List.Basic
import Mathlib.Data.List.Infix

/-!
# Trees of directories and files

A file tree without links over arbitrary names, and how a path is walked in it. The location of a node
is the list of names on the way from the root. Every component of a path is looked up in a directory:
`stay` does nothing, `up` goes to the parent, which for the root is the root, and a name goes to the
entry of that name. A walk without `up` never leaves the directory it starts from, and a walk that
ends with `up` ends at a directory.
-/

namespace WebServer

/-- A component of a path. -/
inductive PathStep (ν : Type*) where
  | stay
  | up
  | name (name : ν)
  deriving DecidableEq

/-- A regular file, a directory with its entries, or a node of another kind. -/
inductive FileTree (ν γ : Type*) where
  | file (content : γ)
  | directory (entries : List (ν × FileTree ν γ))
  | special

namespace FileTree

variable {ν γ : Type*} [DecidableEq ν] (tree : FileTree ν γ)

def isDirectory : FileTree ν γ → Bool
  | directory _ => true
  | _ => false

def child : FileTree ν γ → ν → Option (FileTree ν γ)
  | directory entries, name => entries.lookup name
  | _, _ => none

/-- The node at a location. -/
def node : FileTree ν γ → List ν → Option (FileTree ν γ)
  | tree, [] => some tree
  | tree, name :: names => (tree.child name).bind fun next ↦ next.node names

def IsDirectoryAt (location : List ν) : Prop := (tree.node location).any isDirectory = true

instance (location : List ν) : Decidable (tree.IsDirectoryAt location) :=
  inferInstanceAs (Decidable (_ = true))

/-- The location a path leads to; every component needs a directory to be looked up in. -/
def walk (location : List ν) : List (PathStep ν) → Option (List ν)
  | [] => some location
  | step :: steps =>
    if tree.IsDirectoryAt location then
      match step with
      | .stay => walk location steps
      | .up => walk location.dropLast steps
      | .name name =>
        if (tree.node (location ++ [name])).isSome then walk (location ++ [name]) steps else none
    else none

variable {tree} {start location : List ν} {steps steps' : List (PathStep ν)}

theorem node_append (first second : List ν) :
    tree.node (first ++ second) = (tree.node first).bind fun next ↦ next.node second := by
  induction first generalizing tree with
  | nil => rfl
  | cons name first ih =>
    simp only [List.cons_append, node]
    cases tree.child name with
    | none => rfl
    | some next => exact ih

/-- The parent of a node is a directory, and so is the root if anything is in it. -/
theorem isDirectoryAt_dropLast (h : tree.IsDirectoryAt location) :
    tree.IsDirectoryAt location.dropLast := by
  rcases List.eq_nil_or_concat' location with rfl | ⟨parent, name, rfl⟩
  · exact h
  · rw [List.dropLast_concat]
    unfold IsDirectoryAt at h ⊢
    rw [node_append] at h
    cases hparent : tree.node parent with
    | none => simp [hparent] at h
    | some next =>
      cases next with
      | directory entries => rfl
      | file content => simp [hparent, node, child] at h
      | special => simp [hparent, node, child] at h

theorem isDirectoryAt_of_walk (hne : steps ≠ []) (h : tree.walk start steps = some location) :
    tree.IsDirectoryAt start := by
  cases steps with
  | nil => exact absurd rfl hne
  | cons step steps =>
    unfold walk at h
    split at h
    · assumption
    · exact absurd h (by simp)

theorem walk_append (start : List ν) (steps steps' : List (PathStep ν)) :
    tree.walk start (steps ++ steps') =
      (tree.walk start steps).bind fun mid ↦ tree.walk mid steps' := by
  induction steps generalizing start with
  | nil => rfl
  | cons step steps ih =>
    simp only [List.cons_append, walk]
    split
    · cases step with
      | stay => exact ih start
      | up => exact ih start.dropLast
      | name name =>
        dsimp only
        split
        · exact ih (start ++ [name])
        · rfl
    · rfl

/-- A walk that never goes up stays below its start. -/
theorem prefix_of_walk (hup : .up ∉ steps) (h : tree.walk start steps = some location) :
    start <+: location := by
  induction steps generalizing start with
  | nil => exact Option.some.inj h ▸ List.prefix_rfl
  | cons step steps ih =>
    obtain ⟨hstep, hrest⟩ := not_or.mp (fun hmem ↦ hup (List.mem_cons.mpr hmem))
    unfold walk at h
    split at h
    · cases step with
      | stay => exact ih hrest h
      | up => exact absurd rfl hstep
      | name name =>
        dsimp only at h
        split at h
        · exact (List.prefix_append ..).trans (ih hrest h)
        · exact absurd h (by simp)
    · exact absurd h (by simp)

/-- A walk whose last step goes up ends at a directory. -/
theorem isDirectoryAt_of_walk_up (h : tree.walk start (steps ++ [.up]) = some location) :
    tree.IsDirectoryAt location := by
  rw [walk_append] at h
  obtain ⟨mid, -, hlast⟩ := Option.bind_eq_some_iff.mp h
  have hmid := isDirectoryAt_of_walk (by simp) hlast
  simp only [walk, if_pos hmid, Option.some.injEq] at hlast
  exact hlast ▸ isDirectoryAt_dropLast hmid

/-- A walk from a directory that goes up at most in its last step, and ends at a node that is not a
directory, ends strictly below its start. -/
theorem strictly_below_of_walk (hup : .up ∉ steps.dropLast)
    (h : tree.walk start steps = some location) (hne : steps ≠ [])
    (hnode : ¬ tree.IsDirectoryAt location) :
    tree.IsDirectoryAt start ∧ start <+: location ∧ location ≠ start := by
  have hstart := isDirectoryAt_of_walk hne h
  have hlast : .up ∉ steps := by
    rw [← List.dropLast_append_getLast hne, List.mem_append, not_or]
    refine ⟨hup, fun hmem ↦ hnode ?_⟩
    have hgetLast : steps.getLast hne = .up := (List.mem_singleton.mp hmem).symm
    rw [← List.dropLast_append_getLast hne, hgetLast] at h
    exact isDirectoryAt_of_walk_up h
  exact ⟨hstart, prefix_of_walk hlast h, fun heq ↦ hnode (heq ▸ hstart)⟩

end FileTree

end WebServer
