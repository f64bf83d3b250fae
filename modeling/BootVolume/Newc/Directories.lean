import BootVolume.Text.Utf8

/-!
# The directories of an archive run

A file stands in directories that need records of their own, each once in a run
and before anything inside it. `Directories` remembers those already written as
a forest; `Directories.insertParents` adds the ancestors of a path and tells
which of them are new, outermost first. `Directories.paths` is the view of the
forest as a list of paths.

Two paths name the same directory when their non-empty segments are the same,
so repeated and leading slashes make no difference. Letters differ by case.
-/

namespace BootVolume.Newc

/-- A directory above a file: its own name, and the path of the file up to the
end of that name. -/
structure Ancestor where
  name : String
  path : String
  deriving DecidableEq, Repr, Inhabited

/-- The ancestors in the rest of a path. `read` is what stands before the rest and
`segment` the part of it after the last slash, both last character first. -/
def ancestorsFrom (read segment : List Char) : List Char → List Ancestor
  | [] => []
  | c :: rest =>
      if c = '/' then
        if segment.isEmpty then ancestorsFrom (c :: read) [] rest
        else
          ⟨String.ofList segment.reverse, String.ofList read.reverse⟩ ::
            ancestorsFrom (c :: read) [] rest
      else ancestorsFrom (c :: read) (c :: segment) rest

/-- The directories that a path goes through, outermost first: one for each
non-empty segment that a slash follows. -/
def ancestors (path : String) : List Ancestor := ancestorsFrom [] [] path.toList

/-- A forest of directories: the first tree's name, its subdirectories, and the
other trees beside it. -/
inductive Directories where
  | none
  | node (name : String) (children siblings : Directories)
  deriving DecidableEq, Repr, Inhabited

namespace Directories

/-- No directory. -/
def empty : Directories := .none

/-- The number of directories. -/
def size : Directories → Nat
  | .none => 0
  | .node _ children siblings => 1 + children.size + siblings.size

/-- Whether there is no directory. -/
def isEmpty : Directories → Bool
  | .none => true
  | .node .. => false

/-- The directories as paths, each with its parents' names before its own. -/
def paths : Directories → List (List String)
  | .none => []
  | .node name children siblings =>
      [name] :: children.paths.map (name :: ·) ++ siblings.paths

/-- The names of the trees, not of their subdirectories. -/
def names : Directories → List String
  | .none => []
  | .node name _ siblings => name :: siblings.names

/-- The forest `others` with a new tree in front, a single branch through the
given directories. -/
def branch (others : Directories) : List Ancestor → Directories
  | [] => others
  | a :: rest => .node a.name (branch .none rest) others

/-- Add a chain of directories below a tree whose name is that of the first of
them, and give those that are new; nothing if there is no such tree. -/
def insertBelow? : Directories → List Ancestor → Option (Directories × List Ancestor)
  | .none, _ => Option.none
  | .node .., [] => Option.none
  | .node name children siblings, a :: rest =>
      if name = a.name then
        match children.insertBelow? rest with
        | some (grown, created) => some (.node name grown siblings, created)
        | Option.none => some (.node name (branch children rest) siblings, rest)
      else
        (siblings.insertBelow? (a :: rest)).map fun (grown, created) =>
          (.node name children grown, created)

/-- Add a chain of directories, and give those that are new. -/
def insert (dirs : Directories) (chain : List Ancestor) : Directories × List Ancestor :=
  (dirs.insertBelow? chain).getD (branch dirs chain, chain)

/-- Add the ancestors of a path, and give those that are new, outermost first. -/
def insertParents (dirs : Directories) (path : String) : Directories × List Ancestor :=
  dirs.insert (ancestors path)

@[simp] theorem length_paths (dirs : Directories) : dirs.paths.length = dirs.size := by
  induction dirs with
  | none => rfl
  | node name children siblings hc hs =>
      simp only [paths, size, List.cons_append, List.length_cons, List.length_append,
        List.length_map, hc, hs]
      omega

theorem isEmpty_iff (dirs : Directories) : dirs.isEmpty = true ↔ dirs.size = 0 := by
  cases dirs with
  | none => simp [isEmpty, size]
  | node name children siblings =>
      simp only [isEmpty, size, Bool.false_eq_true, false_iff]
      omega

end Directories

end BootVolume.Newc
