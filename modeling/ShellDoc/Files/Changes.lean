import ShellDoc.Files.Tree
import ShellDoc.Path.Relative

/-!
# Changes between two trees

The places at which two trees differ, seen from the working directory and sorted by their paths.
-/

namespace ShellDoc.Files

/-- A place and what it holds now, `none` when it is gone. -/
structure Change where
  path : Text
  now : Option Node
  deriving DecidableEq, Repr

/-- The path from the working directory to a place. -/
def relativePath (wd place : Location) : Text := Path.toText ⟨[], Path.way wd place⟩

/-- What differs in the second tree from the first. -/
def changes (wd : Location) (before after : Tree) : List Change :=
  let places := before.nodes.map Prod.fst ++
    (after.nodes.map Prod.fst).filter fun p => (before.get? p).isNone
  let changed := places.filter fun p => before.get? p ≠ after.get? p
  (changed.map fun p => (⟨relativePath wd p, after.get? p⟩ : Change)).mergeSort
    fun a b => Text.le a.path b.path

end ShellDoc.Files
