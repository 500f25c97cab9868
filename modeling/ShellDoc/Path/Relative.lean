import ShellDoc.Path.Basic

/-!
# Relative paths

Two paths are compared from the top: both are followed from the working directory, where two dots
step back and never above the top.  The way from one to the other goes back up to the last common
directory and down from there.
-/

namespace ShellDoc.Path

/-- One step down, or back for two dots. -/
def step (location : List Text) (part : Text) : List Text :=
  if part = ['.', '.'] then location.dropLast else location ++ [part]

/-- The place that a path names when it is followed from the working directory. -/
def absolute (workingDirectory : List Text) (p : Path) : List Text :=
  p.parts.foldl step (if p.root = [] then workingDirectory else [])

/-- The way from one place to another. -/
def way : List Text → List Text → List Text
  | a :: start, b :: target =>
      if a = b then way start target
      else List.replicate (start.length + 1) ['.', '.'] ++ b :: target
  | start, target => List.replicate start.length ['.', '.'] ++ target

/-- The relative path that leads from the directory `start` to `target`. -/
def relativeTo (workingDirectory : List Text) (target start : Path) : Path :=
  ⟨[], way (start.absolute workingDirectory) (target.absolute workingDirectory)⟩

@[simp] theorem way_self (l : List Text) : way l l = [] := by
  induction l with
  | nil => rfl
  | cons a l ih => simp [way, ih]

@[simp] theorem way_nil_left (target : List Text) : way [] target = target := by
  simp [way]

end ShellDoc.Path
