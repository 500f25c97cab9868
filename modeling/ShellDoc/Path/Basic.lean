import ShellDoc.Text.Basic

/-!
# Paths

A path is a root and a list of parts.  Writing it down drops empty parts and single dots, so that a
path has one form; two dots stay.  The root is empty for a relative path, one slash, or two slashes
if the path begins with exactly two.
-/

namespace ShellDoc

structure Path where
  root : Text
  parts : List Text
  deriving DecidableEq, Repr

namespace Path

def rootOf (slashes : Nat) : Text :=
  if slashes = 0 then [] else if slashes = 2 then "//" else "/"

def ofText (s : Text) : Path :=
  ⟨rootOf (s.takeWhile (· = '/')).length,
    (Text.pieces '/' s).filter fun p => p ≠ [] ∧ p ≠ ['.']⟩

/-- The text of a path; the empty path is a dot. -/
def toText (p : Path) : Text :=
  if p.root = [] ∧ p.parts = [] then "." else p.root ++ Text.join "/" p.parts

/-- The last part, empty if there is none. -/
def name (p : Path) : Text := p.parts.getLast?.getD []

/-- The path without its last part. -/
def parent (p : Path) : Path := { p with parts := p.parts.dropLast }

/-- The second path seen from the first; an absolute one stays what it is. -/
def join (p q : Path) : Path := if q.root = [] then ⟨p.root, p.parts ++ q.parts⟩ else q

/-- A name in front of its last dot and from it on.  A dot at either end of the name divides
nothing. -/
def splitName (name : Text) : Text × Text :=
  match Text.cutLast? '.' name with
  | some (front, back) => if front ≠ [] ∧ 1 < back.length then (front, back) else (name, [])
  | none => (name, [])

def stem (p : Path) : Text := (splitName p.name).1

def suffix (p : Path) : Text := (splitName p.name).2

/-- A name without its extension, which begins at the last dot behind some character that is no dot;
here a dot at the end is an extension. -/
def withoutExtension (name : Text) : Text :=
  match Text.cutLast? '.' name with
  | some (front, _) => if front.any (· ≠ '.') then front else name
  | none => name

end Path

end ShellDoc
