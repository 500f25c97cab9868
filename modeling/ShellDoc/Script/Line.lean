import ShellDoc.Text.Blank

/-!
# Lines of a script in normal form

Before anything is recognized in a line of a script, its tabs become spaces, runs of spaces shrink
to one space, and the blanks at its ends go.
-/

namespace ShellDoc.Script

/-- A tab counts as a space. -/
def untab (c : Char) : Char := if c = '\t' then ' ' else c

/-- Runs of spaces become one space. -/
def squeeze : Text → Text
  | [] => []
  | c :: s => if c = ' ' ∧ s.head? = some ' ' then squeeze s else c :: squeeze s

@[simp] theorem squeeze_nil : squeeze [] = [] := rfl

theorem squeeze_cons_of_ne {c : Char} (h : c ≠ ' ') (s : Text) :
    squeeze (c :: s) = c :: squeeze s := by
  simp [squeeze, h]

/-- The normal form of a raw line. -/
def normalize (raw : Text) : Text := Text.strip (squeeze (raw.map untab))

@[simp] theorem normalize_nil : normalize [] = [] := rfl

end ShellDoc.Script
