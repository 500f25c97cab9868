import ShellDoc.Text.Basic

/-!
# Lines

A carriage return, a line feed, or the two together end a line and are read as one line feed.  The
lines of a text keep their line feed, so that they concatenate to the text.
-/

namespace ShellDoc.Text

/-- Every line end as a single line feed; `afterReturn` tells that the character before was a
carriage return, which a line feed then belongs to. -/
def unifyAfter (afterReturn : Bool) : Text → Text
  | [] => []
  | c :: s =>
      if c = '\r' then '\n' :: unifyAfter true s
      else if c = '\n' then (if afterReturn then unifyAfter false s else '\n' :: unifyAfter false s)
      else c :: unifyAfter false s

def unifyLineEnds (s : Text) : Text := unifyAfter false s

@[simp] theorem unifyLineEnds_nil : unifyLineEnds [] = [] := rfl

/-- The lines of a text, each with the line feed that ends it. -/
def lines : Text → List Text
  | [] => []
  | c :: s =>
      if c = '\n' then [c] :: lines s
      else
        match lines s with
        | [] => [[c]]
        | l :: ls => (c :: l) :: ls

theorem flatten_lines (s : Text) : (lines s).flatten = s := by
  induction s with
  | nil => rfl
  | cons c s ih =>
      unfold lines
      split
      · simpa using ih
      · split
        · rename_i h
          simp [h] at ih
          simp [ih]
        · rename_i l ls h
          simp [h] at ih
          simp [ih]

/-- The text of a list of lines, each ended by a line feed. -/
def ofLines (ls : List Text) : Text := ls.flatMap (· ++ ['\n'])

@[simp] theorem ofLines_nil : ofLines [] = [] := rfl

@[simp] theorem ofLines_cons (l : Text) (ls : List Text) :
    ofLines (l :: ls) = l ++ '\n' :: ofLines ls := by simp [ofLines]

theorem ofLines_append (ls ms : List Text) : ofLines (ls ++ ms) = ofLines ls ++ ofLines ms := by
  simp [ofLines]

end ShellDoc.Text
