import ShellDoc.Text.Basic

/-!
# Blanks

The characters that count as blank are the white space of all scripts together with the separators
of the control block.  Stripping a text removes them at both ends, and its words are the maximal
runs of other characters.
-/

namespace ShellDoc.Text

/-- Ranges of the blank characters. -/
def blankRanges : List (Nat × Nat) :=
  [(0x09, 0x0d), (0x1c, 0x20), (0x85, 0x85), (0xa0, 0xa0), (0x1680, 0x1680), (0x2000, 0x200a),
    (0x2028, 0x2029), (0x202f, 0x202f), (0x205f, 0x205f), (0x3000, 0x3000)]

def isBlank (c : Char) : Bool := inRanges blankRanges c

theorem isBlank_space : isBlank ' ' = true := by decide

theorem isBlank_tab : isBlank '\t' = true := by decide

theorem isBlank_newline : isBlank '\n' = true := by decide

def stripLeft (s : Text) : Text := s.dropWhile isBlank

def stripRight (s : Text) : Text := (s.reverse.dropWhile isBlank).reverse

/-- The text without the blanks at its two ends. -/
def strip (s : Text) : Text := stripRight (stripLeft s)

@[simp] theorem strip_nil : strip [] = [] := rfl

/-- The maximal runs of characters that are not blank. -/
def words : Text → List Text
  | [] => []
  | c :: s =>
      if isBlank c then words s
      else
        match s with
        | [] => [[c]]
        | d :: _ =>
            if isBlank d then [c] :: words s
            else
              match words s with
              | [] => [[c]]
              | w :: ws => (c :: w) :: ws

@[simp] theorem words_nil : words [] = [] := rfl

theorem words_cons_blank {c : Char} (h : isBlank c = true) (s : Text) :
    words (c :: s) = words s := by
  rw [words.eq_def]; simp [h]

/-- A character that is not blank begins a word, which goes on up to the next blank. -/
theorem words_cons_of_not_blank {c : Char} (h : isBlank c = false) (s : Text) :
    words (c :: s) =
      (c :: s.takeWhile (!isBlank ·)) :: words (s.dropWhile (!isBlank ·)) := by
  induction s generalizing c with
  | nil => simp [words, h]
  | cons d s ih =>
      cases hd : isBlank d with
      | true => simp [words, h, hd]
      | false => rw [words, if_neg (by simp [h])]; simp [ih hd, hd]

/-- The items of a comma-separated list, stripped, without the empty ones. -/
def items (s : Text) : List Text :=
  ((pieces ',' s).map strip).filter (· ≠ [])

end ShellDoc.Text
