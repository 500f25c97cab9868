import ShellDoc.Script.Line

/-!
# The dialect of a script

The first line of a script may name its interpreter behind `#!`.  The base name of the program is
the dialect if it is one of the recognized ones; behind `env` the first argument that is no option
is looked at instead.  The interpreter line is read here and belongs to no block.
-/

namespace ShellDoc.Script

/-- The recognized dialects, and the one that is assumed when none of them is found. -/
structure Dialects where
  fallback : Text := "sh"
  recognized : List Text := ["bash", "sh", "zsh"]
  deriving DecidableEq, Repr

def interpreterMark : Text := "#!"

/-- The name of a program behind its directories. -/
def baseName (program : Text) : Text := Text.afterLast '/' program

/-- The program that an interpreter line runs, `none` when it names none. -/
def program? (words : List Text) : Option Text :=
  match words with
  | [] => none
  | w :: arguments =>
      if baseName w = "env" then
        some (((arguments.find? fun a => !(['-'].isPrefixOf a)).map baseName).getD [])
      else some (baseName w)

namespace Dialects

/-- The dialect of an interpreter line, whose first two characters are passed over. -/
def resolve (d : Dialects) (line : Text) : Text :=
  match program? (Text.words (line.drop 2)) with
  | some p => if p ∈ d.recognized then p else d.fallback
  | none => d.fallback

theorem resolve_mem (d : Dialects) (line : Text) :
    d.resolve line = d.fallback ∨ d.resolve line ∈ d.recognized := by
  unfold resolve
  split
  · split
    · exact .inr (by assumption)
    · exact .inl rfl
  · exact .inl rfl

end Dialects

/-- A reader of the lines of one script: the dialect found so far and the number of lines read. -/
structure LineReader where
  dialects : Dialects
  dialect : Text
  lineNumber : Nat
  deriving DecidableEq, Repr

namespace LineReader

def start (dialects : Dialects) : LineReader := ⟨dialects, dialects.fallback, 0⟩

/-- Reads the next raw line: its normal form, or nothing when it is the interpreter line. -/
def feed (r : LineReader) (raw : Text) : Option Text × LineReader :=
  let line := normalize raw
  if r.lineNumber = 0 ∧ interpreterMark.isPrefixOf line then
    (none, { r with dialect := r.dialects.resolve line, lineNumber := 1 })
  else (some line, { r with lineNumber := r.lineNumber + 1 })

/-- The lines of a script that may belong to blocks, and the reader behind the last line. -/
def feedAll (r : LineReader) : List Text → List Text × LineReader
  | [] => ([], r)
  | raw :: raws =>
      let step := r.feed raw
      let rest := feedAll step.2 raws
      (step.1.toList ++ rest.1, rest.2)

@[simp] theorem feedAll_nil (r : LineReader) : r.feedAll [] = ([], r) := rfl

theorem feedAll_cons (r : LineReader) (raw : Text) (raws : List Text) :
    r.feedAll (raw :: raws) =
      ((r.feed raw).1.toList ++ ((r.feed raw).2.feedAll raws).1,
        ((r.feed raw).2.feedAll raws).2) := rfl

theorem lineNumber_feed (r : LineReader) (raw : Text) :
    (r.feed raw).2.lineNumber = r.lineNumber + 1 := by
  simp only [feed]
  split
  · rename_i h
    simp [h.1]
  · rfl

end LineReader

end ShellDoc.Script
