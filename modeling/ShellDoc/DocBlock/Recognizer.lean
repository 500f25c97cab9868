import ShellDoc.DocBlock.Body

/-!
# Recognizing blocks

A recognizer is fed the lines of a script in normal form and finds the blocks in them.  Outside a
block it waits for a line that starts with the mark `#/`.  Such a line that also ends with the mark
is a whole block; any other one opens a block that goes on up to a line which is the mark alone.
Behind the block, the next line that is not empty is its declaration, and the block is finished.

A recognizer that is outside holds no block, and one that is inside or waiting for a declaration
always holds one; the type says so.
-/

namespace ShellDoc

def blockMark : Text := "#/"

/-- Whether a line opens and closes a block by itself. -/
def isWholeBlock (line : Text) : Bool :=
  blockMark.isPrefixOf line && blockMark.isSuffixOf line && decide (4 < line.length)

/-- The content between the two marks of a line that is a whole block. -/
def wholeBlockContent (line : Text) : Text := Text.strip ((line.drop 2).take (line.length - 4))

/-- A line inside a block without its comment sign and the blanks behind that. -/
def commentContent (line : Text) : Text :=
  match line with
  | '#' :: s => Text.strip s
  | s => Text.strip s

/-- The name that a declaration line declares, up to an opening parenthesis; empty when the line
does not start with the keyword. -/
def declaredName (keyword line : Text) : Text :=
  match Text.words line with
  | first :: second :: _ => if first = keyword then (Text.cut '(' second).1 else []
  | _ => []

/-- Where a recognizer stands. -/
inductive Phase where
  | outside
  | inside (draft : Draft)
  | awaiting (draft : Draft)
  deriving DecidableEq, Repr

namespace Phase

/-- The block under construction. -/
def draft? : Phase → Option Draft
  | outside => none
  | inside d => some d
  | awaiting d => some d

def label : Phase → Text
  | outside => "outside"
  | inside _ => "inside_block"
  | awaiting _ => "await_declaration"

end Phase

/-- What a recognizer has to report besides the blocks. -/
inductive Notice where
  | undeclared (line : Text)
  | unterminated (phase summary : Text)
  deriving DecidableEq, Repr

namespace Notice

def message : Notice → Text
  | undeclared line => Text.concat ["No declaration found after block: ", Text.quoted line]
  | unterminated phase summary =>
      Text.concat ["Discarding unterminated block (state=", phase, ", summary=",
        Text.quoted summary, ")"]

end Notice

structure Recognizer where
  keyword : Text := "function"
  phase : Phase := .outside
  discarded : Nat := 0
  deriving DecidableEq, Repr

namespace Recognizer

/-- What one line brings: the recognizer behind it, a finished block, and a notice. -/
structure Step where
  next : Recognizer
  emitted : Option DocBlock := none
  notice : Option Notice := none

/-- Opens a block at a line that starts with the mark. -/
def opened (line : Text) : Phase :=
  if isWholeBlock line then .awaiting (({} : Draft).consume (wholeBlockContent line))
  else .inside {}

/-- Finishes a block at its declaration line. -/
def declare (r : Recognizer) (d : Draft) (line : Text) : Step :=
  let name := declaredName r.keyword line
  { next := { r with phase := .outside }
    emitted := some { d.block with name }
    notice := if name = [] then some (.undeclared line) else none }

def feed (r : Recognizer) (line : Text) : Step :=
  match r.phase with
  | .awaiting d => if line = [] then ⟨r, none, none⟩ else r.declare d line
  | .inside d =>
      if line = blockMark then ⟨{ r with phase := .awaiting d }, none, none⟩
      else ⟨{ r with phase := .inside (d.consume (commentContent line)) }, none, none⟩
  | .outside =>
      if blockMark.isPrefixOf line then ⟨{ r with phase := opened line }, none, none⟩
      else ⟨r, none, none⟩

/-- The end of the input: a block that is not finished is dropped and counted. -/
def finish (r : Recognizer) : Recognizer :=
  match r.phase with
  | .outside => r
  | _ => { r with phase := .outside, discarded := r.discarded + 1 }

/-- The notice of a block that is dropped at the end of the input. -/
def finishNotice (r : Recognizer) : Option Notice :=
  r.phase.draft?.map fun d => .unterminated r.phase.label d.block.summary

/-- The blocks in a list of lines, and the recognizer behind the last line. -/
def feedAll (r : Recognizer) : List Text → List DocBlock × Recognizer
  | [] => ([], r)
  | line :: lines =>
      let step := r.feed line
      let rest := feedAll step.next lines
      (step.emitted.toList ++ rest.1, rest.2)

/-- The blocks of a whole input, whose end is signalled. -/
def parse (r : Recognizer) (lines : List Text) : List DocBlock × Recognizer :=
  let fed := r.feedAll lines
  (fed.1, fed.2.finish)

/-- Stops behind the line that finishes the `n`-th block and leaves the lines behind it unread; the
end of the input is signalled only when it is reached before that. -/
def parseFirst (r : Recognizer) (n : Nat) (lines : List Text) :
    List DocBlock × List Text × Recognizer :=
  match n, lines with
  | 0, lines => ([], lines, r)
  | _ + 1, [] => ([], [], r.finish)
  | n + 1, line :: lines =>
      let step := r.feed line
      match step.emitted with
      | some b =>
          let rest := parseFirst step.next n lines
          (b :: rest.1, rest.2)
      | none => parseFirst step.next (n + 1) lines

@[simp] theorem feedAll_nil (r : Recognizer) : r.feedAll [] = ([], r) := rfl

theorem feedAll_cons (r : Recognizer) (line : Text) (lines : List Text) :
    r.feedAll (line :: lines) =
      ((r.feed line).emitted.toList ++ ((r.feed line).next.feedAll lines).1,
        ((r.feed line).next.feedAll lines).2) := rfl

theorem feedAll_append (r : Recognizer) (xs ys : List Text) :
    r.feedAll (xs ++ ys) =
      ((r.feedAll xs).1 ++ ((r.feedAll xs).2.feedAll ys).1, ((r.feedAll xs).2.feedAll ys).2) := by
  induction xs generalizing r with
  | nil => simp
  | cons x xs ih => simp [feedAll_cons, ih]

section Feed

variable {r : Recognizer} {d : Draft} {line : Text}

theorem feed_of_outside (h : r.phase = .outside) (hline : blockMark.isPrefixOf line = false) :
    r.feed line = ⟨r, none, none⟩ := by
  rw [feed, h]
  exact if_neg (by simp [hline])

theorem feed_opening (h : r.phase = .outside) (hline : blockMark.isPrefixOf line = true) :
    r.feed line = ⟨{ r with phase := opened line }, none, none⟩ := by
  rw [feed, h]
  exact if_pos hline

theorem feed_blockMark_of_inside (h : r.phase = .inside d) :
    r.feed blockMark = ⟨{ r with phase := .awaiting d }, none, none⟩ := by
  rw [feed, h]
  exact if_pos rfl

theorem feed_of_inside (h : r.phase = .inside d) (hline : line ≠ blockMark) :
    r.feed line = ⟨{ r with phase := .inside (d.consume (commentContent line)) }, none, none⟩ := by
  rw [feed, h]
  exact if_neg hline

theorem feed_nil_of_awaiting (h : r.phase = .awaiting d) : r.feed [] = ⟨r, none, none⟩ := by
  rw [feed, h]
  exact if_pos rfl

theorem feed_of_awaiting (h : r.phase = .awaiting d) (hline : line ≠ []) :
    r.feed line = r.declare d line := by
  rw [feed, h]
  exact if_neg hline

end Feed

@[simp] theorem finish_phase (r : Recognizer) : r.finish.phase = .outside := by
  unfold finish
  split <;> simp_all

@[simp] theorem feed_keyword (r : Recognizer) (line : Text) :
    (r.feed line).next.keyword = r.keyword := by
  unfold feed declare
  repeat' split
  all_goals rfl

end Recognizer

end ShellDoc
