import ShellDoc.DocBlock.Recognizer
import ShellDoc.Page.Frame
import ShellDoc.Page.Section
import ShellDoc.Script.Dialect

/-!
# Writing a page while reading a script

A page is written from the raw lines of a script as they come: first the heading, then the section
of each block as soon as its declaration is read, at the end the footer.  If the lines break off,
what was written so far stands.  Along the way events are recorded, for the log.
-/

namespace ShellDoc.Page

/-- What happens while a page is written. -/
inductive Event where
  | notice (notice : Notice)
  | rendered (name : Text) (parameters : Nat)
  | discarded (title : Text) (count : Nat)
  deriving DecidableEq, Repr

/-- The state of a page that is being written. -/
structure Writer where
  reader : Script.LineReader
  recognizer : Recognizer
  lines : List Text
  count : Nat
  events : List Event
  deriving Repr

namespace Writer

/-- A page with its heading. -/
def start (dialects : Script.Dialects) (title : Text) : Writer :=
  ⟨.start dialects, {}, heading title, 0, []⟩

/-- Writes the section of a finished block. -/
def emit (w : Writer) (b : DocBlock) : Writer :=
  { w with
    lines := w.lines ++ sectionLines w.reader.dialect b
    count := w.count + 1
    events := w.events ++ [.rendered b.name b.parameters.length] }

/-- Reads the next raw line of the script. -/
def feed (w : Writer) (raw : Text) : Writer :=
  let read := w.reader.feed raw
  let w := { w with reader := read.2 }
  match read.1 with
  | none => w
  | some line =>
      let step := w.recognizer.feed line
      let w := { w with
        recognizer := step.next
        events := w.events ++ step.notice.toList.map .notice }
      match step.emitted with
      | none => w
      | some b => w.emit b

def feedAll (w : Writer) (raws : List Text) : Writer := raws.foldl feed w

/-- The end of the script: a pending block is dropped, and the footer follows if there is one. -/
def finish (w : Writer) (title copyright : Text) : Writer :=
  let last := w.recognizer.finish
  let dropped : List Event :=
    if last.discarded = 0 then [] else [.discarded title last.discarded]
  { w with
    recognizer := last
    lines := w.lines ++ (if copyright = [] then [] else footer copyright)
    events := w.events ++ w.recognizer.finishNotice.toList.map .notice ++ dropped }

@[simp] theorem feedAll_nil (w : Writer) : w.feedAll [] = w := rfl

@[simp] theorem feedAll_cons (w : Writer) (raw : Text) (raws : List Text) :
    w.feedAll (raw :: raws) = (w.feed raw).feedAll raws := rfl

theorem feedAll_append (w : Writer) (xs ys : List Text) :
    w.feedAll (xs ++ ys) = (w.feedAll xs).feedAll ys := by
  simp [feedAll]

end Writer

/-- The page of a script that was read as far as the given lines. -/
def upTo (dialects : Script.Dialects) (title : Text) (raws : List Text) : Writer :=
  (Writer.start dialects title).feedAll raws

/-- The finished page of a script. -/
def document (dialects : Script.Dialects) (copyright title : Text) (raws : List Text) : Writer :=
  (upTo dialects title raws).finish title copyright

/-- The text of the page so far. -/
def Writer.text (w : Writer) : Text := Text.ofLines w.lines

end ShellDoc.Page
