import ShellDoc.DocBlock.Recognizer
import ShellDoc.Script.Dialect

/-!
# Inspecting a script

An inspection reads a script to its end and gives its blocks, its dialect and the number of blocks
that were dropped, without writing a page.
-/

namespace ShellDoc

/-- The notices that a recognizer gives on a list of lines. -/
def Recognizer.notices (r : Recognizer) : List Text → List Notice
  | [] => []
  | line :: lines =>
      let step := r.feed line
      step.notice.toList ++ notices step.next lines

structure Inspection where
  blocks : List DocBlock
  dialect : Text
  discarded : Nat
  notices : List Notice
  deriving Repr

/-- The notices on the raw lines of a script whose end is not reached. -/
def Inspection.noticesUpTo (dialects : Script.Dialects) (raws : List Text) : List Notice :=
  ({} : Recognizer).notices ((Script.LineReader.start dialects).feedAll raws).1

/-- Reads the raw lines of a script. -/
def Inspection.ofLines (dialects : Script.Dialects) (raws : List Text) : Inspection :=
  let read := (Script.LineReader.start dialects).feedAll raws
  let recognizer : Recognizer := {}
  let parsed := recognizer.parse read.1
  { blocks := parsed.1
    dialect := read.2.dialect
    discarded := parsed.2.discarded
    notices := recognizer.notices read.1 ++ (recognizer.feedAll read.1).2.finishNotice.toList }

end ShellDoc
