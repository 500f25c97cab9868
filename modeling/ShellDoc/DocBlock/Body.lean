import ShellDoc.DocBlock.Basic
import ShellDoc.Text.Blank

/-!
# The body of a block

The content lines of a block are read one after the other.  A line with an `@` opens an entry: a
parameter behind `@param`, any other property otherwise.  A line without one continues the entry
that was opened last, and is plain text of the block as long as none was opened.
-/

namespace ShellDoc

/-- A block under construction, and the entry that continuation lines belong to. -/
structure Draft where
  block : DocBlock := {}
  active : Option Entry := none
  deriving DecidableEq, Repr

namespace Draft

def parameterProperty : Text := "param"

/-- Opens the entry that the text behind an `@` describes. -/
def openEntry (d : Draft) (s : Text) : Draft :=
  let (name, value) := Text.cut ' ' s
  if name = parameterProperty then
    let p := Parameter.ofText value
    ⟨d.block.addParameter p, some (.parameter p.type p.name)⟩
  else ⟨d.block.setProperty name value, some (.property name)⟩

/-- A line without an `@`. -/
def continueWith (d : Draft) (s : Text) : Draft :=
  match d.active with
  | none => { d with block := d.block.addText s }
  | some e => { d with block := (d.block.extend? e s).getD d.block }

/-- Counts the line, and reads it unless it is empty. -/
def consume (d : Draft) (content : Text) : Draft :=
  let d := { d with block := { d.block with lineCount := d.block.lineCount + 1 } }
  match content with
  | [] => d
  | '@' :: s => d.openEntry s
  | s => d.continueWith s

/-- Reads a whole body. -/
def consumeAll (d : Draft) (body : List Text) : Draft := body.foldl consume d

@[simp] theorem consumeAll_nil (d : Draft) : d.consumeAll [] = d := rfl

@[simp] theorem consumeAll_cons (d : Draft) (s : Text) (body : List Text) :
    d.consumeAll (s :: body) = (d.consume s).consumeAll body := rfl

theorem consumeAll_append (d : Draft) (body more : List Text) :
    d.consumeAll (body ++ more) = (d.consumeAll body).consumeAll more := by
  simp [consumeAll]

end Draft

/-- The block that a body describes. -/
def DocBlock.ofBody (body : List Text) : DocBlock := (({} : Draft).consumeAll body).block

end ShellDoc
