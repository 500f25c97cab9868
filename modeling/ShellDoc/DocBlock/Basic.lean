import ShellDoc.Fields
import ShellDoc.Value.Literal

/-!
# Documentation blocks

A block documents one function: a summary line, further lines of description, the parameters and
any other properties, each in order of first appearance.  A parameter is known by its type and name
together, a property by its name; a second entry under the same key replaces the first in place.

An `Entry` names a parameter or a property of a block.  Text can be appended to an entry that the
block has, and to no other.
-/

namespace ShellDoc

/-- A documented parameter. -/
structure Parameter where
  type : Text := []
  name : Text := []
  description : Text := []
  deriving DecidableEq, Repr

namespace Parameter

def key (p : Parameter) : Text × Text := (p.type, p.name)

/-- The parameter as a table shows it: its name, and its type in parentheses. -/
def label (p : Parameter) : Text := Text.concat [p.name, " (", p.type, ")"]

/-- The type of a positional parameter, which is named by its `$` and number alone. -/
def positionalType : Text := "any"

/-- Reads the text of a parameter: type, name and description with one space between them.  A first
word with a `$` is the name of a positional parameter, and no type is given. -/
def ofText (s : Text) : Parameter :=
  let (first, rest) := Text.cut ' ' s
  if ['$'].isPrefixOf first then ⟨positionalType, first, rest⟩
  else
    let (name, description) := Text.cut ' ' rest
    ⟨first, name, description⟩

def toValue (p : Parameter) : Value :=
  .ofFields [("type", .text p.type), ("name", .text p.name), ("description", .text p.description)]

end Parameter

/-- The name of a parameter or of a property of a block. -/
inductive Entry where
  | parameter (type name : Text)
  | property (name : Text)
  deriving DecidableEq, Repr

namespace Entry

/-- The key of an entry as messages quote it. -/
def literal : Entry → Text
  | parameter type name =>
      Text.concat ["(", Text.quoted type, ", ", Text.quoted name, ")"]
  | property name => Text.quoted name

end Entry

structure DocBlock where
  name : Text := []
  summary : Text := []
  description : List Text := []
  parameters : List Parameter := []
  properties : Fields Text := []
  lineCount : Nat := 0
  deriving DecidableEq, Repr

namespace DocBlock

def returnProperty : Text := "return"

/-- The lines of the description as one text. -/
def descriptionText (b : DocBlock) : Text := Text.join " " b.description

/-- What the function returns, empty when nothing is said about it. -/
def returnValue (b : DocBlock) : Text := (b.properties.get? returnProperty).getD []

/-- The properties other than the returned value. -/
def otherProperties (b : DocBlock) : Fields Text :=
  b.properties.filter fun p => p.1 ≠ returnProperty

/-- The first line of text is the summary, the others are the description. -/
def addText (b : DocBlock) (s : Text) : DocBlock :=
  if b.summary = [] ∧ b.description = [] then { b with summary := s }
  else { b with description := b.description ++ [s] }

/-- The parameters with `p` in the place of the one with the same key, or at the end. -/
def putParameter (p : Parameter) : List Parameter → List Parameter
  | [] => [p]
  | q :: qs => if q.key = p.key then p :: qs else q :: putParameter p qs

def addParameter (b : DocBlock) (p : Parameter) : DocBlock :=
  { b with parameters := putParameter p b.parameters }

def setProperty (b : DocBlock) (name value : Text) : DocBlock :=
  { b with properties := b.properties.put name value }

/-- Two texts with a space between them, or the second alone when the first is empty. -/
def joined (existing s : Text) : Text := if existing = [] then s else existing ++ ' ' :: s

/-- Whether the block has the entry. -/
def hasEntry (b : DocBlock) : Entry → Bool
  | .parameter type name => b.parameters.any fun p => p.key = (type, name)
  | .property name => (b.properties.get? name).isSome

/-- Appends text to an entry, and refuses when the block does not have it. -/
def extend? (b : DocBlock) (e : Entry) (s : Text) : Option DocBlock :=
  match e with
  | .parameter type name =>
      if b.hasEntry e then
        some { b with parameters := b.parameters.map fun p =>
          if p.key = (type, name) then { p with description := joined p.description s } else p }
      else none
  | .property name =>
      (b.properties.get? name).map fun v => b.setProperty name (joined v s)

@[simp] theorem putParameter_nil (p : Parameter) : putParameter p [] = [p] := rfl

/-- The keys after a parameter is put: the same ones, or the new one at the end. -/
theorem map_key_putParameter (p : Parameter) (ps : List Parameter) :
    (putParameter p ps).map Parameter.key =
      if p.key ∈ ps.map Parameter.key then ps.map Parameter.key
      else ps.map Parameter.key ++ [p.key] := by
  induction ps with
  | nil => simp
  | cons q qs ih =>
      by_cases h : q.key = p.key
      · simp [putParameter, h]
      · have h' : ¬ p.key = q.key := fun e => h e.symm
        by_cases hm : p.key ∈ qs.map Parameter.key
        · rw [if_pos hm] at ih
          simp only [putParameter, h, if_false, List.map_cons, ih]
          rw [if_pos (List.mem_cons_of_mem _ hm)]
        · rw [if_neg hm] at ih
          simp only [putParameter, h, if_false, List.map_cons, ih]
          rw [if_neg (by simpa [h'] using hm)]
          rfl

theorem extend?_eq_none_iff (b : DocBlock) (e : Entry) (s : Text) :
    b.extend? e s = none ↔ b.hasEntry e = false := by
  cases e with
  | parameter type name => by_cases h : b.hasEntry (.parameter type name) <;> simp [extend?, h]
  | property name => cases h : b.properties.get? name <;> simp [extend?, hasEntry, h]

/-- The block as a record, for output as data. -/
def toValue (b : DocBlock) : Value :=
  .ofFields [("name", .text b.name), ("summary", .text b.summary),
    ("description", .text b.descriptionText),
    ("parameters", .list (b.parameters.map Parameter.toValue)),
    ("properties", .ofFields (b.properties.map fun p => (p.1, .text p.2)))]

end DocBlock

end ShellDoc
