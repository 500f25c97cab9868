import ShellDoc.DocBlock.Basic

/-!
# Sections

The section of a block is made of groups of lines with an empty line behind each: the heading, a
code fence with a call, the summary in italics, the description, the table of parameters, the
returned value and the other properties.  A group that has nothing to show is left out.
-/

namespace ShellDoc.Page

/-- The greatest length among some texts. -/
def width (ts : List Text) : Nat := (ts.map List.length).foldl max 0

/-- One row of the table of parameters, filled up to the widths of the two columns. -/
def parameterRow (labels descriptions : Nat) (p : Parameter) : Text :=
  Text.concat ["| ", Text.padRight labels p.label, " | ",
    Text.padRight descriptions p.description, " |"]

/-- The table of parameters, its columns as wide as their longest texts. -/
def parameterTable (ps : List Parameter) : List Text :=
  ps.map (parameterRow (width (ps.map Parameter.label)) (width (ps.map Parameter.description)))

/-- The returned value: its first word is the type, the rest says what it is. -/
def returnLine (value : Text) : Text :=
  let (type, rest) := Text.cut ' ' value
  if rest = [] then Text.concat ["**return (", type, ")**"]
  else Text.concat ["**return (", type, ")** - ", rest]

/-- A property with its value, or its name alone when the value is empty. -/
def propertyText (p : Text × Text) : Text :=
  if p.2 = [] then p.1 else Text.concat [p.1, ": ", p.2]

/-- The properties in italics on one line. -/
def propertyLine (ps : Fields Text) : Text :=
  Text.concat ["*", Text.join ", " (ps.map propertyText), "*"]

/-- A group that is present only under a condition. -/
def optional (present : Bool) (group : List Text) : List (List Text) :=
  if present then [group] else []

/-- The groups of the section of a block, with `dialect` as the language of its code fence. -/
def groups (dialect : Text) (b : DocBlock) : List (List Text) :=
  [[Text.concat ["## ", b.name, "()"]],
    [Text.concat ["```", dialect], Text.concat [b.name, "() "], "```"]] ++
  optional (!b.summary.isEmpty) [Text.concat ["*", b.summary, "*"]] ++
  optional (!b.description.isEmpty) [b.descriptionText] ++
  optional (!b.parameters.isEmpty) (parameterTable b.parameters) ++
  optional (!b.returnValue.isEmpty) [returnLine b.returnValue] ++
  optional (!b.otherProperties.isEmpty) [propertyLine b.otherProperties]

/-- The lines of the section of a block. -/
def sectionLines (dialect : Text) (b : DocBlock) : List Text :=
  (groups dialect b).flatMap (· ++ [[]])

end ShellDoc.Page
