import ShellDoc.Json.Writer
import ShellDoc.Log.Record

/-!
# Layouts of log lines

The human layout is a line with level, logger and message, with colours on a terminal.  The
structured layout is one JSON object: the standard fields, then the attributes of the record that
are shown, then fixed extra fields; a later field of the same name replaces the value in place.
-/

namespace ShellDoc.Log

/-- A moment of universal time in the form of the structured layout: the fraction of the second has
six digits and is left out when it is zero. -/
def stamp (m : Moment) : Text :=
  Text.concat [m.date.display, "T",
    Text.join ":" [Date.places 2 m.hour, Date.places 2 m.minute, Date.places 2 m.second],
    if m.microsecond = 0 then [] else '.' :: Date.places 6 m.microsecond, "Z"]

/-- The same in the form of the human layout. -/
def clockText (m : Moment) : Text :=
  Text.concat [m.date.display, " ",
    Text.join ":" [Date.places 2 m.hour, Date.places 2 m.minute, Date.places 2 m.second]]

/-- What a human-readable line shows. -/
structure HumanLayout where
  colors : Bool := false
  timestamp : Bool := false
  level : Bool := true
  deriving DecidableEq, Repr

namespace HumanLayout

def escape : Char := Char.ofNat 0x1b

/-- The colour codes of the levels. -/
def colorCodes : List (Text × Text) :=
  [("DEBUG", "36"), ("INFO", "32"), ("WARNING", "33"), ("ERROR", "31"), ("CRITICAL", "35")]

/-- The name of a level, between colour codes where it has a colour. -/
def levelText (l : HumanLayout) (name : Text) : Text :=
  match colorCodes.lookup name with
  | some code =>
      if l.colors then
        Text.concat [[escape, '['], code, "m", name, [escape, '[', '0', 'm']]
      else name
  | none => name

def format (l : HumanLayout) (now : Moment) (r : Record) : Except TemplateFault Text := do
  let message ← r.message
  let parts : List Text :=
    (if l.timestamp then [Text.concat ["[", clockText now, "]"]] else []) ++
    (if l.level then [Text.padLeft 8 (l.levelText r.levelName)] else []) ++
    [Text.concat [r.logger, ":"], message]
  let line := Text.join " " parts
  pure (match r.exception with
    | none => line
    | some e => line ++ '\n' :: e)

end HumanLayout

/-- What a structured line holds. -/
structure StructuredLayout where
  timestamp : Bool := true
  level : Bool := true
  logger : Bool := true
  extra : Fields Value := []
  deriving Repr

namespace StructuredLayout

/-- A field with a text, where it is wanted. -/
def textField (wanted : Bool) (name value : Text) : Fields Value :=
  if wanted then [(name, .text value)] else []

/-- The standard fields of a structured line in order. -/
def standardFields (l : StructuredLayout) (now : Moment) (r : Record) (message : Text) :
    Fields Value :=
  textField l.timestamp "timestamp" (stamp now) ++
    textField l.level "level" (Text.lower r.levelName) ++
    textField l.logger "logger" r.logger ++ textField true "message" message ++
    textField r.exception.isSome "exception" (r.exception.getD [])

/-- The fields of a structured line: the standard ones, the shown attributes of the record, the extra
ones. -/
def fields (l : StructuredLayout) (now : Moment) (r : Record) (message : Text) : Fields Value :=
  ((l.standardFields now r message).putAll r.shown).putAll l.extra

def format (l : StructuredLayout) (now : Moment) (r : Record) : Except TemplateFault Text := do
  let message ← r.message
  pure (Json.write (.ofFields (l.fields now r message)))

end StructuredLayout

inductive Layout where
  | human (layout : HumanLayout)
  | structured (layout : StructuredLayout)
  deriving Repr

def Layout.format (l : Layout) (now : Moment) (r : Record) : Except TemplateFault Text :=
  match l with
  | human h => h.format now r
  | structured s => s.format now r

end ShellDoc.Log
