import ShellDoc.Text.Case
import ShellDoc.Text.Quoted

/-!
# Levels

A level is a number; the five usual ones have names.  A name in any case is looked up among the
names of levels and a few synonyms.
-/

namespace ShellDoc.Log

abbrev Level := Int

namespace Level

def debug : Level := 10

def info : Level := 20

def warning : Level := 30

def error : Level := 40

def critical : Level := 50

/-- The name of a level, made up from its number when it has none. -/
def name (l : Level) : Text :=
  if l = 0 then "NOTSET"
  else if l = debug then "DEBUG"
  else if l = info then "INFO"
  else if l = warning then "WARNING"
  else if l = error then "ERROR"
  else if l = critical then "CRITICAL"
  else Text.concat ["Level ", Text.ofInt l]

/-- Why a level name cannot be used: it is unknown, or names a text instead of a level. -/
inductive Fault where
  | unknown (name : Text)
  | notLevel (text : Text)
  deriving DecidableEq, Repr

def Fault.message : Fault → Text
  | unknown name => Text.concat ["module 'logging' has no attribute '", name, "'"]
  | notLevel text => Text.concat ["Unknown level: ", Text.quoted text]

/-- The names of levels. -/
def names : List (Text × Level) :=
  [("DEBUG", debug), ("INFO", info), ("WARNING", warning), ("WARN", warning), ("ERROR", error),
    ("CRITICAL", critical), ("FATAL", critical), ("NOTSET", 0)]

/-- A name that stands for a text, which is no level. -/
def textName : Text := "BASIC_FORMAT"

/-- The level that a name stands for, whatever its case. -/
def named (name : Text) : Except Fault Level :=
  let name := Text.upper name
  match names.lookup name with
  | some l => .ok l
  | none =>
      if name = textName then .error (.notLevel "%(levelname)s:%(name)s:%(message)s")
      else .error (.unknown name)

end Level

end ShellDoc.Log
