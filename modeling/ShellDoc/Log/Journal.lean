import ShellDoc.Log.Layout

/-!
# The journal

The journal decides what becomes of a record: loggers form a tree by the dots in their names, a
logger without a level of its own takes that of its nearest ancestor with one, and a record below
that level is dropped.  Records of the program's loggers go to its handlers, each with a layout and
a channel.  Setting up the journal replaces the level of the program and then its handlers, of which
there is one from then on; a level that is not known stops it before that.

A `Logger` is a name with a context of fields that is attached to every record it writes.
-/

namespace ShellDoc.Log

inductive Channel where
  | output
  | error
  deriving DecidableEq, Repr

/-- What was printed on the two channels. -/
structure Console where
  output : Text := []
  error : Text := []
  deriving DecidableEq, Repr

namespace Console

def print (c : Console) (channel : Channel) (s : Text) : Console :=
  match channel with
  | .output => { c with output := c.output ++ s }
  | .error => { c with error := c.error ++ s }

def printLine (c : Console) (channel : Channel) (s : Text) : Console :=
  c.print channel (s ++ ['\n'])

end Console

/-- What prints the program's records. -/
structure Handler where
  layout : Layout
  channel : Channel
  deriving Repr

/-- Prints a record; one without a message is not printed. -/
def Handler.emit (h : Handler) (now : Moment) (r : Record) (c : Console) : Console :=
  match h.layout.format now r with
  | .ok line => c.printLine h.channel line
  | .error _ => c

/-- The name of the program, and of the ancestor of all its loggers. -/
def programName : Text := "shocker"

structure Journal where
  levels : Fields Level
  /-- The handlers of the program's loggers. -/
  handlers : List Handler
  terminal : Bool
  now : Moment
  deriving Repr

/-- How the journal is to be set up. -/
structure Setup where
  level : Text := "WARNING"
  format : Text := "human"
  output : Text := "stderr"
  extra : Fields Value := []
  deriving Repr

namespace Setup

/-- Only the two exact words choose a form and a channel other than the usual ones. -/
def handler (s : Setup) (terminal : Bool) : Handler :=
  { layout :=
      if s.format = "json" then .structured { extra := s.extra }
      else .human { colors := terminal }
    channel := if s.output = "stdout" then .output else .error }

end Setup

namespace Journal

/-- The name of the root of all loggers. -/
def rootName : Text := "root"

/-- The level of the root of all loggers, if it is given no other. -/
def rootLevel : Level := Level.warning

/-- The journal as it is before it is set up otherwise. -/
def initial (terminal : Bool) (now : Moment) : Journal :=
  { levels := [(programName, Level.warning)], handlers := [({} : Setup).handler terminal], terminal,
    now }

/-- The level that a logger was given, zero when it was given none. -/
def ownLevel (j : Journal) (name : Text) : Level := (j.levels.get? name).getD 0

def setLevel (j : Journal) (name : Text) (level : Level) : Journal :=
  { j with levels := j.levels.put name level }

def clearHandlers (j : Journal) : Journal := { j with handlers := [] }

def addHandler (j : Journal) (h : Handler) : Journal := { j with handlers := j.handlers ++ [h] }

/-- Sets the level, takes all handlers away and adds one.  The journal is given as it is left, also
when the level cannot be used. -/
def setUp (j : Journal) (s : Setup) : Journal × Except Level.Fault Unit :=
  match Level.named s.level with
  | .error fault => (j, .error fault)
  | .ok level =>
      let j := j.setLevel programName level
      let j := j.clearHandlers
      (j.addHandler (s.handler j.terminal), .ok ())

/-- The journal after it was set up. -/
def configure (j : Journal) (s : Setup) : Except Level.Fault Journal :=
  match j.setUp s with
  | (j, .ok ()) => .ok j
  | (_, .error fault) => .error fault

/-- The names of a logger and of its ancestors, the nearest first. -/
def lineage (name : Text) : List Text :=
  let parts := Text.pieces '.' name
  (List.range parts.length).map fun i => Text.join "." (parts.take (parts.length - i))

/-- The level of the nearest ancestor that has one, or else that of the root. -/
def effectiveLevel (j : Journal) (name : Text) : Level :=
  (((lineage name).map j.ownLevel).find? (· ≠ 0)).getD ((j.levels.get? rootName).getD rootLevel)

def isEnabled (j : Journal) (name : Text) (level : Level) : Bool :=
  0 < level && j.effectiveLevel name ≤ level

/-- Whether a logger is one of the program's. -/
def isOwn (name : Text) : Bool :=
  name = programName || (programName ++ ['.']).isPrefixOf name

/-- Prints a record that no handler takes: from warnings on it is printed as its bare message. -/
def handleLast (level : Level) (r : Record) (c : Console) : Console :=
  if level < rootLevel then c
  else
    match r.message with
    | .ok message =>
        c.printLine .error (match r.exception with
          | none => message
          | some e => message ++ '\n' :: e)
    | .error _ => c

/-- The handlers that take the records of a logger: foreign loggers have none. -/
def handlersOf (j : Journal) (name : Text) : List Handler := if isOwn name then j.handlers else []

/-- Prints a record that passed the level test, once for each handler that takes it. -/
def handle (j : Journal) (level : Level) (r : Record) (c : Console) : Console :=
  match j.handlersOf r.logger with
  | [] => handleLast level r c
  | handlers => handlers.foldl (fun c h => h.emit j.now r c) c

end Journal

/-- Why a log call fails: it gives an attribute that belongs to the record, or an argument twice. -/
inductive CallFault where
  | guarded (name : Text)
  | repeated (operation name : Text)
  deriving DecidableEq, Repr

namespace CallFault

def message : CallFault → Text
  | guarded name =>
      Text.quoted (Text.concat ["Attempt to overwrite ", Text.quoted name, " in LogRecord"])
  | repeated operation name =>
      Text.concat ["ShockerLogger.", operation, "() got multiple values for argument ",
        Text.quoted name]

end CallFault

structure Logger where
  name : Text
  context : Fields Value := []
  deriving Repr

namespace Logger

/-- The logger with a name, without one the root of all loggers. -/
def named (name : Text) : Logger := ⟨if name = [] then Journal.rootName else name, []⟩

/-- The logger of a part of the program. -/
def ofPart (part : Text) : Logger := ⟨Text.concat [programName, ".", part], []⟩

/-- The field that stands for the logger itself in a call. -/
def selfName : Text := "self"

def setContext (l : Logger) (fields : Fields Value) : Except CallFault Logger :=
  match fields.find? fun f => f.1 = selfName with
  | some _ => .error (.repeated "set_context" selfName)
  | none => .ok { l with context := l.context.putAll fields }

def clearContext (l : Logger) : Logger := { l with context := [] }

/-- The fields of a record: the context, overridden by the fields of the call. -/
def recordFields (l : Logger) (fields : Fields Value) : Fields Value := l.context.putAll fields

/-- Writes a record with fields, if its level is enabled. -/
def write (l : Logger) (j : Journal) (level : Level) (message : Text) (exception : Option Text)
    (fields : Fields Value) (c : Console) : Except CallFault Console :=
  if j.isEnabled l.name level then
    let all := l.recordFields fields
    match all.find? fun f => guardedAttributes.contains f.1 with
    | some f => .error (.guarded f.1)
    | none =>
        .ok (j.handle level
          { logger := l.name, levelName := Level.name level, template := message, exception,
            attributes := all.filter fun f => !hiddenAttributes.contains f.1 } c)
  else .ok c

end Logger

/-- The operations of a logger that write a message. -/
inductive Severity where
  | debug
  | info
  | warning
  | error
  deriving DecidableEq, Repr

namespace Severity

def level : Severity → Level
  | debug => Level.debug
  | info => Level.info
  | warning => Level.warning
  | error => Level.error

def operation : Severity → Text
  | debug => "debug"
  | info => "info"
  | warning => "warning"
  | error => "error"

end Severity

/-- The name of the field that asks for the current exception. -/
def exceptionField : Text := "exc_info"

/-- The fields that every call has already given a value. -/
def givenFields : List Text := [Logger.selfName, "message"]

/-- The field that stands for the level of a call. -/
def levelField : Text := "level"

/-- A call with named fields.  Three names are taken by the call itself; the field that asks for the
exception is no attribute. -/
def Logger.call (l : Logger) (j : Journal) (s : Severity) (message : Text)
    (fields : Fields Value) (c : Console) : Except CallFault Console :=
  match fields.find? fun f => givenFields.contains f.1 with
  | some f => .error (.repeated s.operation f.1)
  | none =>
      if (fields.get? levelField).isSome then .error (.repeated "_log" levelField)
      else
        let asked := ((fields.get? exceptionField).map Value.isTruthy).getD false
        l.write j s.level message (if asked then some noException else none)
          (fields.filter fun f => f.1 ≠ exceptionField) c

end ShellDoc.Log
