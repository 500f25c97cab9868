import ShellDoc.Log.Event

/-!
# Operations on the log

What a program does with its log: it sets up the journal, makes loggers, changes their contexts, and
writes records.  It holds each of its loggers under an identifier, so that several loggers may write
under one name.  An operation that fails tells why, and the state is given as it is left then.
-/

namespace ShellDoc.Log

structure State where
  journal : Journal
  /-- The loggers under their identifiers. -/
  loggers : Fields Logger := []
  console : Console := {}
  deriving Repr

inductive Operation where
  | configure (setup : Setup)
  /-- Makes the logger of a part of the program. -/
  | get (id part : Text)
  /-- Makes a logger with any name, and sets the level of that name if one is given. -/
  | new (id name : Text) (level : Option Level)
  | setContext (id : Text) (fields : Fields Value)
  | clearContext (id : Text)
  | call (id : Text) (severity : Severity) (message : Text) (fields : Fields Value)
  | event (id : Text) (event : Event)
  deriving Repr

/-- Why an operation fails. -/
inductive Operation.Fault where
  | level (fault : Level.Fault)
  | call (fault : CallFault)
  deriving DecidableEq, Repr

namespace State

/-- Holds a logger under an identifier. -/
def hold (s : State) (id : Text) (l : Logger) : State := { s with loggers := s.loggers.put id l }

/-- Does something with the logger under an identifier. -/
def withLogger (s : State) (id : Text) (act : Logger → State × Except CallFault Unit) :
    State × Except Operation.Fault Unit :=
  match s.loggers.get? id with
  | none => (s, .ok ())
  | some l => ((act l).1, (act l).2.mapError .call)

/-- The state after a log call. -/
def afterCall (s : State) : Except CallFault Console → State × Except CallFault Unit
  | .ok console => ({ s with console }, .ok ())
  | .error fault => (s, .error fault)

def perform (s : State) (o : Operation) : State × Except Operation.Fault Unit :=
  match o with
  | .configure setup =>
      ({ s with journal := (s.journal.setUp setup).1 }, (s.journal.setUp setup).2.mapError .level)
  | .get id part => (s.hold id (Logger.ofPart part), .ok ())
  | .new id name level =>
      let l := Logger.named name
      let journal := match level with
        | none => s.journal
        | some level => s.journal.setLevel l.name level
      ({ s.hold id l with journal }, .ok ())
  | .setContext id fields =>
      s.withLogger id fun l =>
        match l.setContext fields with
        | .ok l => (s.hold id l, .ok ())
        | .error fault => (s, .error fault)
  | .clearContext id => s.withLogger id fun l => (s.hold id l.clearContext, .ok ())
  | .call id severity message fields =>
      s.withLogger id fun l => s.afterCall (l.call s.journal severity message fields s.console)
  | .event id e => s.withLogger id fun l => s.afterCall (l.event s.journal e s.console)

/-- The state after some operations, whether they fail or not. -/
def performAll (s : State) (os : List Operation) : State := os.foldl (fun s o => (s.perform o).1) s

@[simp] theorem performAll_nil (s : State) : s.performAll [] = s := rfl

theorem performAll_cons (s : State) (o : Operation) (os : List Operation) :
    s.performAll (o :: os) = (s.perform o).1.performAll os := rfl

theorem performAll_append (s : State) (os os' : List Operation) :
    s.performAll (os ++ os') = (s.performAll os).performAll os' := List.foldl_append

end State

end ShellDoc.Log
