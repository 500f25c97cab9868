import ShellDoc.Log.Journal

/-!
# Events of a run

The events that a run reports to the log, each with a message, a severity and fields.
-/

namespace ShellDoc.Log

inductive Event where
  | fileStarted (source output : Text)
  | blockRendered (name : Text) (parameters : Nat)
  | blocksDiscarded (source : Text) (count : Nat)
  | fileCompleted (source output : Text) (blocks : Nat)
  | noScripts (directory : Text)
  | contentsCompleted (path : Text)
  deriving DecidableEq, Repr

namespace Event

def severity : Event → Severity
  | fileStarted _ _ => .debug
  | blockRendered _ _ => .debug
  | blocksDiscarded _ _ => .debug
  | fileCompleted _ _ _ => .info
  | noScripts _ => .warning
  | contentsCompleted _ => .info

def unnamed : Text := "<unnamed>"

def message : Event → Text
  | fileStarted source _ => Text.concat ["Documenting ", source]
  | blockRendered name _ => Text.concat ["Rendered block ", if name = [] then unnamed else name]
  | blocksDiscarded source count =>
      Text.concat ["Dropped ", Text.ofNat count, " unterminated block(s) in ", source]
  | fileCompleted _ output blocks =>
      Text.concat ["Wrote ", output, " (", Text.ofNat blocks, " block(s))"]
  | noScripts directory => Text.concat ["No scripts found in ", directory]
  | contentsCompleted path => Text.concat ["Wrote table of contents ", path]

/-- The name of the kind of an event. -/
def kind : Event → Text
  | fileStarted _ _ => "file.started"
  | blockRendered _ _ => "block.rendered"
  | blocksDiscarded _ _ => "block.discarded"
  | fileCompleted _ _ _ => "file.completed"
  | noScripts _ => "directory.empty"
  | contentsCompleted _ => "toc.completed"

def details : Event → Fields Value
  | fileStarted source output => [("source", .text source), ("output", .text output)]
  | blockRendered name parameters =>
      [("block_name", .text name), ("parameter_count", .int parameters)]
  | blocksDiscarded source count => [("source", .text source), ("discarded", .int count)]
  | fileCompleted source output blocks =>
      [("source", .text source), ("output", .text output), ("block_count", .int blocks)]
  | noScripts _ => []
  | contentsCompleted _ => []

def fields (e : Event) : Fields Value := ("event_type", .text e.kind) :: e.details

end Event

/-- Writes the record of an event. -/
def Logger.event (l : Logger) (j : Journal) (e : Event) (c : Console) : Except CallFault Console :=
  l.call j e.severity e.message e.fields c

end ShellDoc.Log
