import ShellDoc.Run.Outcome

/-!
# The log of a run

The activities of a run are told to the journal: events through the logger of the pages, with the
script that is worked on as its context, notices through the logger of the recognizer.
-/

namespace ShellDoc.Run

open Log (Console Journal Logger)

/-- The logger of the pages. -/
def pageLogger : Logger := Logger.ofPart "docs.assembler"

/-- The logger of the recognizer, which has no context. -/
def noticeLogger : Logger := Logger.ofPart "docs.parser"

/-- What a log call leaves printed; a call that fails prints nothing. -/
def printed (c : Console) : Except Log.CallFault Console → Console
  | .ok c' => c'
  | .error _ => c

def tellNotice (j : Journal) (n : Notice) (c : Console) : Console :=
  printed c (noticeLogger.call j .debug n.message [] c)

/-- The name of the context field that holds the script. -/
def sourceField : Text := "source"

/-- Tells one activity and keeps the context of the logger. -/
def tell (j : Journal) (state : Logger × Console) (a : Activity) : Logger × Console :=
  let (l, c) := state
  match a with
  | .entered source => ({ l with context := l.context.put sourceField (.text source) }, c)
  | .left => (l.clearContext, c)
  | .event e => (l, printed c (l.event j e c))
  | .notice n => (l, tellNotice j n c)

/-- Tells the activities of a run. -/
def narrate (j : Journal) (activities : List Activity) (c : Console) : Console :=
  (activities.foldl (tell j) (pageLogger, c)).2

end ShellDoc.Run
