import ShellDoc.Log.Journal
import ShellDoc.Run.Narration
import ShellDoc.Settings.Store

/-!
# Sessions

Everything that commands work on: the file tree and the place in it, the environment, the journal,
and what has been printed.
-/

namespace ShellDoc

structure Session where
  tree : Files.Tree
  workingDirectory : Files.Location
  environment : Settings.Environment
  journal : Log.Journal
  console : Log.Console := {}

namespace Session

def print (s : Session) (text : Text) : Session :=
  { s with console := s.console.print .output text }

def printLine (s : Session) (line : Text) : Session := s.print (line ++ ['\n'])

def printError (s : Session) (text : Text) : Session :=
  { s with console := s.console.print .error text }

/-- Sets up the journal, or fails and leaves it. -/
def configure (s : Session) (setup : Log.Setup) : Except Log.Level.Fault Session :=
  (s.journal.configure setup).map fun journal => { s with journal }

/-- Takes over the tree that a run leaves, and tells what it did. -/
def perform {α : Type} (s : Session) (o : Run.Outcome α) : Session × Except Run.Fault α :=
  ({ s with
      tree := o.tree
      console := Run.narrate s.journal o.activities s.console }, o.result)

/-- Writes one error record with fields. -/
def logError (s : Session) (logger : Log.Logger) (message : Text) (fields : Fields Value) :
    Session :=
  let call := logger.call s.journal .error message fields s.console
  { s with console := Run.printed s.console call }

end Session

end ShellDoc
