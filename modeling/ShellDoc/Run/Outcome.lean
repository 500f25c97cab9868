import ShellDoc.Decimal.Numeral
import ShellDoc.Files.Access
import ShellDoc.Log.Event
import ShellDoc.Page.Writer

/-!
# Outcomes of runs

A run starts from a file tree.  Its outcome is a result or a fault, together with the tree that it
leaves and with what it did on the way, for the log: both are there also when the run fails.
-/

namespace ShellDoc.Run

open Files (AccessFault Tree)

/-- Why a run fails. -/
inductive Fault where
  | sourceNotFound (path : Text)
  | outputExists (path : Text)
  | access (fault : AccessFault)
  | undecodable (fault : Text.Undecodable)
  | numeral (fault : Decimal.NumeralFault)
  deriving DecidableEq, Repr

def Fault.message : Fault → Text
  | sourceNotFound path => Text.concat ["No such file or directory: ", path]
  | outputExists path =>
      Text.concat ["The file \"", path, "\" already exists. If you want to continue anyway ",
        "and overwrite, specify the flag -f (force)."]
  | access fault => fault.message
  | undecodable fault => fault.message
  | numeral fault => fault.message

/-- What a run does besides writing files: it enters and leaves the work on a script, reports
events, and passes on the notices of the recognizer. -/
inductive Activity where
  | entered (source : Text)
  | left
  | event (event : Log.Event)
  | notice (notice : Notice)
  deriving DecidableEq, Repr

/-- The activities of the writing of a page. -/
def Activity.ofPage : Page.Event → Activity
  | .notice n => .notice n
  | .rendered name parameters => .event (.blockRendered name parameters)
  | .discarded title count => .event (.blocksDiscarded title count)

structure Outcome (α : Type) where
  result : Except Fault α
  tree : Tree
  activities : List Activity := []
  deriving Repr

namespace Outcome

variable {α β : Type}

/-- A step that leaves the tree as it is. -/
def ofResult (r : Except Fault α) (t : Tree) : Outcome α := ⟨r, t, []⟩

/-- The question of an access, which leaves the tree as it is. -/
def ofAccess (r : Except AccessFault α) (t : Tree) : Outcome α :=
  ⟨match r with
    | .ok a => .ok a
    | .error f => .error (.access f), t, []⟩

/-- A further step that starts from the result and from the tree before it. -/
def andThen (o : Outcome α) (next : α → Tree → Outcome β) : Outcome β :=
  match o.result with
  | .error f => ⟨.error f, o.tree, o.activities⟩
  | .ok a =>
      let o' := next a o.tree
      ⟨o'.result, o'.tree, o.activities ++ o'.activities⟩

theorem andThen_ok (a : α) (t : Tree) (as : List Activity) (next : α → Tree → Outcome β) :
    andThen ⟨.ok a, t, as⟩ next =
      ⟨(next a t).result, (next a t).tree, as ++ (next a t).activities⟩ := rfl

theorem andThen_error (f : Fault) (t : Tree) (as : List Activity)
    (next : α → Tree → Outcome β) : andThen ⟨.error f, t, as⟩ next = ⟨.error f, t, as⟩ := rfl

def map (f : α → β) (o : Outcome α) : Outcome β :=
  ⟨o.result.map f, o.tree, o.activities⟩

/-- A report in front of the activities of a step. -/
def after (a : Activity) (o : Outcome α) : Outcome α :=
  ⟨o.result, o.tree, a :: o.activities⟩

end Outcome

end ShellDoc.Run
