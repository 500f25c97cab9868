import ShellDoc.Log.Level
import ShellDoc.Log.Template

/-!
# Log records

A record says which logger speaks, at which level, and what, with an exception if there is one and
any number of further attributes.  Some names of attributes are reserved for the record itself: an
attribute with such a name is never shown.
-/

namespace ShellDoc.Log

structure Record where
  logger : Text
  levelName : Text
  template : Text
  arguments : List Value := []
  exception : Option Text := none
  attributes : Fields Value := []
  deriving Repr

/-- The attributes that every record has of its own. -/
def ownAttributes : List Text :=
  ["name", "msg", "args", "created", "filename", "funcName", "levelname", "levelno", "lineno",
    "module", "msecs", "pathname", "process", "processName", "relativeCreated", "stack_info",
    "exc_info", "exc_text", "thread", "threadName"]

/-- The attributes that are never shown. -/
def hiddenAttributes : List Text := "taskName" :: "message" :: ownAttributes

/-- The attributes that no caller may give. -/
def guardedAttributes : List Text := "message" :: "asctime" :: ownAttributes

/-- The line for an exception of a kind, without a colon when its text is empty. -/
def exceptionLine (kind text : Text) : Text :=
  if text = [] then kind else Text.concat [kind, ": ", text]

/-- The line when there is no exception to show although one was asked for. -/
def noException : Text := "NoneType: None"

namespace Record

def message (r : Record) : Except TemplateFault Text := fill r.template r.arguments

/-- The attributes that a line shows. -/
def shown (r : Record) : Fields Value :=
  r.attributes.filter fun f => !hiddenAttributes.contains f.1

/-- Sets an attribute behind the record's back: those that make up its text replace it. -/
def setAttribute (r : Record) (name : Text) (value : Value) : Record :=
  if name = "name" then { r with logger := value.display }
  else if name = "levelname" then { r with levelName := value.display }
  else if name = "msg" then { r with template := value.display }
  else { r with attributes := r.attributes.put name value }

end Record

end ShellDoc.Log
