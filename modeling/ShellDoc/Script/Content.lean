import ShellDoc.Text.Lines
import ShellDoc.Text.Utf8

/-!
# The content of a script file

The lines of a file as far as its bytes can be decoded.  Bytes that are no character stop the
reading before the first line; a character that is cut short by the end of the file stops it behind
the last complete line.
-/

namespace ShellDoc.Script

open Text (Bytes Undecodable)

/-- The lines that can be read, and the fault that comes behind them if there is one. -/
structure Content where
  lines : List Text
  fault : Option Undecodable
  deriving Repr

namespace Content

/-- The lines of a text that are known to be complete: a carriage return at the end may be the first
half of a line end. -/
def completeLines (s : Text) : List Text :=
  let s := if s.getLast? = some '\r' then s.dropLast else s
  (Text.lines (Text.unifyLineEnds s)).filter fun l => l.getLast? = some '\n'

def ofBytes (bs : Bytes) : Content :=
  match Text.decode bs with
  | .ok s => ⟨Text.lines (Text.unifyLineEnds s), none⟩
  | .error u =>
      match u.cause, Text.decode (bs.take u.offset) with
      | .endOfData, .ok s => ⟨completeLines s, some u.atChunkEnd⟩
      | _, _ => ⟨[], some u⟩

end Content

end ShellDoc.Script
