import ShellDoc.Decimal.Numeral
import ShellDoc.Value.Literal

/-!
# Faults of a YAML text

A text is malformed, or it is well formed and a scalar in it has the form of a number, a date, a
time or a character that does not exist.
-/

namespace ShellDoc.Yaml

open Decimal (NumeralFault)

/-- What is wrong with the parts of a date or a time. -/
inductive CalendarFault where
  | year (n : Nat)
  | month
  | day
  | hour
  | minute
  | second
  | offset (minutes : Int)
  deriving DecidableEq, Repr

def CalendarFault.message : CalendarFault → Text
  | year n => Text.concat ["year ", Text.ofNat n, " is out of range"]
  | month => "month must be in 1..12"
  | day => "day is out of range for month"
  | hour => "hour must be in 0..23"
  | minute => "minute must be in 0..59"
  | second => "second must be in 0..59"
  | offset minutes =>
      Text.concat ["offset must be a timedelta strictly between -timedelta(hours=24) and ",
        "timedelta(hours=24), not ", Moment.distanceLiteral minutes, "."]

inductive Fault where
  | malformed
  | numeral (fault : NumeralFault)
  | real (text : Text)
  | calendar (fault : CalendarFault)
  | codePoint
  deriving DecidableEq, Repr

/-- The message of a fault; what exactly is malformed is left open. -/
def Fault.message : Fault → Text
  | malformed => "<detail>"
  | numeral fault => fault.message
  | real text => Text.concat ["could not convert string to float: ", Text.quoted text]
  | calendar fault => fault.message
  | codePoint => "chr() arg not in range(0x110000)"

end ShellDoc.Yaml
