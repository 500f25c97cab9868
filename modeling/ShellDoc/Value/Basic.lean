import ShellDoc.Decimal.Shortest
import ShellDoc.Fields

/-!
# Values

The values that configuration files, log fields and table cells are made of.  A mapping keeps the
order of its entries; a file may use any scalar as a key, so keys are values too.
-/

namespace ShellDoc

open Decimal (Binary64)

/-- A calendar date. -/
structure Date where
  year : Nat
  month : Nat
  day : Nat
  deriving DecidableEq, Repr

/-- A time of day on a date, with its distance from universal time in minutes if that is known. -/
structure Moment where
  date : Date
  hour : Nat
  minute : Nat
  second : Nat
  microsecond : Nat
  offset : Option Int
  deriving DecidableEq, Repr

inductive Value where
  | null
  | bool (b : Bool)
  | int (n : Int)
  | real (x : Binary64)
  | text (s : Text)
  | date (d : Date)
  | moment (m : Moment)
  | list (items : List Value)
  | mapping (entries : List (Value × Value))
  deriving Repr

namespace Value

instance : Inhabited Value := ⟨null⟩

instance : Coe Text Value := ⟨text⟩

/-- A mapping whose keys are texts. -/
def ofFields (fs : Fields Value) : Value := .mapping (fs.map fun f => (.text f.1, f.2))

def texts (ts : List Text) : Value := .list (ts.map .text)

/-- The name of the kind of a value, as messages give it. -/
def kind : Value → Text
  | null => "NoneType"
  | bool _ => "bool"
  | int _ => "int"
  | real _ => "float"
  | text _ => "str"
  | date _ => "datetime.date"
  | moment _ => "datetime.datetime"
  | list _ => "list"
  | mapping _ => "dict"

/-- The number that a value stands for in comparisons: truth values count as zero and one. -/
def number? : Value → Option Binary64
  | bool b => some (Binary64.ofDecimal false (if b then 1 else 0) 0)
  | int n => some (Binary64.ofDecimal (n < 0) n.natAbs 0)
  | real x => some x
  | _ => none

/-- The integer that a value stands for in comparisons, if it stands for one. -/
def integer? : Value → Option Int
  | bool b => some (if b then 1 else 0)
  | int n => some n
  | real x => x.toInt?
  | _ => none

/-- Whether two scalars are the same key of a mapping: numbers of equal value are. -/
def sameKey (a b : Value) : Bool :=
  match a, b with
  | null, null => true
  | text s, text t => s = t
  | date d, date e => d = e
  | moment m, moment n => m = n
  | real x, real y =>
      match x.toInt?, y.toInt? with
      | some m, some n => m = n
      | none, none => x = y && x != .nan
      | _, _ => false
  | a, b =>
      match a.integer?, b.integer? with
      | some m, some n => m = n
      | _, _ => false

/-- The entries of a mapping after an entry is put: an equal key keeps its place and its form. -/
def putEntry (entries : List (Value × Value)) (key value : Value) : List (Value × Value) :=
  match entries with
  | [] => [(key, value)]
  | e :: es => if sameKey e.1 key then (e.1, value) :: es else e :: putEntry es key value

/-- The value of a text key. -/
def entry? (entries : List (Value × Value)) (name : Text) : Option Value :=
  (entries.find? fun e => sameKey e.1 (.text name)).map Prod.snd

/-- Whether a value counts as true where a condition is asked for. -/
def isTruthy : Value → Bool
  | null => false
  | bool b => b
  | int n => n ≠ 0
  | real x => !x.isZero
  | text s => !s.isEmpty
  | date _ => true
  | moment _ => true
  | list vs => !vs.isEmpty
  | mapping es => !es.isEmpty

end Value

end ShellDoc
