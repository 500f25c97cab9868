import ShellDoc.Decimal.Numeral
import ShellDoc.Text.Quoted
import ShellDoc.Value.Basic

/-!
# Values in messages

The literal form of a value is what messages quote: texts in quotes, lists in brackets, mappings in
braces, numbers with the fewest digits that read back.  The display form differs only for texts,
which it shows as they are, and for dates.
-/

namespace ShellDoc

open Decimal (NumberFormat)

/-- Numbers are positional from `0.0001` up to sixteen digits in front of the point. -/
def Value.numberFormat : NumberFormat :=
  { leastPoint := -3, greatestPoint := 16, infinite := "inf", nan := "nan" }

namespace Date

def literal (d : Date) : Text :=
  Text.concat ["datetime.date(",
    Text.join ", " [Text.ofNat d.year, Text.ofNat d.month, Text.ofNat d.day], ")"]

/-- At least `n` digits, filled up with zeros. -/
def places (n k : Nat) : Text :=
  let digits := Text.ofNat k
  List.replicate (n - digits.length) '0' ++ digits

def display (d : Date) : Text :=
  Text.join "-" [places 4 d.year, places 2 d.month, places 2 d.day]

end Date

namespace Moment

/-- A distance in minutes as days and seconds, the seconds not negative. -/
def distanceLiteral (minutes : Int) : Text :=
  let seconds := minutes * 60
  let days := seconds / 86400
  let rest := seconds % 86400
  let parts : List Text :=
    (if days = 0 then [] else [Text.concat ["days=", Text.ofInt days]]) ++
    (if rest = 0 then [] else [Text.concat ["seconds=", Text.ofInt rest]])
  Text.concat ["datetime.timedelta(", Text.join ", " parts, ")"]

def offsetLiteral (minutes : Int) : Text :=
  if minutes = 0 then "datetime.timezone.utc"
  else Text.concat ["datetime.timezone(", distanceLiteral minutes, ")"]

def literal (m : Moment) : Text :=
  let front := [m.date.year, m.date.month, m.date.day, m.hour, m.minute].map Text.ofNat
  let fine :=
    if m.microsecond ≠ 0 then [Text.ofNat m.second, Text.ofNat m.microsecond]
    else if m.second ≠ 0 then [Text.ofNat m.second]
    else []
  let zone := match m.offset with
    | none => []
    | some minutes => [Text.concat ["tzinfo=", offsetLiteral minutes]]
  Text.concat ["datetime.datetime(", Text.join ", " (front ++ fine ++ zone), ")"]

def display (m : Moment) : Text :=
  let zone := match m.offset with
    | none => []
    | some minutes =>
        (if minutes < 0 then '-' else '+') :: (Date.places 2 (minutes.natAbs / 60) ++
          ':' :: Date.places 2 (minutes.natAbs % 60))
  m.date.display ++ ' ' :: Text.join ":" [Date.places 2 m.hour, Date.places 2 m.minute,
    Date.places 2 m.second] ++
    (if m.microsecond = 0 then [] else '.' :: Date.places 6 m.microsecond) ++ zone

end Moment

namespace Value

mutual

/-- The form of a value that messages quote. -/
def literal : Value → Text
  | null => "None"
  | bool b => if b then "True" else "False"
  | int n => Text.ofInt n
  | real x => numberFormat.write x
  | text s => Text.quoted s
  | date d => d.literal
  | moment m => m.literal
  | list vs => '[' :: literals vs ++ [']']
  | mapping es => '\x7b' :: entryLiterals es ++ ['\x7d']

/-- The literals of a list, with commas between them. -/
def literals : List Value → Text
  | [] => []
  | [v] => literal v
  | v :: w :: vs => literal v ++ ',' :: ' ' :: literals (w :: vs)

def entryLiterals : List (Value × Value) → Text
  | [] => []
  | [(k, v)] => literal k ++ ':' :: ' ' :: literal v
  | (k, v) :: e :: es =>
      literal k ++ ':' :: ' ' :: literal v ++ ',' :: ' ' :: entryLiterals (e :: es)

end

mutual

/-- Whether a value can be written out: an integer with more than 4300 digits cannot. -/
def isWritable : Value → Bool
  | int n => decide (n.natAbs < Nat.pow 10 Decimal.digitLimit)
  | list vs => areWritable vs
  | mapping es => entriesAreWritable es
  | _ => true

def areWritable : List Value → Bool
  | [] => true
  | v :: vs => isWritable v && areWritable vs

def entriesAreWritable : List (Value × Value) → Bool
  | [] => true
  | (k, v) :: es => isWritable k && isWritable v && entriesAreWritable es

end

/-- The form of a value in running text and in table cells. -/
def display : Value → Text
  | text s => s
  | date d => d.display
  | moment m => m.display
  | v => literal v

end Value

end ShellDoc
