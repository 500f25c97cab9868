import ShellDoc.Json.Reader
import ShellDoc.Yaml.Cursor

/-!
# What a plain scalar stands for

A plain scalar whose text has the form of a truth value, a number, a date or nothing stands for such
a value; any other plain scalar is a text.  Numbers may hold low lines between their digits, and may
be written to the base sixty with colons.
-/

namespace ShellDoc.Yaml

open Decimal (Binary64 NumeralFault readNumeral)

/-- The kinds of nodes that have a meaning.  A merge key adds the entries of other mappings; a
default key has no meaning but as a key. -/
inductive Tag where
  | null
  | bool
  | int
  | real
  | moment
  | text
  | mergeKey
  | defaultKey
  | list
  | mapping
  | unknown
  deriving DecidableEq, Repr

/-- The names of the tags, behind their common front part. -/
def Tag.names : List (Text × Tag) :=
  [("null", .null), ("bool", .bool), ("int", .int), ("float", .real), ("timestamp", .moment),
    ("str", .text), ("merge", .mergeKey), ("value", .defaultKey), ("seq", .list),
    ("map", .mapping)]

def Tag.commonFront : Text := "tag:yaml.org,2002:"

def Tag.ofName (name : Text) : Tag :=
  if Tag.commonFront.isPrefixOf name then
    (Tag.names.lookup (name.drop Tag.commonFront.length)).getD .unknown
  else .unknown

namespace Plain

/-- A word in lower case, with a capital letter and in capital letters. -/
def threeForms (word : String) : List Text :=
  let s : Text := word.toList
  [s, (match s with
    | [] => []
    | c :: r => c.toUpper :: r), s.map Char.toUpper]

def trueWords : List Text := ["yes", "true", "on"].flatMap threeForms

def falseWords : List Text := ["no", "false", "off"].flatMap threeForms

def nullWords : List Text := [] :: ['~'] :: threeForms "null"

def infiniteWords : List Text := [".inf", ".Inf", ".INF"]

def nanWords : List Text := [".nan", ".NaN", ".NAN"]

/-- Whether a number is negative, and what stands behind its sign. -/
def unsigned : Text → Bool × Text
  | '-' :: s => (true, s)
  | '+' :: s => (false, s)
  | s => (false, s)

def isDigitOrLine (c : Char) : Bool := c.isDigit || c = '_'

/-- A run of digits and low lines that begins with a digit. -/
def isRun : Text → Bool
  | [] => false
  | c :: s => c.isDigit && s.all isDigitOrLine

/-- A digit, or two of which the first is at most five. -/
def isSixtieth : Text → Bool
  | [c] => c.isDigit
  | [c, d] => '0' ≤ c && c ≤ '5' && d.isDigit
  | _ => false

/-- The form of an integer behind its sign. -/
def isMagnitude (s : Text) : Bool :=
  match s with
  | '0' :: 'b' :: ds => !ds.isEmpty && ds.all fun c => c = '0' || c = '1' || c = '_'
  | '0' :: 'x' :: ds => !ds.isEmpty && ds.all fun c => (Json.hexValue? c).isSome || c = '_'
  | '0' :: ds => ds.all fun c => ('0' ≤ c && c ≤ '7') || c = '_'
  | _ =>
      match Text.pieces ':' s with
      | [] => false
      | first :: others => isRun first && others.all isSixtieth

def isInteger (s : Text) : Bool := isMagnitude (unsigned s).2

/-- The exponent of a number: nothing, or a letter, a sign and digits. -/
def isExponent : Text → Bool
  | [] => true
  | [_] => false
  | e :: sign :: ds =>
      (e = 'e' || e = 'E') && (sign = '-' || sign = '+') && !ds.isEmpty && ds.all Char.isDigit

def isReal (s : Text) : Bool :=
  let body := (unsigned s).2
  if infiniteWords.contains body || nanWords.contains s then true
  else if !body.contains '.' then false
  else
    let (front, back) := Text.cut '.' body
    let exponent := back.dropWhile isDigitOrLine
    match Text.pieces ':' front with
    | [] => false
    | [[]] =>
        -- without digits in front of the point there is no sign, and a digit behind it
        s.head? = some '.' && (match back with
          | c :: _ => c.isDigit
          | [] => false) && isExponent exponent
    | [whole] => isRun whole && isExponent exponent
    | whole :: others => isRun whole && others.all isSixtieth && exponent.isEmpty

/-- Two digits, or one where fewer are enough, with what stands behind them. -/
def upToTwoDigits : Text → Option (Nat × Text)
  | c :: d :: s =>
      if c.isDigit && d.isDigit then some (Text.decimalNumber [c, d], s)
      else if c.isDigit then some (Text.decimalNumber [c], d :: s)
      else none
  | [c] => if c.isDigit then some (Text.decimalNumber [c], []) else none
  | [] => none

def twoDigits : Text → Option (Nat × Text)
  | c :: d :: s => if c.isDigit && d.isDigit then some (Text.decimalNumber [c, d], s) else none
  | _ => none

/-- What stands behind a character. -/
def behind (c : Char) : Text → Option Text
  | d :: s => if d = c then some s else none
  | [] => none

/-- The parts of a date as they are written. -/
def dateParts (s : Text) : Option (Date × Text) := do
  let year := s.take 4
  if year.length = 4 && year.all Char.isDigit then
    let s ← behind '-' (s.drop 4)
    let (month, s) ← upToTwoDigits s
    let s ← behind '-' s
    let (day, s) ← upToTwoDigits s
    pure (⟨Text.decimalNumber year, month, day⟩, s)
  else none

/-- The distance from universal time in minutes; nothing where none is written. -/
def offsetPart (s : Text) : Option (Option Int) :=
  match s.dropWhile fun c => c = ' ' || c = '\t' with
  | [] => if s.isEmpty then some none else none
  | ['Z'] => some (some 0)
  | sign :: rest =>
      if sign = '-' || sign = '+' then do
        let (hours, rest) ← upToTwoDigits rest
        let minutes ← match rest with
          | [] => some 0
          | _ => do
              let (m, rest) ← twoDigits (← behind ':' rest)
              if rest.isEmpty then pure m else none
        let total : Int := hours * 60 + minutes
        pure (some (if sign = '-' then -total else total))
      else none

/-- The number of microseconds of the digits behind a point, of which six count. -/
def microseconds (ds : Text) : Nat :=
  let six := ds.take 6
  Text.decimalNumber (six ++ List.replicate (6 - six.length) '0')

/-- The parts of a time as they are written, in front of which a date stands. -/
def timeParts (date : Date) (s : Text) : Option Moment := do
  let s ← match s with
    | c :: rest =>
        if c = 'T' || c = 't' then some rest
        else if c = ' ' || c = '\t' then some (rest.dropWhile fun c => c = ' ' || c = '\t')
        else none
    | [] => none
  let (hour, s) ← upToTwoDigits s
  let (minute, s) ← twoDigits (← behind ':' s)
  let (second, s) ← twoDigits (← behind ':' s)
  let (micro, s) := match s with
    | '.' :: rest => (microseconds (rest.takeWhile Char.isDigit), rest.dropWhile Char.isDigit)
    | _ => (0, s)
  let offset ← offsetPart s
  pure ⟨date, hour, minute, second, micro, offset⟩

/-- A date, or a date with a time, as it is written.  A date alone has two digits for the month and
for the day. -/
def written? (s : Text) : Option (Date ⊕ Moment) := do
  let (date, rest) ← dateParts s
  match rest with
  | [] => if s.length = 10 then pure (.inl date) else none
  | _ => (timeParts date rest).map .inr

/-- What the text of a plain scalar has the form of. -/
def tag (s : Text) : Tag :=
  if (trueWords ++ falseWords).contains s then .bool
  else if isReal s then .real
  else if isInteger s then .int
  else if s = ['<', '<'] then .mergeKey
  else if nullWords.contains s then .null
  else if (written? s).isSome then .moment
  else if s = ['='] then .defaultKey
  else .text

/-- The number of some digits to a base that is a power of two. -/
def digitsTo (base : Nat) (ds : Text) : Except Fault Nat :=
  let known := ds.filterMap Json.hexValue?
  if ds.isEmpty || known.length ≠ ds.length || known.any (base ≤ ·) then
    .error (.numeral (.notNumeral base ds))
  else .ok (known.foldl (fun n d => n * base + d) 0)

def numeral (ds : Text) : Except Fault Nat :=
  match readNumeral ds with
  | .ok n => .ok n
  | .error fault => .error (.numeral fault)

def magnitude (s : Text) : Except Fault Nat :=
  match s with
  | ['0'] => .ok 0
  | '0' :: 'b' :: ds => digitsTo 2 ds
  | '0' :: 'x' :: ds => digitsTo 16 ds
  | '0' :: _ => digitsTo 8 s
  | _ =>
      if s.contains ':' then do
        let parts ← (Text.pieces ':' s).mapM numeral
        pure (parts.foldl (fun n d => n * 60 + d) 0)
      else numeral s

/-- The integer that a text denotes. -/
def integer (s : Text) : Except Fault Int := do
  let (negative, ds) := unsigned (s.filter (· ≠ '_'))
  let n ← magnitude ds
  pure (if negative then -(n : Int) else n)

/-- The number that digits, a point and an exponent denote. -/
def decimal (s : Text) : Except Fault Binary64 :=
  let whole := s.takeWhile Char.isDigit
  let rest := s.dropWhile Char.isDigit
  let (fraction, rest) := match rest with
    | '.' :: r => (r.takeWhile Char.isDigit, r.dropWhile Char.isDigit)
    | _ => ([], rest)
  let shifted (e : Int) : Binary64 :=
    Binary64.ofDecimal false (Text.decimalNumber (whole ++ fraction)) (e - fraction.length)
  if whole.isEmpty && fraction.isEmpty then .error (.real s)
  else
    match rest with
    | [] => .ok (shifted 0)
    | e :: r =>
        let (negative, ds) := unsigned r
        if (e = 'e' || e = 'E') && !ds.isEmpty && ds.all Char.isDigit then
          let n : Int := Text.decimalNumber ds
          .ok (shifted (if negative then -n else n))
        else .error (.real s)

/-- The number of some parts to the base sixty, the last one first. -/
def sumOfSixtieths (base : Nat) (sum : Binary64) : List Binary64 → Binary64
  | [] => sum
  | x :: xs => sumOfSixtieths (base * 60) (sum.plus (x.scale base)) xs

/-- The number that a text denotes. -/
def real (s : Text) : Except Fault Binary64 := do
  let (negative, body) := unsigned (s.filter (· ≠ '_'))
  let x ← if infiniteWords.contains body then pure (.infinite false)
    else if nanWords.contains body then pure .nan
    else if body.contains ':' then do
      let parts ← (Text.pieces ':' body).mapM decimal
      pure (sumOfSixtieths 1 (.zero false) parts.reverse)
    else decimal body
  pure (if negative then x.negate else x)

def isLeap (year : Nat) : Bool := year % 4 = 0 && (year % 100 ≠ 0 || year % 400 = 0)

def daysIn (year month : Nat) : Nat :=
  if month = 2 then (if isLeap year then 29 else 28)
  else if [4, 6, 9, 11].contains month then 30
  else 31

/-- The date, if the calendar has it. -/
def checkDate (d : Date) : Except CalendarFault Date :=
  if d.year = 0 then .error (.year d.year)
  else if d.month = 0 || d.month > 12 then .error .month
  else if d.day = 0 || d.day > daysIn d.year d.month then .error .day
  else .ok d

/-- The moment, if the calendar and the clock have it. -/
def checkMoment (m : Moment) : Except CalendarFault Moment := do
  match m.offset with
  | some minutes => if minutes.natAbs ≥ 1440 then .error (.offset minutes) else pure ()
  | none => pure ()
  let _ ← checkDate m.date
  if m.hour > 23 then .error .hour
  else if m.minute > 59 then .error .minute
  else if m.second > 59 then .error .second
  else .ok m

/-- The date or the moment that a text denotes. -/
def calendar (s : Text) : Except Fault Value :=
  let checked : Except CalendarFault (Option Value) :=
    match written? s with
    | some (.inl d) => (checkDate d).map fun d => some (.date d)
    | some (.inr m) => (checkMoment m).map fun m => some (.moment m)
    | none => .ok none
  match checked with
  | .ok (some v) => .ok v
  | .ok none => .error .malformed
  | .error fault => .error (.calendar fault)

end Plain

/-- The value of a scalar with a tag. -/
def scalarValue (tag : Tag) (s : Text) : Except Fault Value :=
  match tag with
  | .null => .ok .null
  | .bool =>
      if Plain.trueWords.contains s then .ok (.bool true)
      else if Plain.falseWords.contains s then .ok (.bool false)
      else .error .malformed
  | .int => (Plain.integer s).map .int
  | .real => (Plain.real s).map .real
  | .moment => Plain.calendar s
  | .text => .ok (.text s)
  | _ => .error .malformed

end ShellDoc.Yaml
