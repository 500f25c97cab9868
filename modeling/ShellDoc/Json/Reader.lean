import ShellDoc.Decimal.Numeral
import ShellDoc.Value.Basic

/-!
# Reading JSON

The reader takes the text from left to right and stops at the first fault, which it reports with
its position in characters.  Beyond the standard it takes the words for numbers that are not finite.
Of two entries with one name the last value counts, at the place of the first.

Every function takes a cursor and gives back the cursor behind what it read.  The recursion of
values in values is bounded by the length of the text: each level of nesting, each item and each
entry takes at least one character.
-/

namespace ShellDoc.Json

open Decimal (Binary64 NumeralFault)

/-- What is wrong at a place of a text. -/
inductive Cause where
  | byteOrderMark
  | noValue
  | noName
  | noColon
  | noComma
  | extraData
  | escape
  | unicodeEscape
  | unterminated
  | controlCharacter
  deriving DecidableEq, Repr

/-- Why a text could not be read: a fault of form at a position, or a numeral that is too long. -/
inductive Fault where
  | malformed (cause : Cause) (position : Nat)
  | numeral (fault : NumeralFault)
  deriving DecidableEq, Repr

namespace Cause

def message : Cause → Text
  | byteOrderMark => "Unexpected UTF-8 BOM (decode using utf-8-sig)"
  | noValue => "Expecting value"
  | noName => "Expecting property name enclosed in double quotes"
  | noColon => "Expecting ':' delimiter"
  | noComma => "Expecting ',' delimiter"
  | extraData => "Extra data"
  | escape => "Invalid \\escape"
  | unicodeEscape => "Invalid \\uXXXX escape"
  | unterminated => "Unterminated string starting at"
  | controlCharacter => "Invalid control character at"

end Cause

/-- A position of a text, and the characters from there on. -/
structure Cursor where
  position : Nat
  rest : Text
  deriving Repr

namespace Cursor

def ofText (s : Text) : Cursor := ⟨0, s⟩

def advance (k : Nat) (c : Cursor) : Cursor := ⟨c.position + k, c.rest.drop k⟩

def isSpace (c : Char) : Bool := c = ' ' || c = '\t' || c = '\n' || c = '\r'

/-- The cursor behind the white space at a place. -/
def skipSpace (c : Cursor) : Cursor := c.advance (c.rest.takeWhile isSpace).length

end Cursor

def fail {α : Type} (cause : Cause) (position : Nat) : Except Fault α :=
  .error (.malformed cause position)

/-- The value of a hexadecimal digit. -/
def hexValue? (c : Char) : Option Nat :=
  if '0' ≤ c && c ≤ '9' then some (c.toNat - 0x30)
  else if 'a' ≤ c && c ≤ 'f' then some (c.toNat - 0x57)
  else if 'A' ≤ c && c ≤ 'F' then some (c.toNat - 0x37)
  else none

/-- The number of four hexadecimal digits. -/
def unit? : Text → Option Nat
  | [a, b, c, d] => do
      let a ← hexValue? a
      let b ← hexValue? b
      let c ← hexValue? c
      let d ← hexValue? d
      pure (((a * 16 + b) * 16 + c) * 16 + d)
  | _ => none

/-- The characters that a backslash and one letter stand for. -/
def letterEscape? (c : Char) : Option Char :=
  if c = Text.doubleQuote || c = '\\' || c = '/' then some c
  else if c = 'b' then some (Char.ofNat 0x08)
  else if c = 'f' then some (Char.ofNat 0x0c)
  else if c = 'n' then some '\n'
  else if c = 'r' then some '\r'
  else if c = 't' then some '\t'
  else none

def isHighSurrogate (n : Nat) : Bool := 0xd800 ≤ n && n < 0xdc00

def isLowSurrogate (n : Nat) : Bool := 0xdc00 ≤ n && n < 0xe000

/-- The character of a single unit; half of a surrogate pair stands for no character. -/
def charOfUnit (n : Nat) : Char :=
  if 0xd800 ≤ n && n < 0xe000 then Char.ofNat 0xfffd else Char.ofNat n

/-- A numbered escape whose digits begin at the cursor: its character and the number of characters
behind the `u` that it takes. -/
def readUnits (c : Cursor) : Except Fault (Char × Nat) :=
  if c.rest.length < 5 then fail .unicodeEscape (c.position - 1)
  else
    match unit? (c.rest.take 4) with
    | none => fail .unicodeEscape (c.position - 1)
    | some high =>
        let behind := c.rest.drop 4
        if isHighSurrogate high && behind.take 2 = ['\\', 'u'] && 6 < behind.length then
          match unit? ((behind.drop 2).take 4) with
          | none => fail .unicodeEscape (c.position + 5)
          | some low =>
              if isLowSurrogate low then
                .ok (Char.ofNat (0x10000 + (high - 0xd800) * 0x400 + (low - 0xdc00)), 10)
              else .ok (charOfUnit high, 4)
        else .ok (charOfUnit high, 4)

/-- The rest of a text between double quotes, of which `skip` characters were already taken as part
of an escape.  `start` is the position of the opening quote. -/
def readChars (start position skip : Nat) : Text → Except Fault (Text × Cursor)
  | [] => fail .unterminated start
  | c :: s =>
      match skip with
      | k + 1 => readChars start (position + 1) k s
      | 0 =>
          if c = Text.doubleQuote then .ok ([], ⟨position + 1, s⟩)
          else if c = '\\' then
            match s with
            | [] => fail .unterminated start
            | e :: s' =>
                if e = 'u' then
                  match readUnits ⟨position + 2, s'⟩ with
                  | .error f => .error f
                  | .ok (d, taken) =>
                      (readChars start (position + 1) (taken + 1) s).map fun r => (d :: r.1, r.2)
                else
                  match letterEscape? e with
                  | none => fail .escape position
                  | some d => (readChars start (position + 1) 1 s).map fun r => (d :: r.1, r.2)
          else if c.toNat < 0x20 then fail .controlCharacter position
          else (readChars start (position + 1) 0 s).map fun r => (c :: r.1, r.2)

/-- A text whose opening quote stands right before the cursor. -/
def readText (c : Cursor) : Except Fault (Text × Cursor) :=
  readChars (c.position - 1) c.position 0 c.rest

def isAsciiDigit (c : Char) : Bool := '0' ≤ c && c ≤ '9'

/-- The parts of a number: its sign, the digits in front of the point, the digits behind it if there
is a point, and the exponent if there is one. -/
structure Number where
  negative : Bool
  whole : Text
  fraction : Option Text
  exponent : Option (Bool × Text)

namespace Number

/-- The exponent at the front of a text: its sign, its digits, and how many characters it takes. An
exponent without digits is none. -/
def exponent? (s : Text) : Option ((Bool × Text) × Nat) :=
  match s with
  | e :: s =>
      if e = 'e' || e = 'E' then
        let (negative, signed, s) := match s with
          | '-' :: s' => (true, 1, s')
          | '+' :: s' => (false, 1, s')
          | s' => (false, 0, s')
        let digits := s.takeWhile isAsciiDigit
        if digits.isEmpty then none else some ((negative, digits), 1 + signed + digits.length)
      else none
  | [] => none

/-- Whether a text begins with a minus sign, and the text behind it. -/
def splitSign : Text → Bool × Text
  | '-' :: s => (true, s)
  | s => (false, s)

/-- The digits in front of the point: no digit follows a zero. -/
def wholeDigits : Text → Text
  | '0' :: _ => ['0']
  | s => s.takeWhile isAsciiDigit

/-- The digits behind a point. -/
def fractionDigits : Text → Text
  | '.' :: s => s.takeWhile isAsciiDigit
  | _ => []

/-- The number at the front of a text, and how many characters it takes. -/
def scan? (s : Text) : Option (Number × Nat) :=
  let signed := splitSign s
  let whole := wholeDigits signed.2
  if whole.isEmpty then none
  else
    let s := signed.2.drop whole.length
    let digits := fractionDigits s
    let fraction := if digits.isEmpty then none else some digits
    let s := if digits.isEmpty then s else s.drop (digits.length + 1)
    let taken := (if signed.1 then 1 else 0) + whole.length +
      (if digits.isEmpty then 0 else digits.length + 1)
    match exponent? s with
    | none => some (⟨signed.1, whole, fraction, none⟩, taken)
    | some (e, k) => some (⟨signed.1, whole, fraction, some e⟩, taken + k)

/-- A number with a point or an exponent is a real number, any other an integer. -/
def value (n : Number) : Except Fault Value :=
  match n.fraction, n.exponent with
  | none, none =>
      match Decimal.readNumeral n.whole with
      | .error f => .error (.numeral f)
      | .ok k => .ok (.int (if n.negative then -Int.ofNat k else Int.ofNat k))
  | fraction, exponent =>
      let behind := fraction.getD []
      let e : Int := match exponent with
        | none => 0
        | some (true, ds) => -Int.ofNat (Text.decimalNumber ds)
        | some (false, ds) => Int.ofNat (Text.decimalNumber ds)
      .ok (.real (Binary64.ofDecimal n.negative (Text.decimalNumber (n.whole ++ behind))
        (e - Int.ofNat behind.length)))

end Number

/-- The words that stand for a value. -/
def words : List (Text × Value) :=
  [("null", .null), ("true", .bool true), ("false", .bool false), ("NaN", .real .nan),
    ("Infinity", .real (.infinite false)), ("-Infinity", .real (.infinite true))]

/-- A word or a number. -/
def readAtom (c : Cursor) : Except Fault (Value × Cursor) :=
  match words.find? fun w => w.1.isPrefixOf c.rest with
  | some (w, v) => .ok (v, c.advance w.length)
  | none =>
      match Number.scan? c.rest with
      | none => fail .noValue c.position
      | some (n, k) => n.value.map fun v => (v, c.advance k)

mutual

/-- The value at a cursor. -/
def readValue : Nat → Cursor → Except Fault (Value × Cursor)
  | 0, c => fail .noValue c.position
  | fuel + 1, c =>
      match c.rest with
      | [] => fail .noValue c.position
      | ch :: _ =>
          if ch = Text.doubleQuote then (readText (c.advance 1)).map fun r => (.text r.1, r.2)
          else if ch = '[' then
            let c := (c.advance 1).skipSpace
            if c.rest.head? = some ']' then .ok (.list [], c.advance 1)
            else (readItems fuel c).map fun r => (.list r.1, r.2)
          else if ch = '\x7b' then
            let c := (c.advance 1).skipSpace
            if c.rest.head? = some '\x7d' then .ok (.mapping [], c.advance 1)
            else (readEntries fuel [] c).map fun r => (.mapping r.1, r.2)
          else readAtom c

/-- The items of a list from the cursor on, up to the closing bracket. -/
def readItems : Nat → Cursor → Except Fault (List Value × Cursor)
  | 0, c => fail .noValue c.position
  | fuel + 1, c =>
      match readValue fuel c with
      | .error f => .error f
      | .ok (v, c) =>
          let c := c.skipSpace
          match c.rest.head? with
          | some ']' => .ok ([v], c.advance 1)
          | some ',' => (readItems fuel (c.advance 1).skipSpace).map fun r => (v :: r.1, r.2)
          | _ => fail .noComma c.position

/-- The entries of an object from the cursor on, put one after the other into those before. -/
def readEntries : Nat → List (Value × Value) → Cursor →
    Except Fault (List (Value × Value) × Cursor)
  | 0, _, c => fail .noValue c.position
  | fuel + 1, before, c =>
      if c.rest.head? = some Text.doubleQuote then
        match readText (c.advance 1) with
        | .error f => .error f
        | .ok (name, c) =>
            let c := c.skipSpace
            if c.rest.head? = some ':' then
              match readValue fuel (c.advance 1).skipSpace with
              | .error f => .error f
              | .ok (v, c) =>
                  let entries := Value.putEntry before (.text name) v
                  let c := c.skipSpace
                  match c.rest.head? with
                  | some '\x7d' => .ok (entries, c.advance 1)
                  | some ',' => readEntries fuel entries (c.advance 1).skipSpace
                  | _ => fail .noComma c.position
            else fail .noColon c.position
      else fail .noName c.position

end

/-- The value that a whole text denotes. -/
def read (s : Text) : Except Fault Value :=
  if s.head? = some (Char.ofNat 0xfeff) then fail .byteOrderMark 0
  else
    match readValue (2 * s.length + 2) (Cursor.ofText s).skipSpace with
    | .error f => .error f
    | .ok (v, c) =>
        let c := c.skipSpace
        if c.rest.isEmpty then .ok v else fail .extraData c.position

/-- The message of a fault in the text `s`, with the line and the column of its position. -/
def Fault.message (s : Text) : Fault → Text
  | .numeral f => f.message
  | .malformed cause position =>
      let before := s.take position
      let column := (before.reverse.takeWhile (· ≠ '\n')).length + 1
      Text.concat [cause.message, ": line ", Text.ofNat (before.count '\n' + 1), " column ",
        Text.ofNat column, " (char ", Text.ofNat position, ")"]

end ShellDoc.Json
