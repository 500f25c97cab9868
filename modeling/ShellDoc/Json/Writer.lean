import ShellDoc.Text.Quoted
import ShellDoc.Value.Literal

/-!
# Writing JSON

Written JSON holds visible ASCII characters only: every other character of a text is escaped, one
beyond the first plane as a surrogate pair.  The compact form stays on one line with a space behind
each comma and colon; the indented form gives every item and every entry a line of its own.
-/

namespace ShellDoc.Json

open Decimal (NumberFormat)

/-- The escape of one 16-bit unit. -/
def unitEscape (n : Nat) : Text := '\\' :: 'u' :: Text.hex 4 n

/-- One character of a text between double quotes. -/
def escapedChar (c : Char) : Text :=
  if c = Text.doubleQuote then ['\\', Text.doubleQuote]
  else if c = '\\' then ['\\', '\\']
  else if c = '\n' then ['\\', 'n']
  else if c = '\r' then ['\\', 'r']
  else if c = '\t' then ['\\', 't']
  else if c.toNat = 0x0c then ['\\', 'f']
  else if c.toNat = 0x08 then ['\\', 'b']
  else if 0x20 ≤ c.toNat && c.toNat ≤ 0x7e then [c]
  else if c.toNat < 0x10000 then unitEscape c.toNat
  else
    let n := c.toNat - 0x10000
    unitEscape (0xd800 + n / 0x400) ++ unitEscape (0xdc00 + n % 0x400)

def writeText (s : Text) : Text :=
  Text.doubleQuote :: s.flatMap escapedChar ++ [Text.doubleQuote]

/-- Numbers are written as in messages, but for the words of those that are not finite. -/
def numberFormat : NumberFormat :=
  { Value.numberFormat with infinite := "Infinity", nan := "NaN" }

/-- The text form of a key that is not a text. -/
def keyText : Value → Text
  | .text s => s
  | .null => "null"
  | .bool b => if b then "true" else "false"
  | .int n => Text.ofInt n
  | .real x => numberFormat.write x
  | v => v.display

mutual

/-- The compact form. -/
def write : Value → Text
  | .null => "null"
  | .bool b => if b then "true" else "false"
  | .int n => Text.ofInt n
  | .real x => numberFormat.write x
  | .text s => writeText s
  | .date d => writeText d.display
  | .moment m => writeText m.display
  | .list vs => '[' :: writeItems vs ++ [']']
  | .mapping es => '\x7b' :: writeEntries es ++ ['\x7d']

def writeItems : List Value → Text
  | [] => []
  | [v] => write v
  | v :: w :: vs => write v ++ ',' :: ' ' :: writeItems (w :: vs)

def writeEntries : List (Value × Value) → Text
  | [] => []
  | [(k, v)] => writeText (keyText k) ++ ':' :: ' ' :: write v
  | (k, v) :: e :: es =>
      writeText (keyText k) ++ ':' :: ' ' :: write v ++ ',' :: ' ' :: writeEntries (e :: es)

end

theorem write_list (vs : List Value) : write (.list vs) = '[' :: writeItems vs ++ [']'] := rfl

theorem write_mapping (es : List (Value × Value)) :
    write (.mapping es) = '\x7b' :: writeEntries es ++ ['\x7d'] := rfl

theorem writeItems_cons_cons (v w : Value) (vs : List Value) :
    writeItems (v :: w :: vs) = write v ++ ',' :: ' ' :: writeItems (w :: vs) := rfl

theorem writeEntries_singleton (e : Value × Value) :
    writeEntries [e] = writeText (keyText e.1) ++ ':' :: ' ' :: write e.2 := rfl

theorem writeEntries_cons_cons (e f : Value × Value) (es : List (Value × Value)) :
    writeEntries (e :: f :: es) =
      writeText (keyText e.1) ++ ':' :: ' ' :: write e.2 ++ ',' :: ' ' :: writeEntries (f :: es) :=
  rfl

/-- A new line at a depth of nesting, two spaces for each level. -/
def newLine (depth : Nat) : Text := '\n' :: List.replicate (2 * depth) ' '

mutual

/-- The indented form of a value that stands at a depth of nesting. -/
def writeAt (depth : Nat) : Value → Text
  | .list [] => "[]"
  | .list (v :: vs) =>
      '[' :: newLine (depth + 1) ++ writeItemsAt (depth + 1) (v :: vs) ++ newLine depth ++ [']']
  | .mapping [] => ['\x7b', '\x7d']
  | .mapping (e :: es) =>
      '\x7b' :: newLine (depth + 1) ++ writeEntriesAt (depth + 1) (e :: es) ++ newLine depth ++
        ['\x7d']
  | v => write v

def writeItemsAt (depth : Nat) : List Value → Text
  | [] => []
  | [v] => writeAt depth v
  | v :: w :: vs => writeAt depth v ++ ',' :: newLine depth ++ writeItemsAt depth (w :: vs)

def writeEntriesAt (depth : Nat) : List (Value × Value) → Text
  | [] => []
  | [(k, v)] => writeText (keyText k) ++ ':' :: ' ' :: writeAt depth v
  | (k, v) :: e :: es =>
      writeText (keyText k) ++ ':' :: ' ' :: writeAt depth v ++ ',' :: newLine depth ++
        writeEntriesAt depth (e :: es)

end

theorem writeAt_list_nil (depth : Nat) : writeAt depth (.list []) = ['[', ']'] := rfl

theorem writeAt_list_cons (depth : Nat) (v : Value) (vs : List Value) :
    writeAt depth (.list (v :: vs)) =
      '[' :: newLine (depth + 1) ++ writeItemsAt (depth + 1) (v :: vs) ++ newLine depth ++ [']'] :=
  rfl

theorem writeAt_mapping_nil (depth : Nat) : writeAt depth (.mapping []) = ['\x7b', '\x7d'] := rfl

theorem writeAt_mapping_cons (depth : Nat) (e : Value × Value) (es : List (Value × Value)) :
    writeAt depth (.mapping (e :: es)) =
      '\x7b' :: newLine (depth + 1) ++ writeEntriesAt (depth + 1) (e :: es) ++ newLine depth ++
        ['\x7d'] := rfl

theorem writeItemsAt_cons_cons (depth : Nat) (v w : Value) (vs : List Value) :
    writeItemsAt depth (v :: w :: vs) =
      writeAt depth v ++ ',' :: newLine depth ++ writeItemsAt depth (w :: vs) := rfl

theorem writeEntriesAt_singleton (depth : Nat) (e : Value × Value) :
    writeEntriesAt depth [e] = writeText (keyText e.1) ++ ':' :: ' ' :: writeAt depth e.2 := rfl

theorem writeEntriesAt_cons_cons (depth : Nat) (e f : Value × Value) (es : List (Value × Value)) :
    writeEntriesAt depth (e :: f :: es) =
      writeText (keyText e.1) ++ ':' :: ' ' :: writeAt depth e.2 ++ ',' :: newLine depth ++
        writeEntriesAt depth (f :: es) := rfl

def writeIndented (v : Value) : Text := writeAt 0 v

end ShellDoc.Json
