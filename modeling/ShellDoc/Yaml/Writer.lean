import ShellDoc.Yaml.Plain
import ShellDoc.Yaml.Scalar

/-!
# Writing YAML

Entries of a mapping whose values are texts, truth values and lists of texts, one line for each and
one for each item of a list.  A text is written plain where it then reads back as the same text,
between single quotes where all its characters can stand there as they are, and otherwise between
double quotes with escapes.
-/

namespace ShellDoc.Yaml

inductive Style where
  | plain
  | singleQuoted
  | doubleQuoted
  deriving DecidableEq, Repr

/-- Signs that cannot stand at the beginning of a plain scalar. -/
def isLeadingSign (c : Char) : Bool := "#,[]\x7b\x7d&*!|>'\"%@`".toList.contains c

/-- Whether a plain scalar would be taken for something else from some place in it on: a colon with
space behind it ends a key, and a hash sign with space in front of it begins a comment. -/
def hasInnerSign (before : Option Char) : Text → Bool
  | [] => false
  | c :: s =>
      (c = ':' && endsWord s.head?) || (c = '#' && endsWord before) || hasInnerSign (some c) s

/-- Whether a text begins like something other than a plain scalar. -/
def hasLeadingSign (s : Text) : Bool :=
  match s with
  | [] => false
  | c :: rest =>
      isLeadingSign c || ((c = '?' || c = ':' || c = '-') && endsWord rest.head?) ||
        ("---".toList).isPrefixOf s || ("...".toList).isPrefixOf s

/-- Characters that need no escape: those of seven bits that have a shape, and the line feed. -/
def isOrdinary (c : Char) : Bool := c = '\n' || (' ' ≤ c && c ≤ '~')

/-- Whether two characters stand one behind the other somewhere in a text. -/
def hasPair (a b : Char) (s : Text) : Bool := (s.zip s.tail).contains (a, b)

/-- Whether a text begins or ends with a character. -/
def hasEdge (c : Char) (s : Text) : Bool := s.head? = some c || s.getLast? = some c

/-- The plainest style in which a text can be written. -/
def style (s : Text) : Style :=
  if !s.all isOrdinary || hasPair ' ' '\n' s || hasPair '\n' ' ' s then .doubleQuoted
  else if s.contains '\n' || hasEdge ' ' s || hasLeadingSign s || hasInnerSign none s ||
      Plain.tag s ≠ .text then .singleQuoted
  else .plain

/-- A run of line feeds is written with one more, since the first one stands for a space. -/
def singleQuotedBody (inBreak : Bool) : Text → Text
  | [] => if inBreak then [' ', ' '] else []
  | c :: s =>
      if c = '\n' then (if inBreak then ['\n'] else ['\n', '\n']) ++ singleQuotedBody true s
      else
        (if inBreak then [' ', ' '] else []) ++
          (if c = Text.singleQuote then [c, c] else [c]) ++ singleQuotedBody false s

/-- The letters that stand behind a backslash for single characters. -/
def shortEscapes : List (Nat × Char) :=
  [(0x00, '0'), (0x07, 'a'), (0x08, 'b'), (0x09, 't'), (0x0a, 'n'), (0x0b, 'v'), (0x0c, 'f'),
    (0x0d, 'r'), (0x1b, 'e'), (0x22, Text.doubleQuote), (0x5c, '\\'), (0x85, 'N'), (0xa0, '_'),
    (0x2028, 'L'), (0x2029, 'P')]

def escaped (c : Char) : Text :=
  let digits (width : Nat) : Text := (Text.hex width c.toNat).map Char.toUpper
  match shortEscapes.lookup c.toNat with
  | some letter => ['\\', letter]
  | none =>
      if ' ' ≤ c && c ≤ '~' then [c]
      else if c.toNat ≤ 0xff then '\\' :: 'x' :: digits 2
      else if c.toNat ≤ 0xffff then '\\' :: 'u' :: digits 4
      else '\\' :: 'U' :: digits 8

/-- A text as a scalar. -/
def scalar (s : Text) : Text :=
  match style s with
  | .plain => s
  | .singleQuoted => Text.singleQuote :: singleQuotedBody false s ++ [Text.singleQuote]
  | .doubleQuoted => Text.doubleQuote :: s.flatMap escaped ++ [Text.doubleQuote]

def flag (b : Bool) : Text := if b then "true" else "false"

/-- An entry of a mapping with a scalar, given as it is written. -/
def entry (name written : Text) : Text := Text.concat [name, ": ", written, "\n"]

/-- An entry of a mapping with a list of texts. -/
def listEntry (name : Text) (items : List Text) : Text :=
  if items.isEmpty then entry name "[]"
  else name ++ ':' :: '\n' :: items.flatMap fun s => Text.concat ["- ", scalar s, "\n"]

end ShellDoc.Yaml
