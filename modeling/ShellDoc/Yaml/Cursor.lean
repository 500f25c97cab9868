import ShellDoc.Yaml.Fault

/-!
# Places in a YAML text

A cursor is a place in a text: how many characters lie before it, its line and its column, and the
characters from there on.  Besides the usual line ends, three further characters of Unicode end a
line; a byte order mark takes no column.
-/

namespace ShellDoc.Yaml

structure Cursor where
  index : Nat
  line : Nat
  column : Nat
  rest : Text
  deriving Repr

def nextLine : Char := Char.ofNat 0x85

def lineSeparator : Char := Char.ofNat 0x2028

def paragraphSeparator : Char := Char.ofNat 0x2029

def byteOrderMark : Char := Char.ofNat 0xfeff

def isBreak (c : Char) : Bool :=
  c = '\n' || c = '\r' || c = nextLine || c = lineSeparator || c = paragraphSeparator

/-- The end of the text, or a line end. -/
def endsLine : Option Char → Bool
  | none => true
  | some c => isBreak c

/-- The end of the text, a space or a line end. -/
def endsSpaced : Option Char → Bool
  | none => true
  | some c => c = ' ' || isBreak c

/-- The end of the text, a space, a tab or a line end. -/
def endsWord : Option Char → Bool
  | none => true
  | some c => c = ' ' || c = '\t' || isBreak c

namespace Cursor

def start (s : Text) : Cursor := ⟨0, 0, 0, s⟩

/-- The character `k` places ahead. -/
def ahead (c : Cursor) (k : Nat) : Option Char := c.rest[k]?

def peek (c : Cursor) : Option Char := c.rest.head?

/-- Whether the next characters are those of a text. -/
def startsWith (c : Cursor) (s : Text) : Bool := s.isPrefixOf c.rest

/-- One character further. -/
def next (c : Cursor) : Cursor :=
  match c.rest with
  | [] => c
  | ch :: s =>
      let lineEnds := ch = '\n' || ch = nextLine || ch = lineSeparator ||
        ch = paragraphSeparator || (ch = '\r' && s.head? ≠ some '\n')
      if lineEnds then ⟨c.index + 1, c.line + 1, 0, s⟩
      else if ch = byteOrderMark then ⟨c.index + 1, c.line, c.column, s⟩
      else ⟨c.index + 1, c.line, c.column + 1, s⟩

/-- A number of characters further. -/
def forward (c : Cursor) : Nat → Cursor
  | 0 => c
  | k + 1 => c.next.forward k

/-- The characters that satisfy a test, and the cursor behind them. -/
def span (c : Cursor) (test : Char → Bool) : Text × Cursor :=
  let taken := c.rest.takeWhile test
  (taken, c.forward taken.length)

def skipWhile (c : Cursor) (test : Char → Bool) : Cursor := (c.span test).2

def skipSpaces (c : Cursor) : Cursor := c.skipWhile (· = ' ')

/-- Up to the end of the line. -/
def skipToBreak (c : Cursor) : Cursor := c.skipWhile fun ch => !isBreak ch

/-- The line end at the cursor in its unified form, and the cursor behind it. -/
def lineBreak? (c : Cursor) : Option (Text × Cursor) :=
  match c.rest with
  | [] => none
  | ch :: s =>
      if ch = '\r' && s.head? = some '\n' then some (['\n'], c.forward 2)
      else if ch = '\n' || ch = '\r' || ch = nextLine then some (['\n'], c.next)
      else if ch = lineSeparator || ch = paragraphSeparator then some ([ch], c.next)
      else none

/-- Whether a line of three hyphens or three dots begins here, which divides documents. -/
def atDocumentMark (c : Cursor) : Bool :=
  (c.startsWith "---" || c.startsWith "...") && endsWord (c.ahead 3)

/-- The rest of a line that may hold only a comment. -/
def endOfLine (c : Cursor) : Except Fault Cursor :=
  let c := c.skipSpaces
  let c := if c.peek = some '#' then c.skipToBreak else c
  if endsLine c.peek then .ok ((c.lineBreak?.map Prod.snd).getD c) else .error .malformed

end Cursor

/-- The characters that a YAML text may hold. -/
def isAllowed (c : Char) : Bool :=
  Text.inRanges [(0x09, 0x0a), (0x0d, 0x0d), (0x20, 0x7e), (0x85, 0x85), (0xa0, 0xd7ff),
    (0xe000, 0xfffd), (0x10000, 0x10ffff)] c

def isWordChar (c : Char) : Bool :=
  ('0' ≤ c && c ≤ '9') || ('A' ≤ c && c ≤ 'Z') || ('a' ≤ c && c ≤ 'z') || c = '-' || c = '_'

end ShellDoc.Yaml
