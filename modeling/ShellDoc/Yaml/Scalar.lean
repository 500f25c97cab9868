import ShellDoc.Json.Reader
import ShellDoc.Yaml.Cursor

/-!
# Scalars in a YAML text

The text of a scalar is read off in one of four forms: plain, between single or double quotes, and
as a block of lines.  Lines of the first three are joined by spaces, an empty line standing for a
line end; a block keeps its lines, or folds them.

The loops are bounded by the number of characters that are left, of which each round takes one.
-/

namespace ShellDoc.Yaml

open Json (hexValue?)

/-- The text of a line end inside a scalar whose lines are joined: a space for a single plain one,
otherwise the line ends behind it. -/
def joinedBreaks (first : Text) (others : List Text) : Text :=
  (if first ≠ ['\n'] then first else if others.isEmpty then [' '] else []) ++ others.flatten

/-- The empty lines inside a quoted scalar. -/
def quotedBreaks : Nat → Cursor → Except Fault (List Text × Cursor)
  | 0, _ => .error .malformed
  | fuel + 1, c =>
      if c.atDocumentMark then .error .malformed
      else
        let c := c.skipWhile fun ch => ch = ' ' || ch = '\t'
        match c.lineBreak? with
        | some (b, c) => do
            let (bs, c) ← quotedBreaks fuel c
            pure (b :: bs, c)
        | none => .ok ([], c)

/-- The white space inside a quoted scalar. -/
def quotedSpaces (c : Cursor) : Except Fault (Text × Cursor) :=
  let (spaces, c) := c.span fun ch => ch = ' ' || ch = '\t'
  match c.peek with
  | none => .error .malformed
  | some _ =>
      match c.lineBreak? with
      | some (b, c) => do
          let (bs, c) ← quotedBreaks (c.rest.length + 1) c
          pure (joinedBreaks b bs, c)
      | none => .ok (spaces, c)

/-- The characters that a backslash and one letter stand for between double quotes. -/
def escapes : List (Char × Nat) :=
  [('0', 0x00), ('a', 0x07), ('b', 0x08), ('t', 0x09), ('\t', 0x09), ('n', 0x0a), ('v', 0x0b),
    ('f', 0x0c), ('r', 0x0d), ('e', 0x1b), (' ', 0x20), (Text.doubleQuote, 0x22), ('\\', 0x5c),
    ('/', 0x2f), ('N', 0x85), ('_', 0xa0), ('L', 0x2028), ('P', 0x2029)]

/-- The letters behind which a number of hexadecimal digits follows. -/
def numberedEscapes : List (Char × Nat) := [('x', 2), ('u', 4), ('U', 8)]

/-- The number of some hexadecimal digits. -/
def hexNumber? (digits : Text) : Option Nat :=
  digits.foldl (fun n c => do pure ((← n) * 16 + (← hexValue? c))) (some 0)

/-- A numbered character, whose digits begin at the cursor. -/
def numberedChar (width : Nat) (c : Cursor) : Except Fault (Char × Cursor) :=
  let digits := c.rest.take width
  if digits.length < width then .error .malformed
  else
    match hexNumber? digits with
    | none => .error .malformed
    | some n => if n < 0x110000 then .ok (Json.charOfUnit n, c.forward width) else .error .codePoint

/-- The text between quotes up to white space or the closing quote. -/
def quotedWord (double : Bool) : Nat → Cursor → Except Fault (Text × Cursor)
  | 0, _ => .error .malformed
  | fuel + 1, c =>
      let (word, c) := c.span fun ch =>
        !(ch = Text.singleQuote || ch = Text.doubleQuote || ch = '\\' || ch = ' ' || ch = '\t' ||
          isBreak ch)
      let continued (piece : Text) (c : Cursor) : Except Fault (Text × Cursor) := do
        let (more, c) ← quotedWord double fuel c
        pure (word ++ piece ++ more, c)
      match c.peek with
      | none => .ok (word, c)
      | some ch =>
          if !double && ch = Text.singleQuote && c.ahead 1 = some Text.singleQuote then
            continued [Text.singleQuote] (c.forward 2)
          else if (double && ch = Text.singleQuote) ||
              (!double && (ch = Text.doubleQuote || ch = '\\')) then
            continued [ch] c.next
          else if double && ch = '\\' then
            let c := c.next
            match c.peek with
            | none => .error .malformed
            | some e =>
                match escapes.lookup e, numberedEscapes.lookup e with
                | some n, _ => continued [Char.ofNat n] c.next
                | none, some width => do
                    let (d, c) ← numberedChar width c.next
                    continued [d] c
                | none, none =>
                    match c.lineBreak? with
                    | some (_, c) => do
                        let (bs, c) ← quotedBreaks (c.rest.length + 1) c
                        continued bs.flatten c
                    | none => .error .malformed
          else .ok (word, c)

/-- The words and the white space of a quoted scalar up to its closing quote. -/
def quotedRest (double : Bool) : Nat → Cursor → Except Fault (Text × Cursor)
  | 0, _ => .error .malformed
  | fuel + 1, c => do
      let (word, c) ← quotedWord double (c.rest.length + 1) c
      if c.peek = some (if double then Text.doubleQuote else Text.singleQuote) then
        pure (word, c.next)
      else
        let (spaces, c) ← quotedSpaces c
        let (more, c) ← quotedRest double fuel c
        pure (word ++ spaces ++ more, c)

/-- A scalar between quotes, the cursor standing on the opening one. -/
def quotedScalar (double : Bool) (c : Cursor) : Except Fault (Text × Cursor) :=
  quotedRest double (c.rest.length + 1) c.next

/-- Whether the character `k` places ahead ends a word of a plain scalar. -/
def endsPlainWord (inFlow : Bool) (ch : Char) (following : Option Char) : Bool :=
  endsWord (some ch) ||
    (ch = ':' && (endsWord following ||
      (inFlow && (match following with
        | some d => d = ',' || d = '[' || d = ']' || d = '\x7b' || d = '\x7d'
        | none => false)))) ||
    (inFlow && (ch = ',' || ch = '?' || ch = '[' || ch = ']' || ch = '\x7b' || ch = '\x7d'))

/-- The length of the word of a plain scalar at the front of a text. -/
def plainWordLength (inFlow : Bool) : Text → Nat
  | [] => 0
  | ch :: s => if endsPlainWord inFlow ch s.head? then 0 else plainWordLength inFlow s + 1

/-- The empty lines and the indentation inside a plain scalar; `none` when a mark that divides
documents follows. -/
def plainBreaks : Nat → Cursor → Option (List Text) × Cursor
  | 0, c => (some [], c)
  | fuel + 1, c =>
      if c.peek = some ' ' then plainBreaks fuel c.next
      else
        match c.lineBreak? with
        | some (b, c) =>
            if c.atDocumentMark then (none, c)
            else
              let (bs, c) := plainBreaks fuel c
              (bs.map (b :: ·), c)
        | none => (some [], c)

/-- The white space behind a word of a plain scalar: its text, whether a line ended in it, and the
cursor behind it. -/
def plainSpaces (c : Cursor) : Text × Bool × Cursor :=
  let (spaces, c) := c.span (· = ' ')
  match c.lineBreak? with
  | some (b, c) =>
      if c.atDocumentMark then ([], true, c)
      else
        let (bs, c) := plainBreaks (c.rest.length + 1) c
        match bs with
        | none => ([], true, c)
        | some bs => (joinedBreaks b bs, true, c)
  | none => (spaces, false, c)

/-- The words of a plain scalar with the white space `before` in front of the next one.  The result
tells whether a line ended behind the last word. -/
def plainWords (inFlow : Bool) (indent : Int) (before : Text) (lineEnded : Bool) :
    Nat → Cursor → Text × Bool × Cursor
  | 0, c => ([], lineEnded, c)
  | fuel + 1, c =>
      if c.peek = some '#' then ([], lineEnded, c)
      else
        let length := plainWordLength inFlow c.rest
        if length = 0 then ([], lineEnded, c)
        else
          let word := c.rest.take length
          let (spaces, ended, c) := plainSpaces (c.forward length)
          if spaces.isEmpty || c.peek = some '#' || (!inFlow && (c.column : Int) < indent) then
            (before ++ word, ended, c)
          else
            let (more, ended, c) := plainWords inFlow indent spaces ended fuel c
            (before ++ word ++ more, ended, c)

/-- What is done with the line ends at the end of a block. -/
inductive Chomping where
  | strip
  | clip
  | keep
  deriving DecidableEq, Repr

def chomping? : Option Char → Option Chomping
  | some '+' => some .keep
  | some '-' => some .strip
  | _ => none

/-- A digit that gives the indentation of a block; zero is none. -/
def increment? (c : Option Char) : Except Fault (Option Nat) :=
  match c with
  | some d =>
      if d = '0' then .error .malformed
      else if '1' ≤ d && d ≤ '9' then .ok (some (d.toNat - 0x30))
      else .ok none
  | none => .ok none

/-- The indicators behind the sign of a block, in either order. -/
def blockIndicators (c : Cursor) : Except Fault (Chomping × Option Nat × Cursor) := do
  let (chomping, increment, c) ← match chomping? c.peek with
    | some ch => do
        let c := c.next
        match ← increment? c.peek with
        | some n => pure (ch, some n, c.next)
        | none => pure (ch, none, c)
    | none => do
        match ← increment? c.peek with
        | some n =>
            let c := c.next
            match chomping? c.peek with
            | some ch => pure (ch, some n, c.next)
            | none => pure (.clip, some n, c)
        | none => pure (.clip, none, c)
  if endsSpaced c.peek then pure (chomping, increment, c) else .error .malformed

/-- The empty lines at the beginning of a block: their line ends, and the deepest indentation. -/
def blockLead (deepest : Nat) : Nat → Cursor → List Text × Nat × Cursor
  | 0, c => ([], deepest, c)
  | fuel + 1, c =>
      if c.peek = some ' ' then
        let c := c.next
        blockLead (max deepest c.column) fuel c
      else
        match c.lineBreak? with
        | some (b, c) =>
            let (bs, deepest, c) := blockLead deepest fuel c
            (b :: bs, deepest, c)
        | none => ([], deepest, c)

/-- Spaces up to a column. -/
def skipIndent (indent : Nat) (c : Cursor) : Cursor :=
  c.forward (min (c.rest.takeWhile (· = ' ')).length (indent - c.column))

/-- The empty lines in a block, and the indentation behind them. -/
def blockBreaks (indent : Nat) : Nat → Cursor → List Text × Cursor
  | 0, c => ([], c)
  | fuel + 1, c =>
      let c := skipIndent indent c
      match c.lineBreak? with
      | some (b, c) =>
          let (bs, c) := blockBreaks indent fuel c
          (b :: bs, c)
      | none => ([], c)

def isSpaceOrTab : Option Char → Bool
  | some c => c = ' ' || c = '\t'
  | none => false

/-- The lines of a block with the empty lines `breaks` in front of the next one: the text up to the
last line, its line end, and the empty lines behind it. -/
def blockLines (folded : Bool) (indent : Nat) (breaks : List Text) :
    Nat → Cursor → Text × Text × List Text × Cursor
  | 0, c => ([], [], breaks, c)
  | fuel + 1, c =>
      if c.column = indent && c.peek.isSome then
        let flush := !isSpaceOrTab c.peek
        let (line, c) := c.span fun ch => !isBreak ch
        let (lineEnd, c) := match c.lineBreak? with
          | some r => r
          | none => ([], c)
        let (after, c) := blockBreaks indent (c.rest.length + 1) c
        if c.column = indent && c.peek.isSome then
          let glue := if folded && lineEnd = ['\n'] && flush && !isSpaceOrTab c.peek then
              (if after.isEmpty then [' '] else [])
            else lineEnd
          let (more, lastEnd, rest, c) := blockLines folded indent after fuel c
          (breaks.flatten ++ line ++ glue ++ more, lastEnd, rest, c)
        else (breaks.flatten ++ line, lineEnd, after, c)
      else ([], [], breaks, c)

/-- A block, the cursor standing on its sign; `parent` is the indentation around it. -/
def blockScalar (folded : Bool) (parent : Int) (c : Cursor) : Except Fault (Text × Cursor) := do
  let (chomping, increment, c) ← blockIndicators c.next
  let c ← c.endOfLine
  let least : Nat := (max (parent + 1) 1).toNat
  let (breaks, indent, c) := match increment with
    | none =>
        let (bs, deepest, c) := blockLead 0 (c.rest.length + 1) c
        (bs, max least deepest, c)
    | some n =>
        let indent := least + n - 1
        let (bs, c) := blockBreaks indent (c.rest.length + 1) c
        (bs, indent, c)
  let (text, lineEnd, after, c) := blockLines folded indent breaks (c.rest.length + 1) c
  pure (match chomping with
    | .strip => (text, c)
    | .clip => (text ++ lineEnd, c)
    | .keep => (text ++ lineEnd ++ after.flatten, c))

end ShellDoc.Yaml
