import ShellDoc.Text.Utf8
import ShellDoc.Yaml.Scalar

/-!
# Tokens of a YAML text

Besides the signs that stand in a text, there are tokens for the beginnings and ends of blocks,
which only the indentation shows, and a token in front of each key, also where no sign marks it.
-/

namespace ShellDoc.Yaml

/-- How a tag is written: with a handle that stands for the front part of its name, or in full. -/
structure TagName where
  handle : Option Text
  suffix : Text
  deriving DecidableEq, Repr

inductive Directive where
  | version (major : Nat)
  | tag (handle expansion : Text)
  | other
  deriving DecidableEq, Repr

inductive Token where
  | directive (d : Directive)
  | documentStart
  | documentEnd
  | blockSequenceStart
  | blockMappingStart
  | blockEnd
  | flowSequenceStart
  | flowSequenceEnd
  | flowMappingStart
  | flowMappingEnd
  | flowEntry
  | blockEntry
  | key
  | value
  | alias (name : Text)
  | anchor (name : Text)
  | tag (name : TagName)
  | scalar (text : Text) (plain : Bool)
  deriving DecidableEq, Repr

/-- The name of an anchor or of an alias, the cursor standing on its sign. -/
def anchorName (c : Cursor) : Except Fault (Text × Cursor) :=
  let (name, c) := c.next.span isWordChar
  let closed := endsWord c.peek || (match c.peek with
    | some ch => "?:,]\x7d%@`".toList.contains ch
    | none => true)
  if name.isEmpty || !closed then .error .malformed else .ok (name, c)

/-- The characters of the name of a tag. -/
def isTagChar (c : Char) : Bool :=
  isWordChar c || ";/?:@&=+$,.!~*'()[]%".toList.contains c

/-- Bytes written as a percent sign and two hexadecimal digits. -/
def tagBytes : Nat → Cursor → Except Fault (Text.Bytes × Cursor)
  | 0, c => .ok ([], c)
  | fuel + 1, c =>
      if c.peek ≠ some '%' then .ok ([], c)
      else
        match c.ahead 1, c.ahead 2 with
        | some a, some b =>
            match hexNumber? [a, b] with
            | some n => do
                let (more, c) ← tagBytes fuel (c.forward 3)
                pure (UInt8.ofNat n :: more, c)
            | none => .error .malformed
        | _, _ => .error .malformed

/-- The characters of the name of a tag up to one that cannot stand in it. -/
def tagChars : Nat → Cursor → Except Fault (Text × Cursor)
  | 0, c => .ok ([], c)
  | fuel + 1, c =>
      match c.peek with
      | none => .ok ([], c)
      | some ch =>
          if ch = '%' then do
            let (bytes, c) ← tagBytes (c.rest.length + 1) c
            match Text.decode bytes with
            | .ok s => do
                let (more, c) ← tagChars fuel c
                pure (s ++ more, c)
            | .error _ => .error .malformed
          else if isTagChar ch then do
            let (more, c) ← tagChars fuel c.next
            pure (ch :: more, c)
          else .ok ([], c)

/-- The name of a tag, which is not empty. -/
def tagSuffix (c : Cursor) : Except Fault (Text × Cursor) := do
  let (s, c') ← tagChars (c.rest.length + 1) c
  if c'.index = c.index then .error .malformed else .ok (s, c')

/-- The handle of a tag: an exclamation mark alone, or a word between two of them. -/
def tagHandle (c : Cursor) : Except Fault (Text × Cursor) :=
  if c.peek ≠ some '!' then .error .malformed
  else if c.ahead 1 = some ' ' then .ok (['!'], c.next)
  else
    let (word, c) := c.next.span isWordChar
    if c.peek = some '!' then .ok ('!' :: word ++ ['!'], c.next) else .error .malformed

/-- A tag, the cursor standing on its sign. -/
def tagName (c : Cursor) : Except Fault (TagName × Cursor) := do
  let (name, c) ← if c.ahead 1 = some '<' then do
      let (s, c) ← tagSuffix (c.forward 2)
      if c.peek = some '>' then pure (⟨none, s⟩, c.next) else .error .malformed
    else if endsWord (c.ahead 1) then pure (⟨none, ['!']⟩, c.next)
    else do
      let word := (c.rest.drop 1).takeWhile fun ch => !endsSpaced (some ch)
      let (handle, c) ← if word.contains '!' then tagHandle c else pure (['!'], c.next)
      let (s, c) ← tagSuffix c
      pure ((⟨some handle, s⟩ : TagName), c)
  if endsSpaced c.peek then pure (name, c) else .error .malformed

/-- A run of digits. -/
def digits (c : Cursor) : Except Fault (Nat × Cursor) :=
  let (ds, c) := c.span Char.isDigit
  if ds.isEmpty then .error .malformed else .ok (Text.decimalNumber ds, c)

/-- A directive, the cursor standing on its sign. -/
def directive (c : Cursor) : Except Fault (Directive × Cursor) := do
  let (name, c) := c.next.span isWordChar
  if name.isEmpty || !endsSpaced c.peek then .error .malformed
  else
    let (d, c) ← if name = ("YAML" : Text) then do
        let (major, c) ← digits c.skipSpaces
        if c.peek ≠ some '.' then .error .malformed
        else
          let (_, c) ← digits c.next
          if endsSpaced c.peek then pure (Directive.version major, c) else .error .malformed
      else if name = ("TAG" : Text) then do
        let (handle, c) ← tagHandle c.skipSpaces
        if c.peek ≠ some ' ' then .error .malformed
        else
          let (expansion, c) ← tagSuffix c.skipSpaces
          if endsSpaced c.peek then pure (Directive.tag handle expansion, c)
          else .error .malformed
      else pure (Directive.other, c.skipToBreak)
    let c ← c.endOfLine
    pure (d, c)

end ShellDoc.Yaml
