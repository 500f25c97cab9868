import ShellDoc.Yaml.Token

/-!
# From text to tokens

The lexer goes through a text sign by sign.  A key of a mapping is known only when the colon behind
it is met, so the lexer keeps, for the block around it and for each flow collection that is open,
the place where a key may have begun; the colon puts the key token there.  A key has to stand on one
line and within 1024 characters.

Blocks are opened by a sign that stands deeper than the block around it, and closed by a line that
begins further left.  Inside flow collections the indentation has no meaning.
-/

namespace ShellDoc.Yaml

/-- A place where a key may have begun. -/
structure KeyStart where
  /-- How many tokens stand before it. -/
  position : Nat
  /-- Nothing but a key can stand here. -/
  required : Bool
  index : Nat
  line : Nat
  column : Nat
  deriving Repr

/-- The greatest distance between the beginning of a key and its colon. -/
def keyLimit : Nat := 1024

structure Lexer where
  cursor : Cursor
  tokens : List Token
  /-- The column of the innermost block, `-1` outside all blocks. -/
  indent : Int
  outerIndents : List Int
  keyAllowed : Bool
  /-- Where a key may have begun in the innermost collection. -/
  keyStart : Option KeyStart
  /-- The same for the collections around it, of which there is one for each open flow
  collection. -/
  outerKeyStarts : List (Option KeyStart)
  deriving Repr

namespace Lexer

def start (s : Text) : Lexer :=
  { cursor := Cursor.start s, tokens := [], indent := -1, outerIndents := [], keyAllowed := true,
    keyStart := none, outerKeyStarts := [] }

def inFlow (l : Lexer) : Bool := !l.outerKeyStarts.isEmpty

def emit (l : Lexer) (t : Token) : Lexer := { l with tokens := l.tokens ++ [t] }

/-- Past a number of characters. -/
def skip (l : Lexer) (n : Nat) : Lexer := { l with cursor := l.cursor.forward n }

def allowKey (l : Lexer) (allowed : Bool) : Lexer := { l with keyAllowed := allowed }

/-- No key has begun here; an error where nothing but a key can stand. -/
def dropKeyStart (l : Lexer) : Except Fault Lexer :=
  match l.keyStart with
  | some k => if k.required then .error .malformed else .ok { l with keyStart := none }
  | none => .ok l

/-- A key may begin here. -/
def saveKeyStart (l : Lexer) : Except Fault Lexer :=
  let c := l.cursor
  if l.keyAllowed then do
    let l ← l.dropKeyStart
    let k : KeyStart :=
      { position := l.tokens.length, required := !l.inFlow && l.indent = (c.column : Int),
        index := c.index, line := c.line, column := c.column }
    pure { l with keyStart := some k }
  else .ok l

/-- Forgets a beginning whose key would be too long. -/
def stillOpen (c : Cursor) : Option KeyStart → Except Fault (Option KeyStart)
  | none => .ok none
  | some k =>
      if k.line ≠ c.line || c.index - k.index > keyLimit then
        (if k.required then .error .malformed else .ok none)
      else .ok (some k)

def dropStaleKeyStarts (l : Lexer) : Except Fault Lexer := do
  let inner ← stillOpen l.cursor l.keyStart
  let outer ← l.outerKeyStarts.mapM (stillOpen l.cursor)
  pure { l with keyStart := inner, outerKeyStarts := outer }

/-- Closes blocks as long as they are deeper than a column. -/
def closeBlocks (column indent : Int) (tokens : List Token) : List Int → Int × List Token × List Int
  | [] => (indent, tokens, [])
  | outer :: rest =>
      if indent > column then closeBlocks column outer (tokens ++ [.blockEnd]) rest
      else (indent, tokens, outer :: rest)

/-- The blocks that end in front of a column. -/
def unwind (l : Lexer) (column : Int) : Lexer :=
  if l.inFlow then l
  else
    let (indent, tokens, outer) := closeBlocks column l.indent l.tokens l.outerIndents
    { l with indent := indent, tokens := tokens, outerIndents := outer }

/-- Opens a block at a column if it is deeper than the block around it, putting its token in front
of the tokens from `position` on. -/
def openBlock (l : Lexer) (column : Nat) (position : Nat) (t : Token) : Lexer :=
  if l.indent < (column : Int) then
    { l with
      indent := column, outerIndents := l.indent :: l.outerIndents,
      tokens := l.tokens.insertIdx position t }
  else l

/-- Spaces, comments and line ends; behind a line end a key may begin. -/
def skipToToken (inFlow : Bool) (keyAllowed : Bool) : Nat → Cursor → Bool × Cursor
  | 0, c => (keyAllowed, c)
  | fuel + 1, c =>
      let c := c.skipSpaces
      let c := if c.peek = some '#' then c.skipToBreak else c
      match c.lineBreak? with
      | some (_, c) => skipToToken inFlow (keyAllowed || !inFlow) fuel c
      | none => (keyAllowed, c)

/-- All blocks end, and no key is pending. -/
def leaveDocument (l : Lexer) : Except Fault Lexer := do
  let l ← (l.unwind (-1)).dropKeyStart
  pure (l.allowKey false)

def readDirective (l : Lexer) : Except Fault Lexer := do
  let l ← l.leaveDocument
  let (d, c) ← directive l.cursor
  pure { l with cursor := c, tokens := l.tokens ++ [.directive d] }

def readDocumentMark (l : Lexer) (t : Token) : Except Fault Lexer := do
  let l ← l.leaveDocument
  pure ((l.skip 3).emit t)

def openFlow (l : Lexer) (t : Token) : Except Fault Lexer := do
  let l ← l.saveKeyStart
  let l := { l with
    keyStart := none, outerKeyStarts := l.keyStart :: l.outerKeyStarts, keyAllowed := true }
  pure ((l.skip 1).emit t)

def closeFlow (l : Lexer) (t : Token) : Except Fault Lexer := do
  let l ← l.dropKeyStart
  match l.outerKeyStarts with
  | [] => .error .malformed
  | k :: ks =>
      let l := { l with keyStart := k, outerKeyStarts := ks, keyAllowed := false }
      pure ((l.skip 1).emit t)

def readFlowEntry (l : Lexer) : Except Fault Lexer := do
  let l ← (l.allowKey true).dropKeyStart
  pure ((l.skip 1).emit .flowEntry)

/-- A sign that begins an item or a key of a block, and the block itself where it is the first. -/
def readBlockSign (l : Lexer) (block sign : Token) (keyAllowed : Bool) : Except Fault Lexer := do
  if !l.inFlow && !l.keyAllowed then .error .malformed
  else
    let l := if l.inFlow then l else l.openBlock l.cursor.column l.tokens.length block
    let l ← (l.allowKey keyAllowed).dropKeyStart
    pure ((l.skip 1).emit sign)

/-- A colon: behind a key that may have begun before, or by itself. -/
def readValueSign (l : Lexer) : Except Fault Lexer :=
  match l.keyStart with
  | some k =>
      let l := { l with
        tokens := l.tokens.insertIdx k.position .key, keyStart := none, keyAllowed := false }
      let l := if l.inFlow then l else l.openBlock k.column k.position .blockMappingStart
      .ok ((l.skip 1).emit .value)
  | none => l.readBlockSign .blockMappingStart .value !l.inFlow

/-- A sign or a scalar with which a key may begin. -/
def readContent (l : Lexer) (read : Cursor → Except Fault (Token × Cursor)) :
    Except Fault Lexer := do
  let l ← l.saveKeyStart
  let (t, c) ← read l.cursor
  pure { l with cursor := c, tokens := l.tokens ++ [t], keyAllowed := false }

def readBlockScalar (l : Lexer) (folded : Bool) : Except Fault Lexer := do
  let l ← (l.allowKey true).dropKeyStart
  let (s, c) ← blockScalar folded l.indent l.cursor
  pure { l with cursor := c, tokens := l.tokens ++ [.scalar s false] }

/-- A plain scalar; where a line ended behind it, a key may begin next. -/
def readPlain (l : Lexer) : Except Fault Lexer := do
  let l ← l.saveKeyStart
  let (s, lineEnded, c) :=
    plainWords l.inFlow (l.indent + 1) [] false (l.cursor.rest.length + 1) l.cursor
  pure { l with cursor := c, tokens := l.tokens ++ [.scalar s true], keyAllowed := lineEnded }

/-- Whether a plain scalar may begin with a character. -/
def beginsPlain (l : Lexer) (ch : Char) : Bool :=
  !(endsWord (some ch) || "-?:,[]\x7b\x7d#&*!|>'\"%@`".toList.contains ch) ||
    (!endsWord (l.cursor.ahead 1) && (ch = '-' || (!l.inFlow && (ch = '?' || ch = ':'))))

/-- The tokens up to the next sign, and whether there was one. -/
def step (l : Lexer) : Except Fault (Lexer × Bool) := do
  let c := if l.cursor.index = 0 && l.cursor.peek = some byteOrderMark then l.cursor.next
    else l.cursor
  let (allowed, c) := skipToToken l.inFlow l.keyAllowed (c.rest.length + 1) c
  let l ← { l with cursor := c, keyAllowed := allowed }.dropStaleKeyStarts
  let l := l.unwind c.column
  let more (r : Except Fault Lexer) : Except Fault (Lexer × Bool) := r.map (·, true)
  match c.peek with
  | none => (l.leaveDocument).map (·, false)
  | some ch =>
      if ch = '%' && c.column = 0 then more l.readDirective
      else if c.column = 0 && c.atDocumentMark then
        more (l.readDocumentMark (if ch = '-' then .documentStart else .documentEnd))
      else if ch = '[' then more (l.openFlow .flowSequenceStart)
      else if ch = '\x7b' then more (l.openFlow .flowMappingStart)
      else if ch = ']' then more (l.closeFlow .flowSequenceEnd)
      else if ch = '\x7d' then more (l.closeFlow .flowMappingEnd)
      else if ch = ',' then more l.readFlowEntry
      else if ch = '-' && endsWord (c.ahead 1) then
        more (l.readBlockSign .blockSequenceStart .blockEntry true)
      else if ch = '?' && (l.inFlow || endsWord (c.ahead 1)) then
        more (l.readBlockSign .blockMappingStart .key !l.inFlow)
      else if ch = ':' && (l.inFlow || endsWord (c.ahead 1)) then more l.readValueSign
      else if ch = '*' then
        more (l.readContent fun c => (anchorName c).map fun r => (.alias r.1, r.2))
      else if ch = '&' then
        more (l.readContent fun c => (anchorName c).map fun r => (.anchor r.1, r.2))
      else if ch = '!' then
        more (l.readContent fun c => (tagName c).map fun r => (.tag r.1, r.2))
      else if ch = '|' && !l.inFlow then more (l.readBlockScalar false)
      else if ch = '>' && !l.inFlow then more (l.readBlockScalar true)
      else if ch = Text.singleQuote then
        more (l.readContent fun c => (quotedScalar false c).map fun r => (.scalar r.1 false, r.2))
      else if ch = Text.doubleQuote then
        more (l.readContent fun c => (quotedScalar true c).map fun r => (.scalar r.1 false, r.2))
      else if l.beginsPlain ch then more l.readPlain
      else .error .malformed

def run : Nat → Lexer → Except Fault (List Token)
  | 0, _ => .error .malformed
  | fuel + 1, l => do
      let (l, more) ← l.step
      if more then run fuel l else pure l.tokens

end Lexer

/-- The tokens of a text. -/
def tokens (s : Text) : Except Fault (List Token) :=
  if s.all isAllowed then (Lexer.start s).run (s.length + 2) else .error .malformed

end ShellDoc.Yaml
