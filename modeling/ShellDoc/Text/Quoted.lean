import ShellDoc.Text.Printable

/-!
# Quoted text

Messages quote a text between single quotes, or between double quotes when it holds a single quote
and no double one.  Inside, the backslash and the chosen quote are escaped, line ends and tabs have
letters of their own, and every other character that is not printable is written by its number.
-/

namespace ShellDoc.Text

def singleQuote : Char := Char.ofNat 0x27

def doubleQuote : Char := Char.ofNat 0x22

/-- The number of a character behind a letter that tells how many digits follow. -/
def numbered (c : Char) : Text :=
  if c.toNat < 0x100 then '\\' :: 'x' :: hex 2 c.toNat
  else if c.toNat < 0x10000 then '\\' :: 'u' :: hex 4 c.toNat
  else '\\' :: 'U' :: hex 8 c.toNat

/-- One character of a text that is quoted by `quote`. -/
def quotedChar (quote c : Char) : Text :=
  if c = quote || c = '\\' then ['\\', c]
  else if c = '\n' then ['\\', 'n']
  else if c = '\r' then ['\\', 'r']
  else if c = '\t' then ['\\', 't']
  else if isPrintable c then [c]
  else numbered c

/-- The quote that needs the fewest escapes, single quotes being preferred. -/
def chosenQuote (s : Text) : Char :=
  if s.contains singleQuote && !s.contains doubleQuote then doubleQuote else singleQuote

def quoted (s : Text) : Text :=
  chosenQuote s :: s.flatMap (quotedChar (chosenQuote s)) ++ [chosenQuote s]

end ShellDoc.Text
