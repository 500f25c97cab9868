import ShellDoc.Decimal.Numeral
import ShellDoc.Path.Basic
import ShellDoc.Text.Case

/-!
# The natural order of names

Names are compared by their runs: text by text without regard to case, number by number by value, so
that `file2` comes before `file10`.  A run of decimal digits of any script is a number; text made
only of digits without a place value is refused, and so is a number that is too long.
-/

namespace ShellDoc.Path

open Decimal (NumeralFault)

/-- The text in front of the first number, and each number with the text behind it. -/
structure Runs where
  first : Text
  rest : List (Text × Text)
  deriving DecidableEq, Repr

namespace Runs

/-- The runs with one character more at the front. -/
def push (c : Char) (r : Runs) : Runs :=
  if Text.isDecimal c then
    match r.first, r.rest with
    | [], (digits, behind) :: rest => ⟨[], (c :: digits, behind) :: rest⟩
    | first, rest => ⟨[], ([c], first) :: rest⟩
  else ⟨c :: r.first, r.rest⟩

def ofText (s : Text) : Runs := s.foldr push ⟨[], []⟩

@[simp] theorem ofText_nil : ofText [] = ⟨[], []⟩ := rfl

@[simp] theorem ofText_cons (c : Char) (s : Text) : ofText (c :: s) = push c (ofText s) := rfl

end Runs

/-- The key of a name in the natural order: text and numbers in turn, beginning and ending with
text. -/
structure SortKey where
  first : Text
  rest : List (Nat × Text)
  deriving DecidableEq, Repr

namespace SortKey

/-- Text in lower case; text that is made of digits only is no text. -/
def textPart (s : Text) : Except NumeralFault Text :=
  if s ≠ [] ∧ s.all Text.isDigit then .error (.notNumeral 10 s) else .ok (Text.lower s)

def numberedPart (p : Text × Text) : Except NumeralFault (Nat × Text) := do
  let n ← Decimal.readNumeral p.1
  let s ← textPart p.2
  pure (n, s)

def ofName (name : Text) : Except NumeralFault SortKey := do
  let runs := Runs.ofText name
  let first ← textPart runs.first
  let rest ← runs.rest.mapM numberedPart
  pure ⟨first, rest⟩

/-- Numbers with the text behind them, compared from the left; of two lists of which one begins the
other, the shorter comes first. -/
def restLe : List (Nat × Text) → List (Nat × Text) → Bool
  | [], _ => true
  | _ :: _, [] => false
  | (m, s) :: xs, (n, t) :: ys =>
      if m = n then if s = t then restLe xs ys else Text.le s t else decide (m < n)

def le (a b : SortKey) : Bool :=
  if a.first = b.first then restLe a.rest b.rest else Text.le a.first b.first

end SortKey

/-- The key of a path is that of its name. -/
def sortKey (p : Path) : Except NumeralFault SortKey := SortKey.ofName p.name

/-- The paths in natural order; paths with equal keys keep their order. -/
def naturalSort (ps : List Path) : Except NumeralFault (List Path) := do
  let keyed ← ps.mapM fun p => do
    let k ← p.sortKey
    pure (k, p)
  pure ((keyed.mergeSort fun a b => SortKey.le a.1 b.1).map Prod.snd)

end ShellDoc.Path
