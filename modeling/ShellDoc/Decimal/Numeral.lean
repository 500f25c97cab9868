import ShellDoc.Text.Digit
import ShellDoc.Text.Quoted

/-!
# Numerals

A numeral is a run of decimal digits of any script.  Numerals of more than 4300 digits are refused,
and so is text that holds anything but decimal digits.
-/

namespace ShellDoc.Decimal

/-- The greatest number of digits of a numeral that is read. -/
def digitLimit : Nat := 4300

inductive NumeralFault where
  | tooLong (digits : Nat)
  | notNumeral (base : Nat) (text : Text)
  deriving DecidableEq, Repr

namespace NumeralFault

/-- The text that is quoted in a message is cut at this many characters. -/
def quotedLimit : Nat := 200

def message : NumeralFault → Text
  | tooLong digits =>
      Text.concat ["Exceeds the limit (4300 digits) for integer string conversion: value has ",
        Text.ofNat digits, " digits; use sys.set_int_max_str_digits() to increase the limit"]
  | notNumeral base text =>
      Text.concat ["invalid literal for int() with base ", Text.ofNat base, ": ",
        (Text.quoted text).take quotedLimit]

end NumeralFault

/-- The number that a run of digits denotes. -/
def readNumeral (s : Text) : Except NumeralFault Nat :=
  if s = [] || !s.all Text.isDecimal then .error (.notNumeral 10 s)
  else if s.length > digitLimit then .error (.tooLong s.length)
  else .ok (Text.decimalNumber s)

theorem readNumeral_eq_ok_iff {s : Text} {n : Nat} :
    readNumeral s = .ok n ↔
      s ≠ [] ∧ s.all Text.isDecimal ∧ s.length ≤ digitLimit ∧ n = Text.decimalNumber s := by
  unfold readNumeral
  split
  · rename_i h
    constructor
    · intro e; cases e
    · rintro ⟨h1, h2, -, -⟩
      simp [h1, h2] at h
  · rename_i h
    simp only [Bool.or_eq_true, decide_eq_true_eq, Bool.not_eq_true', not_or,
      Bool.not_eq_false] at h
    split
    · rename_i hl
      constructor
      · intro e; cases e
      · rintro ⟨-, -, h3, -⟩; omega
    · rename_i hl
      constructor
      · intro e
        cases e
        exact ⟨h.1, h.2, by omega, rfl⟩
      · rintro ⟨-, -, -, rfl⟩; rfl

end ShellDoc.Decimal
