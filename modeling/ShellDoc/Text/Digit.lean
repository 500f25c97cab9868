import ShellDoc.Text.Basic

/-!
# Digits

A decimal digit of any script counts with its value: each script that has decimal digits lists its
ten consecutively, so the table holds the code point of every zero.  Some further characters, such
as a superscript two, are digits without being decimal: they may stand where a digit is asked for,
but have no value in a numeral.
-/

namespace ShellDoc.Text

/-- The code points of the zeros of all scripts with decimal digits. -/
def zeros : List Nat :=
  [0x30, 0x660, 0x6f0, 0x7c0, 0x966, 0x9e6, 0xa66, 0xae6, 0xb66, 0xbe6, 0xc66, 0xce6, 0xd66, 0xde6,
    0xe50, 0xed0, 0xf20, 0x1040, 0x1090, 0x17e0, 0x1810, 0x1946, 0x19d0, 0x1a80, 0x1a90, 0x1b50,
    0x1bb0, 0x1c40, 0x1c50, 0xa620, 0xa8d0, 0xa900, 0xa9d0, 0xa9f0, 0xaa50, 0xabf0, 0xff10, 0x104a0,
    0x10d30, 0x11066, 0x110f0, 0x11136, 0x111d0, 0x112f0, 0x11450, 0x114d0, 0x11650, 0x116c0,
    0x11730, 0x118e0, 0x11950, 0x11c50, 0x11d50, 0x11da0, 0x16a60, 0x16ac0, 0x16b50, 0x1d7ce,
    0x1d7d8, 0x1d7e2, 0x1d7ec, 0x1d7f6, 0x1e140, 0x1e2f0, 0x1e950, 0x1fbf0]

/-- The value of a decimal digit of any script, and `none` of any other character. -/
def decimalValue? (c : Char) : Option Nat :=
  if c.toNat < 0x80 then
    if 0x30 ≤ c.toNat && c.toNat ≤ 0x39 then some (c.toNat - 0x30) else none
  else
    (zeros.find? fun z => z ≤ c.toNat && c.toNat < z + 10).map (c.toNat - ·)

def isDecimal (c : Char) : Bool := (decimalValue? c).isSome

/-- Ranges of the digits that are not decimal. -/
def otherDigits : List (Nat × Nat) :=
  [(0xb2, 0xb3), (0xb9, 0xb9), (0x1369, 0x1371), (0x19da, 0x19da), (0x2070, 0x2070),
    (0x2074, 0x2079), (0x2080, 0x2089), (0x2460, 0x2468), (0x2474, 0x247c), (0x2488, 0x2490),
    (0x24ea, 0x24ea), (0x24f5, 0x24fd), (0x24ff, 0x24ff), (0x2776, 0x277e), (0x2780, 0x2788),
    (0x278a, 0x2792), (0x10a40, 0x10a43), (0x10e60, 0x10e68), (0x11052, 0x1105a),
    (0x1f100, 0x1f10a)]

/-- Digits in the wide sense: the decimal ones and the ones without a place value. -/
def isDigit (c : Char) : Bool := isDecimal c || inRanges otherDigits c

/-- The number that a run of decimal digits denotes, in base ten. -/
def decimalNumber (s : Text) : Nat :=
  s.foldl (fun n c => 10 * n + (decimalValue? c).getD 0) 0

@[simp] theorem decimalNumber_nil : decimalNumber [] = 0 := rfl

theorem decimalNumber_append_singleton (s : Text) (c : Char) :
    decimalNumber (s ++ [c]) = 10 * decimalNumber s + (decimalValue? c).getD 0 := by
  simp [decimalNumber]

theorem isDigit_of_isDecimal {c : Char} (h : isDecimal c = true) : isDigit c = true := by
  simp [isDigit, h]

end ShellDoc.Text
