import ShellDoc.Text.Digit

/-!
# Binary numbers of 64 bits

A finite number is `± significand · 2 ^ exponent` with a significand below `2 ^ 53`; the exponent is
at least `-1074` and the significand is at least `2 ^ 52` unless the exponent is the least one, so
that each number has one representation.  A quotient of natural numbers is rounded to the nearest
such number, and half-way cases go to the even significand.
-/

namespace ShellDoc.Decimal

inductive Binary64 where
  | finite (negative : Bool) (significand : Nat) (exponent : Int)
  | infinite (negative : Bool)
  | nan
  deriving DecidableEq, Repr

/-- The natural number nearest to a quotient, a half going to the even neighbour. -/
def roundHalfEven (num den : Nat) : Nat :=
  let q := num / den
  let r := num % den
  if 2 * r < den || (2 * r = den && q % 2 = 0) then q else q + 1

/-- The quotient `num / den` divided by `2 ^ e`, again as a quotient. -/
def scaledBy (num den : Nat) (e : Int) : Nat × Nat :=
  if 0 ≤ e then (num, den * Nat.pow 2 e.toNat) else (num * Nat.pow 2 (-e).toNat, den)

namespace Binary64

def leastExponent : Int := -1074

def greatestExponent : Int := 971

def zero (negative : Bool) : Binary64 := .finite negative 0 leastExponent

/-- The exponent `e` for which `num / den` is at least `2 ^ 52 · 2 ^ e` and less than
`2 ^ 53 · 2 ^ e`. -/
def quotientExponent (num den : Nat) : Int :=
  let guess : Int := Int.ofNat num.log2 - Int.ofNat den.log2 - 52
  let scaled := scaledBy num den guess
  if scaled.1 < scaled.2 * Nat.pow 2 52 then guess - 1 else guess

/-- A significand that rounding has taken to `2 ^ 53` counts with the next exponent; a number beyond
the greatest exponent is infinite. -/
def ofRounded (negative : Bool) (m : Nat) (e : Int) : Binary64 :=
  let rounded : Nat × Int := if m = Nat.pow 2 53 then (Nat.pow 2 52, e + 1) else (m, e)
  if rounded.2 > greatestExponent then .infinite negative
  else .finite negative rounded.1 rounded.2

/-- The number nearest to `± num / den`. -/
def ofRatio (negative : Bool) (num den : Nat) : Binary64 :=
  if num = 0 then zero negative
  else
    let e := max (quotientExponent num den) leastExponent
    let parts := scaledBy num den e
    ofRounded negative (roundHalfEven parts.1 parts.2) e

/-- The number nearest to `± digits · 10 ^ exponent`.  Numbers far beyond the greatest or below the
least one are decided by their order of magnitude. -/
def ofDecimal (negative : Bool) (digits : Nat) (exponent : Int) : Binary64 :=
  let magnitude : Int := Int.ofNat (Nat.toDigits 10 digits).length + exponent
  if digits = 0 then zero negative
  else if magnitude > 400 then .infinite negative
  else if magnitude < -400 then zero negative
  else if 0 ≤ exponent then ofRatio negative (digits * Nat.pow 10 exponent.toNat) 1
  else ofRatio negative digits (Nat.pow 10 (-exponent).toNat)

/-- The magnitude of a finite number as a quotient. -/
def ratio (significand : Nat) (exponent : Int) : Nat × Nat :=
  if 0 ≤ exponent then (significand * Nat.pow 2 exponent.toNat, 1)
  else (significand, Nat.pow 2 (-exponent).toNat)

/-- The integer that a number is equal to, if there is one. -/
def toInt? : Binary64 → Option Int
  | .finite negative m e =>
      let r := ratio m e
      if r.1 % r.2 = 0 then
        let n := Int.ofNat (r.1 / r.2)
        some (if negative then -n else n)
      else none
  | _ => none

/-- The integer part, toward zero, of a finite number. -/
def truncated? : Binary64 → Option Int
  | .finite negative m e =>
      let r := ratio m e
      let n := Int.ofNat (r.1 / r.2)
      some (if negative then -n else n)
  | _ => none

def isZero : Binary64 → Bool
  | .finite _ 0 _ => true
  | _ => false

def negate : Binary64 → Binary64
  | .finite s m e => .finite (!s) m e
  | .infinite s => .infinite (!s)
  | .nan => .nan

/-- The number nearest to the product with a natural number. -/
def scale (x : Binary64) (k : Nat) : Binary64 :=
  match x with
  | .finite s m e =>
      let r := ratio m e
      ofRatio s (r.1 * k) r.2
  | other => other

/-- The number nearest to the sum of two numbers that are not negative. -/
def plus : Binary64 → Binary64 → Binary64
  | .finite s m e, .finite _ m' e' =>
      let r := ratio m e
      let r' := ratio m' e'
      ofRatio s (r.1 * r'.2 + r'.1 * r.2) (r.2 * r'.2)
  | .nan, _ => .nan
  | _, .nan => .nan
  | .infinite s, _ => .infinite s
  | _, other => other

end Binary64

end ShellDoc.Decimal
