import ShellDoc.Decimal.Binary64

/-!
# The fewest decimal digits that read back

The reals that round to a given number form an interval around it, whose ends belong to it exactly
if the significand is even.  For one digit, two digits, … up to seventeen, the two decimals next to
the number are tried: the first one inside the interval is taken, of two the nearer, and of two
equally near ones the one with an even last digit.
-/

namespace ShellDoc.Decimal

/-- A decimal `0.d₁d₂… · 10 ^ point`. -/
structure Digits where
  digits : Text
  point : Int
  deriving DecidableEq, Repr

/-- The interval of reals that round to a number: its ends and the number itself over one
denominator, and whether the ends belong to it. -/
structure Interval where
  low : Nat
  value : Nat
  high : Nat
  den : Nat
  closed : Bool

def Interval.around (significand : Nat) (exponent : Int) : Interval :=
  let r := Binary64.ratio 1 (exponent - 2)
  let below := if significand = Nat.pow 2 52 && exponent > Binary64.leastExponent then 1 else 2
  { low := (4 * significand - below) * r.1
    value := 4 * significand * r.1
    high := (4 * significand + 2) * r.1
    den := r.2
    closed := significand % 2 = 0 }

/-- Whether `n / scale` lies in the interval. -/
def Interval.holds (i : Interval) (n scale : Nat) : Bool :=
  let x := n * i.den
  let low := i.low * scale
  let high := i.high * scale
  if i.closed then low ≤ x && x ≤ high else low < x && x < high

/-- The exponent `p` with `10 ^ (p - 1) ≤ num / den < 10 ^ p`. -/
def magnitude (num den : Nat) : Int :=
  if den ≤ num then (Nat.toDigits 10 (num / den)).length
  else
    let t := (den + num - 1) / num
    1 - Int.ofNat (Nat.toDigits 10 (t - 1)).length

/-- The best multiple of `10 ^ k`, by its factor, if one lies in the interval. -/
def Interval.onGrid? (i : Interval) (k : Int) : Option Nat :=
  let up := Nat.pow 10 (-k).toNat
  let down := Nat.pow 10 k.toNat
  let n := i.value * up / (i.den * down)
  let rest := i.value * up % (i.den * down)
  let inside (n : Nat) : Bool := i.holds (n * down) up
  let nearerBelow := 2 * rest < i.den * down || (2 * rest = i.den * down && n % 2 = 0)
  match inside n, inside (n + 1) with
  | true, true => some (if nearerBelow then n else n + 1)
  | true, false => some n
  | false, true => some (n + 1)
  | false, false => none

/-- Tries the grids with `count`, `count + 1`, … digits, `fuel` of them. -/
def Interval.search (i : Interval) (point : Int) (count : Nat) : Nat → Nat × Int
  | 0 => (i.value / i.den, 0)
  | fuel + 1 =>
      let k := point - Int.ofNat count
      match i.onGrid? k with
      | some n => (n, k)
      | none => search i point (count + 1) fuel

/-- Drops the zeros at the end of a numeral. -/
def withoutTrailingZeros (s : Text) : Text := (s.reverse.dropWhile (· = '0')).reverse

/-- The fewest digits that read back as `significand · 2 ^ exponent`. -/
def shortest (significand : Nat) (exponent : Int) : Digits :=
  if significand = 0 then ⟨['0'], 1⟩
  else
    let i := Interval.around significand exponent
    let found := i.search (magnitude i.value i.den) 1 17
    let written := Nat.toDigits 10 found.1
    ⟨withoutTrailingZeros written, Int.ofNat written.length + found.2⟩

/-- How a number is written: where the positional notation ends on either side, and the words for
the numbers that are not finite. -/
structure NumberFormat where
  leastPoint : Int
  greatestPoint : Int
  infinite : Text
  nan : Text

/-- The exponent behind its mark: a sign and at least two digits. -/
def exponentText (e : Int) : Text :=
  let digits := Text.ofNat e.natAbs
  'e' :: (if e < 0 then '-' else '+') :: (List.replicate (2 - digits.length) '0' ++ digits)

/-- A positional decimal always shows a point with a digit on each side of it. -/
def Digits.positional (d : Digits) : Text :=
  if d.point ≤ 0 then '0' :: '.' :: (List.replicate (-d.point).toNat '0' ++ d.digits)
  else
    let n := d.point.toNat
    if d.digits.length ≤ n then
      d.digits ++ List.replicate (n - d.digits.length) '0' ++ ['.', '0']
    else d.digits.take n ++ '.' :: d.digits.drop n

def Digits.scientific (d : Digits) : Text :=
  let mantissa := match d.digits with
    | [] => ['0']
    | [c] => [c]
    | c :: cs => c :: '.' :: cs
  mantissa ++ exponentText (d.point - 1)

def NumberFormat.write (f : NumberFormat) : Binary64 → Text
  | .nan => f.nan
  | .infinite negative => (if negative then ['-'] else []) ++ f.infinite
  | .finite negative m e =>
      let d := shortest m e
      (if negative then ['-'] else []) ++
        (if f.leastPoint ≤ d.point && d.point ≤ f.greatestPoint then d.positional
        else d.scientific)

end ShellDoc.Decimal
