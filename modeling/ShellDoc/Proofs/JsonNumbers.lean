import ShellDoc.Proofs.JsonReading
import ShellDoc.Proofs.ShortestDigits

/-!
# Written numbers read back

A number is laid out as a sign, digits, a point with digits and an exponent, and the scanner takes
such a layout apart again in front of any text that cannot go on with it (`scan?_text`).  What is
written for an integer or a binary number is the layout of a number that has that value, so that it reads back (`reads_ofInt`,
`reads_write_real`).
-/

namespace ShellDoc.Json

open Decimal (Binary64 Digits InForm)
open Text (IsNumeral)

/-! ## The layout of a number -/

theorem isAsciiDigit_eq (c : Char) : isAsciiDigit c = c.isDigit := rfl

/-- Digits, at least one. -/
def IsDigits (s : Text) : Prop := s ≠ [] ∧ ∀ c ∈ s, c.isDigit = true

theorem takeWhile_digits {s tail : Text} (hs : ∀ c ∈ s, c.isDigit = true)
    (htail : ∀ c ∈ tail.head?, c.isDigit = false) :
    (s ++ tail).takeWhile isAsciiDigit = s := by
  rw [List.takeWhile_append_of_pos fun c hc => (isAsciiDigit_eq c).trans (hs c hc)]
  cases tail with
  | nil => simp
  | cons c tail =>
      rw [List.takeWhile_cons_of_neg, List.append_nil]
      simpa [isAsciiDigit_eq] using htail c rfl

namespace Number

def fractionPart : Option Text → Text
  | none => []
  | some digits => '.' :: digits

def exponentPart : Option (Bool × Text) → Text
  | none => []
  | some (negative, digits) => 'e' :: (if negative then '-' else '+') :: digits

/-- The text of a number behind its sign. -/
def unsigned (n : Number) : Text :=
  n.whole ++ (fractionPart n.fraction ++ exponentPart n.exponent)

def text (n : Number) : Text := (if n.negative then ['-'] else []) ++ n.unsigned

structure WellFormed (n : Number) : Prop where
  whole : IsNumeral n.whole
  fraction : ∀ ds ∈ n.fraction, IsDigits ds
  exponent : ∀ e ∈ n.exponent, IsDigits e.2

theorem exponent?_text {exponent : Option (Bool × Text)} {tail : Text}
    (h : ∀ e ∈ exponent, IsDigits e.2) (htail : EndsNumber tail) :
    exponent? (exponentPart exponent ++ tail) =
      exponent.map fun e => (e, (exponentPart exponent).length) := by
  cases exponent with
  | none =>
      cases tail with
      | nil => rfl
      | cons c tail =>
          obtain ⟨-, -, he, hE⟩ := htail c rfl
          simp [exponent?, exponentPart, he, hE]
  | some e =>
      obtain ⟨negative, digits⟩ := e
      obtain ⟨hne, hdigits⟩ := h _ rfl
      have htake := takeWhile_digits hdigits fun c hc => (htail c hc).1
      cases negative <;> simp [exponent?, exponentPart, htake, hne] <;> omega

theorem head?_exponentPart (exponent : Option (Bool × Text)) {tail : Text}
    (htail : EndsNumber tail) :
    ∀ c ∈ (exponentPart exponent ++ tail).head?, c.isDigit = false ∧ c ≠ '.' := by
  cases exponent with
  | none => exact fun c hc => ⟨(htail c hc).1, (htail c hc).2.1⟩
  | some e =>
      rintro c ⟨⟩
      decide

theorem head?_fractionPart {fraction : Option Text} {s : Text}
    (hs : ∀ c ∈ s.head?, c.isDigit = false ∧ c ≠ '.') :
    ∀ c ∈ (fractionPart fraction ++ s).head?, c.isDigit = false := by
  cases fraction with
  | none => exact fun c hc => (hs c hc).1
  | some digits =>
      rintro c ⟨⟩
      decide

theorem splitSign_text {whole s : Text} (negative : Bool) (h : IsNumeral whole) :
    splitSign ((if negative then ['-'] else []) ++ (whole ++ s)) = (negative, whole ++ s) := by
  cases negative with
  | true => rfl
  | false =>
      obtain ⟨c, cs, rfl⟩ := List.exists_cons_of_ne_nil h.ne_nil
      have hc := h.digits c List.mem_cons_self
      have hminus : c ≠ '-' := by
        rintro rfl
        exact absurd hc (by decide)
      simp [splitSign, hminus]

theorem wholeDigits_text {whole s : Text} (h : IsNumeral whole)
    (hs : ∀ c ∈ s.head?, c.isDigit = false) : wholeDigits (whole ++ s) = whole := by
  obtain ⟨c, cs, rfl⟩ := List.exists_cons_of_ne_nil h.ne_nil
  by_cases hzero : c = '0'
  · rw [h.head (by rw [hzero, List.head?_cons])]
    rfl
  · have htake := takeWhile_digits h.digits hs
    simpa [wholeDigits, hzero] using htake

theorem fractionDigits_text {fraction : Option Text} {s : Text}
    (h : ∀ ds ∈ fraction, IsDigits ds) (hs : ∀ c ∈ s.head?, c.isDigit = false ∧ c ≠ '.') :
    fractionDigits (fractionPart fraction ++ s) = fraction.getD [] := by
  cases fraction with
  | none =>
      cases s with
      | nil => rfl
      | cons c s => simp [fractionDigits, fractionPart, (hs c rfl).2]
  | some digits => exact takeWhile_digits (h digits rfl).2 fun c hc => (hs c hc).1

/-- A number is scanned from its layout. -/
theorem scan?_text {n : Number} (h : n.WellFormed) {tail : Text} (htail : EndsNumber tail) :
    scan? (n.text ++ tail) = some (n, n.text.length) := by
  obtain ⟨negative, whole, fraction, exponent⟩ := n
  obtain ⟨hwhole, hfraction, hexponent⟩ := h
  dsimp only at hwhole hfraction hexponent
  have hbehind := head?_exponentPart exponent htail
  have hexp := exponent?_text hexponent htail
  simp only [scan?, text, unsigned, List.append_assoc, splitSign_text negative hwhole,
    wholeDigits_text hwhole (head?_fractionPart hbehind), List.isEmpty_iff, hwhole.ne_nil,
    if_false, List.drop_left, fractionDigits_text hfraction hbehind]
  have hlength : ((if negative then ['-'] else []) : Text).length = if negative then 1 else 0 := by
    cases negative <;> rfl
  cases fraction with
  | none =>
      simp only [fractionPart, List.nil_append, Option.getD_none, if_true, hexp]
      cases exponent <;> simp [exponentPart, hlength]; omega
  | some digits =>
      have hne := (hfraction digits rfl).1
      simp only [fractionPart, List.cons_append, Option.getD_some, hne, if_false,
        List.drop_succ_cons, List.drop_left, hexp]
      cases exponent <;> simp [exponentPart, hlength] <;> omega

/-! ## Values of numbers -/

/-- The exponent that a sign and digits denote. -/
def exponentValue : Option (Bool × Text) → ℤ
  | none => 0
  | some (true, digits) => -Text.decimalNumber digits
  | some (false, digits) => Text.decimalNumber digits

theorem value_eq_real {n : Number} (h : n.fraction ≠ none ∨ n.exponent ≠ none) :
    n.value = .ok (.real (Binary64.ofDecimal n.negative
      (Text.decimalNumber (n.whole ++ n.fraction.getD []))
      (exponentValue n.exponent - (n.fraction.getD []).length))) := by
  obtain ⟨negative, whole, fraction, exponent⟩ := n
  match fraction, exponent with
  | none, none => simp at h
  | some _, none => rfl
  | none, some (true, _) => rfl
  | some _, some (true, _) => rfl
  | none, some (false, _) => rfl
  | some _, some (false, _) => rfl

/-- A layout with a point or an exponent that denotes the value of some digits. -/
structure Shows (n : Number) (d : Digits) : Prop where
  wellFormed : n.WellFormed
  isReal : n.fraction ≠ none ∨ n.exponent ≠ none
  value : (Text.decimalNumber (n.whole ++ n.fraction.getD []) : ℚ) *
    10 ^ (exponentValue n.exponent - (n.fraction.getD []).length) = d.value

end Number

section Layouts

variable {d : Digits} (negative : Bool)

theorem decimalNumber_zero_cons (s : Text) :
    Text.decimalNumber ('0' :: s) = Text.decimalNumber s := by
  rw [← List.singleton_append, Text.decimalNumber_append]
  exact (congrArg (· + _) (Nat.zero_mul _)).trans (Nat.zero_add _)

theorem isDigits_zeros_append {s : Text} (k : ℕ) (h : IsDigits s) :
    IsDigits (List.replicate k '0' ++ s) := by
  refine ⟨List.append_ne_nil_of_right_ne_nil _ h.1, fun c hc => ?_⟩
  rcases List.mem_append.mp hc with hc | hc
  · rw [List.eq_of_mem_replicate hc]
    rfl
  · exact h.2 c hc

/-- A number below one begins with a single zero. -/
theorem exists_shows_of_small (hdigits : IsNumeral d.digits) (hpoint : d.point ≤ 0) :
    ∃ n : Number, n.negative = negative ∧ n.Shows d ∧ n.unsigned = d.positional := by
  set fraction := List.replicate (-d.point).toNat '0' ++ d.digits with hfraction
  have hnumber : Text.decimalNumber (['0'] ++ fraction) = Text.decimalNumber d.digits := by
    rw [List.singleton_append, decimalNumber_zero_cons, Text.decimalNumber_append,
      Text.decimalNumber_replicate_zero, Nat.zero_mul, Nat.zero_add]
  have hlength : (0 : ℤ) - fraction.length = d.point - d.digits.length := by
    rw [hfraction, List.length_append, List.length_replicate]
    omega
  refine ⟨⟨negative, ['0'], some fraction, none⟩, rfl,
    ⟨⟨Text.isNumeral_zero, ?_, nofun⟩, .inl nofun, ?_⟩, ?_⟩
  · rintro _ ⟨⟩
    exact isDigits_zeros_append _ ⟨hdigits.ne_nil, hdigits.digits⟩
  · simp only [Option.getD_some, Number.exponentValue, hnumber, hlength, Digits.value]
  · simp [Number.unsigned, Number.fractionPart, Number.exponentPart, Digits.positional, hpoint,
      hfraction]

/-- Zeros fill the places up to the point. -/
theorem exists_shows_of_long (hdigits : IsNumeral d.digits)
    (hzero : d.digits = ['0'] → d.point = 1) (hpoint : 0 < d.point)
    (hlong : d.digits.length ≤ d.point.toNat) :
    ∃ n : Number, n.negative = negative ∧ n.Shows d ∧ n.unsigned = d.positional := by
  have hten : (10 : ℚ) ≠ 0 := by norm_num
  set zeros := d.point.toNat - d.digits.length with hzeros
  refine ⟨⟨negative, d.digits ++ List.replicate zeros '0', some ['0'], none⟩, rfl,
    ⟨⟨⟨?_, fun c hc => ?_, fun hhead => ?_⟩, ?_, nofun⟩, .inl nofun, ?_⟩, ?_⟩
  · exact List.append_ne_nil_of_left_ne_nil hdigits.ne_nil _
  · rcases List.mem_append.mp hc with hc | hc
    · exact hdigits.digits c hc
    · rw [List.eq_of_mem_replicate hc]
      rfl
  · rw [List.head?_append_of_ne_nil _ hdigits.ne_nil] at hhead
    have hsingle := hdigits.head hhead
    have hnone : zeros = 0 := by
      rw [hzeros, hzero hsingle, hsingle]
      rfl
    simp only [hnone, hsingle]
    rfl
  · rintro _ ⟨⟩
    exact ⟨List.cons_ne_nil _ _, List.forall_mem_singleton.mpr rfl⟩
  · have hplaces : d.point - d.digits.length = zeros := by omega
    simp only [Option.getD_some, Number.exponentValue, Digits.value, hplaces,
      Text.decimalNumber_append, Text.decimalNumber_replicate_zero, decimalNumber_zero_cons,
      Text.decimalNumber_nil, List.length_replicate, List.length_singleton, zpow_natCast]
    rw [show (0 : ℤ) - (1 : ℕ) = -1 from rfl, zpow_neg_one]
    push_cast
    ring
  · have hnot : ¬ d.point ≤ 0 := by omega
    simp [Number.unsigned, Number.fractionPart, Number.exponentPart, Digits.positional, hnot,
      hlong, hzeros]

/-- The point stands between two digits. -/
theorem exists_shows_of_split (hdigits : IsNumeral d.digits) (hpoint : 0 < d.point)
    (hshort : d.point.toNat < d.digits.length) :
    ∃ n : Number, n.negative = negative ∧ n.Shows d ∧ n.unsigned = d.positional := by
  have hfront : d.digits.take d.point.toNat ≠ [] := by
    rw [ne_eq, List.take_eq_nil_iff, not_or]
    exact ⟨by omega, hdigits.ne_nil⟩
  refine ⟨⟨negative, d.digits.take d.point.toNat, some (d.digits.drop d.point.toNat), none⟩, rfl,
    ⟨⟨⟨hfront, fun c hc => hdigits.digits c (List.mem_of_mem_take hc), fun hhead => ?_⟩, ?_,
      nofun⟩, .inl nofun, ?_⟩, ?_⟩
  · rw [List.head?_take, if_neg (by omega)] at hhead
    rw [hdigits.head hhead, List.length_singleton] at hshort
    omega
  · rintro _ ⟨⟩
    refine ⟨?_, fun c hc => hdigits.digits c (List.mem_of_mem_drop hc)⟩
    rw [ne_eq, List.drop_eq_nil_iff]
    omega
  · have hlength : (0 : ℤ) - (d.digits.drop d.point.toNat).length =
        d.point - d.digits.length := by
      rw [List.length_drop]
      omega
    simp only [Option.getD_some, Number.exponentValue, hlength, Digits.value,
      List.take_append_drop]
  · have hnot : ¬ d.point ≤ 0 := by omega
    simp [Number.unsigned, Number.fractionPart, Number.exponentPart, Digits.positional, hnot,
      hshort]

theorem exists_shows_positional (hdigits : IsNumeral d.digits)
    (hzero : d.digits = ['0'] → d.point = 1) :
    ∃ n : Number, n.negative = negative ∧ n.Shows d ∧ n.unsigned = d.positional := by
  rcases le_or_gt d.point 0 with hpoint | hpoint
  · exact exists_shows_of_small negative hdigits hpoint
  · rcases le_or_gt d.digits.length d.point.toNat with hlong | hshort
    · exact exists_shows_of_long negative hdigits hzero hpoint hlong
    · exact exists_shows_of_split negative hdigits hpoint hshort

/-- The digits of a written exponent. -/
theorem exists_exponentText (e : ℤ) :
    ∃ digits, Decimal.exponentText e = Number.exponentPart (some (decide (e < 0), digits)) ∧
      IsDigits digits ∧ Number.exponentValue (some (decide (e < 0), digits)) = e := by
  have hnumeral := Text.isNumeral_toDigits e.natAbs
  refine ⟨List.replicate (2 - (Text.ofNat e.natAbs).length) '0' ++ Text.ofNat e.natAbs, ?_,
    isDigits_zeros_append _ ⟨hnumeral.ne_nil, hnumeral.digits⟩, ?_⟩
  · by_cases hnegative : e < 0 <;> simp [Decimal.exponentText, Number.exponentPart, hnegative]
  · have hnumber : Text.decimalNumber
        (List.replicate (2 - (Text.ofNat e.natAbs).length) '0' ++ Text.ofNat e.natAbs) =
          e.natAbs := by
      rw [Text.decimalNumber_append, Text.decimalNumber_replicate_zero, Nat.zero_mul,
        Nat.zero_add]
      exact Text.decimalNumber_toDigits _
    by_cases hnegative : e < 0 <;> simp only [hnegative, decide_true, decide_false,
      Number.exponentValue, hnumber] <;> omega

theorem exists_shows_scientific (hdigits : IsNumeral d.digits) :
    ∃ n : Number, n.negative = negative ∧ n.Shows d ∧ n.unsigned = d.scientific := by
  obtain ⟨exponent, htext, hexponent, hvalue⟩ := exists_exponentText (d.point - 1)
  obtain ⟨c, cs, hcs⟩ := List.exists_cons_of_ne_nil hdigits.ne_nil
  have hwhole : IsNumeral [c] := by
    refine ⟨List.cons_ne_nil _ _, fun c' hc' => hdigits.digits c' ?_, fun h => ?_⟩
    · rw [hcs, List.mem_singleton.mp hc']
      exact List.mem_cons_self
    · rw [List.head?_cons, Option.some.injEq] at h
      rw [h]
  have hexponent' : ∀ e ∈ some (decide (d.point - 1 < 0), exponent), IsDigits e.2 := by
    rintro _ ⟨⟩
    exact hexponent
  cases cs with
  | nil =>
      refine ⟨⟨negative, [c], none, some (decide (d.point - 1 < 0), exponent)⟩, rfl,
        ⟨⟨hwhole, fun _ hf => absurd hf (Option.not_mem_none _), hexponent'⟩,
          .inr (Option.some_ne_none _), ?_⟩, ?_⟩
      · simp only [Option.getD_none, hvalue, Digits.value, hcs, List.append_nil, List.length_nil,
          List.length_singleton, Nat.cast_zero, Nat.cast_one, sub_zero]
      · simp [Number.unsigned, Number.fractionPart, Digits.scientific, hcs, htext]
  | cons c' cs =>
      refine ⟨⟨negative, [c], some (c' :: cs), some (decide (d.point - 1 < 0), exponent)⟩, rfl,
        ⟨⟨hwhole, ?_, hexponent'⟩, .inl (Option.some_ne_none _), ?_⟩, ?_⟩
      · rintro _ ⟨⟩
        refine ⟨List.cons_ne_nil _ _, fun c hc => hdigits.digits c ?_⟩
        rw [hcs]
        exact List.mem_cons_of_mem _ hc
      · have hplaces : d.point - 1 - ((c' :: cs).length : ℤ) = d.point - d.digits.length := by
          simp only [hcs, List.length_cons]
          omega
        simp only [Option.getD_some, hvalue, hplaces, Digits.value]
        rw [hcs, List.singleton_append]
      · simp [Number.unsigned, Number.fractionPart, Digits.scientific, hcs, htext]

end Layouts

/-! ## Numbers that are written -/

/-- The text is laid out as a number with the value `v`. -/
def LaysOut (v : Value) (x : Text) : Prop :=
  ∃ n : Number, n.WellFormed ∧ n.text = x ∧ n.value = .ok v

theorem toNat_of_isDigit {c : Char} (h : c.isDigit = true) : 0x30 ≤ c.toNat ∧ c.toNat ≤ 0x39 := by
  simpa [Char.isDigit, UInt32.le_iff_toNat_le] using h

theorem isDecimal_of_isDigit {c : Char} (h : c.isDigit = true) : Text.isDecimal c = true := by
  have hrange := toNat_of_isDigit h
  have hascii : c.toNat < 0x80 := by omega
  simp [Text.isDecimal, Text.decimalValue?, hascii, hrange]

theorem length_toDigits_le {n k : ℕ} (hk : 0 < k) (h : n < Nat.pow 10 k) :
    (Nat.toDigits 10 n).length ≤ k :=
  (Nat.length_toDigits_le_iff (by decide) hk).mpr h

/-- An integer is written in at most as many digits as are read. -/
theorem laysOut_ofInt {n : ℤ} (h : n.natAbs < Nat.pow 10 Decimal.digitLimit) :
    LaysOut (.int n) (Text.ofInt n) := by
  have hnumeral := Text.isNumeral_toDigits n.natAbs
  have hread : Decimal.readNumeral (Nat.toDigits 10 n.natAbs) = .ok n.natAbs := by
    refine Decimal.readNumeral_eq_ok_iff.mpr ⟨hnumeral.ne_nil, ?_, ?_, ?_⟩
    · exact List.all_eq_true.mpr fun c hc => isDecimal_of_isDigit (hnumeral.digits c hc)
    · exact length_toDigits_le (by decide) h
    · exact (Text.decimalNumber_toDigits _).symm
  refine ⟨⟨decide (n < 0), Nat.toDigits 10 n.natAbs, none, none⟩, ⟨hnumeral, nofun, nofun⟩, ?_, ?_⟩
  · by_cases hnegative : n < 0 <;>
      simp [Number.text, Number.unsigned, Number.fractionPart, Number.exponentPart, Text.ofInt,
        Text.ofNat, hnegative]
  · simp only [Number.value, hread]
    by_cases hnegative : n < 0 <;> simp only [hnegative, decide_true, decide_false, if_true,
      Bool.false_eq_true, if_false, Int.ofNat_eq_natCast] <;> congr <;> omega

theorem laysOut_of_shows {n : Number} {m : ℕ} {e : ℤ} (hform : InForm m e)
    (h : n.Shows (Decimal.shortest m e)) : LaysOut (.real (.finite n.negative m e)) n.text := by
  refine ⟨n, h.wellFormed, rfl, ?_⟩
  rw [Number.value_eq_real h.isReal, Decimal.ofDecimal_of_shortest n.negative hform h.value]

/-- A finite number is written with digits that read as the number. -/
theorem laysOut_write_finite (negative : Bool) {m : ℕ} {e : ℤ} (hform : InForm m e) :
    LaysOut (.real (.finite negative m e)) (numberFormat.write (.finite negative m e)) := by
  have hdigits := Decimal.isNumeral_shortest (e := e) hform.lt
  have hzero := Decimal.point_shortest (e := e) hform.lt
  set d := Decimal.shortest m e with hd
  obtain ⟨n, hnegative, hshows, htext⟩ : ∃ n : Number, n.negative = negative ∧ n.Shows d ∧
      n.unsigned = if numberFormat.leastPoint ≤ d.point && d.point ≤ numberFormat.greatestPoint
        then d.positional else d.scientific := by
    split
    · exact exists_shows_positional negative hdigits hzero
    · exact exists_shows_scientific negative hdigits
  have hwrite : n.text = numberFormat.write (.finite negative m e) := by
    rw [Number.text, hnegative, htext]
    rfl
  rw [← hwrite, ← hnegative]
  exact laysOut_of_shows hform hshows

/-! ## Reading them back -/

/-- A number begins with a digit, or with a minus sign and a digit. -/
theorem text_cases {n : Number} (h : n.WellFormed) : ∃ d s, d.isDigit = true ∧
    (n.text = d :: s ∨ n.text = '-' :: d :: s) := by
  obtain ⟨d, ds, hwhole⟩ := List.exists_cons_of_ne_nil h.whole.ne_nil
  have hd : d.isDigit = true := h.whole.digits d (by rw [hwhole]; exact List.mem_cons_self)
  refine ⟨d, ds ++ (Number.fractionPart n.fraction ++ Number.exponentPart n.exponent), hd, ?_⟩
  rw [Number.text, Number.unsigned, hwhole]
  cases n.negative with
  | true => exact .inr rfl
  | false => exact .inl rfl

theorem ne_of_isDigit {c d : Char} (hc : c.isDigit = true) (hd : d.isDigit = false) : c ≠ d := by
  rintro rfl
  rw [hc] at hd
  cases hd

/-- No number begins with a word. -/
theorem find?_words_text {n : Number} (h : n.WellFormed) (tail : Text) :
    (words.find? fun w => w.1.isPrefixOf (n.text ++ tail)) = none := by
  obtain ⟨d, s, hd, htext⟩ := text_cases h
  have hne (c : Char) (hc : c.isDigit = false) : ¬ c = d := (ne_of_isDigit hd hc).symm
  rcases htext with htext | htext
  · simp [words, htext, hne 'n' rfl, hne 't' rfl, hne 'f' rfl, hne 'N' rfl, hne 'I' rfl,
      hne '-' rfl]
  · simp [words, htext, hne 'I' rfl]

theorem startsAtom_text {n : Number} (h : n.WellFormed) : StartsAtom n.text := by
  obtain ⟨d, s, hd, htext⟩ := text_cases h
  have hne (c : Char) (hc : c.isDigit = false) : ¬ d = c := ne_of_isDigit hd hc
  rcases htext with htext | htext
  · refine ⟨d, s, htext, ?_, ?_⟩
    · simp [Cursor.isSpace, hne ' ' rfl, hne '\t' rfl, hne '\n' rfl, hne '\r' rfl]
    · simp [hne Text.doubleQuote rfl, hne '[' rfl, hne ']' rfl, hne '\x7b' rfl,
        hne '\x7d' rfl]
  · exact ⟨'-', _, htext, by decide, by decide⟩

theorem reads_of_laysOut {v : Value} {x : Text} (h : LaysOut v x) : Reads v x := by
  obtain ⟨n, hform, rfl, hvalue⟩ := h
  refine reads_of_atom (startsAtom_text hform) fun position tail htail => ?_
  rw [readAtom, find?_words_text hform]
  simp only [Number.scan?_text hform htail, hvalue, Except.map, Cursor.advance_append]

theorem reads_ofInt {n : ℤ} (h : n.natAbs < Nat.pow 10 Decimal.digitLimit) :
    Reads (.int n) (Text.ofInt n) := reads_of_laysOut (laysOut_ofInt h)

theorem reads_write_real {x : Binary64} (h : x.Canonical) :
    Reads (.real x) (numberFormat.write x) := by
  match x with
  | .finite negative m e => exact reads_of_laysOut (laysOut_write_finite negative h)
  | .infinite true => exact reads_word (w := ("-Infinity", .real (.infinite true))) (by simp [words])
  | .infinite false => exact reads_word (w := ("Infinity", .real (.infinite false))) (by simp [words])
  | .nan => exact reads_word (w := ("NaN", .real .nan)) (by simp [words])

end ShellDoc.Json
