import ShellDoc.Json.Reader
import ShellDoc.Json.Writer
import ShellDoc.Proofs.Keyed

/-!
# Written JSON reads back

A text is written character by character, and `readChars_escapedChar` reads the characters back one
at a time: a letter escape, the escape of one unit, or the two escapes of a surrogate pair.

`Reads v x` says that `x` is a way to write the value `v`: the reader takes just `x` and gives `v`,
whatever follows, as long as a number would end there.  Its closure under lists and mappings, with any white space between the
signs, is what the indented writer needs.  The fuel of the reader counts down by one from a
collection to its items and from an item to the next, so twice the number of characters is enough.

Written JSON is `Plain`: it holds no character but visible ASCII characters and line feeds.
-/

namespace ShellDoc

/-! ## Hexadecimal digits -/

namespace Text

theorem hex_one {n : Nat} (h : n < 16) : hex 1 n = [n.digitChar] := by
  simp [hex, Nat.toDigits_of_lt_base h]

/-- The last digit of a number with at least two places. -/
theorem hex_add_one {width : Nat} (hwidth : 0 < width) (n : Nat) :
    hex (width + 1) n = hex width (n / 16) ++ [(n % 16).digitChar] := by
  by_cases h : n < 16
  · have hzero : n / 16 = 0 := Nat.div_eq_of_lt h
    obtain ⟨k, rfl⟩ := Nat.exists_eq_add_one.mpr hwidth
    simp [hex, Nat.toDigits_of_lt_base h, hzero, Nat.mod_eq_of_lt h, List.replicate_succ']
  · simp [hex, Nat.toDigits_of_base_le (b := 16) (by decide) (Nat.le_of_not_lt h)]

theorem hex_four {n : Nat} (h : n < 0x10000) :
    hex 4 n = [(n / 16 / 16 / 16).digitChar, (n / 16 / 16 % 16).digitChar,
      (n / 16 % 16).digitChar, (n % 16).digitChar] := by
  rw [hex_add_one (by decide), hex_add_one (by decide), hex_add_one (by decide),
    hex_one (by omega)]
  rfl

end Text

namespace Json

theorem hexValue?_digitChar : ∀ d < 16, hexValue? d.digitChar = some d := by decide

theorem unit?_hex {n : Nat} (h : n < 0x10000) : unit? (Text.hex 4 n) = some n := by
  rw [Text.hex_four h, unit?, hexValue?_digitChar _ (by omega), hexValue?_digitChar _ (by omega),
    hexValue?_digitChar _ (by omega), hexValue?_digitChar _ (by omega)]
  simp only [Option.bind_eq_bind, Option.bind_some, Option.pure_def, Option.some.injEq]
  omega

theorem length_hex_four {n : Nat} (h : n < 0x10000) : (Text.hex 4 n).length = 4 := by
  rw [Text.hex_four h]
  rfl

/-! ## Escapes -/

/-- A character that is written as one unit is read from it. -/
theorem readUnits_of_unit {n : Nat} (h : n < 0xd800 ∨ 0xdfff < n ∧ n < 0x10000) (position : Nat)
    {tail : Text} (htail : tail ≠ []) :
    readUnits ⟨position, Text.hex 4 n ++ tail⟩ = .ok (Char.ofNat n, 4) := by
  have hn : n < 0x10000 := by omega
  have hlength : ¬ (Text.hex 4 n ++ tail).length < 5 := by
    have := List.length_pos_iff.mpr htail
    rw [List.length_append, length_hex_four hn]
    omega
  have hhigh : isHighSurrogate n = false := by
    simp only [isHighSurrogate, Bool.and_eq_false_iff, decide_eq_false_iff_not]
    omega
  have hchar : charOfUnit n = Char.ofNat n := by
    rw [charOfUnit, if_neg]
    simp only [Bool.and_eq_true, decide_eq_true_eq]
    omega
  rw [readUnits, if_neg hlength, List.take_left' (length_hex_four hn), unit?_hex hn]
  simp [hhigh, hchar]

/-- A character that is written as a surrogate pair is read from it. -/
theorem readUnits_of_pair {high low : Nat} {c : Char} (hhigh : 0xd800 ≤ high ∧ high < 0xdc00)
    (hlow : 0xdc00 ≤ low ∧ low < 0xe000)
    (hc : 0x10000 + (high - 0xd800) * 0x400 + (low - 0xdc00) = c.toNat) (position : Nat)
    {tail : Text} (htail : tail ≠ []) :
    readUnits ⟨position, Text.hex 4 high ++ (unitEscape low ++ tail)⟩ = .ok (c, 10) := by
  have hh : high < 0x10000 := by omega
  have hl : low < 0x10000 := by omega
  have hescape : (unitEscape low ++ tail).length = 6 + tail.length := by
    simp only [unitEscape, List.cons_append, List.length_cons, List.length_append,
      length_hex_four hl]
    omega
  have hlength : ¬ (Text.hex 4 high ++ (unitEscape low ++ tail)).length < 5 := by
    rw [List.length_append, length_hex_four hh]
    omega
  have hbehind : 6 < (unitEscape low ++ tail).length := by
    have := List.length_pos_iff.mpr htail
    omega
  have hsurrogate : isHighSurrogate high = true := by simp [isHighSurrogate, hhigh]
  have hlowSurrogate : isLowSurrogate low = true := by simp [isLowSurrogate, hlow]
  have hdigits : ((unitEscape low ++ tail).drop 2).take 4 = Text.hex 4 low :=
    List.take_left' (length_hex_four hl)
  rw [readUnits, if_neg hlength, List.take_left' (length_hex_four hh), unit?_hex hh]
  simp only
  rw [List.drop_left' (length_hex_four hh), if_pos, hdigits, unit?_hex hl]
  · simp only [hlowSurrogate, if_true, hc, Char.ofNat_toNat]
  · simp only [hsurrogate, Bool.true_and, Bool.and_eq_true, decide_eq_true_eq]
    exact ⟨rfl, hbehind⟩

theorem readChars_quote (start position : Nat) (s : Text) :
    readChars start position 0 (Text.doubleQuote :: s) = .ok ([], ⟨position + 1, s⟩) := rfl

theorem readChars_escape (start position : Nat) (e : Char) (s : Text) :
    readChars start position 0 ('\\' :: e :: s) =
      if e = 'u' then
        match readUnits ⟨position + 2, s⟩ with
        | .error f => .error f
        | .ok (d, taken) =>
            (readChars start (position + 1) (taken + 1) (e :: s)).map fun r => (d :: r.1, r.2)
      else
        match letterEscape? e with
        | none => fail .escape position
        | some d => (readChars start (position + 1) 1 (e :: s)).map fun r => (d :: r.1, r.2) := rfl

theorem readChars_plain (start position : Nat) {c : Char} (hquote : c ≠ Text.doubleQuote)
    (hbackslash : c ≠ '\\') (hvisible : 0x20 ≤ c.toNat) (s : Text) :
    readChars start position 0 (c :: s) =
      (readChars start (position + 1) 0 s).map fun r => (c :: r.1, r.2) := by
  have hcontrol : ¬ c.toNat < 0x20 := by omega
  exact (if_neg hquote).trans ((if_neg hbackslash).trans (if_neg hcontrol))

theorem readChars_succ (start position k : Nat) (c : Char) (s : Text) :
    readChars start position (k + 1) (c :: s) = readChars start (position + 1) k s := rfl

theorem readChars_skip (start position : Nat) (taken s : Text) :
    readChars start position taken.length (taken ++ s) =
      readChars start (position + taken.length) 0 s := by
  induction taken generalizing position with
  | nil => rfl
  | cons c taken ih =>
      rw [List.length_cons, List.cons_append, readChars_succ, ih]
      congr 1
      omega

/-- A letter behind a backslash. -/
theorem readChars_of_letter (start position : Nat) {e d : Char} (he : e ≠ 'u')
    (hletter : letterEscape? e = some d) (tail : Text) :
    readChars start position 0 ('\\' :: e :: tail) =
      (readChars start (position + 2) 0 tail).map fun r => (d :: r.1, r.2) := by
  rw [readChars_escape, if_neg he, hletter]
  simp only [readChars_succ, Nat.add_assoc]

/-- A numbered escape, of which `units` follows the `u`. -/
theorem readChars_of_units (start position : Nat) {units : Text} {taken : Nat} {d : Char}
    {tail : Text} (hlength : units.length = taken)
    (hunits : readUnits ⟨position + 2, units ++ tail⟩ = .ok (d, taken)) :
    readChars start position 0 ('\\' :: 'u' :: (units ++ tail)) =
      (readChars start (position + (taken + 2)) 0 tail).map fun r => (d :: r.1, r.2) := by
  have hskip := readChars_skip start (position + 1) ('u' :: units) tail
  rw [List.length_cons, List.cons_append, hlength] at hskip
  rw [readChars_escape, if_pos rfl, hunits]
  simp only [hskip]
  congr 2
  omega

theorem length_unitEscape {n : Nat} (h : n < 0x10000) : (unitEscape n).length = 6 := by
  rw [unitEscape, List.length_cons, List.length_cons, length_hex_four h]

theorem readChars_unitEscape (start position : Nat) {n : Nat}
    (h : n < 0xd800 ∨ 0xdfff < n ∧ n < 0x10000) {tail : Text} (htail : tail ≠ []) :
    readChars start position 0 (unitEscape n ++ tail) =
      (readChars start (position + (unitEscape n).length) 0 tail).map
        fun r => (Char.ofNat n :: r.1, r.2) := by
  rw [length_unitEscape (by omega)]
  exact readChars_of_units start position (length_hex_four (by omega))
    (readUnits_of_unit h (position + 2) htail)

theorem readChars_unitEscape_pair (start position : Nat) {high low : Nat} {c : Char}
    (hhigh : 0xd800 ≤ high ∧ high < 0xdc00) (hlow : 0xdc00 ≤ low ∧ low < 0xe000)
    (hc : 0x10000 + (high - 0xd800) * 0x400 + (low - 0xdc00) = c.toNat) {tail : Text}
    (htail : tail ≠ []) :
    readChars start position 0 (unitEscape high ++ unitEscape low ++ tail) =
      (readChars start (position + (unitEscape high ++ unitEscape low).length) 0 tail).map
        fun r => (c :: r.1, r.2) := by
  have hunits := readUnits_of_pair hhigh hlow hc (position + 2) htail
  have hlength : (Text.hex 4 high ++ unitEscape low).length = 10 := by
    rw [List.length_append, length_hex_four (by omega), length_unitEscape (by omega)]
  rw [← List.append_assoc] at hunits
  rw [List.length_append, length_unitEscape (by omega), length_unitEscape (by omega)]
  exact readChars_of_units start position hlength hunits

/-- The ways to write a character: a letter behind a backslash, the character itself, its number,
or the numbers of its two surrogates. -/
theorem escapedChar_cases (c : Char) :
    (∃ e, e ≠ 'u' ∧ (0x20 ≤ e.toNat ∧ e.toNat ≤ 0x7e) ∧ letterEscape? e = some c ∧
      escapedChar c = ['\\', e]) ∨
    (c ≠ Text.doubleQuote ∧ c ≠ '\\' ∧ 0x20 ≤ c.toNat ∧ c.toNat ≤ 0x7e ∧ escapedChar c = [c]) ∨
    ((c.toNat < 0xd800 ∨ 0xdfff < c.toNat ∧ c.toNat < 0x10000) ∧
      escapedChar c = unitEscape c.toNat) ∨
    ∃ high low, (0xd800 ≤ high ∧ high < 0xdc00) ∧ (0xdc00 ≤ low ∧ low < 0xe000) ∧
      0x10000 + (high - 0xd800) * 0x400 + (low - 0xdc00) = c.toNat ∧
      escapedChar c = unitEscape high ++ unitEscape low := by
  have hvalid : c.toNat < 0xd800 ∨ 0xdfff < c.toNat ∧ c.toNat < 0x110000 := c.valid
  rw [escapedChar]
  by_cases hquote : c = Text.doubleQuote
  · rw [if_pos hquote]
    exact .inl ⟨Text.doubleQuote, by decide, by decide, by rw [hquote]; rfl, rfl⟩
  rw [if_neg hquote]
  by_cases hbackslash : c = '\\'
  · rw [if_pos hbackslash]
    exact .inl ⟨'\\', by decide, by decide, by rw [hbackslash]; rfl, rfl⟩
  rw [if_neg hbackslash]
  by_cases hnewline : c = '\n'
  · rw [if_pos hnewline]
    exact .inl ⟨'n', by decide, by decide, by rw [hnewline]; rfl, rfl⟩
  rw [if_neg hnewline]
  by_cases hreturn : c = '\r'
  · rw [if_pos hreturn]
    exact .inl ⟨'r', by decide, by decide, by rw [hreturn]; rfl, rfl⟩
  rw [if_neg hreturn]
  by_cases htab : c = '\t'
  · rw [if_pos htab]
    exact .inl ⟨'t', by decide, by decide, by rw [htab]; rfl, rfl⟩
  rw [if_neg htab]
  by_cases hfeed : c.toNat = 0x0c
  · rw [if_pos hfeed]
    exact .inl ⟨'f', by decide, by decide, by rw [← Char.ofNat_toNat c, hfeed]; rfl, rfl⟩
  rw [if_neg hfeed]
  by_cases hback : c.toNat = 0x08
  · rw [if_pos hback]
    exact .inl ⟨'b', by decide, by decide, by rw [← Char.ofNat_toNat c, hback]; rfl, rfl⟩
  rw [if_neg hback]
  by_cases hvisible : (0x20 ≤ c.toNat && c.toNat ≤ 0x7e) = true
  · rw [if_pos hvisible]
    simp only [Bool.and_eq_true, decide_eq_true_eq] at hvisible
    exact .inr (.inl ⟨hquote, hbackslash, hvisible.1, hvisible.2, rfl⟩)
  rw [if_neg hvisible]
  by_cases hplane : c.toNat < 0x10000
  · rw [if_pos hplane]
    exact .inr (.inr (.inl ⟨by omega, rfl⟩))
  · rw [if_neg hplane]
    exact .inr (.inr (.inr ⟨_, _, by omega, by omega, by omega, rfl⟩))

/-- One written character in front of more. -/
theorem readChars_escapedChar (start position : Nat) (c : Char) {tail : Text} (htail : tail ≠ []) :
    readChars start position 0 (escapedChar c ++ tail) =
      (readChars start (position + (escapedChar c).length) 0 tail).map
        fun r => (c :: r.1, r.2) := by
  obtain ⟨e, he, -, hletter, hc⟩ | ⟨hquote, hbackslash, hvisible, -, hc⟩ | ⟨hunit, hc⟩ |
    ⟨high, low, hhigh, hlow, hnumber, hc⟩ := escapedChar_cases c
  · rw [hc]
    exact readChars_of_letter start position he hletter tail
  · rw [hc, List.singleton_append, readChars_plain start position hquote hbackslash hvisible]
    rfl
  · have hread := readChars_unitEscape start position hunit htail
    rw [Char.ofNat_toNat] at hread
    rw [hc]
    exact hread
  · rw [hc]
    exact readChars_unitEscape_pair start position hhigh hlow hnumber htail

/-- A written text reads back, whatever follows it. -/
theorem readText_writeText (position : Nat) (s tail : Text) :
    readText ⟨position, s.flatMap escapedChar ++ Text.doubleQuote :: tail⟩ =
      .ok (s, ⟨position + (s.flatMap escapedChar).length + 1, tail⟩) := by
  rw [readText]
  generalize position - 1 = start
  induction s generalizing position with
  | nil => exact readChars_quote start position tail
  | cons c s ih =>
      rw [List.flatMap_cons, List.append_assoc, readChars_escapedChar start position c (by simp),
        ih, List.length_append, Nat.add_assoc position]
      rfl

/-! ## White space -/

theorem Cursor.advance_append (position : Nat) (x tail : Text) :
    (⟨position, x ++ tail⟩ : Cursor).advance x.length = ⟨position + x.length, tail⟩ := by
  simp [Cursor.advance]

theorem Cursor.advance_one (position : Nat) (c : Char) (s : Text) :
    (⟨position, c :: s⟩ : Cursor).advance 1 = ⟨position + 1, s⟩ := rfl

/-- White space between the signs of a text. -/
def IsSpace (w : Text) : Prop := ∀ c ∈ w, Cursor.isSpace c = true

theorem isSpace_newLine (depth : Nat) : IsSpace (newLine depth) := by
  intro c hc
  rcases List.mem_cons.mp hc with rfl | hc
  · rfl
  · rw [List.eq_of_mem_replicate hc]
    rfl

/-- A text that begins with a sign other than a closing one. -/
def Starts (x : Text) : Prop :=
  ∃ c s, x = c :: s ∧ Cursor.isSpace c = false ∧ c ≠ ']' ∧ c ≠ '\x7d'

theorem Starts.append {x : Text} (h : Starts x) (s : Text) : Starts (x ++ s) := by
  obtain ⟨c, s', rfl, hc⟩ := h
  exact ⟨c, s' ++ s, rfl, hc⟩

theorem skipSpace_cons {w : Text} (hw : IsSpace w) {c : Char} (hc : Cursor.isSpace c = false)
    (position : Nat) (s : Text) :
    Cursor.skipSpace ⟨position, w ++ c :: s⟩ = ⟨position + w.length, c :: s⟩ := by
  rw [Cursor.skipSpace, List.takeWhile_append_of_pos hw, List.takeWhile_cons_of_neg (by simp [hc]),
    List.append_nil, Cursor.advance_append]

theorem skipSpace_starts {w x : Text} (hw : IsSpace w) (hx : Starts x) (position : Nat)
    (tail : Text) :
    Cursor.skipSpace ⟨position, w ++ (x ++ tail)⟩ = ⟨position + w.length, x ++ tail⟩ := by
  obtain ⟨c, s, rfl, hc, -⟩ := hx
  exact skipSpace_cons hw hc position (s ++ tail)

/-- A number that stands in front of this text ends there. -/
def EndsNumber (tail : Text) : Prop :=
  ∀ c ∈ tail.head?, isAsciiDigit c = false ∧ c ≠ '.' ∧ c ≠ 'e' ∧ c ≠ 'E'

theorem endsNumber_nil : EndsNumber [] := nofun

theorem isAsciiDigit_of_isSpace {c : Char} (h : Cursor.isSpace c = true) :
    isAsciiDigit c = false ∧ c ≠ '.' ∧ c ≠ 'e' ∧ c ≠ 'E' := by
  simp only [Cursor.isSpace, Bool.or_eq_true, decide_eq_true_eq] at h
  rcases h with ((rfl | rfl) | rfl) | rfl <;> decide

/-- White space and a sign end a number. -/
theorem endsNumber_append {w : Text} (hw : IsSpace w) {c : Char}
    (hc : isAsciiDigit c = false ∧ c ≠ '.' ∧ c ≠ 'e' ∧ c ≠ 'E') (s : Text) :
    EndsNumber (w ++ c :: s) := by
  cases w with
  | nil =>
      rintro _ ⟨⟩
      exact hc
  | cons d w =>
      rintro _ ⟨⟩
      exact isAsciiDigit_of_isSpace (hw d List.mem_cons_self)

/-! ## Values -/

/-- The text `x` is a way to write the value `v`. -/
structure Reads (v : Value) (x : Text) : Prop where
  starts : Starts x
  value (fuel position : Nat) (tail : Text) (htail : EndsNumber tail)
    (h : 2 * x.length ≤ fuel + 1) :
    readValue fuel ⟨position, x ++ tail⟩ = .ok (v, ⟨position + x.length, tail⟩)

/-- The text `x` is a way to write the items of a list, up to the closing bracket. -/
structure ReadsItems (vs : List Value) (x : Text) : Prop where
  starts : Starts x
  items (fuel position : Nat) (tail : Text) (h : 2 * x.length ≤ fuel) :
    readItems fuel ⟨position, x ++ tail⟩ = .ok (vs, ⟨position + x.length, tail⟩)

/-- The entries of a mapping after the fields of a record are put into it. -/
def putFields (entries : List (Value × Value)) (fs : Fields Value) : List (Value × Value) :=
  fs.foldl (fun entries f => Value.putEntry entries (.text f.1) f.2) entries

@[simp] theorem putFields_nil (entries : List (Value × Value)) : putFields entries [] = entries :=
  rfl

@[simp] theorem putFields_cons (entries : List (Value × Value)) (f : Text × Value)
    (fs : Fields Value) :
    putFields entries (f :: fs) = putFields (Value.putEntry entries (.text f.1) f.2) fs := rfl

/-- The text `x` is a way to write the entries of a mapping, up to the closing brace. -/
structure ReadsEntries (fs : Fields Value) (x : Text) : Prop where
  starts : Starts x
  entries (fuel : Nat) (before : List (Value × Value)) (position : Nat) (tail : Text)
    (h : 2 * x.length ≤ fuel) :
    readEntries fuel before ⟨position, x ++ tail⟩ =
      .ok (putFields before fs, ⟨position + x.length, tail⟩)

theorem length_writeText (s : Text) :
    (writeText s).length = 1 + ((s.flatMap escapedChar).length + 1) := by
  simp [writeText]
  omega

theorem writeText_append (s tail : Text) :
    writeText s ++ tail =
      Text.doubleQuote :: (s.flatMap escapedChar ++ Text.doubleQuote :: tail) := by
  simp [writeText]

theorem reads_text (s : Text) : Reads (.text s) (writeText s) where
  starts := ⟨_, _, rfl, by decide, by decide, by decide⟩
  value fuel position tail _ h := by
    have hlength := length_writeText s
    obtain ⟨fuel, rfl⟩ : ∃ k, fuel = k + 1 := Nat.exists_eq_add_one.mpr (by omega)
    rw [readValue, writeText_append]
    simp only [if_true, Cursor.advance_one, readText_writeText, Except.map, hlength,
      Nat.add_assoc]

/-- A text whose first character is no sign, so that a word or a number is read. -/
def StartsAtom (x : Text) : Prop :=
  ∃ c s, x = c :: s ∧ Cursor.isSpace c = false ∧ c ∉ [Text.doubleQuote, '[', ']', '\x7b', '\x7d']

theorem reads_of_atom {v : Value} {x : Text} (hx : StartsAtom x)
    (hatom : ∀ position tail, EndsNumber tail →
      readAtom ⟨position, x ++ tail⟩ = .ok (v, ⟨position + x.length, tail⟩)) : Reads v x := by
  obtain ⟨c, s, rfl, hspace, hsign⟩ := hx
  simp only [List.mem_cons, List.not_mem_nil, or_false, not_or] at hsign
  obtain ⟨hquote, hbracket, hclose, hbrace, hcloseBrace⟩ := hsign
  refine ⟨⟨c, s, rfl, hspace, hclose, hcloseBrace⟩, fun fuel position tail htail h => ?_⟩
  obtain ⟨fuel, rfl⟩ : ∃ k, fuel = k + 1 :=
    Nat.exists_eq_add_one.mpr (by simp only [List.length_cons] at h; omega)
  rw [readValue]
  simp only [hatom position tail htail]
  simp only [List.cons_append, if_neg hquote, if_neg hbracket, if_neg hbrace]

theorem startsAtom_of_mem_words : ∀ w ∈ words, StartsAtom w.1 := by
  simp only [words, List.forall_mem_cons, List.not_mem_nil, false_implies, implies_true, and_true]
  refine ⟨?_, ?_, ?_, ?_, ?_, ?_⟩ <;> exact ⟨_, _, rfl, by decide, by decide⟩

/-- No word begins with another one. -/
theorem find?_words (tail : Text) :
    ∀ w ∈ words, (words.find? fun w' => w'.1.isPrefixOf (w.1 ++ tail)) = some w := by
  intro w hw
  simp only [words, List.mem_cons, List.not_mem_nil, or_false] at hw
  rcases hw with rfl | rfl | rfl | rfl | rfl | rfl
  all_goals rfl

theorem reads_word {w : Text × Value} (hw : w ∈ words) : Reads w.2 w.1 := by
  refine reads_of_atom (startsAtom_of_mem_words w hw) fun position tail _ => ?_
  rw [readAtom, find?_words tail w hw]
  simp only [Cursor.advance_append]

/-! ## Lists -/

section

variable {v : Value} {vs : List Value} {x y w w' : Text}

theorem ReadsItems.last (hx : Reads v x) (hw : IsSpace w) : ReadsItems [v] (x ++ (w ++ [']'])) where
  starts := hx.starts.append _
  items fuel position tail h := by
    have hlength : (x ++ (w ++ [']'])).length = x.length + (w.length + 1) := by simp
    obtain ⟨fuel, rfl⟩ : ∃ k, fuel = k + 1 := Nat.exists_eq_add_one.mpr (by omega)
    have hends : EndsNumber (w ++ [']'] ++ tail) := by
      rw [List.append_assoc]
      exact endsNumber_append hw (by decide) tail
    rw [readItems, List.append_assoc, hx.value fuel position _ hends (by omega)]
    simp only [List.append_assoc, List.singleton_append, skipSpace_cons hw (c := ']') rfl,
      List.head?_cons, Cursor.advance_one, hlength, Nat.add_assoc]

theorem ReadsItems.cons (hx : Reads v x) (hw : IsSpace w) (hw' : IsSpace w')
    (hy : ReadsItems vs y) : ReadsItems (v :: vs) (x ++ (w ++ ',' :: (w' ++ y))) where
  starts := hx.starts.append _
  items fuel position tail h := by
    have hlength : (x ++ (w ++ ',' :: (w' ++ y))).length =
        x.length + (w.length + (1 + (w'.length + y.length))) := by simp; omega
    obtain ⟨fuel, rfl⟩ : ∃ k, fuel = k + 1 := Nat.exists_eq_add_one.mpr (by omega)
    have hends : EndsNumber (w ++ ',' :: (w' ++ y) ++ tail) := by
      rw [List.append_assoc]
      exact endsNumber_append hw (by decide) _
    rw [readItems, List.append_assoc, hx.value fuel position _ hends (by omega)]
    simp only [List.append_assoc, List.cons_append, skipSpace_cons hw (c := ',') rfl,
      List.head?_cons, Cursor.advance_one, skipSpace_starts hw' hy.starts,
      hy.items fuel _ tail (by omega), Except.map, hlength, Nat.add_assoc]

theorem Reads.list (hw : IsSpace w) (hy : ReadsItems vs y) :
    Reads (.list vs) ('[' :: (w ++ y)) where
  starts := ⟨'[', _, rfl, by decide, by decide, by decide⟩
  value fuel position tail _ h := by
    have hlength : ('[' :: (w ++ y)).length = 1 + (w.length + y.length) := by simp; omega
    obtain ⟨fuel, rfl⟩ : ∃ k, fuel = k + 1 := Nat.exists_eq_add_one.mpr (by omega)
    have hquote : ¬ '[' = Text.doubleQuote := by decide
    have hopen : (y ++ tail).head? ≠ some ']' := by
      obtain ⟨c, s, rfl, -, hc, -⟩ := hy.starts
      simpa using hc
    rw [readValue]
    simp only [List.cons_append, List.append_assoc, if_neg hquote, if_true, Cursor.advance_one,
      skipSpace_starts hw hy.starts, if_neg hopen, hy.items fuel _ tail (by omega), Except.map,
      hlength, Nat.add_assoc]

theorem reads_list_nil : Reads (.list []) ['[', ']'] where
  starts := ⟨'[', _, rfl, by decide, by decide, by decide⟩
  value fuel position tail _ h := by
    obtain ⟨fuel, rfl⟩ : ∃ k, fuel = k + 1 := Nat.exists_eq_add_one.mpr (by simp at h; omega)
    rfl

end

/-! ## Mappings -/

section

variable {name : Text} {v : Value} {fs : Fields Value} {x y w w' w'' : Text}

/-- The name of an entry, the colon behind it, and the place of the value. -/
theorem readText_name (hx : Starts x) (hw : IsSpace w) (name : Text) (position : Nat)
    (tail : Text) :
    ∃ c, readText ⟨position + 1, name.flatMap escapedChar ++
        Text.doubleQuote :: ':' :: (w ++ (x ++ tail))⟩ = .ok (name, c) ∧
      c.skipSpace.rest.head? = some ':' ∧
      (c.skipSpace.advance 1).skipSpace =
        ⟨position + ((writeText name).length + (1 + w.length)), x ++ tail⟩ := by
  have hcolon (position : Nat) : Cursor.skipSpace ⟨position, ':' :: (w ++ (x ++ tail))⟩ =
      ⟨position, ':' :: (w ++ (x ++ tail))⟩ := rfl
  refine ⟨_, readText_writeText _ _ _, ?_, ?_⟩
  · rw [hcolon, List.head?_cons]
  · rw [hcolon, Cursor.advance_one, skipSpace_starts hw hx, length_writeText]
    simp only [Nat.add_assoc]

theorem ReadsEntries.last (hx : Reads v x) (hw : IsSpace w) (hw' : IsSpace w') :
    ReadsEntries [(name, v)] (writeText name ++ ':' :: (w ++ (x ++ (w' ++ ['\x7d'])))) where
  starts := (reads_text name).starts.append _
  entries fuel before position tail h := by
    have hlength : (writeText name ++ ':' :: (w ++ (x ++ (w' ++ ['\x7d'])))).length =
        (writeText name).length + (1 + (w.length + (x.length + (w'.length + 1)))) := by simp; omega
    obtain ⟨fuel, rfl⟩ : ∃ k, fuel = k + 1 := Nat.exists_eq_add_one.mpr (by omega)
    have hrest : writeText name ++ ':' :: (w ++ (x ++ (w' ++ ['\x7d']))) ++ tail =
        writeText name ++ ':' :: (w ++ (x ++ (w' ++ '\x7d' :: tail))) := by simp
    obtain ⟨c, hname, hcolon, hbehind⟩ :=
      readText_name hx.starts hw name position (w' ++ '\x7d' :: tail)
    rw [hrest, writeText_append, readEntries]
    simp only [List.head?_cons, if_true, Cursor.advance_one, hname, hcolon, hbehind,
      hx.value fuel _ _ (endsNumber_append hw' (c := '\x7d') (by decide) tail) (by omega),
      skipSpace_cons hw' (c := '\x7d') rfl, hlength, Nat.add_assoc,
      putFields_cons, putFields_nil]

theorem ReadsEntries.cons (hx : Reads v x) (hw : IsSpace w) (hw' : IsSpace w')
    (hw'' : IsSpace w'') (hy : ReadsEntries fs y) :
    ReadsEntries ((name, v) :: fs)
      (writeText name ++ ':' :: (w ++ (x ++ (w' ++ ',' :: (w'' ++ y))))) where
  starts := (reads_text name).starts.append _
  entries fuel before position tail h := by
    have hlength : (writeText name ++ ':' :: (w ++ (x ++ (w' ++ ',' :: (w'' ++ y))))).length =
        (writeText name).length + (1 + (w.length + (x.length +
          (w'.length + (1 + (w''.length + y.length)))))) := by simp; omega
    obtain ⟨fuel, rfl⟩ : ∃ k, fuel = k + 1 := Nat.exists_eq_add_one.mpr (by omega)
    have hrest : writeText name ++ ':' :: (w ++ (x ++ (w' ++ ',' :: (w'' ++ y)))) ++ tail =
        writeText name ++ ':' :: (w ++ (x ++ (w' ++ ',' :: (w'' ++ (y ++ tail))))) := by simp
    obtain ⟨c, hname, hcolon, hbehind⟩ :=
      readText_name hx.starts hw name position (w' ++ ',' :: (w'' ++ (y ++ tail)))
    rw [hrest, writeText_append, readEntries]
    simp only [List.head?_cons, if_true, Cursor.advance_one, hname, hcolon, hbehind,
      hx.value fuel _ _ (endsNumber_append hw' (c := ',') (by decide) _) (by omega),
      skipSpace_cons hw' (c := ',') rfl,
      skipSpace_starts hw'' hy.starts, hy.entries fuel _ _ tail (by omega), hlength,
      Nat.add_assoc, putFields_cons]

theorem Reads.mapping (hw : IsSpace w) (hy : ReadsEntries fs y) :
    Reads (.mapping (putFields [] fs)) ('\x7b' :: (w ++ y)) where
  starts := ⟨'\x7b', _, rfl, by decide, by decide, by decide⟩
  value fuel position tail _ h := by
    have hlength : ('\x7b' :: (w ++ y)).length = 1 + (w.length + y.length) := by simp; omega
    obtain ⟨fuel, rfl⟩ : ∃ k, fuel = k + 1 := Nat.exists_eq_add_one.mpr (by omega)
    have hquote : ¬ '\x7b' = Text.doubleQuote := by decide
    have hbracket : ¬ '\x7b' = '[' := by decide
    have hopen : (y ++ tail).head? ≠ some '\x7d' := by
      obtain ⟨c, s, rfl, -, -, hc⟩ := hy.starts
      simpa using hc
    rw [readValue]
    simp only [List.cons_append, List.append_assoc, if_neg hquote, if_neg hbracket, if_true,
      Cursor.advance_one, skipSpace_starts hw hy.starts, if_neg hopen,
      hy.entries fuel _ _ tail (by omega), Except.map, hlength, Nat.add_assoc]

end

/-! ## The indented form -/

theorem isSpace_nil : IsSpace [] := fun _ hc => absurd hc List.not_mem_nil

theorem isSpace_space : IsSpace [' '] := fun _ hc => List.mem_singleton.mp hc ▸ rfl

theorem readsItems_writeItemsAt {depth : Nat} (outer : Nat) {vs : List Value} (hne : vs ≠ [])
    (h : ∀ v ∈ vs, Reads v (writeAt depth v)) :
    ReadsItems vs (writeItemsAt depth vs ++ (newLine outer ++ [']'])) := by
  induction vs with
  | nil => exact absurd rfl hne
  | cons v vs ih =>
      rw [List.forall_mem_cons] at h
      cases vs with
      | nil => exact .last h.1 (isSpace_newLine outer)
      | cons next vs =>
          have hcons := ReadsItems.cons h.1 isSpace_nil (isSpace_newLine depth)
            (ih (List.cons_ne_nil next vs) h.2)
          simpa [writeItemsAt_cons_cons] using hcons

/-- A list reads back if its items do. -/
theorem reads_writeAt_list {depth : Nat} {vs : List Value}
    (h : ∀ v ∈ vs, Reads v (writeAt (depth + 1) v)) :
    Reads (.list vs) (writeAt depth (.list vs)) := by
  cases vs with
  | nil => exact reads_list_nil
  | cons v vs =>
      have hitems := readsItems_writeItemsAt depth (List.cons_ne_nil v vs) h
      simpa [writeAt_list_cons] using Reads.list (isSpace_newLine (depth + 1)) hitems

theorem readsEntries_writeEntriesAt {depth : Nat} (outer : Nat) {fs : Fields Value} (hne : fs ≠ [])
    (h : ∀ f ∈ fs, Reads f.2 (writeAt depth f.2)) :
    ReadsEntries fs (writeEntriesAt depth (fs.map fun f => (.text f.1, f.2)) ++
      (newLine outer ++ ['\x7d'])) := by
  induction fs with
  | nil => exact absurd rfl hne
  | cons f fs ih =>
      rw [List.forall_mem_cons] at h
      cases fs with
      | nil =>
          have hlast : ReadsEntries [(f.1, f.2)] _ :=
            .last h.1 isSpace_space (isSpace_newLine outer)
          simpa [writeEntriesAt_singleton, keyText] using hlast
      | cons next fs =>
          have hcons : ReadsEntries ((f.1, f.2) :: next :: fs) _ :=
            .cons h.1 isSpace_space isSpace_nil (isSpace_newLine depth)
              (ih (List.cons_ne_nil next fs) h.2)
          simpa [writeEntriesAt_cons_cons, keyText] using hcons

/-- Entries with texts for keys are put as fields are. -/
theorem putEntry_entries (fs : Fields Value) (name : Text) (v : Value) :
    Value.putEntry (fs.map fun f => (.text f.1, f.2)) (.text name) v =
      (fs.put name v).map fun f => (.text f.1, f.2) := by
  induction fs with
  | nil => rfl
  | cons f fs ih =>
      rw [List.map_cons, Value.putEntry, Fields.put]
      by_cases hname : f.1 = name
      · simp [Value.sameKey, hname]
      · simp [Value.sameKey, hname, ih]

theorem putFields_entries (before fs : Fields Value) :
    putFields (before.map fun f => (.text f.1, f.2)) fs =
      (before.putAll fs).map fun f => (.text f.1, f.2) := by
  induction fs generalizing before with
  | nil => rfl
  | cons f fs ih => rw [putFields_cons, putEntry_entries, ih, Fields.putAll_cons]

/-- A mapping that is read has each name once. -/
theorem mapping_putFields (fs : Fields Value) :
    Value.mapping (putFields [] fs) = .ofFields (.ofPairs fs) :=
  congrArg Value.mapping (putFields_entries [] fs)

/-- A mapping with texts for keys, all of them different, reads back if its values do. -/
theorem reads_writeAt_ofFields {depth : Nat} {fs : Fields Value} (hne : fs ≠ [])
    (hnames : fs.names.Nodup) (h : ∀ f ∈ fs, Reads f.2 (writeAt (depth + 1) f.2)) :
    Reads (Value.ofFields fs) (writeAt depth (Value.ofFields fs)) := by
  have hentries := readsEntries_writeEntriesAt depth hne h
  have hmapping := Reads.mapping (isSpace_newLine (depth + 1)) hentries
  rw [mapping_putFields, Fields.ofPairs_of_nodup hnames] at hmapping
  cases fs with
  | nil => exact absurd rfl hne
  | cons f fs => simpa [Value.ofFields, writeAt_mapping_cons] using hmapping

/-- What the reader makes of a whole text. -/
theorem read_of_reads {v : Value} {x : Text} (hx : Reads v x)
    (hmark : x.head? ≠ some (Char.ofNat 0xfeff)) : read x = .ok v := by
  have hskip := skipSpace_starts isSpace_nil hx.starts 0 []
  have hvalue := hx.value (2 * x.length + 2) 0 [] endsNumber_nil (by omega)
  rw [List.append_nil] at hskip hvalue
  rw [List.nil_append, List.length_nil] at hskip
  rw [read, if_neg hmark, Cursor.ofText, hskip, hvalue]
  rfl

/-! ## The characters of written JSON -/

/-- Visible ASCII characters. -/
def Visible (x : Text) : Prop := ∀ c ∈ x, 0x20 ≤ c.toNat ∧ c.toNat ≤ 0x7e

-- by the list: the characters are finitely many too
instance (x : Text) : Decidable (Visible x) :=
  List.decidableBAll (fun c : Char => 0x20 ≤ c.toNat ∧ c.toNat ≤ 0x7e) x

@[simp] theorem visible_nil : Visible [] := fun _ hc => absurd hc List.not_mem_nil

@[simp] theorem visible_cons {c : Char} {x : Text} :
    Visible (c :: x) ↔ (0x20 ≤ c.toNat ∧ c.toNat ≤ 0x7e) ∧ Visible x :=
  List.forall_mem_cons

@[simp] theorem visible_append {x y : Text} : Visible (x ++ y) ↔ Visible x ∧ Visible y :=
  List.forall_mem_append

theorem visible_unitEscape {n : Nat} (h : n < 0x10000) : Visible (unitEscape n) := by
  have hdigit : ∀ d < 16, 0x20 ≤ d.digitChar.toNat ∧ d.digitChar.toNat ≤ 0x7e := by decide
  rw [unitEscape, Text.hex_four h]
  simp only [visible_cons, visible_nil, and_true]
  exact ⟨by decide, by decide, hdigit _ (by omega), hdigit _ (by omega), hdigit _ (by omega),
    hdigit _ (by omega)⟩

theorem visible_escapedChar (c : Char) : Visible (escapedChar c) := by
  obtain ⟨e, -, he, -, hc⟩ | ⟨-, -, hlow, hhigh, hc⟩ | ⟨hunit, hc⟩ |
    ⟨high, low, hhigh, hlow, -, hc⟩ := escapedChar_cases c
  · rw [hc]
    exact visible_cons.mpr ⟨by decide, visible_cons.mpr ⟨he, visible_nil⟩⟩
  · rw [hc]
    exact visible_cons.mpr ⟨⟨hlow, hhigh⟩, visible_nil⟩
  · rw [hc]
    exact visible_unitEscape (by omega)
  · rw [hc]
    exact visible_append.mpr ⟨visible_unitEscape (by omega), visible_unitEscape (by omega)⟩

@[simp] theorem visible_writeText (s : Text) : Visible (writeText s) := by
  have hquote : 0x20 ≤ Text.doubleQuote.toNat ∧ Text.doubleQuote.toNat ≤ 0x7e := by decide
  refine visible_append.mpr ⟨visible_cons.mpr ⟨hquote, fun d hd => ?_⟩,
    visible_cons.mpr ⟨hquote, visible_nil⟩⟩
  obtain ⟨c, -, hd⟩ := List.mem_flatMap.mp hd
  exact visible_escapedChar c d hd

/-- Visible ASCII characters and line feeds. -/
def Plain (x : Text) : Prop := ∀ c ∈ x, c = '\n' ∨ 0x20 ≤ c.toNat ∧ c.toNat ≤ 0x7e

theorem Visible.plain {x : Text} (h : Visible x) : Plain x := fun c hc => .inr (h c hc)

@[simp] theorem plain_nil : Plain [] := visible_nil.plain

@[simp] theorem plain_cons {c : Char} {x : Text} :
    Plain (c :: x) ↔ (c = '\n' ∨ 0x20 ≤ c.toNat ∧ c.toNat ≤ 0x7e) ∧ Plain x :=
  List.forall_mem_cons

@[simp] theorem plain_append {x y : Text} : Plain (x ++ y) ↔ Plain x ∧ Plain y :=
  List.forall_mem_append

@[simp] theorem plain_newLine (depth : Nat) : Plain (newLine depth) := by
  refine plain_cons.mpr ⟨.inl rfl, fun c hc => ?_⟩
  rw [List.eq_of_mem_replicate hc]
  exact .inr (by decide)

@[simp] theorem plain_writeText (s : Text) : Plain (writeText s) := (visible_writeText s).plain

theorem plain_writeItemsAt {depth : Nat} {vs : List Value}
    (h : ∀ v ∈ vs, Plain (writeAt depth v)) : Plain (writeItemsAt depth vs) := by
  induction vs with
  | nil => exact plain_nil
  | cons v vs ih =>
      rw [List.forall_mem_cons] at h
      cases vs with
      | nil => exact h.1
      | cons next vs =>
          simp [writeItemsAt_cons_cons, h.1, ih h.2]

theorem plain_writeAt_list {depth : Nat} {vs : List Value}
    (h : ∀ v ∈ vs, Plain (writeAt (depth + 1) v)) : Plain (writeAt depth (.list vs)) := by
  cases vs with
  | nil => simp [writeAt_list_nil]
  | cons v vs => simp [writeAt_list_cons, plain_writeItemsAt h]

theorem plain_writeEntriesAt {depth : Nat} {fs : Fields Value}
    (h : ∀ f ∈ fs, Plain (writeAt depth f.2)) :
    Plain (writeEntriesAt depth (fs.map fun f => (.text f.1, f.2))) := by
  induction fs with
  | nil => exact plain_nil
  | cons f fs ih =>
      rw [List.forall_mem_cons] at h
      cases fs with
      | nil => simp [writeEntriesAt_singleton, h.1]
      | cons next fs =>
          have hnext := ih h.2
          rw [List.map_cons] at hnext
          simp [writeEntriesAt_cons_cons, h.1, hnext]

theorem plain_writeAt_ofFields {depth : Nat} {fs : Fields Value}
    (h : ∀ f ∈ fs, Plain (writeAt (depth + 1) f.2)) :
    Plain (writeAt depth (Value.ofFields fs)) := by
  cases fs with
  | nil => simp [Value.ofFields, writeAt_mapping_nil]
  | cons f fs =>
      have hentries := plain_writeEntriesAt h
      rw [List.map_cons] at hentries
      simp [Value.ofFields, writeAt_mapping_cons, hentries]

end Json

end ShellDoc
