import ShellDoc.Proofs.NameRuns
import ShellDoc.Proofs.NaturalOrder

/-!
# The keys of names

The key of a name can also be read without regard to where its pieces stand: a piece of digits in
the wide sense is a number, any other one a text (`SortKey.entriesOf`).  Such entries can be
compared only with entries of their kind.  The pieces of a name in even places are texts and those
in odd places are numbers, so both readings agree (`SortKey.entriesOf_eq`), and keys always meet
with entries of one kind: comparing them gives the order of the keys (`SortKey.listLt?_entries`).

Names that differ first in a number are ordered by it: in front of the number their keys are that of
what they have in common (`SortKey.ofName_append_number`).

A name has no key if one of its texts is made of digits without a place value only, and otherwise
only if one of its numbers is too long (`SortKey.ofName_eq_error`).
-/

namespace ShellDoc.Path

open Decimal (NumeralFault)

namespace SortKey

/-- An entry of a key. -/
inductive Entry where
  | text (s : Text)
  | number (n : Nat)
  deriving DecidableEq, Repr

namespace Entry

/-- A piece of digits in the wide sense is read as a number, any other one is a text. -/
def ofPiece (piece : Text) : Except NumeralFault Entry :=
  if piece ≠ [] ∧ piece.all Text.isDigit then (Decimal.readNumeral piece).map number
  else .ok (text (Text.lower piece))

def isText : Entry → Bool
  | text _ => true
  | number _ => false

/-- Whether an entry comes before another one.  There is no answer for a text and a number. -/
def lt? : Entry → Entry → Option Bool
  | text s, text u => some (decide (s < u))
  | number m, number n => some (decide (m < n))
  | _, _ => none

/-- Whether a list of entries comes before another one: the first two entries that differ decide,
and a list comes before those that it begins. -/
def listLt? : List Entry → List Entry → Option Bool
  | _, [] => some false
  | [], _ :: _ => some true
  | x :: xs, y :: ys => if x = y then listLt? xs ys else lt? x y

theorem ofPiece_text {s : Text} (h : ∀ c ∈ s, Text.isDecimal c = false) :
    ofPiece s = (textPart s).map text := by
  rw [ofPiece, textPart]
  split
  · rename_i hdigits
    obtain ⟨c, rest, rfl⟩ := List.exists_cons_of_ne_nil hdigits.1
    simp [Decimal.readNumeral, h c List.mem_cons_self, Except.map]
  · rfl

theorem ofPiece_number {digits : Text} (hne : digits ≠ [])
    (h : ∀ c ∈ digits, Text.isDecimal c = true) :
    ofPiece digits = (Decimal.readNumeral digits).map number := by
  have hdigits : digits.all Text.isDigit = true :=
    List.all_eq_true.mpr fun c hc => Text.isDigit_of_isDecimal (h c hc)
  rw [ofPiece, if_pos ⟨hne, hdigits⟩]

end Entry

/-- The texts and numbers of a key one after the other. -/
def entries (k : SortKey) : List Entry :=
  .text k.first :: k.rest.flatMap fun p => [.number p.1, .text p.2]

theorem entries_nil (first : Text) : entries ⟨first, []⟩ = [.text first] := rfl

theorem entries_cons (first s : Text) (n : Nat) (rest : List (Nat × Text)) :
    entries ⟨first, (n, s) :: rest⟩ = .text first :: .number n :: entries ⟨s, rest⟩ := rfl

/-- The entries of the pieces of a name. -/
def entriesOf (name : Text) : Except NumeralFault (List Entry) :=
  (Runs.ofText name).pieces.mapM Entry.ofPiece

/-- The key of the runs of a name. -/
def ofRuns (r : Runs) : Except NumeralFault SortKey := do
  let first ← textPart r.first
  let rest ← r.rest.mapM numberedPart
  pure ⟨first, rest⟩

theorem ofName_eq_ofRuns (name : Text) : ofName name = ofRuns (Runs.ofText name) := rfl

theorem ofRuns_cons (first digits text : Text) (rest : List (Text × Text)) :
    ofRuns ⟨first, (digits, text) :: rest⟩ =
      (do let a ← textPart first
          let n ← Decimal.readNumeral digits
          let k ← ofRuns ⟨text, rest⟩
          pure ⟨a, (n, k.first) :: k.rest⟩) := by
  simp only [ofRuns, List.mapM_cons, numberedPart]
  cases textPart first with
  | error f => rfl
  | ok a =>
      cases Decimal.readNumeral digits with
      | error f => rfl
      | ok n =>
          cases textPart text with
          | error f => rfl
          | ok s => cases rest.mapM numberedPart <;> rfl

theorem mapM_ofPiece_pieces {r : Runs} (hr : r.Divided) :
    r.pieces.mapM Entry.ofPiece = (ofRuns r).map entries := by
  obtain ⟨first, rest⟩ := r
  induction rest generalizing first with
  | nil =>
      rw [Runs.pieces, List.flatMap_nil, List.mapM_cons, Entry.ofPiece_text hr.first, ofRuns]
      cases textPart first <;> rfl
  | cons p rest ih =>
      obtain ⟨digits, text⟩ := p
      obtain ⟨hne, hdigits⟩ := hr.numbers _ List.mem_cons_self
      rw [Runs.pieces_cons, List.mapM_cons, List.mapM_cons, Entry.ofPiece_text hr.first,
        Entry.ofPiece_number hne hdigits, ih text hr.behind, ofRuns_cons]
      cases textPart first with
      | error f => rfl
      | ok a =>
          cases Decimal.readNumeral digits with
          | error f => rfl
          | ok n => cases ofRuns ⟨text, rest⟩ <;> rfl

/-- Reading the pieces of a name one by one gives its key. -/
theorem entriesOf_eq (name : Text) : entriesOf name = (ofName name).map entries :=
  mapM_ofPiece_pieces (Runs.divided_ofText name)

/-! ## The order of entries -/

theorem isText_of_getElem? {k : SortKey} {i : Nat} {e : Entry} (h : k.entries[i]? = some e) :
    e.isText = decide (i % 2 = 0) := by
  obtain ⟨first, rest⟩ := k
  induction rest generalizing first i with
  | nil =>
      rw [entries_nil] at h
      cases i with
      | zero =>
          cases h
          rfl
      | succ i => simp at h
  | cons p rest ih =>
      rw [entries_cons] at h
      match i with
      | 0 =>
          cases h
          rfl
      | 1 =>
          cases h
          rfl
      | i + 2 =>
          rw [ih p.2 h]
          simp

theorem restLe_cons (m n : Nat) (s u : Text) (xs ys : List (Nat × Text)) :
    restLe ((m, s) :: xs) ((n, u) :: ys) =
      if m = n then le ⟨s, xs⟩ ⟨u, ys⟩ else decide (m < n) := rfl

theorem le_mk (s u : Text) (xs ys : List (Nat × Text)) :
    le ⟨s, xs⟩ ⟨u, ys⟩ = if s = u then restLe xs ys else Text.le s u := rfl

theorem lt?_text (s u : Text) : Entry.lt? (.text s) (.text u) = some (!Text.le u s) := by
  have hlt : decide (s < u) = !Text.le u s := by
    rw [Bool.eq_iff_iff, decide_eq_true_iff, Bool.not_eq_true', ← Bool.not_eq_true, Text.le_iff,
      not_le]
  rw [Entry.lt?, hlt]

theorem lt?_number {m n : Nat} (h : m ≠ n) :
    Entry.lt? (.number m) (.number n) = some (!decide (n < m)) := by
  have hlt : decide (m < n) = !decide (n < m) := by
    rw [Bool.eq_iff_iff, decide_eq_true_iff, Bool.not_eq_true', decide_eq_false_iff_not, not_lt]
    exact (Ne.le_iff_lt h).symm
  rw [Entry.lt?, hlt]

theorem listLt?_text (s u : Text) (xs ys : List Entry) :
    Entry.listLt? (.text s :: xs) (.text u :: ys) =
      if u = s then Entry.listLt? xs ys else some (!Text.le u s) := by
  rw [Entry.listLt?, lt?_text]
  simp only [Entry.text.injEq, eq_comm]

theorem listLt?_number (m n : Nat) (xs ys : List Entry) :
    Entry.listLt? (.number m :: xs) (.number n :: ys) =
      if n = m then Entry.listLt? xs ys else some (!decide (n < m)) := by
  rw [Entry.listLt?]
  by_cases h : m = n
  · simp [h]
  · have h' : ¬ n = m := fun e => h e.symm
    simp [h, h', lt?_number h]

/-- Entries of keys can always be compared, and they are in the order of the keys. -/
theorem listLt?_entries (k l : SortKey) :
    Entry.listLt? k.entries l.entries = some (!le l k) := by
  obtain ⟨first, rest⟩ := k
  obtain ⟨first', rest'⟩ := l
  -- Behind a number that both have, there is a key again on both sides.
  induction rest generalizing first first' rest' with
  | nil =>
      cases rest' with
      | nil =>
          rw [entries_nil, entries_nil, listLt?_text, le_mk]
          split <;> rfl
      | cons q rest' =>
          rw [entries_nil, entries_cons, listLt?_text, le_mk]
          split <;> rfl
  | cons p rest ih =>
      obtain ⟨m, s⟩ := p
      cases rest' with
      | nil =>
          rw [entries_nil, entries_cons, listLt?_text, le_mk]
          split <;> rfl
      | cons q rest' =>
          obtain ⟨n, u⟩ := q
          rw [entries_cons, entries_cons, listLt?_text, listLt?_number, ih, le_mk first',
            restLe_cons]
          split
          · split <;> rfl
          · rfl

/-! ## Names that differ in a number -/

theorem restLe_append (zs xs ys : List (Nat × Text)) :
    restLe (zs ++ xs) (zs ++ ys) = restLe xs ys := by
  induction zs with
  | nil => rfl
  | cons z zs ih => simp [restLe, ih]

/-- The key of a name with a number that stands apart begins with the key of what is in front of the
number, and goes on with its value. -/
theorem ofName_append_number {front digits behind : Text} {k : SortKey}
    (hfront : ∀ c ∈ front.getLast?, Text.isDecimal c = false) (hne : digits ≠ [])
    (hdigits : ∀ c ∈ digits, Text.isDecimal c = true)
    (hbehind : ∀ c ∈ behind.head?, Text.isDecimal c = false)
    (hk : ofName (front ++ digits ++ behind) = .ok k) :
    ∃ common text rest, ofName front = .ok common ∧
      k = ⟨common.first, common.rest ++ (Text.decimalNumber digits, text) :: rest⟩ := by
  rw [ofName_eq_ofRuns, Runs.ofText_append_number_append hfront hne hdigits hbehind, ofRuns,
    bind_eq_ok_iff] at hk
  obtain ⟨first, hfirst, hk⟩ := hk
  obtain ⟨numbers, hnumbers, hk⟩ := bind_eq_ok_iff.mp hk
  cases hk
  rw [List.mapM_append, bind_eq_ok_iff] at hnumbers
  obtain ⟨before, hbefore, hnumbers⟩ := hnumbers
  obtain ⟨more, hmore, hnumbers⟩ := bind_eq_ok_iff.mp hnumbers
  cases hnumbers
  rw [List.mapM_cons, bind_eq_ok_iff] at hmore
  obtain ⟨number, hnumber, hmore⟩ := hmore
  obtain ⟨rest, -, hmore⟩ := bind_eq_ok_iff.mp hmore
  cases hmore
  obtain ⟨n, hn, hnumber⟩ := bind_eq_ok_iff.mp hnumber
  obtain ⟨text, -, hnumber⟩ := bind_eq_ok_iff.mp hnumber
  cases hnumber
  obtain ⟨-, -, -, rfl⟩ := Decimal.readNumeral_eq_ok_iff.mp hn
  refine ⟨⟨first, before⟩, text, rest, ?_, rfl⟩
  rw [ofName_eq_ofRuns]
  exact bind_eq_ok_iff.mpr ⟨first, hfirst, bind_eq_ok_iff.mpr ⟨before, hbefore, rfl⟩⟩

/-- The key of a name is a text, a number, a text and so on, and the comparison of two keys, which
knows no order between texts and numbers, always succeeds.  The order of keys is total and
transitive.  Names that go on differently with a number, behind a common beginning, are in the order
of the values of these numbers. -/
theorem natural_order_of_names :
    (∀ name, entriesOf name = (ofName name).map entries) ∧
    (∀ name k, ofName name = .ok k → ∀ i e, k.entries[i]? = some e →
      e.isText = decide (i % 2 = 0)) ∧
    (∀ name name' k l, ofName name = .ok k → ofName name' = .ok l →
      Entry.listLt? k.entries l.entries = some (!le l k)) ∧
    (∀ k l, le k l = true ∨ le l k = true) ∧
    (∀ k l m, le k l = true → le l m = true → le k m = true) ∧
    ∀ front digits digits' behind behind' : Text,
      (∀ c ∈ front.getLast?, Text.isDecimal c = false) →
      digits ≠ [] → (∀ c ∈ digits, Text.isDecimal c = true) →
      digits' ≠ [] → (∀ c ∈ digits', Text.isDecimal c = true) →
      Text.decimalNumber digits < Text.decimalNumber digits' →
      (∀ c ∈ behind.head?, Text.isDecimal c = false) →
      (∀ c ∈ behind'.head?, Text.isDecimal c = false) →
      ∀ k l, ofName (front ++ digits ++ behind) = .ok k →
        ofName (front ++ digits' ++ behind') = .ok l →
        le k l = true ∧ le l k = false := by
  refine ⟨entriesOf_eq, fun _ _ _ _ _ => isText_of_getElem?, fun _ _ k l _ _ => listLt?_entries k l,
    ?_, fun _ _ _ => le_trans, ?_⟩
  · intro k l
    simpa using le_total k l
  · intro front digits digits' behind behind' hfront hne hdigits hne' hdigits' hlt hbehind hbehind'
      k l hk hl
    obtain ⟨common, text, rest, hcommon, rfl⟩ :=
      ofName_append_number hfront hne hdigits hbehind hk
    obtain ⟨common', text', rest', hcommon', rfl⟩ :=
      ofName_append_number hfront hne' hdigits' hbehind' hl
    rw [hcommon] at hcommon'
    cases hcommon'
    have hne : ¬ Text.decimalNumber digits' = Text.decimalNumber digits := by omega
    have hne' : ¬ Text.decimalNumber digits = Text.decimalNumber digits' := by omega
    rw [le_mk, le_mk, if_pos rfl, if_pos rfl, restLe_append, restLe_append, restLe_cons,
      restLe_cons, if_neg hne, if_neg hne']
    exact ⟨decide_eq_true hlt, decide_eq_false (by omega)⟩

/-- Numbers of different lengths and scripts, with texts behind them that are in the other order. -/
theorem natural_order_of_names_scripts :
    let front : Text := "v1.File"
    let digits : Text := "٠٠٩"
    let digits' : Text := "10"
    ∃ k l, ofName (front ++ digits ++ "z.sh".toList) = .ok k ∧
      ofName (front ++ digits' ++ "a.sh".toList) = .ok l ∧
      k.entries = [.text "v", .number 1, .text ".file", .number 9, .text "z.sh"] ∧
      le k l = true ∧ le l k = false := by
  intro front digits digits'
  obtain ⟨-, -, -, -, -, horder⟩ := natural_order_of_names
  refine ⟨_, _, rfl, rfl, by decide +kernel, ?_⟩
  have hfront : ∀ c ∈ front.getLast?, Text.isDecimal c = false := by
    rintro c ⟨⟩
    rfl
  have hbehind : ∀ c ∈ "z.sh".toList.head?, Text.isDecimal c = false := by
    rintro c ⟨⟩
    rfl
  have hbehind' : ∀ c ∈ "a.sh".toList.head?, Text.isDecimal c = false := by
    rintro c ⟨⟩
    rfl
  exact horder front digits digits' "z.sh" "a.sh" hfront (by decide) (List.all_eq_true.mp rfl)
    (by decide) (List.all_eq_true.mp rfl) (by decide) hbehind hbehind' _ _ rfl rfl

/-! ## Names without a key -/

/-- Digits without a place value that make up a whole text of a name: beside them there are at most
decimal digits. -/
def StrayDigits (name digits : Text) : Prop :=
  ∃ before behind, name = before ++ digits ++ behind ∧ digits ≠ [] ∧
    (∀ c ∈ digits, Text.isDigit c = true ∧ Text.isDecimal c = false) ∧
    (∀ c ∈ before.getLast?, Text.isDecimal c = true) ∧
    ∀ c ∈ behind.head?, Text.isDecimal c = true

theorem strayDigits_iff {name digits : Text} :
    StrayDigits name digits ↔
      digits ∈ (Runs.ofText name).texts ∧ digits ≠ [] ∧ ∀ c ∈ digits, Text.isDigit c = true := by
  constructor
  · rintro ⟨before, behind, hname, hne, hdigits, hbefore, hbehind⟩
    exact ⟨(Runs.mem_texts_ofText_iff hne).mpr
      ⟨before, behind, hname, fun c hc => (hdigits c hc).2, hbefore, hbehind⟩, hne,
      fun c hc => (hdigits c hc).1⟩
  · rintro ⟨hmem, hne, hdigits⟩
    obtain ⟨before, behind, hname, hother, hbefore, hbehind⟩ :=
      (Runs.mem_texts_ofText_iff hne).mp hmem
    exact ⟨before, behind, hname, hne, fun c hc => ⟨hdigits c hc, hother c hc⟩, hbefore, hbehind⟩

theorem textPart_eq_error_iff {s : Text} {f : NumeralFault} :
    textPart s = .error f ↔
      s ≠ [] ∧ (∀ c ∈ s, Text.isDigit c = true) ∧ f = .notNumeral 10 s := by
  rw [textPart]
  split
  · rename_i hdigits
    rw [List.all_eq_true] at hdigits
    simp only [Except.error.injEq, eq_comm (a := f)]
    exact ⟨fun h => ⟨hdigits.1, hdigits.2, h⟩, fun h => h.2.2⟩
  · rename_i hother
    rw [List.all_eq_true] at hother
    simp only [reduceCtorEq, false_iff]
    exact fun h => hother ⟨h.1, h.2.1⟩

/-- A name with no number that is too long has no key because of stray digits. -/
theorem ofName_eq_error {name : Text} {f : NumeralFault}
    (hshort : name.length ≤ Decimal.digitLimit) (h : ofName name = .error f) :
    ∃ digits, StrayDigits name digits ∧ f = .notNumeral 10 digits := by
  have hdivided := Runs.divided_ofText name
  have hpieces : entriesOf name = .error f := by
    rw [entriesOf_eq, h]
    rfl
  obtain ⟨front, piece, back, hsplit, -, hpiece⟩ := mapM_eq_error_iff.mp hpieces
  have hmem : piece ∈ (Runs.ofText name).pieces := by simp [hsplit]
  rcases Runs.mem_pieces_iff.mp hmem with htext | hnumber
  · rw [Entry.ofPiece_text (Runs.not_decimal_of_mem_texts hdivided htext)] at hpiece
    cases hpart : textPart piece with
    | ok s =>
        rw [hpart] at hpiece
        cases hpiece
    | error g =>
        rw [hpart] at hpiece
        cases hpiece
        obtain ⟨hne, hdigits, rfl⟩ := textPart_eq_error_iff.mp hpart
        exact ⟨piece, strayDigits_iff.mpr ⟨htext, hne, hdigits⟩, rfl⟩
  · obtain ⟨p, hp, rfl⟩ := List.mem_map.mp hnumber
    obtain ⟨hne, hdigits⟩ := hdivided.numbers p hp
    have hread : Decimal.readNumeral p.1 = .ok (Text.decimalNumber p.1) :=
      Decimal.readNumeral_eq_ok_iff.mpr ⟨hne, List.all_eq_true.mpr hdigits,
        (Runs.length_le_of_mem_pieces hmem).trans hshort, rfl⟩
    rw [Entry.ofPiece_number hne hdigits, hread] at hpiece
    cases hpiece

theorem ofName_ne_ok_of_strayDigits {name digits : Text} (h : StrayDigits name digits)
    (k : SortKey) : ofName name ≠ .ok k := by
  intro hk
  obtain ⟨hmem, hne, hdigits⟩ := strayDigits_iff.mp h
  have hpieces : entriesOf name = .ok k.entries := by
    rw [entriesOf_eq, hk]
    rfl
  obtain ⟨e, he⟩ := exists_mapM_eq_ok_iff.mp ⟨_, hpieces⟩ digits
    (Runs.mem_pieces_iff.mpr (.inl hmem))
  rw [Entry.ofPiece_text (Runs.not_decimal_of_mem_texts (Runs.divided_ofText name) hmem),
    textPart_eq_error_iff.mpr ⟨hne, hdigits, rfl⟩] at he
  cases he

/-- A name with no number that is too long has a key unless there are stray digits in it. -/
theorem exists_ofName_iff {name : Text} (hshort : name.length ≤ Decimal.digitLimit) :
    (∃ k, ofName name = .ok k) ↔ ∀ digits, ¬ StrayDigits name digits := by
  constructor
  · rintro ⟨k, hk⟩ digits hdigits
    exact ofName_ne_ok_of_strayDigits hdigits k hk
  · intro h
    cases hname : ofName name with
    | ok k => exact ⟨k, rfl⟩
    | error f =>
        obtain ⟨digits, hdigits, -⟩ := ofName_eq_error hshort hname
        exact absurd hdigits (h digits)

end SortKey

end ShellDoc.Path
