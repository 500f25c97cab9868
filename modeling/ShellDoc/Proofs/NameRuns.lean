import ShellDoc.Path.NaturalOrder
import ShellDoc.Proofs.FileAccess

/-!
# The runs of a name

A name is divided into texts without decimal digits and numbers of decimal digits, in turn, with a
text at either end (`Runs.divided_ofText`).  There is no other way to divide it like this
(`Runs.ofText_flatten_pieces`), so a number that stands apart in a name, with no decimal digit
beside it, is one of its runs (`Runs.ofText_append_number_append`).

The texts of a name are the longest stretches of it without a decimal digit
(`Runs.mem_texts_ofText_iff`).
-/

namespace ShellDoc.Path

namespace Runs

variable {c : Char} {r : Runs} {s text digits : Text}

/-- The texts and the numbers one after the other. -/
def pieces (r : Runs) : List Text := r.first :: r.rest.flatMap fun p => [p.1, p.2]

def texts (r : Runs) : List Text := r.first :: r.rest.map Prod.snd

theorem pieces_cons (first digits text : Text) (rest : List (Text × Text)) :
    pieces ⟨first, (digits, text) :: rest⟩ = first :: digits :: pieces ⟨text, rest⟩ := rfl

theorem mem_pieces_iff {piece : Text} :
    piece ∈ r.pieces ↔ piece ∈ r.texts ∨ piece ∈ r.rest.map Prod.fst := by
  simp only [pieces, texts, List.mem_cons, List.mem_flatMap, List.mem_map, List.not_mem_nil,
    or_false]
  constructor
  · rintro (rfl | ⟨p, hp, rfl | rfl⟩)
    · exact .inl (.inl rfl)
    · exact .inr ⟨p, hp, rfl⟩
    · exact .inl (.inr ⟨p, hp, rfl⟩)
  · rintro ((rfl | ⟨p, hp, rfl⟩) | ⟨p, hp, rfl⟩)
    · exact .inl rfl
    · exact .inr ⟨p, hp, .inr rfl⟩
    · exact .inr ⟨p, hp, .inl rfl⟩

/-! ## One character more -/

theorem push_of_not_decimal (h : Text.isDecimal c = false) (r : Runs) :
    push c r = ⟨c :: r.first, r.rest⟩ := by
  simp [push, h]

theorem push_of_number (h : Text.isDecimal c = true) (digits text : Text)
    (rest : List (Text × Text)) :
    push c ⟨[], (digits, text) :: rest⟩ = ⟨[], (c :: digits, text) :: rest⟩ := by
  simp [push, h]

/-- A decimal digit in front of a text begins a number, also in front of an empty one at the end. -/
theorem push_of_text (h : Text.isDecimal c = true) (hr : r.first ≠ [] ∨ r.rest = []) :
    push c r = ⟨[], ([c], r.first) :: r.rest⟩ := by
  obtain ⟨first, rest⟩ := r
  cases first with
  | nil =>
      obtain rfl : rest = [] := hr.resolve_left fun hne => hne rfl
      simp [push, h]
  | cons d first => simp [push, h]

/-- Runs begin with a number, or they do not. -/
theorem number_or_text (r : Runs) :
    (∃ digits text rest, r = ⟨[], (digits, text) :: rest⟩) ∨ r.first ≠ [] ∨ r.rest = [] := by
  obtain ⟨first, rest⟩ := r
  cases first with
  | nil =>
      cases rest with
      | nil => exact .inr (.inr rfl)
      | cons p rest => exact .inl ⟨p.1, p.2, rest, rfl⟩
  | cons d first => exact .inr (.inl (List.cons_ne_nil d first))

theorem flatten_pieces_push (c : Char) (r : Runs) :
    (push c r).pieces.flatten = c :: r.pieces.flatten := by
  cases h : Text.isDecimal c with
  | false => simp [push_of_not_decimal h, pieces]
  | true =>
      obtain ⟨digits, text, rest, rfl⟩ | hr := number_or_text r
      · simp [push_of_number h, pieces]
      · simp [push_of_text h hr, pieces]

/-- Nothing of a name is lost in its runs. -/
theorem flatten_pieces_ofText (s : Text) : (ofText s).pieces.flatten = s := by
  induction s with
  | nil => rfl
  | cons c s ih => rw [ofText_cons, flatten_pieces_push, ih]

theorem length_le_of_mem_pieces {piece : Text} (h : piece ∈ (ofText s).pieces) :
    piece.length ≤ s.length := by
  have hlength := (List.sublist_flatten_of_mem h).length_le
  rwa [flatten_pieces_ofText] at hlength

/-! ## The division of a name -/

/-- Texts without decimal digits, numbers of decimal digits, and some text between any two
numbers. -/
structure Divided (r : Runs) : Prop where
  first : ∀ c ∈ r.first, Text.isDecimal c = false
  numbers : ∀ p ∈ r.rest, p.1 ≠ [] ∧ ∀ c ∈ p.1, Text.isDecimal c = true
  texts : ∀ p ∈ r.rest, ∀ c ∈ p.2, Text.isDecimal c = false
  between : ∀ p ∈ r.rest.dropLast, p.2 ≠ []

theorem Divided.push (hr : r.Divided) (c : Char) : (push c r).Divided := by
  cases h : Text.isDecimal c with
  | false =>
      rw [push_of_not_decimal h]
      exact ⟨List.forall_mem_cons.mpr ⟨h, hr.first⟩, hr.numbers, hr.texts, hr.between⟩
  | true =>
      obtain ⟨digits, text, rest, rfl⟩ | hfirst := number_or_text r
      · obtain ⟨hnumber, hnumbers⟩ := List.forall_mem_cons.mp hr.numbers
        rw [push_of_number h]
        refine ⟨by simp, List.forall_mem_cons.mpr ⟨⟨by simp, ?_⟩, hnumbers⟩, ?_, ?_⟩
        · exact List.forall_mem_cons.mpr ⟨h, hnumber.2⟩
        · exact List.forall_mem_cons.mpr (List.forall_mem_cons.mp hr.texts)
        · have hbetween := hr.between
          cases rest with
          | nil => simp
          | cons p rest => exact List.forall_mem_cons.mpr (List.forall_mem_cons.mp hbetween)
      · rw [push_of_text h hfirst]
        refine ⟨by simp, List.forall_mem_cons.mpr ⟨⟨by simp, by simpa using h⟩, hr.numbers⟩,
          List.forall_mem_cons.mpr ⟨hr.first, hr.texts⟩, ?_⟩
        cases hrest : r.rest with
        | nil => simp
        | cons p rest =>
            have hne : r.first ≠ [] := hfirst.resolve_right (by simp [hrest])
            have hbetween := hr.between
            rw [hrest] at hbetween
            exact List.forall_mem_cons.mpr ⟨hne, hbetween⟩

theorem divided_ofText (s : Text) : (ofText s).Divided := by
  induction s with
  | nil => exact ⟨by simp, by simp, by simp, by simp⟩
  | cons c s ih => exact ih.push c

section Behind

variable {first : Text} {rest : List (Text × Text)}

/-- The text behind a number is empty only at the end. -/
theorem Divided.text_or_end (h : Divided ⟨first, (digits, text) :: rest⟩) :
    text ≠ [] ∨ rest = [] := by
  have hbetween := h.between
  cases rest with
  | nil => exact .inr rfl
  | cons p rest => exact .inl (List.forall_mem_cons.mp hbetween).1

theorem Divided.behind (h : Divided ⟨first, (digits, text) :: rest⟩) :
    Divided ⟨text, rest⟩ := by
  obtain ⟨htext, htexts⟩ := List.forall_mem_cons.mp h.texts
  refine ⟨htext, (List.forall_mem_cons.mp h.numbers).2, htexts, ?_⟩
  have hbetween := h.between
  cases rest with
  | nil => simp
  | cons p rest => exact (List.forall_mem_cons.mp hbetween).2

end Behind

theorem not_decimal_of_mem_texts (hr : r.Divided) (h : text ∈ r.texts) :
    ∀ c ∈ text, Text.isDecimal c = false := by
  rcases List.mem_cons.mp h with rfl | h
  · exact hr.first
  · obtain ⟨p, hp, rfl⟩ := List.mem_map.mp h
    exact hr.texts p hp

theorem ofText_append_text (h : ∀ c ∈ text, Text.isDecimal c = false) (s : Text) :
    ofText (text ++ s) = ⟨text ++ (ofText s).first, (ofText s).rest⟩ := by
  induction text with
  | nil => rfl
  | cons c text ih =>
      obtain ⟨hc, htext⟩ := List.forall_mem_cons.mp h
      rw [List.cons_append, ofText_cons, ih htext, push_of_not_decimal hc]
      rfl

theorem ofText_append_number (hne : digits ≠ [])
    (hdigits : ∀ c ∈ digits, Text.isDecimal c = true)
    (hs : (ofText s).first ≠ [] ∨ (ofText s).rest = []) :
    ofText (digits ++ s) = ⟨[], (digits, (ofText s).first) :: (ofText s).rest⟩ := by
  induction digits with
  | nil => exact absurd rfl hne
  | cons c digits ih =>
      obtain ⟨hc, hdigits⟩ := List.forall_mem_cons.mp hdigits
      rw [List.cons_append, ofText_cons]
      cases digits with
      | nil => rw [List.nil_append, push_of_text hc hs]
      | cons d digits => rw [ih (List.cons_ne_nil d digits) hdigits, push_of_number hc]

/-- The runs of a name are the only ones that give it. -/
theorem ofText_flatten_pieces (hr : r.Divided) : ofText r.pieces.flatten = r := by
  obtain ⟨first, rest⟩ := r
  -- Behind the first number there are runs again, which begin with the text behind it.
  induction rest generalizing first with
  | nil =>
      rw [pieces, List.flatMap_nil, List.flatten_cons, ofText_append_text hr.first]
      simp
  | cons p rest ih =>
      obtain ⟨digits, text⟩ := p
      obtain ⟨hne, hdigits⟩ := hr.numbers _ List.mem_cons_self
      have hbehind := ih text hr.behind
      have hnumber := ofText_append_number hne hdigits (by rw [hbehind]; exact hr.text_or_end)
      rw [pieces_cons, List.flatten_cons, List.flatten_cons, ofText_append_text hr.first, hnumber,
        hbehind, List.append_nil]

/-! ## A number that stands apart -/

theorem first_ne_nil_of_head (h : ∀ c ∈ s.head?, Text.isDecimal c = false) :
    (ofText s).first ≠ [] ∨ (ofText s).rest = [] := by
  cases s with
  | nil => exact .inr rfl
  | cons c s =>
      rw [ofText_cons, push_of_not_decimal (h c rfl)]
      exact .inl (List.cons_ne_nil _ _)

/-- In a name that does not end with a number, every number has some text behind it. -/
theorem text_ne_nil_of_getLast (h : ∀ c ∈ s.getLast?, Text.isDecimal c = false) :
    ∀ p ∈ (ofText s).rest, p.2 ≠ [] := by
  have hdivided := divided_ofText s
  have hflatten := flatten_pieces_ofText s
  obtain hnil | ⟨front, last, hrest⟩ := List.eq_nil_or_concat (ofText s).rest
  · simp [hnil]
  · have hlast : last.2 ≠ [] := by
      intro hempty
      obtain ⟨hne, hdigits⟩ := hdivided.numbers last (by simp [hrest])
      have hend : s.getLast? = last.1.getLast? := by
        rw [← hflatten, pieces, hrest]
        simp [hempty, List.getLast?_append, List.getLast?_eq_some_getLast hne]
      have hfalse := h _ (hend.trans (List.getLast?_eq_some_getLast hne))
      rw [hdigits _ (List.getLast_mem hne)] at hfalse
      cases hfalse
    have hbetween := hdivided.between
    rw [hrest, List.concat_eq_append, List.dropLast_concat] at hbetween
    rw [hrest, List.concat_eq_append]
    intro p hp
    rcases List.mem_append.mp hp with hp | hp
    · exact hbetween p hp
    · rw [List.mem_singleton.mp hp]
      exact hlast

/-- A number with no decimal digit beside it is a run of its own: the runs in front of it and behind
it are those that they have without it. -/
theorem ofText_append_number_append {front behind : Text}
    (hfront : ∀ c ∈ front.getLast?, Text.isDecimal c = false) (hne : digits ≠ [])
    (hdigits : ∀ c ∈ digits, Text.isDecimal c = true)
    (hbehind : ∀ c ∈ behind.head?, Text.isDecimal c = false) :
    ofText (front ++ digits ++ behind) =
      ⟨(ofText front).first,
        (ofText front).rest ++ (digits, (ofText behind).first) :: (ofText behind).rest⟩ := by
  have hf := divided_ofText front
  have hb := divided_ofText behind
  let r : Runs := ⟨(ofText front).first,
    (ofText front).rest ++ (digits, (ofText behind).first) :: (ofText behind).rest⟩
  have hdivided : r.Divided := by
    refine ⟨hf.first, ?_, ?_, ?_⟩
    · rw [List.forall_mem_append, List.forall_mem_cons]
      exact ⟨hf.numbers, ⟨hne, hdigits⟩, hb.numbers⟩
    · rw [List.forall_mem_append, List.forall_mem_cons]
      exact ⟨hf.texts, hb.first, hb.texts⟩
    · rw [List.dropLast_append_of_ne_nil (List.cons_ne_nil _ _), List.forall_mem_append]
      refine ⟨text_ne_nil_of_getLast hfront, ?_⟩
      have hbetween := hb.between
      cases hrest : (ofText behind).rest with
      | nil => simp
      | cons p rest =>
          rw [hrest] at hbetween
          have hfirst := (first_ne_nil_of_head hbehind).resolve_right (by simp [hrest])
          exact List.forall_mem_cons.mpr ⟨hfirst, hbetween⟩
  have hflatten : r.pieces.flatten = front ++ digits ++ behind := by
    have hpieces : r.pieces = (ofText front).pieces ++ digits :: (ofText behind).pieces := by
      simp [r, pieces]
    rw [hpieces, List.flatten_append, List.flatten_cons, flatten_pieces_ofText,
      flatten_pieces_ofText, List.append_assoc]
  rw [← hflatten, ofText_flatten_pieces hdivided]

/-! ## The texts of a name -/

theorem head_flatten_of_numbers {rest : List (Text × Text)}
    (h : ∀ p ∈ rest, p.1 ≠ [] ∧ ∀ c ∈ p.1, Text.isDecimal c = true) :
    ∀ c ∈ (rest.flatMap fun p => [p.1, p.2]).flatten.head?, Text.isDecimal c = true := by
  cases rest with
  | nil => simp
  | cons p rest =>
      obtain ⟨hne, hdigits⟩ := h p List.mem_cons_self
      obtain ⟨d, digits, hnumber⟩ := List.exists_cons_of_ne_nil hne
      rw [hnumber] at hdigits
      simpa [hnumber] using hdigits d List.mem_cons_self

theorem first_eq_nil_of_head (h : ∀ c ∈ s.head?, Text.isDecimal c = true) :
    (ofText s).first = [] := by
  cases s with
  | nil => rfl
  | cons c s =>
      rw [ofText_cons]
      obtain ⟨digits, text, rest, hs⟩ | hs := number_or_text (ofText s)
      · rw [hs, push_of_number (h c rfl)]
      · rw [push_of_text (h c rfl) hs]

/-- A text behind a number stays one whatever comes in front of the name. -/
theorem mem_texts_append (h : text ∈ (ofText s).rest.map Prod.snd) (front : Text) :
    text ∈ (ofText (front ++ s)).rest.map Prod.snd := by
  induction front with
  | nil => exact h
  | cons c front ih =>
      rw [List.cons_append, ofText_cons]
      cases hc : Text.isDecimal c with
      | false => rwa [push_of_not_decimal hc]
      | true =>
          obtain ⟨digits, behind, rest, hr⟩ | hr := number_or_text (ofText (front ++ s))
          · rw [hr] at ih ⊢
            rwa [push_of_number hc]
          · rw [push_of_text hc hr]
            exact List.mem_cons_of_mem _ ih

/-- The texts of a name that are not empty are its longest stretches without a decimal digit. -/
theorem mem_texts_ofText_iff (hne : text ≠ []) :
    text ∈ (ofText s).texts ↔
      ∃ before behind, s = before ++ text ++ behind ∧
        (∀ c ∈ text, Text.isDecimal c = false) ∧
        (∀ c ∈ before.getLast?, Text.isDecimal c = true) ∧
        ∀ c ∈ behind.head?, Text.isDecimal c = true := by
  constructor
  · intro h
    have hdivided := divided_ofText s
    have hflatten := flatten_pieces_ofText s
    have htext := not_decimal_of_mem_texts hdivided h
    rcases List.mem_cons.mp h with hfirst | hrest
    · refine ⟨[], _, ?_, htext, by simp, head_flatten_of_numbers hdivided.numbers⟩
      rw [hfirst, List.nil_append]
      exact hflatten.symm
    · obtain ⟨p, hp, rfl⟩ := List.mem_map.mp hrest
      obtain ⟨front, back, hsplit⟩ := List.append_of_mem hp
      obtain ⟨hnumber, hdigits⟩ := hdivided.numbers p hp
      refine ⟨(ofText s).first ++ (front.flatMap fun p => [p.1, p.2]).flatten ++ p.1,
        (back.flatMap fun p => [p.1, p.2]).flatten, ?_, htext, ?_,
        head_flatten_of_numbers fun q hq => hdivided.numbers q (by simp [hsplit, hq])⟩
      · rw [pieces, hsplit] at hflatten
        refine hflatten.symm.trans ?_
        simp
      · rw [List.getLast?_append, List.getLast?_eq_some_getLast hnumber]
        intro c hc
        cases hc
        exact hdigits _ (List.getLast_mem hnumber)
  · rintro ⟨before, behind, rfl, htext, hbefore, hbehind⟩
    have hruns : ofText (text ++ behind) = ⟨text, (ofText behind).rest⟩ := by
      rw [ofText_append_text htext, first_eq_nil_of_head hbehind, List.append_nil]
    obtain rfl | ⟨front, c, rfl⟩ := List.eq_nil_or_concat before
    · rw [List.nil_append, hruns]
      exact List.mem_cons_self
    · have hc : Text.isDecimal c = true := hbefore c (by simp)
      have hnumber : text ∈ (ofText (c :: (text ++ behind))).rest.map Prod.snd := by
        rw [ofText_cons, hruns, push_of_text hc (.inl hne)]
        exact List.mem_cons_self
      have happend : front.concat c ++ text ++ behind = front ++ c :: (text ++ behind) := by simp
      rw [happend]
      exact List.mem_cons_of_mem _ (mem_texts_append hnumber front)

end Runs

end ShellDoc.Path
