import ShellDoc.Text.Blank
import Mathlib.Data.List.DropRight
import Mathlib.Data.List.TakeWhile

/-!
# Stripped, cut and joined texts

What is left of a text when the blanks at its ends are stripped, when it is cut at a character, and
when texts are joined.  A stripped text is a part of the text that neither begins nor ends with a
blank, and stripping it again does nothing.
-/

namespace ShellDoc.Text

/-! ## Stripping -/

theorem strip_cons_of_isBlank {c : Char} (h : isBlank c = true) (s : Text) :
    strip (c :: s) = strip s := by
  simp [strip, stripLeft, h]

theorem stripRight_append_of_isBlank {c : Char} (h : isBlank c = true) (s : Text) :
    stripRight (s ++ [c]) = stripRight s := by
  simp [stripRight, h]

theorem strip_append_of_isBlank {c : Char} (h : isBlank c = true) (s : Text) :
    strip (s ++ [c]) = strip s := by
  rw [strip, stripLeft, List.dropWhile_append]
  by_cases hblank : s.dropWhile isBlank = []
  · simp [strip, stripLeft, hblank, h]
  · simp [strip, stripLeft, hblank, stripRight_append_of_isBlank h]

theorem stripLeft_of_prefix {s t : Text} (h : s <+: t) (ht : stripLeft t = t) :
    stripLeft s = s := by
  cases s with
  | nil => rfl
  | cons c s =>
      obtain ⟨rest, rfl⟩ := h
      by_cases hc : isBlank c = true
      · have hlength := congrArg List.length ht
        have hdrop := List.length_dropWhile_le isBlank (s ++ rest)
        rw [stripLeft, List.cons_append, List.dropWhile_cons_of_pos hc, List.length_cons] at hlength
        omega
      · rw [stripLeft, List.dropWhile_cons_of_neg hc]

theorem strip_strip (s : Text) : strip (strip s) = strip s := by
  have hleft : stripLeft (stripLeft s) = stripLeft s := List.dropWhile_idempotent isBlank s
  have hprefix : stripRight (stripLeft s) <+: stripLeft s := List.rdropWhile_prefix isBlank _
  rw [strip, strip, stripLeft_of_prefix hprefix hleft]
  exact List.rdropWhile_idempotent isBlank (stripLeft s)

theorem strip_stripRight (s : Text) : strip (stripRight s) = strip s := by
  induction s using List.reverseRecOn with
  | nil => rfl
  | append_singleton s c ih =>
      by_cases hc : isBlank c = true
      · rw [stripRight_append_of_isBlank hc, strip_append_of_isBlank hc, ih]
      · have hkeep : stripRight (s ++ [c]) = s ++ [c] := by simp [stripRight, hc]
        rw [hkeep]

/-- A character that is not blank stays, and so does everything in front of it. -/
theorem stripRight_cons_of_not_isBlank {c : Char} (h : isBlank c = false) (s : Text) :
    stripRight (c :: s) = c :: stripRight s := by
  induction s using List.reverseRecOn with
  | nil => simp [stripRight, h]
  | append_singleton s d ih =>
      by_cases hd : isBlank d = true
      · rw [← List.cons_append, stripRight_append_of_isBlank hd, stripRight_append_of_isBlank hd]
        exact ih
      · simp [stripRight, hd]

theorem strip_cons_of_not_isBlank {c : Char} (h : isBlank c = false) (s : Text) :
    strip (c :: s) = c :: stripRight s := by
  have hleft : stripLeft (c :: s) = c :: s := by simp [stripLeft, h]
  rw [strip, hleft, stripRight_cons_of_not_isBlank h]

theorem strip_isInfix (s : Text) : strip s <:+: s := by
  have hright : strip s <+: stripLeft s := List.rdropWhile_prefix isBlank _
  have hleft : stripLeft s <:+ s := List.dropWhile_suffix isBlank
  exact hright.isInfix.trans hleft.isInfix

theorem not_isBlank_of_mem_head?_strip (s : Text) : ∀ c ∈ (strip s).head?, isBlank c = false := by
  intro c hc
  obtain ⟨rest, hrest⟩ : strip s <+: stripLeft s := List.rdropWhile_prefix isBlank _
  have hstop := List.head?_dropWhile_not isBlank s
  have hhead : (s.dropWhile isBlank).head? = some c := by
    rw [← stripLeft, ← hrest, List.head?_append, Option.mem_def.mp hc]
    rfl
  rw [hhead] at hstop
  exact hstop

theorem head?_strip_ne_space (s : Text) : (strip s).head? ≠ some ' ' := by
  intro hspace
  have hblank := not_isBlank_of_mem_head?_strip s ' ' hspace
  rw [isBlank_space] at hblank
  cases hblank

/-! ## Texts that do not end with a blank -/

def NoTrailingBlank (s : Text) : Prop := ∀ c ∈ s.getLast?, isBlank c = false

theorem noTrailingBlank_nil : NoTrailingBlank [] := nofun

theorem NoTrailingBlank.getLast?_ne_space {s : Text} (h : NoTrailingBlank s) :
    s.getLast? ≠ some ' ' := by
  intro hspace
  have hblank := h ' ' hspace
  rw [isBlank_space] at hblank
  cases hblank

theorem NoTrailingBlank.of_suffix {s t : Text} (hs : NoTrailingBlank s) (ht : t <:+ s) :
    NoTrailingBlank t := by
  obtain ⟨front, rfl⟩ := ht
  intro c hc
  apply hs c
  rw [List.getLast?_append, Option.mem_def.mp hc]
  rfl

theorem noTrailingBlank_strip (s : Text) : NoTrailingBlank (strip s) := by
  intro c hc
  rw [strip, stripRight, List.getLast?_reverse] at hc
  have hstop := List.head?_dropWhile_not isBlank (stripLeft s).reverse
  rw [Option.mem_def.mp hc] at hstop
  exact hstop

/-! ## Cutting and joining -/

/-- A text without the separator is not cut, and any other one is cut at its first separator. -/
theorem cut_cases (sep : Char) (s : Text) :
    (sep ∉ s ∧ cut sep s = (s, [])) ∨
      ∃ front back, s = front ++ sep :: back ∧ sep ∉ front ∧ cut sep s = (front, back) := by
  by_cases h : sep ∈ s
  · obtain ⟨front, back, rfl, hfront⟩ := List.eq_append_cons_of_mem h
    exact .inr ⟨front, back, rfl, hfront, cut_append sep front back hfront⟩
  · have hall : ∀ c ∈ s, (c != sep) = true := by
      intro c hc
      simpa using ne_of_mem_of_not_mem hc h
    refine .inl ⟨h, ?_⟩
    rw [cut, List.takeWhile_eq_self_iff.mpr hall, List.dropWhile_eq_nil_iff.mpr hall]
    rfl

theorem cut_snd_suffix (sep : Char) (s : Text) : (cut sep s).2 <:+ s :=
  (List.drop_suffix 1 _).trans (List.dropWhile_suffix _)

theorem join_cons_ne_nil (sep : Text) {part : Text} (h : part ≠ []) (parts : List Text) :
    join sep (part :: parts) ≠ [] := by
  cases parts with
  | nil => simpa using h
  | cons next parts => simp [join_cons_cons, h]

theorem noTrailingBlank_join (sep : Text) {parts : List Text}
    (h : ∀ part ∈ parts, part ≠ [] ∧ NoTrailingBlank part) : NoTrailingBlank (join sep parts) := by
  induction parts with
  | nil => exact noTrailingBlank_nil
  | cons part parts ih =>
      rw [List.forall_mem_cons] at h
      cases parts with
      | nil =>
          rw [join_singleton]
          exact h.1.2
      | cons next parts =>
          have hrest : join sep (next :: parts) ≠ [] :=
            join_cons_ne_nil sep (h.2 next List.mem_cons_self).1 parts
          have hlast : (join sep (part :: next :: parts)).getLast? =
              (join sep (next :: parts)).getLast? := by
            rw [join_cons_cons, List.getLast?_append_of_ne_nil _ (by simp [hrest]),
              List.getLast?_append_of_ne_nil _ hrest]
          rw [NoTrailingBlank, hlast]
          exact ih h.2

end ShellDoc.Text
