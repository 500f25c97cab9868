import ShellDoc.Proofs.InterpreterLines
import ShellDoc.Proofs.WholeBlocks

/-!
# The normal form of a line

A line in normal form has no tab and no two spaces side by side (`singleSpaced_normalize`), and
stripping it does nothing; that is all that the normal form asks for, so it is its own normal form.
The words of a line are those of its normal form.

Of a raw line only blanks get lost: the ends, which are stripped, and spaces and tabs between other
characters.  Leaving out blanks and stripping can be done in either order (`Text.strip_filter`), and
without spaces and tabs there is nothing else to be done.
-/

namespace ShellDoc

namespace Text

variable {p : Char → Bool}

theorem stripLeft_cons_of_isBlank {c : Char} (h : isBlank c = true) (s : Text) :
    stripLeft (c :: s) = stripLeft s :=
  List.dropWhile_cons_of_pos h

theorem stripLeft_cons_of_not_isBlank {c : Char} (h : isBlank c = false) (s : Text) :
    stripLeft (c :: s) = c :: s :=
  List.dropWhile_cons_of_neg (by simp [h])

theorem stripLeft_filter (hp : ∀ c, isBlank c = false → p c = true) (s : Text) :
    stripLeft (s.filter p) = (stripLeft s).filter p := by
  induction s with
  | nil => rfl
  | cons c s ih =>
      cases hc : isBlank c with
      | true =>
          rw [stripLeft_cons_of_isBlank hc, ← ih, List.filter_cons]
          split
          · exact stripLeft_cons_of_isBlank hc _
          · rfl
      | false =>
          rw [stripLeft_cons_of_not_isBlank hc, List.filter_cons_of_pos (hp c hc),
            stripLeft_cons_of_not_isBlank hc]

/-- Blanks can be left out before or after the blanks at the ends are. -/
theorem strip_filter (hp : ∀ c, isBlank c = false → p c = true) (s : Text) :
    strip (s.filter p) = (strip s).filter p := by
  have hright (t : Text) : stripRight (t.filter p) = (stripRight t).filter p := by
    have hreverse (t : Text) : stripRight t = (stripLeft t.reverse).reverse := rfl
    rw [hreverse, hreverse, ← List.filter_reverse, stripLeft_filter hp, List.filter_reverse]
  rw [strip, strip, stripLeft_filter hp, hright]

theorem words_strip (s : Text) : words (strip s) = words s := by
  rw [strip, words_stripRight]
  induction s with
  | nil => rfl
  | cons c s ih =>
      cases hc : isBlank c with
      | true => rw [stripLeft_cons_of_isBlank hc, ih, words_cons_blank hc]
      | false => rw [stripLeft_cons_of_not_isBlank hc]

end Text

namespace Script

/-- Without its spaces a text has no runs of them. -/
theorem filter_squeeze (s : Text) : (squeeze s).filter (· ≠ ' ') = s.filter (· ≠ ' ') := by
  induction s with
  | nil => rfl
  | cons c s ih =>
      rw [squeeze]
      split
      · rename_i hrun
        rw [ih, hrun.1]
        rfl
      · rw [List.filter_cons, List.filter_cons, ih]

theorem filter_map_untab (s : Text) :
    (s.map untab).filter (· ≠ ' ') = s.filter fun c => c ≠ ' ' ∧ c ≠ '\t' := by
  induction s with
  | nil => rfl
  | cons c s ih =>
      rw [List.map_cons, List.filter_cons, List.filter_cons, ih]
      by_cases hc : c = '\t'
      · simp [untab, hc]
      · simp [untab, hc]

theorem strip_normalize (raw : Text) : Text.strip (normalize raw) = normalize raw :=
  Text.strip_strip _

/-- A line in normal form has no tab, no two spaces side by side, and no blank at either end.  It is
its own normal form, it has the words of the raw line, and, spaces and tabs apart, all of its
characters in their order, but for the blanks at the ends. -/
theorem line_normal_form (raw : Text) :
    let line := normalize raw
    '\t' ∉ line ∧ ¬ [' ', ' '] <:+: line ∧
      (∀ c ∈ line.head?, Text.isBlank c = false) ∧
      (∀ c ∈ line.getLast?, Text.isBlank c = false) ∧
      normalize line = line ∧ Text.words line = Text.words raw ∧
      line.filter (· ≠ ' ') = (Text.strip raw).filter fun c => c ≠ ' ' ∧ c ≠ '\t' := by
  intro line
  have hspaced := singleSpaced_normalize raw
  have hne {c d : Char} (hc : Text.isBlank c = false) (hd : Text.isBlank d = true) : c ≠ d := by
    rintro rfl
    cases hc.symm.trans hd
  have hspace (c : Char) (hc : Text.isBlank c = false) : decide (c ≠ ' ') = true :=
    decide_eq_true (hne hc Text.isBlank_space)
  have hgap (c : Char) (hc : Text.isBlank c = false) : decide (c ≠ ' ' ∧ c ≠ '\t') = true :=
    decide_eq_true ⟨hne hc Text.isBlank_space, hne hc Text.isBlank_tab⟩
  refine ⟨hspaced.tab, fun hrun => ?_, Text.not_isBlank_of_mem_head?_strip _,
    Text.noTrailingBlank_strip _, ?_, ?_, ?_⟩
  · have hchain := List.IsChain.infix hspaced.spaces hrun
    rw [List.isChain_cons] at hchain
    exact hchain.1 ' ' rfl ⟨rfl, rfl⟩
  · rw [normalize_of_singleSpaced hspaced, strip_normalize]
  · calc Text.words line
        = Text.words (squeeze (raw.map untab)) := Text.words_strip _
      _ = Text.words raw := by rw [words_squeeze, words_map_untab]
  · calc line.filter (· ≠ ' ')
        = Text.strip ((squeeze (raw.map untab)).filter (· ≠ ' ')) :=
          (Text.strip_filter hspace _).symm
      _ = Text.strip (raw.filter fun c => c ≠ ' ' ∧ c ≠ '\t') := by
          rw [filter_squeeze, filter_map_untab]
      _ = (Text.strip raw).filter fun c => c ≠ ' ' ∧ c ≠ '\t' := Text.strip_filter hgap raw

end Script

end ShellDoc
