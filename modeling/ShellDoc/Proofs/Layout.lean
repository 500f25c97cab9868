import ShellDoc.Proofs.PageStream
import ShellDoc.Proofs.TextParts
import Mathlib.Logic.Relation

/-!
# The layout of a script

A page does not show how its script is laid out: how lines are indented and ended, where tabs stand
for spaces, and how many empty lines there are behind the first line.  An edit of the layout
replaces a line by one with the same normal form, or puts in or takes out a line whose normal form
is empty (`LayoutEdit`).

The first line is special, because an interpreter line is one only there.  Of the other lines those
that are empty only add to the number of lines of a block, which no page shows.  So a recognizer is
followed without that number (`Recognizer.uncounted`), and what is left of a script is its
`outline`: the normal forms of its first line and of the other lines that are not empty.
-/

namespace ShellDoc

/-! ## Blanks around a line -/

namespace Script

theorem isBlank_untab (c : Char) : Text.isBlank (untab c) = Text.isBlank c := by
  by_cases hc : c = '\t'
  · simp [untab, hc, Text.isBlank_space, Text.isBlank_tab]
  · simp [untab, hc]

theorem squeeze_append_of_ne {c : Char} (h : c ≠ ' ') (s : Text) :
    squeeze (s ++ [c]) = squeeze s ++ [c] := by
  induction s with
  | nil => simp [squeeze, h]
  | cons d s ih =>
      cases s with
      | nil => simp [squeeze, h]
      | cons e s =>
          by_cases hrun : d = ' ' ∧ e = ' '
          · simpa [squeeze, hrun] using ih
          · simpa [squeeze, hrun] using ih

/-- A space at the end joins the run in front of it, or stays. -/
theorem squeeze_append_space (s : Text) :
    squeeze (s ++ [' ']) = squeeze s ∨ squeeze (s ++ [' ']) = squeeze s ++ [' '] := by
  induction s with
  | nil => exact .inr rfl
  | cons d s ih =>
      cases s with
      | nil => by_cases hd : d = ' ' <;> simp [squeeze, hd]
      | cons e s =>
          by_cases hrun : d = ' ' ∧ e = ' '
          · simpa [squeeze, hrun] using ih
          · simpa [squeeze, hrun] using ih

theorem normalize_cons_of_isBlank {c : Char} (h : Text.isBlank c = true) (raw : Text) :
    normalize (c :: raw) = normalize raw := by
  have hblank := (isBlank_untab c).trans h
  rw [normalize, normalize, List.map_cons, squeeze]
  split
  · rfl
  · exact Text.strip_cons_of_isBlank hblank _

theorem normalize_append_of_isBlank {c : Char} (h : Text.isBlank c = true) (raw : Text) :
    normalize (raw ++ [c]) = normalize raw := by
  have hblank := (isBlank_untab c).trans h
  rw [normalize, normalize, List.map_append, List.map_singleton]
  by_cases hc : untab c = ' '
  · rw [hc]
    rcases squeeze_append_space (raw.map untab) with hsame | hspace
    · rw [hsame]
    · rw [hspace, Text.strip_append_of_isBlank Text.isBlank_space]
  · rw [squeeze_append_of_ne hc, Text.strip_append_of_isBlank hblank]

/-- Blanks around a line, such as its indentation and its line end, do not change its normal
form. -/
theorem normalize_between_blanks {indent ending : Text} (hindent : indent.all Text.isBlank = true)
    (hending : ending.all Text.isBlank = true) (raw : Text) :
    normalize (indent ++ raw ++ ending) = normalize raw := by
  rw [List.all_eq_true] at hindent hending
  have hfront : normalize (indent ++ raw) = normalize raw := by
    induction indent with
    | nil => rfl
    | cons c indent ih =>
        rw [List.forall_mem_cons] at hindent
        rw [List.cons_append, normalize_cons_of_isBlank hindent.1, ih hindent.2]
  rw [← hfront]
  generalize indent ++ raw = line
  induction ending generalizing line with
  | nil => rw [List.append_nil]
  | cons c ending ih =>
      rw [List.forall_mem_cons] at hending
      rw [List.append_cons, ih hending.2, normalize_append_of_isBlank hending.1]

/-- A tab can stand for a space. -/
theorem normalize_map_untab (raw : Text) : normalize (raw.map untab) = normalize raw := by
  have huntab : untab ∘ untab = untab := by
    funext c
    by_cases hc : c = '\t' <;> simp [untab, hc]
  rw [normalize, List.map_map, huntab, normalize]

end Script

/-! ## Blocks without their number of lines -/

def DocBlock.uncounted (b : DocBlock) : DocBlock := { b with lineCount := 0 }

/-- The section of a block does not show how many lines the block has. -/
theorem Page.sectionLines_uncounted (dialect : Text) (b : DocBlock) :
    sectionLines dialect b.uncounted = sectionLines dialect b := rfl

namespace Draft

def uncounted (d : Draft) : Draft := { d with block := d.block.uncounted }

theorem uncounted_addLines (n : Nat) (d : Draft) : (d.addLines n).uncounted = d.uncounted := rfl

theorem addLines_uncounted (d : Draft) : d.uncounted.addLines d.block.lineCount = d := by
  simp [uncounted, DocBlock.uncounted, addLines, DocBlock.addLines]

theorem uncounted_consume (d : Draft) (content : Text) :
    (d.uncounted.consume content).uncounted = (d.consume content).uncounted := by
  have hread : d.read content = (d.uncounted.read content).addLines d.block.lineCount := by
    rw [← read_addLines, addLines_uncounted]
  rw [consume_eq_addLines, consume_eq_addLines, uncounted_addLines, uncounted_addLines, hread,
    uncounted_addLines]

end Draft

def Phase.uncounted : Phase → Phase
  | .outside => .outside
  | .inside d => .inside d.uncounted
  | .awaiting d => .awaiting d.uncounted

namespace Recognizer

def uncounted (r : Recognizer) : Recognizer := { r with phase := r.phase.uncounted }

/-- The number of lines has no effect on what a recognizer does. -/
theorem feed_uncounted (r : Recognizer) (line : Text) :
    (r.uncounted.feed line).emitted.map DocBlock.uncounted =
        (r.feed line).emitted.map DocBlock.uncounted ∧
      (r.uncounted.feed line).next.uncounted = (r.feed line).next.uncounted := by
  obtain ⟨keyword, phase, discarded⟩ := r
  cases phase with
  | outside => exact ⟨rfl, rfl⟩
  | inside d =>
      by_cases h : line = blockMark
      · subst h
        exact ⟨rfl, rfl⟩
      · simp [feed, uncounted, Phase.uncounted, h, Draft.uncounted_consume]
  | awaiting d =>
      by_cases h : line = []
      · subst h
        exact ⟨rfl, rfl⟩
      · simp only [feed, uncounted, Phase.uncounted, if_neg h]
        exact ⟨rfl, rfl⟩

/-- An empty line finishes no block, and a recognizer only counts it. -/
theorem feed_nil (r : Recognizer) :
    (r.feed []).emitted = none ∧ (r.feed []).next.uncounted = r.uncounted := by
  obtain ⟨keyword, phase, discarded⟩ := r
  cases phase with
  | outside => exact ⟨rfl, rfl⟩
  | inside d => exact ⟨rfl, rfl⟩
  | awaiting d => exact ⟨rfl, rfl⟩

theorem feed_congr {r r' : Recognizer} (h : r.uncounted = r'.uncounted) (line : Text) :
    (r.feed line).emitted.map DocBlock.uncounted =
        (r'.feed line).emitted.map DocBlock.uncounted ∧
      (r.feed line).next.uncounted = (r'.feed line).next.uncounted := by
  have hr := feed_uncounted r line
  rw [h] at hr
  exact ⟨hr.1.symm.trans (feed_uncounted r' line).1, hr.2.symm.trans (feed_uncounted r' line).2⟩

/-- Without the numbers of lines, the blocks are those in the lines that are not empty. -/
theorem feedAll_filter {r r' : Recognizer} (h : r.uncounted = r'.uncounted) (lines : List Text) :
    (r.feedAll lines).1.map DocBlock.uncounted =
        (r'.feedAll (lines.filter (· ≠ []))).1.map DocBlock.uncounted ∧
      (r.feedAll lines).2.uncounted = (r'.feedAll (lines.filter (· ≠ []))).2.uncounted := by
  induction lines generalizing r r' with
  | nil => exact ⟨rfl, h⟩
  | cons line lines ih =>
      by_cases hline : line = []
      · subst hline
        obtain ⟨hemitted, hnext⟩ := feed_nil r
        rw [List.filter_cons_of_neg (by simp), feedAll_cons, hemitted]
        exact ih (hnext.trans h)
      · obtain ⟨hemitted, hnext⟩ := feed_congr h line
        obtain ⟨hblocks, hlast⟩ := ih hnext
        have hfirst : (r.feed line).emitted.toList.map DocBlock.uncounted =
            (r'.feed line).emitted.toList.map DocBlock.uncounted := by
          rw [← Option.toList_map, ← Option.toList_map, hemitted]
        rw [List.filter_cons_of_pos (by simpa using hline), feedAll_cons, feedAll_cons]
        exact ⟨by rw [List.map_append, List.map_append, hfirst, hblocks], hlast⟩

theorem discarded_finish_of_uncounted {r r' : Recognizer} (h : r.uncounted = r'.uncounted) :
    r.finish.discarded = r'.finish.discarded := by
  have hfinish : ∀ r : Recognizer, r.finish.discarded = r.uncounted.finish.discarded := by
    rintro ⟨keyword, phase, discarded⟩
    cases phase <;> rfl
  rw [hfinish, h, ← hfinish]

end Recognizer

/-! ## Scripts with the same outline -/

namespace Script

/-- What remains of a script without its layout. -/
def outline : List Text → List Text
  | [] => []
  | raw :: raws => normalize raw :: (raws.map normalize).filter (· ≠ [])

theorem LineReader.feed_congr (r : LineReader) {raw raw' : Text}
    (h : normalize raw = normalize raw') : r.feed raw = r.feed raw' := by
  simp only [feed, h]

theorem LineReader.feedAll_cons_eq (r : LineReader) (raw : Text) (raws : List Text) :
    (r.feedAll (raw :: raws)).1 = (r.feed raw).1.toList ++ raws.map normalize := by
  have hpos : 0 < (r.feed raw).2.lineNumber := by
    rw [lineNumber_feed]
    exact Nat.succ_pos _
  rw [feedAll_cons, feedAll_of_pos hpos]

theorem LineReader.dialect_feedAll_cons (r : LineReader) (raw : Text) (raws : List Text) :
    (r.feedAll (raw :: raws)).2.dialect = (r.feed raw).2.dialect :=
  r.dialect_feedAll_feed raw raws

end Script

/-- Scripts with the same outline have the same blocks, save for the numbers of lines, the same
dialect and as many discarded blocks. -/
theorem Inspection.eq_of_outline_eq (dialects : Script.Dialects) {raws raws' : List Text}
    (h : Script.outline raws = Script.outline raws') :
    let i := Inspection.ofLines dialects raws
    let i' := Inspection.ofLines dialects raws'
    i.blocks.map DocBlock.uncounted = i'.blocks.map DocBlock.uncounted ∧
      i.dialect = i'.dialect ∧ i.discarded = i'.discarded := by
  cases raws with
  | nil =>
      cases raws' with
      | nil => exact ⟨rfl, rfl, rfl⟩
      | cons raw' raws' => cases h
  | cons raw raws =>
      cases raws' with
      | nil => cases h
      | cons raw' raws' =>
          rw [Script.outline, Script.outline, List.cons.injEq] at h
          obtain ⟨hfirst, hrest⟩ := h
          let reader := Script.LineReader.start dialects
          have hfeed := reader.feed_congr hfirst
          let r := (({} : Recognizer).feedAll (reader.feed raw').1.toList).2
          obtain ⟨hblocks, hlast⟩ := r.feedAll_filter rfl (raws.map Script.normalize)
          obtain ⟨hblocks', hlast'⟩ := r.feedAll_filter rfl (raws'.map Script.normalize)
          rw [hrest] at hblocks hlast
          simp only [ofLines, Recognizer.parse]
          rw [reader.feedAll_cons_eq, reader.feedAll_cons_eq, hfeed, Recognizer.feedAll_append,
            Recognizer.feedAll_append]
          refine ⟨?_, ?_, ?_⟩
          · rw [List.map_append, List.map_append, hblocks, hblocks']
          · rw [reader.dialect_feedAll_cons, reader.dialect_feedAll_cons, hfeed]
          · exact Recognizer.discarded_finish_of_uncounted (hlast.trans hlast'.symm)

theorem Inspection.pageText_eq_uncounted (i : Inspection) (copyright title : Text) :
    i.pageText copyright title =
      ({ i with blocks := i.blocks.map DocBlock.uncounted } : Inspection).pageText copyright
        title := by
  simp only [pageText, List.flatMap_map, Page.sectionLines_uncounted]

/-! ## Edits -/

/-- One edit of the layout of a script. -/
inductive LayoutEdit : List Text → List Text → Prop
  | line (front back : List Text) {old new : Text}
      (same : Script.normalize old = Script.normalize new) :
      LayoutEdit (front ++ old :: back) (front ++ new :: back)
  | insert (first : Text) (front back : List Text) {blank : Text}
      (empty : Script.normalize blank = []) :
      LayoutEdit (first :: front ++ back) (first :: front ++ blank :: back)
  | remove (first : Text) (front back : List Text) {blank : Text}
      (empty : Script.normalize blank = []) :
      LayoutEdit (first :: front ++ blank :: back) (first :: front ++ back)

namespace LayoutEdit

theorem outline_eq {raws raws' : List Text} (h : LayoutEdit raws raws') :
    Script.outline raws = Script.outline raws' := by
  cases h with
  | line front back same => cases front <;> simp [Script.outline, same]
  | insert first front back empty => simp [Script.outline, empty]
  | remove first front back empty => simp [Script.outline, empty]

theorem outline_eq_of_edits {raws raws' : List Text}
    (h : Relation.ReflTransGen LayoutEdit raws raws') :
    Script.outline raws = Script.outline raws' := by
  induction h with
  | refl => rfl
  | tail _ hedit ih => exact ih.trans hedit.outline_eq

/-- A line with another indentation and another line end, and with tabs in the place of spaces or
the other way round. -/
theorem reindent (front back : List Text) (indent indent' raw raw' ending ending' : Text)
    (hblank : [indent, indent', ending, ending'].all (List.all · Text.isBlank) = true)
    (htabs : raw.map Script.untab = raw'.map Script.untab) :
    LayoutEdit (front ++ (indent ++ raw ++ ending) :: back)
      (front ++ (indent' ++ raw' ++ ending') :: back) := by
  simp only [List.all_cons, List.all_nil, Bool.and_true, Bool.and_eq_true] at hblank
  obtain ⟨hindent, hindent', hending, hending'⟩ := hblank
  refine .line front back ?_
  rw [Script.normalize_between_blanks hindent hending,
    Script.normalize_between_blanks hindent' hending', ← Script.normalize_map_untab, htabs,
    Script.normalize_map_untab]

end LayoutEdit

/-- Edits of the layout, as many as there may be and wherever they are, leave the page of a script
as it is: its text and the number of its sections. -/
theorem document_of_layoutEdits (s : Settings) (title : Text) {raws raws' : List Text}
    (h : Relation.ReflTransGen LayoutEdit raws raws') :
    let page := Page.document s.dialects s.copyright title raws
    let page' := Page.document s.dialects s.copyright title raws'
    page.text = page'.text ∧ page.count = page'.count ∧
      page.recognizer.discarded = page'.recognizer.discarded := by
  intro page page'
  obtain ⟨hblocks, hdialect, hdiscarded⟩ :=
    Inspection.eq_of_outline_eq s.dialects (LayoutEdit.outline_eq_of_edits h)
  refine ⟨?_, ?_, ?_⟩
  · rw [Page.text_document, Page.text_document, Inspection.pageText_eq_uncounted,
      Inspection.pageText_eq_uncounted (Inspection.ofLines s.dialects raws')]
    simp only [Inspection.pageText, hblocks, hdialect]
  · have hcount := congrArg List.length hblocks
    rw [List.length_map, List.length_map] at hcount
    rw [Page.count_document, Page.count_document, hcount]
  · rw [Page.discarded_document, Page.discarded_document, hdiscarded]

/-- A comment with an empty line more, an indentation, a tab and another line end. -/
theorem document_of_layoutEdits_comment :
    let raws : List Text := ["#!/bin/bash\n", "#/\n", ['#', ' ', 'A', '\n'], "#/\n", "f\n"]
    let raws' : List Text := ["#!/bin/bash\n", "#/\n", ['\t', '\n'],
      [' ', '#', '\t', 'A', '\r', '\n'], "#/\n", "f\n"]
    let s : Settings := {}
    Relation.ReflTransGen LayoutEdit raws raws' ∧
      (Page.document s.dialects s.copyright "F" raws).text =
        (Page.document s.dialects s.copyright "F" raws').text := by
  intro raws raws' s
  have hinsert : LayoutEdit raws
      ["#!/bin/bash\n", "#/\n", ['\t', '\n'], ['#', ' ', 'A', '\n'], "#/\n", "f\n"] :=
    .insert "#!/bin/bash\n" ["#/\n"] [['#', ' ', 'A', '\n'], "#/\n", "f\n"] rfl
  have hindent : LayoutEdit
      ["#!/bin/bash\n", "#/\n", ['\t', '\n'], ['#', ' ', 'A', '\n'], "#/\n", "f\n"] raws' :=
    .reindent ["#!/bin/bash\n", "#/\n", ['\t', '\n']] ["#/\n", "f\n"] [] [' ']
      ['#', ' ', 'A'] ['#', '\t', 'A'] ['\n'] ['\r', '\n'] rfl rfl
  have hedits := (Relation.ReflTransGen.single hinsert).tail hindent
  exact ⟨hedits, (document_of_layoutEdits s "F" hedits).1⟩

end ShellDoc
