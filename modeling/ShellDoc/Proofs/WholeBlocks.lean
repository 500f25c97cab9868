import ShellDoc.Proofs.CleanText
import ShellDoc.Proofs.RecognizerHistory

/-!
# Blocks on one line

A block on one line stands for three lines: a mark, its content as a comment, and a mark again
(`wholeBlockLines`).  A recognizer that is outside is left in the same state by both
(`feedAll_wholeBlockLines`): the comment sign and the space in front of the content go, the content
is stripped already, and a line with that space is not taken for the closing mark.

In a script, any such line can be replaced as long as the recognizer meets it outside of a block
(`BlockExpansion`).  The lines of the script are brought to normal form first, which leaves the
content of the comment as it is, because it comes from a line with single spaces.  Behind the
replaced lines two writers go on side by side that differ in nothing but the number of lines that
they have read; behind the first line of a script, this number decides nothing
(`Writer.feedAll_renumber`).
-/

namespace ShellDoc

/-! ## The three lines -/

/-- The lines that a block on one line stands for. -/
def wholeBlockLines (line : Text) : List Text :=
  [blockMark, '#' :: ' ' :: wholeBlockContent line, blockMark]

/-- A block on one line has a text between two marks, and its content is that text, stripped. -/
theorem exists_middle_of_isWholeBlock {line : Text} (h : isWholeBlock line = true) :
    ∃ middle, middle ≠ [] ∧ line = blockMark ++ middle ++ blockMark ∧
      wholeBlockContent line = Text.strip middle := by
  simp only [isWholeBlock, Bool.and_eq_true, List.isPrefixOf_iff_prefix, List.isSuffixOf_iff_suffix,
    decide_eq_true_eq] at h
  obtain ⟨⟨⟨rest, rfl⟩, hsuffix⟩, hlength⟩ := h
  have hmark : blockMark.length = 2 := rfl
  rw [List.length_append, hmark] at hlength
  obtain ⟨middle, rfl⟩ : blockMark <:+ rest :=
    List.suffix_of_suffix_length_le hsuffix (List.suffix_append _ _) (by omega)
  rw [List.length_append, hmark] at hlength
  refine ⟨middle, ?_, (List.append_assoc _ _ _).symm, ?_⟩
  · exact List.ne_nil_of_length_pos (by omega)
  · have hdrop : (blockMark ++ (middle ++ blockMark)).drop 2 = middle ++ blockMark := rfl
    rw [wholeBlockContent, hdrop]
    congr 1
    apply List.take_left'
    simp only [List.length_append, hmark]
    omega

theorem strip_wholeBlockContent (line : Text) :
    Text.strip (wholeBlockContent line) = wholeBlockContent line := Text.strip_strip _

theorem commentContent_comment (t : Text) : commentContent ('#' :: ' ' :: t) = Text.strip t :=
  Text.strip_cons_of_isBlank Text.isBlank_space t

namespace Recognizer

variable {r : Recognizer} {line : Text}

theorem feed_of_isWholeBlock (h : r.phase = .outside) (hwhole : isWholeBlock line = true) :
    r.feed line = ⟨{ r with phase := .awaiting (({} : Draft).consume (wholeBlockContent line)) },
      none, none⟩ := by
  have hmark : blockMark.isPrefixOf line = true := by
    simp only [isWholeBlock, Bool.and_eq_true] at hwhole
    exact hwhole.1.1
  rw [feed_opening h hmark, opened, if_pos hwhole]

theorem feed_blockMark_of_outside (h : r.phase = .outside) :
    r.feed blockMark = ⟨{ r with phase := .inside {} }, none, none⟩ :=
  feed_opening h rfl

/-- Outside, a block on one line and its three lines lead to the same state. -/
theorem feedAll_wholeBlockLines (h : r.phase = .outside) (hwhole : isWholeBlock line = true) :
    r.feedAll (wholeBlockLines line) = ([], (r.feed line).next) := by
  have hcomment : '#' :: ' ' :: wholeBlockContent line ≠ blockMark := by
    intro he
    cases he
  rw [wholeBlockLines, feedAll_cons, feed_blockMark_of_outside h, feedAll_cons,
    feed_of_inside rfl hcomment, feedAll_cons, feed_blockMark_of_inside rfl,
    commentContent_comment, strip_wholeBlockContent, feed_of_isWholeBlock h hwhole]
  rfl

end Recognizer

/-! ## Their normal forms -/

namespace Script

theorem squeeze_of_isChain {s : Text} (h : s.IsChain fun c d => ¬ (c = ' ' ∧ d = ' ')) :
    squeeze s = s := by
  induction s with
  | nil => rfl
  | cons c s ih =>
      rw [List.isChain_cons] at h
      have hrun : ¬ (c = ' ' ∧ s.head? = some ' ') := fun he => h.1 ' ' he.2 ⟨he.1, rfl⟩
      rw [squeeze, if_neg hrun, ih h.2]

theorem normalize_of_singleSpaced {s : Text} (h : s.SingleSpaced) :
    normalize s = Text.strip s := by
  have huntab : s.map untab = s := by
    conv_rhs => rw [← List.map_id s]
    refine List.map_congr_left fun c hc => if_neg ?_
    rintro rfl
    exact h.tab hc
  rw [normalize, huntab, squeeze_of_isChain h.spaces]

theorem normalize_append_ending {ending : Text} (h : ending.all Text.isBlank = true) (s : Text) :
    normalize (s ++ ending) = normalize s := @normalize_between_blanks [] ending rfl h s

/-- A comment line with a content that is stripped keeps it, and is not taken for a mark. -/
theorem normalize_comment {t ending : Text} (ht : t.SingleSpaced) (hstrip : Text.strip t = t)
    (hending : ending.all Text.isBlank = true) :
    normalize ('#' :: ' ' :: t ++ ending) ≠ blockMark ∧
      commentContent (normalize ('#' :: ' ' :: t ++ ending)) = t := by
  have hspaced : Text.SingleSpaced ('#' :: ' ' :: t) := by
    refine ⟨by simp [ht.tab], ?_⟩
    rw [List.isChain_cons, List.isChain_cons]
    refine ⟨by simp, ?_, ht.spaces⟩
    rintro c hc ⟨-, rfl⟩
    rw [← hstrip] at hc
    exact Text.head?_strip_ne_space t hc
  have hnormal : normalize ('#' :: ' ' :: t ++ ending) = '#' :: Text.stripRight (' ' :: t) := by
    rw [normalize_append_ending hending, normalize_of_singleSpaced hspaced,
      Text.strip_cons_of_not_isBlank (by decide)]
  rw [hnormal]
  constructor
  · intro hmark
    -- Behind the comment sign stands the space, or nothing, but never the slash of a mark.
    have hcut : Text.stripRight (' ' :: t) <+: ' ' :: t := List.rdropWhile_prefix Text.isBlank _
    have hslash : Text.stripRight (' ' :: t) = ['/'] := List.tail_eq_of_cons_eq hmark
    rw [hslash, List.cons_prefix_cons] at hcut
    exact absurd hcut.1 (by decide)
  · have hcontent : commentContent ('#' :: Text.stripRight (' ' :: t)) =
        Text.strip (Text.stripRight (' ' :: t)) := rfl
    rw [hcontent, Text.strip_stripRight, Text.strip_cons_of_isBlank Text.isBlank_space, hstrip]

theorem singleSpaced_wholeBlockContent (raw : Text) :
    (wholeBlockContent (normalize raw)).SingleSpaced := by
  apply (singleSpaced_normalize raw).part
  exact (Text.strip_isInfix _).trans
    ((List.take_prefix _ _).isInfix.trans (List.drop_suffix _ _).isInfix)

theorem LineReader.feed_of_blockMark {r : LineReader} {raw : Text}
    (h : blockMark.isPrefixOf (normalize raw) = true) :
    r.feed raw = (some (normalize raw), { r with lineNumber := r.lineNumber + 1 }) := by
  refine if_neg ?_
  rintro ⟨-, hmark⟩
  obtain ⟨rest, hrest⟩ := List.isPrefixOf_iff_prefix.mp h
  rw [← hrest] at hmark
  cases hmark

end Script

/-! ## Writers -/

namespace Page.Writer

/-- The writer with another number of lines read. -/
def renumber (n : Nat) (w : Writer) : Writer :=
  { w with reader := { w.reader with lineNumber := n } }

/-- A line that finishes no block and gives no notice. -/
theorem feed_of_step {w : Writer} {raw line : Text} {reader : Script.LineReader}
    {recognizer : Recognizer} (hread : w.reader.feed raw = (some line, reader))
    (hstep : w.recognizer.feed line = ⟨recognizer, none, none⟩) :
    w.feed raw = { w with reader, recognizer } := by
  simp [feed, hread, hstep]

/-- Behind the first line, the number of lines read decides nothing. -/
theorem feed_renumber {w : Writer} (hw : 0 < w.reader.lineNumber) {n : Nat} (hn : 0 < n)
    (raw : Text) : (w.renumber n).feed raw = (w.feed raw).renumber (n + 1) := by
  have hread := Script.LineReader.feed_of_pos hw raw
  have hread' := Script.LineReader.feed_of_pos (r := (w.renumber n).reader) hn raw
  rw [feed_of_some (congrArg Prod.fst hread), feed_of_some (congrArg Prod.fst hread'), hread,
    hread']
  rfl

theorem feedAll_renumber {w : Writer} (hw : 0 < w.reader.lineNumber) {n : Nat} (hn : 0 < n)
    (raws : List Text) :
    (w.renumber n).feedAll raws = (w.feedAll raws).renumber (n + raws.length) := by
  induction raws generalizing w n with
  | nil => rfl
  | cons raw raws ih =>
      have hpos : 0 < (w.feed raw).reader.lineNumber := by
        rw [reader_feed, Script.LineReader.lineNumber_feed]
        exact Nat.succ_pos _
      rw [feedAll_cons, feed_renumber hw hn, ih hpos (Nat.add_pos_left hn 1), feedAll_cons,
        List.length_cons, Nat.add_assoc, Nat.add_comm 1]

/-- Outside, a writer that reads the three lines is where it is behind the one line. -/
theorem feedAll_wholeBlockLines {w : Writer} (houtside : w.recognizer.phase = .outside)
    {raw ending : Text} (hwhole : isWholeBlock (Script.normalize raw) = true)
    (hending : ending.all Text.isBlank = true) :
    w.feedAll ((wholeBlockLines (Script.normalize raw)).map (· ++ ending)) =
      (w.feed raw).renumber (w.reader.lineNumber + 3) := by
  obtain ⟨hcomment, hcontent⟩ := Script.normalize_comment
    (Script.singleSpaced_wholeBlockContent raw) (strip_wholeBlockContent _) hending
  have hmark : Script.normalize (blockMark ++ ending) = blockMark :=
    Script.normalize_append_ending hending blockMark
  have hline : blockMark.isPrefixOf (Script.normalize raw) = true := by
    simp only [isWholeBlock, Bool.and_eq_true] at hwhole
    exact hwhole.1.1
  have hmarkLine : ∀ r : Script.LineReader, r.feed (blockMark ++ ending) =
      (some blockMark, { r with lineNumber := r.lineNumber + 1 }) := by
    intro r
    rw [Script.LineReader.feed_of_blockMark (by rw [hmark]; rfl), hmark]
  -- The one line on the right, then the three lines on the left; none of them finishes a block.
  rw [feed_of_step (Script.LineReader.feed_of_blockMark hline)
      (Recognizer.feed_of_isWholeBlock houtside hwhole),
    wholeBlockLines, List.map_cons, feedAll_cons,
    feed_of_step (hmarkLine _) (Recognizer.feed_blockMark_of_outside houtside),
    List.map_cons, feedAll_cons,
    feed_of_step (Script.LineReader.feed_of_pos (Nat.succ_pos _) _)
      (Recognizer.feed_of_inside rfl hcomment), hcontent,
    List.map_cons, feedAll_cons,
    feed_of_step (hmarkLine _) (Recognizer.feed_blockMark_of_inside rfl)]
  rfl

end Page.Writer

/-! ## Scripts -/

/-- Puts three lines, with any line end, in the place of a block on one line that the recognizer
meets outside of a block. -/
inductive BlockExpansion (dialects : Script.Dialects) : List Text → List Text → Prop
  | expand (front back : List Text) {raw ending : Text}
      (outside : (({} : Recognizer).feedAll (Script.blockLines dialects front)).2.phase = .outside)
      (whole : isWholeBlock (Script.normalize raw) = true)
      (blank : ending.all Text.isBlank = true) :
      BlockExpansion dialects (front ++ raw :: back)
        (front ++ (wholeBlockLines (Script.normalize raw)).map (· ++ ending) ++ back)

namespace Page

variable {dialects : Script.Dialects} {raws raws' : List Text}

theorem upTo_append (dialects : Script.Dialects) (title : Text) (xs ys : List Text) :
    upTo dialects title (xs ++ ys) = (upTo dialects title xs).feedAll ys :=
  Writer.feedAll_append _ xs ys

/-- The page of a script whose block was put on three lines: only the number of lines differs. -/
theorem document_of_blockExpansion (h : BlockExpansion dialects raws raws')
    (copyright title : Text) : ∃ n, document dialects copyright title raws' =
      (document dialects copyright title raws).renumber n := by
  obtain ⟨front, back, houtside, hwhole, hending⟩ := h
  rename_i raw ending
  have hrecognizer : (upTo dialects title front).recognizer.phase = .outside := by
    rw [upTo, Writer.recognizer_feedAll]
    exact houtside
  have hpos : 0 < ((upTo dialects title front).feed raw).reader.lineNumber := by
    rw [Writer.reader_feed, Script.LineReader.lineNumber_feed]
    exact Nat.succ_pos _
  refine ⟨(upTo dialects title front).reader.lineNumber + 3 + back.length, ?_⟩
  rw [document, upTo_append, upTo_append,
    Writer.feedAll_wholeBlockLines hrecognizer hwhole hending,
    Writer.feedAll_renumber hpos (Nat.succ_pos _), document, upTo_append, Writer.feedAll_cons]
  rfl

theorem document_of_blockExpansions (h : Relation.ReflTransGen (BlockExpansion dialects) raws raws')
    (copyright title : Text) : ∃ n, document dialects copyright title raws' =
      (document dialects copyright title raws).renumber n := by
  induction h with
  | refl => exact ⟨_, rfl⟩
  | tail _ hstep ih =>
      obtain ⟨m, hm⟩ := ih
      obtain ⟨n, hn⟩ := document_of_blockExpansion hstep copyright title
      refine ⟨n, ?_⟩
      rw [hn, hm]
      rfl

end Page

/-- A block on one line and the three lines that it stands for are the same to a recognizer that is
outside, whatever was asked of it before: it is left with the same fields, and none of the lines
gives a block.  So in a script, any number of such blocks can be put on three lines each, wherever
the recognizer meets them outside of a block: the page is the same, with the same sections, the same
events and the same recognizer at the end. -/
theorem whole_block_eq_three_lines :
    (∀ (keyword : Text) (calls : List Call) (line : Text),
      let r := (({ keyword } : Recognizer).callAll calls).2
      isWholeBlock line = true → r.phase = .outside →
        ∃ middle, line = blockMark ++ middle ++ blockMark ∧
          let lines := [blockMark, '#' :: ' ' :: Text.strip middle, blockMark]
          (r.feed line).emitted = none ∧ r.feedAll lines = ([], (r.feed line).next) ∧
          ∃ g, r.loose.feed line = .ok (none, g) ∧ r.loose.feedAll lines = .ok ([], g)) ∧
    ∀ (s : Settings) (title : Text) (raws raws' : List Text),
      Relation.ReflTransGen (BlockExpansion s.dialects) raws raws' →
      let page := Page.document s.dialects s.copyright title raws
      let page' := Page.document s.dialects s.copyright title raws'
      page.text = page'.text ∧ page.count = page'.count ∧ page.events = page'.events ∧
        page.recognizer = page'.recognizer ∧ page.reader.dialect = page'.reader.dialect := by
  refine ⟨?_, ?_⟩
  · intro keyword calls line r hwhole houtside
    obtain ⟨middle, -, hline, hcontent⟩ := exists_middle_of_isWholeBlock hwhole
    refine ⟨middle, hline, ?_⟩
    have hlines : [blockMark, '#' :: ' ' :: Text.strip middle, blockMark] =
        wholeBlockLines line := by
      rw [wholeBlockLines, hcontent]
    have hfeed := Recognizer.feed_of_isWholeBlock houtside hwhole
    have hfeedAll := Recognizer.feedAll_wholeBlockLines houtside hwhole
    have hsound : r.Sound := .of_outside houtside
    rw [hlines]
    refine ⟨by rw [hfeed], hfeedAll, (r.feed line).next.loose, ?_, ?_⟩
    · rw [Recognizer.loose_feed hsound, hfeed]
      rfl
    · rw [Recognizer.loose_feedAll hsound, hfeedAll]
      rfl
  · intro s title raws raws' h page page'
    obtain ⟨n, hn⟩ := Page.document_of_blockExpansions h s.copyright title
    have hpage : page' = page.renumber n := hn
    rw [hpage]
    exact ⟨rfl, rfl, rfl, rfl, rfl⟩

/-- The first line of a script is an empty block, and another block is met behind an empty line; a
recognizer that has discarded a block goes on with the empty one. -/
theorem whole_block_eq_three_lines_empty_block :
    let raws : List Text := ["#/ #/", "f", [], "#/  @see g() #/", "g"]
    let raws' : List Text := ["#/", "# ", "#/", "f", [], "#/\n", "# @see g()\n", "#/\n", "g"]
    let s : Settings := {}
    let r := (({ keyword := "function" } : Recognizer).callAll [.parse ["#/"]]).2
    isWholeBlock "#/ #/" = true ∧ r.phase = .outside ∧ r.discarded = 1 ∧
      (∃ middle, "#/ #/".toList = blockMark ++ middle ++ blockMark ∧
        r.feedAll [blockMark, '#' :: ' ' :: Text.strip middle, blockMark] =
          ([], (r.feed "#/ #/").next)) ∧
      Relation.ReflTransGen (BlockExpansion s.dialects) raws raws' ∧
      (Page.document s.dialects s.copyright "F" raws).text =
        (Page.document s.dialects s.copyright "F" raws').text := by
  intro raws raws' s r
  have hwhole : isWholeBlock "#/ #/" = true := by decide
  have houtside : r.phase = .outside := rfl
  have hfirst : BlockExpansion s.dialects raws
      ["#/", "# ", "#/", "f", [], "#/  @see g() #/", "g"] :=
    .expand [] ["f", [], "#/  @see g() #/", "g"] rfl hwhole rfl
  have hsecond : BlockExpansion s.dialects
      ["#/", "# ", "#/", "f", [], "#/  @see g() #/", "g"] raws' :=
    .expand ["#/", "# ", "#/", "f", []] ["g"] (by decide +kernel) (by decide +kernel) rfl
  have hexpansions := (Relation.ReflTransGen.single hfirst).tail hsecond
  obtain ⟨hstep, hpage⟩ := whole_block_eq_three_lines
  obtain ⟨middle, hmiddle, -, hlines, -⟩ :=
    hstep "function" [.parse ["#/"]] "#/ #/" hwhole houtside
  exact ⟨hwhole, houtside, rfl, ⟨middle, hmiddle, hlines⟩, hexpansions,
    (hpage s "F" raws raws' hexpansions).1⟩

end ShellDoc
