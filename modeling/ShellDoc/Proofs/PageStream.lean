import ShellDoc.DocBlock.Inspection
import ShellDoc.Proofs.Segmentation
import ShellDoc.Run.PageFile

/-!
# A page is the inspection of its script

A page is written while the script is read: lines are brought to normal form, blocks
are recognized and sections are written one raw line after the other, with the dialect
that is known at that moment.  An inspection does the same in stages, over the whole
script.  The two agree: the page is the heading, the sections of the inspected blocks,
all in the inspected dialect, and the footer.

The dialect can change at the first line only, and that line belongs to no block, so
the dialect at every section is the one at the end (`dialect_feedAll_feed`).  Each
part of the state of a writer is then followed on its own, by one lemma for a line and
one for a list of lines.

A script that breaks off leaves the heading and the sections of the blocks whose
declaration was read.  Where a declaration stands is told by the lines behind it in its
segment.
-/

namespace ShellDoc

/-! ## The dialect of the rest of a script -/

namespace Script.LineReader

theorem feedAll_append (r : LineReader) (xs ys : List Text) :
    r.feedAll (xs ++ ys) =
      ((r.feedAll xs).1 ++ ((r.feedAll xs).2.feedAll ys).1, ((r.feedAll xs).2.feedAll ys).2) := by
  induction xs generalizing r with
  | nil => simp
  | cons x xs ih => simp [feedAll_cons, ih]

theorem feed_of_pos {r : LineReader} (h : 0 < r.lineNumber) (raw : Text) :
    r.feed raw = (some (normalize raw), { r with lineNumber := r.lineNumber + 1 }) := by
  have hfirst : ¬ (r.lineNumber = 0 ∧ interpreterMark.isPrefixOf (normalize raw) = true) :=
    fun e => Nat.ne_of_gt h e.1
  exact if_neg hfirst

/-- Behind the first line, lines are only brought to normal form. -/
theorem feedAll_of_pos {r : LineReader} (h : 0 < r.lineNumber) (raws : List Text) :
    r.feedAll raws =
      (raws.map normalize, { r with lineNumber := r.lineNumber + raws.length }) := by
  induction raws generalizing r with
  | nil => rfl
  | cons raw raws ih =>
      rw [feedAll_cons, feed_of_pos h, ih (Nat.succ_pos _)]
      simp only [Option.toList_some, List.singleton_append, List.map_cons, List.length_cons]
      rw [Nat.add_assoc, Nat.add_comm 1]

theorem length_feedAll_le (r : LineReader) (raws : List Text) :
    (r.feedAll raws).1.length ≤ raws.length := by
  induction raws generalizing r with
  | nil => exact Nat.le_refl _
  | cons raw raws ih =>
      have hrest := ih (r.feed raw).2
      have hline : (r.feed raw).1.toList.length ≤ 1 := by
        cases (r.feed raw).1 <;> simp
      rw [feedAll_cons, List.length_append, List.length_cons]
      omega

theorem lineNumber_feedAll (r : LineReader) (raws : List Text) :
    (r.feedAll raws).2.lineNumber = r.lineNumber + raws.length := by
  induction raws generalizing r with
  | nil => rfl
  | cons raw raws ih =>
      rw [feedAll_cons, List.length_cons]
      simp only [ih, lineNumber_feed]
      omega

theorem feedAll_append_of_ne (r : LineReader) {xs : List Text} (h : xs ≠ []) (ys : List Text) :
    (r.feedAll (xs ++ ys)).1 = (r.feedAll xs).1 ++ ys.map normalize ∧
      (r.feedAll (xs ++ ys)).2.dialect = (r.feedAll xs).2.dialect := by
  have hpos : 0 < (r.feedAll xs).2.lineNumber := by
    rw [lineNumber_feedAll]
    exact Nat.add_pos_right _ (List.length_pos_of_ne_nil h)
  rw [feedAll_append, feedAll_of_pos hpos]
  exact ⟨rfl, rfl⟩

/-- Once a line has been read, the dialect is settled for the rest of the script. -/
theorem dialect_feedAll_feed (r : LineReader) (raw : Text) (raws : List Text) :
    ((r.feed raw).2.feedAll raws).2.dialect = (r.feed raw).2.dialect := by
  have hpos : 0 < (r.feed raw).2.lineNumber := by
    rw [lineNumber_feed]
    exact Nat.succ_pos _
  rw [feedAll_of_pos hpos]

end Script.LineReader

namespace Page

/-! ## A writer follows the reader and the recognizer -/

/-- A section that an event tells of: the name of the block and the number of its
parameters. -/
def Event.rendered? : Event → Option (Text × Nat)
  | .rendered name parameters => some (name, parameters)
  | _ => none

def Event.discarded? : Event → Option (Text × Nat)
  | .discarded title count => some (title, count)
  | _ => none

def renderedAs (b : DocBlock) : Text × Nat := (b.name, b.parameters.length)

namespace Writer

theorem feed_of_none {w : Writer} {raw : Text} (h : (w.reader.feed raw).1 = none) :
    w.feed raw = { w with reader := (w.reader.feed raw).2 } := by
  simp only [feed, h]

/-- Any other line moves the reader and the recognizer, and a block that it finishes is
written in the dialect of the reader. -/
theorem feed_of_some {w : Writer} {raw line : Text} (h : (w.reader.feed raw).1 = some line) :
    w.feed raw =
      { reader := (w.reader.feed raw).2
        recognizer := (w.recognizer.feed line).next
        lines := w.lines ++ (w.recognizer.feed line).emitted.toList.flatMap
          (sectionLines (w.reader.feed raw).2.dialect)
        count := w.count + (w.recognizer.feed line).emitted.toList.length
        events := w.events ++ (w.recognizer.feed line).notice.toList.map .notice ++
          (w.recognizer.feed line).emitted.toList.map fun b =>
            .rendered b.name b.parameters.length } := by
  cases hemitted : (w.recognizer.feed line).emitted with
  | none => simp [feed, h, hemitted]
  | some b => simp [feed, h, hemitted, emit]

/-- The blocks that a writer finds in raw lines. -/
def blocksIn (w : Writer) (raws : List Text) : List DocBlock :=
  (w.recognizer.feedAll (w.reader.feedAll raws).1).1

theorem blocksIn_cons_of_none {w : Writer} {raw : Text} (h : (w.reader.feed raw).1 = none)
    (raws : List Text) : w.blocksIn (raw :: raws) = (w.feed raw).blocksIn raws := by
  rw [blocksIn, Script.LineReader.feedAll_cons, h, feed_of_none h]
  rfl

theorem blocksIn_cons_of_some {w : Writer} {raw line : Text}
    (h : (w.reader.feed raw).1 = some line) (raws : List Text) :
    w.blocksIn (raw :: raws) =
      (w.recognizer.feed line).emitted.toList ++ (w.feed raw).blocksIn raws := by
  rw [blocksIn, Script.LineReader.feedAll_cons, h, feed_of_some h]
  rfl

theorem reader_feed (w : Writer) (raw : Text) : (w.feed raw).reader = (w.reader.feed raw).2 := by
  cases h : (w.reader.feed raw).1 with
  | none => rw [feed_of_none h]
  | some line => rw [feed_of_some h]

theorem reader_feedAll (w : Writer) (raws : List Text) :
    (w.feedAll raws).reader = (w.reader.feedAll raws).2 := by
  induction raws generalizing w with
  | nil => rfl
  | cons raw raws ih =>
      rw [feedAll_cons, ih, reader_feed]
      rfl

theorem recognizer_feedAll (w : Writer) (raws : List Text) :
    (w.feedAll raws).recognizer = (w.recognizer.feedAll (w.reader.feedAll raws).1).2 := by
  induction raws generalizing w with
  | nil => rfl
  | cons raw raws ih =>
      rw [feedAll_cons, ih, Script.LineReader.feedAll_cons]
      cases h : (w.reader.feed raw).1 with
      | none =>
          rw [feed_of_none h]
          rfl
      | some line =>
          rw [feed_of_some h]
          rfl

/-- The sections of all blocks, in the dialect that the script turns out to have. -/
theorem lines_feedAll (w : Writer) (raws : List Text) :
    (w.feedAll raws).lines =
      w.lines ++ (w.blocksIn raws).flatMap
        (sectionLines (w.reader.feedAll raws).2.dialect) := by
  induction raws generalizing w with
  | nil => simp [blocksIn]
  | cons raw raws ih =>
      have hdialect : (w.reader.feedAll (raw :: raws)).2.dialect =
          ((w.feed raw).reader.feedAll raws).2.dialect := by
        rw [reader_feed]
        rfl
      have hsettled := Script.LineReader.dialect_feedAll_feed w.reader raw raws
      rw [← reader_feed] at hsettled
      rw [feedAll_cons, ih, hdialect]
      cases h : (w.reader.feed raw).1 with
      | none =>
          rw [blocksIn_cons_of_none h]
          congr 1
          rw [feed_of_none h]
      | some line =>
          rw [blocksIn_cons_of_some h, List.flatMap_append, ← List.append_assoc]
          congr 1
          rw [hsettled, reader_feed, feed_of_some h]

theorem count_feedAll (w : Writer) (raws : List Text) :
    (w.feedAll raws).count = w.count + (w.blocksIn raws).length := by
  induction raws generalizing w with
  | nil => rfl
  | cons raw raws ih =>
      rw [feedAll_cons, ih]
      cases h : (w.reader.feed raw).1 with
      | none =>
          rw [blocksIn_cons_of_none h]
          congr 1
          rw [feed_of_none h]
      | some line =>
          rw [blocksIn_cons_of_some h, List.length_append, ← Nat.add_assoc]
          congr 1
          rw [feed_of_some h]

/-- The events other than notices: one for each block, in order. -/
theorem events_feedAll {β : Type} (select : Event → Option β)
    (hnotice : ∀ n, select (.notice n) = none) (w : Writer) (raws : List Text) :
    (w.feedAll raws).events.filterMap select =
      w.events.filterMap select ++
        (w.blocksIn raws).filterMap fun b => select (.rendered b.name b.parameters.length) := by
  induction raws generalizing w with
  | nil => simp [blocksIn]
  | cons raw raws ih =>
      rw [feedAll_cons, ih]
      cases h : (w.reader.feed raw).1 with
      | none =>
          rw [blocksIn_cons_of_none h]
          congr 1
          rw [feed_of_none h]
      | some line =>
          rw [blocksIn_cons_of_some h, List.filterMap_append, ← List.append_assoc]
          congr 1
          rw [feed_of_some h]
          simp [List.filterMap_map, hnotice]

end Writer

end Page

/-- The text of the page that an inspection amounts to. -/
def Inspection.pageText (i : Inspection) (copyright title : Text) : Text :=
  Text.ofLines (Page.heading title ++ i.blocks.flatMap (Page.sectionLines i.dialect) ++
    if copyright = [] then [] else Page.footer copyright)

namespace Page

section Document

variable (dialects : Script.Dialects) (copyright title : Text) (raws : List Text)

theorem text_document :
    (document dialects copyright title raws).text =
      (Inspection.ofLines dialects raws).pageText copyright title := by
  have hlines := Writer.lines_feedAll (Writer.start dialects title) raws
  rw [Writer.text, Inspection.pageText, document, Writer.finish, upTo, hlines]
  rfl

theorem count_document :
    (document dialects copyright title raws).count =
      (Inspection.ofLines dialects raws).blocks.length :=
  (Writer.count_feedAll (Writer.start dialects title) raws).trans (Nat.zero_add _)

theorem discarded_document :
    (document dialects copyright title raws).recognizer.discarded =
      (Inspection.ofLines dialects raws).discarded := by
  have hrecognizer := Writer.recognizer_feedAll (Writer.start dialects title) raws
  rw [document, Writer.finish, upTo, hrecognizer]
  rfl

/-- The events of a finished page other than notices: one for each block, and one more if
a block was discarded. -/
theorem events_document {β : Type} (select : Event → Option β)
    (hnotice : ∀ n, select (.notice n) = none) :
    (document dialects copyright title raws).events.filterMap select =
      ((Inspection.ofLines dialects raws).blocks.filterMap fun b =>
          select (.rendered b.name b.parameters.length)) ++
        (if (Inspection.ofLines dialects raws).discarded = 0 then []
          else [Event.discarded title (Inspection.ofLines dialects raws).discarded]).filterMap
            select := by
  have hevents := Writer.events_feedAll select hnotice (Writer.start dialects title) raws
  have hnotices : ∀ ns : List Notice, (ns.map Event.notice).filterMap select = [] := by
    intro ns
    rw [List.filterMap_map, List.filterMap_eq_nil_iff]
    exact fun n _ => hnotice n
  have hfinish : (document dialects copyright title raws).events =
      (upTo dialects title raws).events ++
        (upTo dialects title raws).recognizer.finishNotice.toList.map .notice ++
        (if (document dialects copyright title raws).recognizer.discarded = 0 then []
          else [.discarded title
            (document dialects copyright title raws).recognizer.discarded]) := rfl
  rw [hfinish, discarded_document, List.filterMap_append, List.filterMap_append, hnotices,
    List.append_nil, upTo, hevents]
  rfl

end Document

end Page

/-- A page is the inspection of its script: the same blocks in the same dialect, each in a
section of its own between the heading and the footer, and as many discarded blocks.  So it
is when a script file is read and its page written to a file. -/
theorem document_eq_inspection (s : Settings) (title : Text) (raws : List Text) :
    let i := Inspection.ofLines s.dialects raws
    let page := Page.document s.dialects s.copyright title raws
    page.text = i.pageText s.copyright title ∧ page.count = i.blocks.length ∧
      page.reader.dialect = i.dialect ∧ page.recognizer.discarded = i.discarded ∧
      page.events.filterMap Page.Event.rendered? = i.blocks.map Page.renderedAs ∧
      page.events.filterMap Page.Event.discarded? =
        (if i.discarded = 0 then [] else [(title, i.discarded)]) ∧
      ∀ (t : Files.Tree) (place target : Files.Location),
        Script.Content.ofBytes (Files.contentAt (t.put target (.file [])) place) = ⟨raws, none⟩ →
        Run.writePage s t place target title =
          { result := .ok i.blocks.length
            tree := (t.put target (.file [])).put target
              (.file (Text.encode (i.pageText s.copyright title)))
            activities := page.events.map Run.Activity.ofPage } := by
  intro i page
  have htext : page.text = i.pageText s.copyright title := Page.text_document _ _ _ _
  have hcount : page.count = i.blocks.length := Page.count_document _ _ _ _
  refine ⟨htext, hcount, ?_, Page.discarded_document _ _ _ _, ?_, ?_, ?_⟩
  · have hreader := Page.Writer.reader_feedAll (Page.Writer.start s.dialects title) raws
    exact congrArg Script.LineReader.dialect hreader
  · rw [Page.events_document _ _ _ _ Page.Event.rendered? fun _ => rfl]
    have hblocks : (i.blocks.filterMap fun b =>
        Page.Event.rendered? (.rendered b.name b.parameters.length)) =
        i.blocks.map Page.renderedAs := congrFun List.filterMap_eq_map' i.blocks
    rw [hblocks]
    split <;> exact List.append_nil _
  · rw [Page.events_document _ _ _ _ Page.Event.discarded? fun _ => rfl]
    have hblocks : (i.blocks.filterMap fun b =>
        Page.Event.discarded? (.rendered b.name b.parameters.length)) = [] :=
      List.filterMap_eq_nil_iff.mpr fun _ _ => rfl
    rw [hblocks, List.nil_append]
    split <;> rfl
  · intro t place target hcontent
    rw [← hcount, ← htext, Run.writePage, hcontent]

/-- A script file with a finished and a pending block. -/
theorem document_eq_inspection_file :
    let t : Files.Tree := ⟨[([['f']], .file (Text.encode "#!/bin/bash\n#/ A #/\nf\n#/ B"))]⟩
    let raws : List Text := ["#!/bin/bash\n", "#/ A #/\n", "f\n", "#/ B"]
    Script.Content.ofBytes (Files.contentAt (t.put [['g']] (.file [])) [['f']]) = ⟨raws, none⟩ ∧
      (Run.writePage {} t [['f']] [['g']] "F").result = .ok 1 := by
  intro t raws
  have hcontent : Script.Content.ofBytes
      (Files.contentAt (t.put [['g']] (.file [])) [['f']]) = ⟨raws, none⟩ := rfl
  obtain ⟨_, _, _, _, _, _, hrun⟩ := document_eq_inspection {} "F" raws
  refine ⟨hcontent, ?_⟩
  rw [hrun t _ _ hcontent]
  rfl

/-! ## Scripts that break off -/

/-- The lines of a script that may belong to blocks. -/
def Script.blockLines (dialects : Dialects) (raws : List Text) : List Text :=
  ((LineReader.start dialects).feedAll raws).1

namespace Page

/-- What was written when a script breaks off begins every page that it could have become. -/
theorem lines_upTo_append (dialects : Script.Dialects) (title : Text) (xs ys : List Text) :
    (upTo dialects title xs).lines <+: (upTo dialects title (xs ++ ys)).lines := by
  rw [upTo, upTo, Writer.feedAll_append, Writer.lines_feedAll (Writer.feedAll _ xs) ys]
  exact List.prefix_append _ _

/-- The blocks of the lines read so far are those whose declaration was read, whatever
lines may follow. -/
theorem blocksIn_eq_segments (dialects : Script.Dialects) (title : Text) (xs ys : List Text) :
    (Writer.start dialects title).blocksIn xs =
      ((segments (Script.blockLines dialects (xs ++ ys))).filter fun g =>
        ys.length ≤ g.behind.length).map (Segment.block ({} : Recognizer).keyword) := by
  by_cases hxs : xs = []
  · subst hxs
    have hnone : ((segments (Script.blockLines dialects ys)).filter fun g =>
        ys.length ≤ g.behind.length) = [] := by
      rw [List.filter_eq_nil_iff]
      intro g hg
      have hlt := Recognizer.length_behind_lt_of_mem_segments hg
      have hle := Script.LineReader.length_feedAll_le (.start dialects) ys
      simpa using Nat.lt_of_lt_of_le hlt hle
    rw [List.nil_append, hnone]
    rfl
  · have hlines := (Script.LineReader.feedAll_append_of_ne (.start dialects) hxs ys).1
    have hblocks := Recognizer.feedAll_eq_segments_append ({} : Recognizer).keyword 0
      (Script.blockLines dialects xs) (ys.map Script.normalize)
    rw [List.length_map] at hblocks
    rw [Script.blockLines, hlines]
    exact hblocks

/-- The page of a script that breaks off, in the dialect that the script has if it goes on. -/
theorem lines_upTo (dialects : Script.Dialects) (title : Text) (xs ys : List Text) :
    (upTo dialects title xs).lines =
      heading title ++ ((Writer.start dialects title).blocksIn xs).flatMap
        (sectionLines (Inspection.ofLines dialects (xs ++ ys)).dialect) := by
  have hlines := Writer.lines_feedAll (Writer.start dialects title) xs
  by_cases hxs : xs = []
  · subst hxs
    exact hlines
  · have hdialect := (Script.LineReader.feedAll_append_of_ne (.start dialects) hxs ys).2
    have hinspected : (Inspection.ofLines dialects (xs ++ ys)).dialect =
        ((Script.LineReader.start dialects).feedAll xs).2.dialect := hdialect
    rw [hinspected]
    exact hlines

end Page

/-- A script that breaks off leaves the heading and the sections of the blocks whose
declaration was read: those with all lines of the missing rest behind it, in the dialect of
the whole script.  This is the beginning of the page that the whole script has, and it is what
the output file holds when the reading of a script file fails. -/
theorem interrupted_page (s : Settings) (title : Text) (xs ys : List Text) :
    let script := segments (Script.blockLines s.dialects (xs ++ ys))
    let declared := script.filter fun g => ys.length ≤ g.behind.length
    let i := Inspection.ofLines s.dialects (xs ++ ys)
    let keyword := ({} : Recognizer).keyword
    let written := (Page.upTo s.dialects title xs).text
    i.blocks = script.map (Segment.block keyword) ∧
      written = Text.ofLines (Page.heading title ++
        (declared.map (Segment.block keyword)).flatMap (Page.sectionLines i.dialect)) ∧
      written <+: (Page.document s.dialects s.copyright title (xs ++ ys)).text ∧
      ∀ (t : Files.Tree) (place target : Files.Location) (u : Text.Undecodable),
        Script.Content.ofBytes (Files.contentAt (t.put target (.file [])) place) =
          ⟨xs, some u⟩ →
        (Run.writePage s t place target title).result = .error (.undecodable u) ∧
          (Run.writePage s t place target title).tree =
            (t.put target (.file [])).put target (.file (Text.encode written)) := by
  intro script declared i keyword written
  have hwritten : written = Text.ofLines (Page.upTo s.dialects title xs).lines := rfl
  refine ⟨Recognizer.feedAll_eq_segments _ _ _, ?_, ?_, ?_⟩
  · rw [hwritten, Page.lines_upTo s.dialects title xs ys,
      Page.blocksIn_eq_segments s.dialects title xs ys]
  · obtain ⟨rest, hrest⟩ := Page.lines_upTo_append s.dialects title xs ys
    have hwhole : (Page.document s.dialects s.copyright title (xs ++ ys)).lines =
        (Page.upTo s.dialects title (xs ++ ys)).lines ++
          if s.copyright = [] then [] else Page.footer s.copyright := rfl
    rw [hwritten, Page.Writer.text, hwhole, ← hrest, Text.ofLines_append,
      Text.ofLines_append, List.append_assoc]
    exact List.prefix_append _ _
  · intro t place target u hcontent
    rw [Run.writePage, hcontent]
    exact ⟨rfl, rfl⟩

/-- A script file whose last character is cut short, behind a finished block. -/
theorem interrupted_page_file :
    let t : Files.Tree := ⟨[([['f']], .file (Text.encode "#/ A #/\nf\n" ++ [0xC3]))]⟩
    let xs : List Text := ["#/ A #/\n", "f\n"]
    ∃ u, Script.Content.ofBytes (Files.contentAt (t.put [['g']] (.file [])) [['f']]) =
        ⟨xs, some u⟩ ∧
      (Run.writePage {} t [['f']] [['g']] "F").result = .error (.undecodable u) := by
  intro t xs
  refine ⟨_, rfl, ?_⟩
  obtain ⟨_, _, _, hrun⟩ := interrupted_page {} "F" xs []
  exact (hrun t _ _ _ rfl).1

end ShellDoc
