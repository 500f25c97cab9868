import ShellDoc.DocBlock.Inspection
import ShellDoc.Proofs.Layout
import ShellDoc.Proofs.SectionGrammar
import Mathlib.Data.List.Chain

/-!
# Clean texts

The texts of a block come out of a script with no tab and no line feed in them, with single spaces,
and without a space at either end (`Text.Clean`).  The normal form of a line is clean.  From there
on nothing is put into a text but a space between two clean texts that are not empty
(`Clean.append_space`), and everything else takes texts apart: a part of a clean text is clean as
soon as no space is left at its ends.  Stripping sees to that for contents; where a text is cut at a
space, the single spaces do (`Clean.cut_snd`).

One lemma says that a content line keeps a block clean (`DocBlock.Clean.consume`), one says it of a
line that is fed to a recognizer, and one of all lines of a script.  A section writes the texts of
its block between fixed signs, so that a line of it never holds a line feed, and the text of a
section is cut back into its lines.
-/

namespace ShellDoc

/-! ## Clean texts -/

namespace Text

/-- Neither tabs nor two spaces side by side. -/
structure SingleSpaced (s : Text) : Prop where
  tab : '\t' ∉ s
  spaces : s.IsChain fun c d => ¬ (c = ' ' ∧ d = ' ')

/-- Single spaces between other characters, and everything on one line. -/
structure Clean (s : Text) : Prop extends SingleSpaced s where
  newline : '\n' ∉ s
  head : s.head? ≠ some ' '
  last : s.getLast? ≠ some ' '

/-- A clean text without any space. -/
structure CleanWord (s : Text) : Prop extends Clean s where
  space : ' ' ∉ s

theorem SingleSpaced.part {s t : Text} (h : s.SingleSpaced) (ht : t <:+: s) : t.SingleSpaced :=
  ⟨fun hmem => h.tab (ht.subset hmem), List.IsChain.infix h.spaces ht⟩

namespace Clean

variable {s t : Text}

theorem nil : Clean [] := ⟨⟨List.not_mem_nil, .nil⟩, List.not_mem_nil, nofun, nofun⟩

/-- A part of a clean text is clean if it has no space at its ends. -/
theorem part (h : s.Clean) (ht : t <:+: s) (hhead : t.head? ≠ some ' ')
    (hlast : t.getLast? ≠ some ' ') : t.Clean :=
  ⟨h.toSingleSpaced.part ht, fun hmem => h.newline (ht.subset hmem), hhead, hlast⟩

theorem word (h : s.Clean) (ht : t <:+: s) (hspace : ' ' ∉ t) : t.CleanWord := by
  have hhead : t.head? ≠ some ' ' := fun he => hspace (List.mem_of_head? he)
  have hlast : t.getLast? ≠ some ' ' := fun he => hspace (List.mem_of_getLast? he)
  exact ⟨h.part ht hhead hlast, hspace⟩

theorem getLast?_suffix (h : s.Clean) (ht : t <:+ s) : t.getLast? ≠ some ' ' := by
  obtain ⟨front, rfl⟩ := ht
  intro he
  apply h.last
  rw [List.getLast?_append, he]
  rfl

theorem cut_fst (h : s.Clean) (ht : t <:+: s) : (cut ' ' t).1.CleanWord :=
  h.word ((List.takeWhile_prefix _).isInfix.trans ht) (not_mem_cut_fst ' ' t)

/-- What stands behind the first space does not begin with a space. -/
theorem cut_snd (h : s.Clean) (ht : t <:+ s) : (cut ' ' t).2.Clean := by
  have hback := (cut_snd_suffix ' ' t).trans ht
  refine h.part hback.isInfix ?_ (h.getLast?_suffix hback)
  rcases cut_cases ' ' t with ⟨-, hcut⟩ | ⟨front, back, rfl, -, hcut⟩
  · rw [hcut]
    exact nofun
  · rw [hcut]
    intro hspace
    -- The text behind the cut would begin with a second space.
    have hchain := List.IsChain.suffix h.spaces ht
    rw [List.isChain_append, List.isChain_cons] at hchain
    exact hchain.2.1.1 ' ' hspace ⟨rfl, rfl⟩

/-- Two clean texts with a space between them. -/
theorem append_space (hs : s.Clean) (ht : t.Clean) (hsne : s ≠ []) (htne : t ≠ []) :
    (s ++ ' ' :: t).Clean := by
  refine ⟨⟨?_, ?_⟩, ?_, ?_, ?_⟩
  · simp [hs.tab, ht.tab]
  · rw [List.isChain_append, List.isChain_cons]
    refine ⟨hs.spaces, ⟨?_, ht.spaces⟩, ?_⟩
    · rintro c hc ⟨-, rfl⟩
      exact ht.head hc
    · rintro c hc _ - ⟨rfl, -⟩
      exact hs.last hc
  · simp [hs.newline, ht.newline]
  · rw [List.head?_append_of_ne_nil _ hsne]
    exact hs.head
  · rw [List.getLast?_append_of_ne_nil _ (List.cons_ne_nil _ _), List.getLast?_cons_of_ne_nil htne]
    exact ht.last

theorem join (parts : List Text) (h : ∀ part ∈ parts, part ≠ [] ∧ part.Clean) :
    (Text.join " " parts).Clean := by
  induction parts with
  | nil => exact nil
  | cons part parts ih =>
      rw [List.forall_mem_cons] at h
      cases parts with
      | nil =>
          rw [join_singleton]
          exact h.1.2
      | cons next parts =>
          have hrest := join_cons_ne_nil " " (h.2 next List.mem_cons_self).1 parts
          rw [join_cons_cons]
          exact h.1.2.append_space (ih h.2) h.1.1 hrest

end Clean

theorem Clean.strip {s t : Text} (h : s.Clean) (ht : t <:+: s) : (strip t).Clean :=
  h.part ((strip_isInfix t).trans ht) (head?_strip_ne_space t)
    (noTrailingBlank_strip t).getLast?_ne_space

end Text

/-! ## Lines in normal form -/

namespace Script

theorem head?_squeeze (s : Text) : (squeeze s).head? = s.head? := by
  induction s with
  | nil => rfl
  | cons c s ih =>
      rw [squeeze]
      split
      · rename_i hrun
        rw [ih, hrun.2, hrun.1]
        rfl
      · rfl

theorem squeeze_sublist (s : Text) : (squeeze s).Sublist s := by
  induction s with
  | nil => exact .slnil
  | cons c s ih =>
      rw [squeeze]
      split
      · exact ih.cons c
      · exact ih.cons_cons c

theorem isChain_squeeze (s : Text) : (squeeze s).IsChain fun c d => ¬ (c = ' ' ∧ d = ' ') := by
  induction s with
  | nil => exact .nil
  | cons c s ih =>
      rw [squeeze]
      split
      · exact ih
      · rename_i hrun
        rw [List.isChain_cons, head?_squeeze]
        refine ⟨?_, ih⟩
        rintro d hd ⟨hc, rfl⟩
        exact hrun ⟨hc, hd⟩

theorem mem_of_mem_normalize {c : Char} {raw : Text} (h : c ∈ normalize raw) :
    ∃ d ∈ raw, untab d = c :=
  List.mem_map.mp ((squeeze_sublist _).subset ((Text.strip_isInfix _).subset h))

theorem untab_ne_tab (c : Char) : untab c ≠ '\t' := by
  unfold untab
  split
  · decide
  · assumption

theorem singleSpaced_normalize (raw : Text) : (normalize raw).SingleSpaced := by
  refine ⟨?_, List.IsChain.infix (isChain_squeeze _) (Text.strip_isInfix _)⟩
  intro htab
  obtain ⟨c, -, hc⟩ := mem_of_mem_normalize htab
  exact untab_ne_tab c hc

theorem newline_not_mem_normalize {raw : Text} (h : '\n' ∉ raw) : '\n' ∉ normalize raw := by
  intro hmem
  obtain ⟨c, hc, huntab⟩ := mem_of_mem_normalize hmem
  unfold untab at huntab
  split at huntab
  · cases huntab
  · exact h (huntab ▸ hc)

/-- The line feed that ends a line goes with the blanks at its end. -/
theorem clean_normalize {raw : Text} (h : '\n' ∉ raw.dropLast) : (normalize raw).Clean := by
  have hnewline : '\n' ∉ normalize raw := by
    rcases List.eq_nil_or_concat' raw with rfl | ⟨front, c, rfl⟩
    · exact List.not_mem_nil
    · rw [List.dropLast_concat] at h
      by_cases hc : c = '\n'
      · rw [hc, normalize_append_of_isBlank Text.isBlank_newline]
        exact newline_not_mem_normalize h
      · apply newline_not_mem_normalize
        simp [h, Ne.symm hc]
  exact ⟨singleSpaced_normalize raw, hnewline, Text.head?_strip_ne_space _,
    (Text.noTrailingBlank_strip _).getLast?_ne_space⟩

theorem LineReader.eq_normalize_of_mem_feed {r : LineReader} {raw line : Text}
    (h : line ∈ (r.feed raw).1) : line = normalize raw := by
  unfold feed at h
  dsimp only at h
  split at h
  · cases h
  · exact (Option.some_inj.mp h).symm

theorem LineReader.exists_of_mem_feedAll {r : LineReader} {raws : List Text} {line : Text}
    (h : line ∈ (r.feedAll raws).1) : ∃ raw ∈ raws, normalize raw = line := by
  induction raws generalizing r with
  | nil => cases h
  | cons raw raws ih =>
      rw [feedAll_cons] at h
      rcases List.mem_append.mp h with hfirst | hrest
      · have hline := eq_normalize_of_mem_feed (Option.mem_toList.mp hfirst)
        exact ⟨raw, List.mem_cons_self, hline.symm⟩
      · obtain ⟨raw', hraw', hline⟩ := ih hrest
        exact ⟨raw', List.mem_cons_of_mem raw hraw', hline⟩

end Script

/-! ## Blocks -/

namespace Parameter

/-- The texts of a parameter are clean, and its type and its name are words. -/
structure Clean (p : Parameter) : Prop where
  type : p.type.CleanWord
  name : p.name.CleanWord
  description : p.description.Clean

theorem cleanWord_positionalType : positionalType.CleanWord :=
  ⟨⟨⟨by decide, by decide⟩, by decide, by decide, by decide⟩, by decide⟩

theorem clean_ofText {s t : Text} (h : s.Clean) (ht : t <:+ s) : (ofText t).Clean := by
  have hfirst := h.cut_fst ht.isInfix
  have hrest := (Text.cut_snd_suffix ' ' t).trans ht
  unfold ofText
  dsimp only
  split
  · exact ⟨cleanWord_positionalType, hfirst, h.cut_snd ht⟩
  · exact ⟨hfirst, h.cut_fst hrest.isInfix, h.cut_snd hrest⟩

end Parameter

namespace DocBlock

/-- The texts of a block are clean, and the names of its properties are words. -/
structure Clean (b : DocBlock) : Prop where
  summary : b.summary.Clean
  description : ∀ line ∈ b.description, line ≠ [] ∧ line.Clean
  parameters : ∀ p ∈ b.parameters, p.Clean
  properties : ∀ p ∈ b.properties, p.1.CleanWord ∧ p.2.Clean

theorem clean_joined {s t : Text} (hs : s.Clean) (ht : t.Clean) (hne : t ≠ []) :
    (joined s t).Clean := by
  unfold joined
  split
  · exact ht
  · rename_i hsne
    exact hs.append_space ht hsne hne

namespace Clean

variable {b : DocBlock}

theorem empty : ({} : DocBlock).Clean := ⟨.nil, nofun, nofun, nofun⟩

theorem descriptionText (h : b.Clean) : b.descriptionText.Clean := .join _ h.description

theorem addLines (h : b.Clean) (n : Nat) : (b.addLines n).Clean :=
  ⟨h.summary, h.description, h.parameters, h.properties⟩

theorem addParameter (h : b.Clean) {p : Parameter} (hp : p.Clean) : (b.addParameter p).Clean := by
  refine ⟨h.summary, h.description, ?_, h.properties⟩
  rw [DocBlock.addParameter, putParameter_eq_put]
  exact Keyed.forall_mem_put _ hp h.parameters

theorem setProperty (h : b.Clean) {name value : Text} (hname : name.CleanWord)
    (hvalue : value.Clean) : (b.setProperty name value).Clean := by
  refine ⟨h.summary, h.description, h.parameters, ?_⟩
  rw [DocBlock.setProperty, Fields.put_eq_put]
  exact Keyed.forall_mem_put _ ⟨hname, hvalue⟩ h.properties

theorem addText (h : b.Clean) {s : Text} (hs : s.Clean) (hne : s ≠ []) : (b.addText s).Clean := by
  by_cases hfirst : b.summary = [] ∧ b.description = []
  · rw [addText_first hfirst]
    exact ⟨hs, h.description, h.parameters, h.properties⟩
  · rw [addText_next hfirst]
    refine ⟨h.summary, ?_, h.parameters, h.properties⟩
    rw [List.forall_mem_append, List.forall_mem_singleton]
    exact ⟨h.description, hne, hs⟩

/-- Joining a line to an entry keeps the block clean, however often it is done. -/
theorem extend (h : b.Clean) {s : Text} (hs : s.Clean) (hne : s ≠ []) (e : Entry) :
    ((b.extend? e s).getD b).Clean := by
  cases e with
  | parameter type name =>
      rw [extend?]
      split
      · refine ⟨h.summary, h.description, ?_, h.properties⟩
        rw [Option.getD_some, List.forall_mem_map]
        intro p hp
        have hclean := h.parameters p hp
        split
        · exact ⟨hclean.type, hclean.name, clean_joined hclean.description hs hne⟩
        · exact hclean
      · exact h
  | property name =>
      rw [extend?]
      cases hvalue : b.properties.get? name with
      | none => exact h
      | some value =>
          obtain ⟨hname, hclean⟩ := h.properties _ (Fields.mem_of_get? hvalue)
          exact h.setProperty hname (clean_joined hclean hs hne)

theorem openEntry {d : Draft} (h : d.block.Clean) {s t : Text} (hs : s.Clean) (ht : t <:+ s) :
    (d.openEntry t).block.Clean := by
  unfold Draft.openEntry
  dsimp only
  split
  · exact h.addParameter (Parameter.clean_ofText hs ((Text.cut_snd_suffix ' ' t).trans ht))
  · exact h.setProperty (hs.cut_fst ht.isInfix) (hs.cut_snd ht)

/-- A content line keeps a block clean. -/
theorem consume {d : Draft} (h : d.block.Clean) {content : Text} (hcontent : content.Clean) :
    (d.consume content).block.Clean := by
  rw [Draft.consume_eq_addLines]
  refine addLines ?_ 1
  unfold Draft.read
  split
  · exact h
  · exact h.openEntry hcontent (List.suffix_cons _ _)
  · rename_i hne _
    unfold Draft.continueWith
    split
    · exact h.addText hcontent hne
    · exact h.extend hcontent hne _

end Clean

end DocBlock

/-! ## Recognizers -/

theorem clean_commentContent {line : Text} (h : line.Clean) : (commentContent line).Clean := by
  unfold commentContent
  split
  · exact h.strip (List.suffix_cons _ _).isInfix
  · exact h.strip (List.infix_refl _)

theorem clean_wholeBlockContent {line : Text} (h : line.Clean) :
    (wholeBlockContent line).Clean :=
  h.strip ((List.take_prefix _ _).isInfix.trans (List.drop_suffix _ _).isInfix)

theorem Text.isBlank_of_mem_words {s w : Text} (h : w ∈ words s) :
    ∀ c ∈ w, isBlank c = false := by
  fun_induction words s generalizing w with
  | case1 => cases h
  | case2 c s hc ih => exact ih h
  | case3 c hc =>
      rw [List.mem_singleton.mp h, List.forall_mem_singleton]
      simpa using hc
  | case4 c hc d s hd ih =>
      rcases List.mem_cons.mp h with rfl | hrest
      · rw [List.forall_mem_singleton]
        simpa using hc
      · exact ih hrest
  | case5 c hc d s hd hwords ih =>
      rw [hwords] at h
      rw [List.mem_singleton.mp h, List.forall_mem_singleton]
      simpa using hc
  | case6 c hc d s hd first rest hwords ih =>
      rw [hwords] at h ih
      rcases List.mem_cons.mp h with rfl | hrest
      · rw [List.forall_mem_cons]
        exact ⟨by simpa using hc, ih List.mem_cons_self⟩
      · exact ih (List.mem_cons_of_mem first hrest)

/-- A declared name has neither a blank nor a parenthesis in it. -/
theorem of_mem_declaredName {keyword line : Text} {c : Char} (h : c ∈ declaredName keyword line) :
    Text.isBlank c = false ∧ c ≠ '(' := by
  unfold declaredName at h
  split at h
  · rename_i first second rest hwords
    split at h
    · have hword : second ∈ Text.words line := by simp [hwords]
      refine ⟨Text.isBlank_of_mem_words hword c ((List.takeWhile_prefix _).subset h), ?_⟩
      rintro rfl
      exact Text.not_mem_cut_fst '(' second h
    · cases h
  · cases h

/-- The block under construction is clean. -/
def Recognizer.Clean (r : Recognizer) : Prop := ∀ d, r.phase.draft? = some d → d.block.Clean

namespace Recognizer.Clean

theorem of_outside {r : Recognizer} (h : r.phase = .outside) : r.Clean := by
  intro d hd
  rw [h] at hd
  cases hd

/-- A clean line keeps the block under construction clean, and a block that it finishes is clean. -/
theorem feed {r : Recognizer} (h : r.Clean) {line : Text} (hline : line.Clean) :
    (r.feed line).next.Clean ∧ ∀ b ∈ (r.feed line).emitted,
      b.Clean ∧ ∀ c ∈ b.name, Text.isBlank c = false ∧ c ≠ '(' := by
  have hconsume : ∀ (d : Draft) content,
      content = commentContent line ∨ content = wholeBlockContent line →
        d.block.Clean → (d.consume content).block.Clean := by
    rintro d _ (rfl | rfl) hd
    · exact hd.consume (clean_commentContent hline)
    · exact hd.consume (clean_wholeBlockContent hline)
  obtain ⟨hnext, hemitted⟩ := draft_feed (P := fun d => d.block.Clean) h .empty hconsume
  refine ⟨hnext, fun b hb => ?_⟩
  obtain ⟨d, hd, rfl⟩ := hemitted b hb
  exact ⟨⟨hd.summary, hd.description, hd.parameters, hd.properties⟩,
    fun c hc => of_mem_declaredName hc⟩

theorem feedAll {r : Recognizer} (h : r.Clean) {lines : List Text}
    (hlines : ∀ line ∈ lines, line.Clean) :
    ∀ b ∈ (r.feedAll lines).1, b.Clean ∧ ∀ c ∈ b.name, Text.isBlank c = false ∧ c ≠ '(' := by
  induction lines generalizing r with
  | nil => exact nofun
  | cons line lines ih =>
      rw [List.forall_mem_cons] at hlines
      obtain ⟨hnext, hemitted⟩ := h.feed hlines.1
      intro b hb
      rw [feedAll_cons] at hb
      rcases List.mem_append.mp hb with hfirst | hrest
      · exact hemitted b (Option.mem_toList.mp hfirst)
      · exact ih hnext hlines.2 b hrest

end Recognizer.Clean

/-! ## Sections -/

namespace Page

theorem newline_not_mem_padRight {s : Text} (h : '\n' ∉ s) (n : Nat) :
    '\n' ∉ Text.padRight n s := by
  simp [Text.padRight, h]

theorem newline_not_mem_parameterRow {p : Parameter} (h : p.Clean) (m n : Nat) :
    '\n' ∉ parameterRow m n p := by
  have hlabel : '\n' ∉ p.label := by
    simp [Parameter.label, h.name.newline, h.type.newline]
  have hlabels := newline_not_mem_padRight hlabel m
  have hdescriptions := newline_not_mem_padRight h.description.newline n
  simp [parameterRow, hlabels, hdescriptions]

theorem newline_not_mem_returnLine {value : Text} (h : '\n' ∉ value) :
    '\n' ∉ returnLine value := by
  have htype : '\n' ∉ (Text.cut ' ' value).1 :=
    fun hmem => h ((List.takeWhile_prefix _).subset hmem)
  have hrest : '\n' ∉ (Text.cut ' ' value).2 :=
    fun hmem => h ((Text.cut_snd_suffix ' ' value).subset hmem)
  unfold returnLine
  dsimp only
  split
  · simp [htype]
  · simp [htype, hrest]

theorem newline_not_mem_propertyLine {ps : Fields Text}
    (h : ∀ p ∈ ps, '\n' ∉ p.1 ∧ '\n' ∉ p.2) : '\n' ∉ propertyLine ps := by
  have hjoin : '\n' ∉ Text.join ", " (ps.map propertyText) := by
    intro hmem
    rcases Text.mem_join hmem with hsep | ⟨part, hpart, hnewline⟩
    · exact absurd hsep (by decide)
    · obtain ⟨p, hp, rfl⟩ := List.mem_map.mp hpart
      obtain ⟨hname, hvalue⟩ := h p hp
      unfold propertyText at hnewline
      split at hnewline
      · exact hname hnewline
      · simp [hname, hvalue] at hnewline
  simpa [propertyLine] using hjoin

theorem forall_mem_optional {P : Text → Prop} {present : Bool} {group : List Text}
    (h : ∀ line ∈ group, P line) : ∀ g ∈ optional present group, ∀ line ∈ g, P line := by
  unfold optional
  split
  · exact List.forall_mem_singleton.mpr h
  · exact nofun

/-- No line of a section holds a line feed. -/
theorem newline_not_mem_sectionLines {dialect : Text} {b : DocBlock} (hdialect : '\n' ∉ dialect)
    (hname : '\n' ∉ b.name) (hb : b.Clean) : ∀ line ∈ sectionLines dialect b, '\n' ∉ line := by
  have hreturn : '\n' ∉ b.returnValue := by
    cases hvalue : b.properties.get? DocBlock.returnProperty with
    | none => simp [DocBlock.returnValue, hvalue]
    | some value =>
        have hclean := (hb.properties _ (Fields.mem_of_get? hvalue)).2
        simpa [DocBlock.returnValue, hvalue] using hclean.newline
  have hothers : ∀ p ∈ b.otherProperties, '\n' ∉ p.1 ∧ '\n' ∉ p.2 := by
    intro p hp
    obtain ⟨hword, hvalue⟩ := hb.properties p (List.mem_of_mem_filter hp)
    exact ⟨hword.newline, hvalue.newline⟩
  have hrows : ∀ row ∈ parameterTable b.parameters, '\n' ∉ row := by
    rw [parameterTable, List.forall_mem_map]
    exact fun p hp => newline_not_mem_parameterRow (hb.parameters p hp) _ _
  have hgroups : ∀ group ∈ groups dialect b, ∀ line ∈ group, '\n' ∉ line := by
    simp only [groups, List.forall_mem_append]
    refine ⟨⟨⟨⟨⟨?_, forall_mem_optional ?_⟩, forall_mem_optional ?_⟩, forall_mem_optional hrows⟩,
      forall_mem_optional ?_⟩, forall_mem_optional ?_⟩
    · simp [hname, hdialect]
    · simp [hb.summary.newline]
    · simpa using hb.descriptionText.newline
    · simpa using newline_not_mem_returnLine hreturn
    · simpa using newline_not_mem_propertyLine hothers
  intro line hline
  obtain ⟨group, hgroup, hmem⟩ := List.mem_flatMap.mp hline
  rcases List.mem_append.mp hmem with hmem | hmem
  · exact hgroups group hgroup line hmem
  · rw [List.mem_singleton.mp hmem]
    exact List.not_mem_nil

end Page

/-- The blocks of a script whose lines hold line feeds at their ends only are clean: there is no
tab, no line feed, no run of spaces and no space at either end in any of their texts, also where
lines were joined.  The types and names of parameters and the names of properties have no space at
all, and a declared name has no blank and no parenthesis.  So a section has no line feed inside of a
line, and its text is cut at the line feeds into just its lines. -/
theorem clean_blocks (dialects : Script.Dialects) (keyword : Text) (raws : List Text)
    (hraws : ∀ raw ∈ raws, '\n' ∉ raw.dropLast) (b : DocBlock)
    (hb : b ∈ (({ keyword } : Recognizer).parse
      ((Script.LineReader.start dialects).feedAll raws).1).1) :
    b.summary.Clean ∧ (∀ line ∈ b.description, line.Clean) ∧ b.descriptionText.Clean ∧
      (∀ p ∈ b.parameters, p.type.Clean ∧ ' ' ∉ p.type ∧ p.name.Clean ∧ ' ' ∉ p.name ∧
        p.description.Clean) ∧
      (∀ p ∈ b.properties, p.1.Clean ∧ ' ' ∉ p.1 ∧ p.2.Clean) ∧
      (∀ c ∈ b.name, Text.isBlank c = false ∧ c ≠ '(') ∧
      ∀ dialect, '\n' ∉ dialect →
        (∀ line ∈ Page.sectionLines dialect b, '\n' ∉ line) ∧
        (Text.ofLines (Page.sectionLines dialect b)).splitOn '\n' =
          Page.sectionLines dialect b ++ [[]] := by
  have hlines : ∀ line ∈ ((Script.LineReader.start dialects).feedAll raws).1, line.Clean := by
    intro line hline
    obtain ⟨raw, hraw, rfl⟩ := Script.LineReader.exists_of_mem_feedAll hline
    exact Script.clean_normalize (hraws raw hraw)
  have hfresh : ({ keyword } : Recognizer).Clean := .of_outside rfl
  obtain ⟨hclean, hdeclared⟩ := hfresh.feedAll hlines b hb
  have hname : '\n' ∉ b.name := by
    intro hmem
    exact absurd (hdeclared _ hmem).1 (by decide)
  refine ⟨hclean.summary, fun line hline => (hclean.description line hline).2,
    hclean.descriptionText, ?_, ?_, hdeclared, ?_⟩
  · intro p hp
    obtain ⟨htype, hname, hdescription⟩ := hclean.parameters p hp
    exact ⟨htype.toClean, htype.space, hname.toClean, hname.space, hdescription⟩
  · intro p hp
    obtain ⟨hname, hvalue⟩ := hclean.properties p hp
    exact ⟨hname.toClean, hname.space, hvalue⟩
  · intro dialect hdialect
    have hsection := Page.newline_not_mem_sectionLines hdialect hname hclean
    exact ⟨hsection, Page.splitOn_flatMap_groups hsection⟩

/-- Tabs, runs of spaces and other blanks in the lines, and a line that is joined to an empty
value. -/
theorem clean_blocks_of_tabs :
    let raws : List Text :=
      ["#!/bin/sh\n", "#/\n", "#\tA \t b\n", "# @param  int\tn the\n", "#   first\x0b  \n",
        "# @see\n", "#\t g() ,  h\n", "#/\n", "function\tf ()\n"]
    let b : DocBlock :=
      { name := "f", summary := "A b", parameters := [⟨"int", "n", "the first"⟩],
        properties := [("see", "g() , h")], lineCount := 5 }
    let written : List Text :=
      ["## f()", [], "```sh", "f() ", "```", [], "*A b*", [], "| n (int) | the first |", [],
        "*see: g() , h*", []]
    (∀ raw ∈ raws, '\n' ∉ raw.dropLast) ∧
      b ∈ (({ keyword := "function" } : Recognizer).parse
        ((Script.LineReader.start {}).feedAll raws).1).1 ∧
      (∀ p ∈ b.parameters, p.description.Clean) ∧ (∀ p ∈ b.properties, p.2.Clean) ∧
      (Text.ofLines written).splitOn '\n' = written ++ [[]] := by
  intro raws b written
  have hraws : ∀ raw ∈ raws, '\n' ∉ raw.dropLast := by decide +kernel
  have hb : b ∈ (({ keyword := "function" } : Recognizer).parse
      ((Script.LineReader.start {}).feedAll raws).1).1 := by decide +kernel
  have hwritten : Page.sectionLines "sh" b = written := by decide +kernel
  obtain ⟨-, -, -, hparameters, hproperties, -, hsection⟩ :=
    clean_blocks {} "function" raws hraws b hb
  have hsplit := (hsection "sh" (by decide)).2
  rw [hwritten] at hsplit
  exact ⟨hraws, hb, fun p hp => (hparameters p hp).2.2.2.2, fun p hp => (hproperties p hp).2.2,
    hsplit⟩

end ShellDoc
