import ShellDoc.Proofs.CleanText

/-!
# Interpreter lines

The first line of a script settles its dialect.  Behind the mark of an interpreter line stands a
command (`Script.Runs`): a program, possibly behind its directories, or `env` with options and then
the program, and any arguments.  What decides is the base name of the program.

The command is read in the normal form of the line.  Normal forms have the same words as raw lines
(`words_squeeze` and the lemmas around it), so the blanks between the parts of a command do not
matter, and its words are read off the way it is composed.
-/

namespace ShellDoc

/-! ## The words of a text -/

namespace Text

/-- A word is finished by what follows it, or goes on in the first word of what follows. -/
theorem words_cons_eq_ite {c : Char} (h : isBlank c = false) (s : Text) :
    words (c :: s) =
      if s.head?.all isBlank then [c] :: words s else (words s).modifyHead (c :: ·) := by
  cases s with
  | nil => simp [words, h]
  | cons d s =>
      cases hd : isBlank d with
      | true => simp [words, h, hd]
      | false =>
          rw [words_cons_of_not_blank h, words_cons_of_not_blank hd]
          simp [hd]

theorem words_cons_congr {s t : Text} (hhead : s.head?.all isBlank = t.head?.all isBlank)
    (h : words s = words t) (c : Char) : words (c :: s) = words (c :: t) := by
  cases hc : isBlank c with
  | true => rw [words_cons_blank hc, words_cons_blank hc, h]
  | false => rw [words_cons_eq_ite hc, words_cons_eq_ite hc, hhead, h]

theorem words_append_of_isBlank {c : Char} (h : isBlank c = true) (s : Text) :
    words (s ++ [c]) = words s := by
  induction s with
  | nil => exact words_cons_blank h []
  | cons d s ih =>
      refine words_cons_congr ?_ ih d
      cases s with
      | nil => simp [h]
      | cons e s => rfl

theorem words_stripRight (s : Text) : words (stripRight s) = words s := by
  induction s using List.reverseRecOn with
  | nil => rfl
  | append_singleton s c ih =>
      by_cases hc : isBlank c = true
      · rw [stripRight_append_of_isBlank hc, words_append_of_isBlank hc, ih]
      · have hkeep : stripRight (s ++ [c]) = s ++ [c] := by simp [stripRight, hc]
        rw [hkeep]

theorem words_append_of_all {gap : Text} (h : gap.all isBlank = true) (s : Text) :
    words (gap ++ s) = words s := by
  induction gap with
  | nil => rfl
  | cons c gap ih =>
      rw [List.all_cons, Bool.and_eq_true] at h
      rw [List.cons_append, words_cons_blank h.1, ih h.2]

/-- Some characters, none of which is blank. -/
@[mk_iff]
structure IsWord (w : Text) : Prop where
  ne_nil : w ≠ []
  solid : w.any isBlank = false

instance (w : Text) : Decidable w.IsWord := decidable_of_iff' _ (isWord_iff w)

theorem IsWord.words_append {w : Text} (h : w.IsWord) {s : Text}
    (hs : s.head?.all isBlank = true) : words (w ++ s) = w :: words s := by
  obtain ⟨c, w, rfl⟩ := List.exists_cons_of_ne_nil h.ne_nil
  obtain ⟨hc, hsolid⟩ := Bool.or_eq_false_iff.mp (List.any_cons.symm.trans h.solid)
  have hword : ∀ d ∈ w, (!isBlank d) = true := by
    intro d hd
    simpa using List.any_eq_false.mp hsolid d hd
  rw [List.cons_append, words_cons_of_not_blank hc, List.takeWhile_append_of_pos hword,
    List.dropWhile_append_of_pos hword]
  cases s with
  | nil => simp
  | cons d s =>
      have hd : isBlank d = true := hs
      simp [hd]

/-- Some blanks, and nothing else. -/
@[mk_iff]
structure IsGap (gap : Text) : Prop where
  ne_nil : gap ≠ []
  blank : gap.all isBlank = true

instance (gap : Text) : Decidable gap.IsGap := decidable_of_iff' _ (isGap_iff gap)

theorem IsGap.head?_append {gap : Text} (h : gap.IsGap) (s : Text) :
    (gap ++ s).head?.all isBlank = true := by
  obtain ⟨c, gap, rfl⟩ := List.exists_cons_of_ne_nil h.ne_nil
  have hblank := h.blank
  rw [List.all_cons, Bool.and_eq_true] at hblank
  exact hblank.1

end Text

/-! ## The words of a line in normal form -/

namespace Script

theorem words_map_untab (s : Text) : Text.words (s.map untab) = Text.words s := by
  induction s with
  | nil => rfl
  | cons c s ih =>
      cases hc : Text.isBlank c with
      | true =>
          have huntab := (isBlank_untab c).trans hc
          rw [List.map_cons, Text.words_cons_blank huntab, Text.words_cons_blank hc, ih]
      | false =>
          have hsame : untab c = c := by
            refine if_neg ?_
            rintro rfl
            cases hc
          rw [List.map_cons, hsame]
          refine Text.words_cons_congr ?_ ih c
          cases s with
          | nil => rfl
          | cons d s => exact isBlank_untab d

theorem words_squeeze (s : Text) : Text.words (squeeze s) = Text.words s := by
  induction s with
  | nil => rfl
  | cons c s ih =>
      rw [squeeze]
      split
      · rename_i hrun
        rw [ih, hrun.1, Text.words_cons_blank Text.isBlank_space]
      · exact Text.words_cons_congr (by rw [head?_squeeze]) ih c

/-- The mark of an interpreter line begins its normal form, and the words behind it are those of
the raw line. -/
theorem exists_normalize_interpreterMark {indent : Text} (h : indent.all Text.isBlank = true)
    (command : Text) : ∃ s, normalize (indent ++ interpreterMark ++ command) = '#' :: '!' :: s ∧
      Text.words s = Text.words command := by
  have hindent := @normalize_between_blanks indent [] h rfl (interpreterMark ++ command)
  rw [List.append_nil, ← List.append_assoc] at hindent
  refine ⟨Text.stripRight (squeeze (command.map untab)), ?_, ?_⟩
  · have huntab : (interpreterMark ++ command).map untab = '#' :: '!' :: command.map untab := rfl
    rw [hindent, normalize, huntab, squeeze_cons_of_ne (by decide), squeeze_cons_of_ne (by decide),
      Text.strip_cons_of_not_isBlank (by decide), Text.stripRight_cons_of_not_isBlank (by decide)]
  · rw [Text.words_stripRight, words_squeeze, words_map_untab]

/-! ## Commands -/

/-- A program with the directories in front of its name. -/
@[mk_iff]
structure Program (dir name : Text) : Prop where
  dir_end : dir = [] ∨ dir.getLast? = some '/'
  dir_solid : dir.any Text.isBlank = false
  name_word : name.IsWord
  name_base : '/' ∉ name

instance (dir name : Text) : Decidable (Program dir name) :=
  decidable_of_iff' _ (program_iff dir name)

namespace Program

variable {dir name : Text}

theorem isWord (h : Program dir name) : (dir ++ name).IsWord := by
  refine ⟨List.append_ne_nil_of_right_ne_nil dir h.name_word.ne_nil, ?_⟩
  rw [List.any_append, h.dir_solid, h.name_word.solid]
  rfl

theorem baseName_eq (h : Program dir name) : baseName (dir ++ name) = name := by
  have hname : ∀ c ∈ name.reverse, (c != '/') = true := by
    intro c hc
    simpa using ne_of_mem_of_not_mem (List.mem_reverse.mp hc) h.name_base
  have hdir : dir.reverse.takeWhile (· != '/') = [] := by
    rcases h.dir_end with rfl | hlast
    · rfl
    · rw [← List.head?_reverse] at hlast
      obtain ⟨rest, hrest⟩ := List.head?_eq_some_iff.mp hlast
      rw [hrest]
      rfl
  rw [baseName, Text.afterLast, List.reverse_append, List.takeWhile_append_of_pos hname, hdir,
    List.append_nil, List.reverse_reverse]

end Program

/-- A command runs the program of the given name: directly, or through `env`, whose options begin
with a dash.  Blanks stand between its parts, and arguments may follow. -/
inductive Runs : Text → Text → Prop
  | direct {gap dir name arguments : Text} (blank : gap.all Text.isBlank = true)
      (program : Program dir name) (other : name ≠ "env")
      (apart : arguments.head?.all Text.isBlank = true) :
      Runs (gap ++ (dir ++ name ++ arguments)) name
  | env {gap envDir : Text} {options : List (Text × Text)} {gap' dir name arguments : Text}
      (blank : gap.all Text.isBlank = true) (env : Program envDir "env")
      (dashed : ∀ o ∈ options, o.1.IsGap ∧ o.2.IsWord ∧ o.2.head? = some '-')
      (blank' : gap'.IsGap) (program : Program dir name) (undashed : (dir ++ name).head? ≠ some '-')
      (apart : arguments.head?.all Text.isBlank = true) :
      Runs (gap ++ (envDir ++ "env" ++ (options.flatMap (fun o => o.1 ++ o.2) ++
        (gap' ++ (dir ++ name ++ arguments))))) name

/-- Options and the gaps in front of them, before anything that begins with a gap. -/
theorem words_options {options : List (Text × Text)}
    (h : ∀ o ∈ options, o.1.IsGap ∧ o.2.IsWord ∧ o.2.head? = some '-') {s : Text}
    (hs : s.head?.all Text.isBlank = true) :
    (options.flatMap (fun o => o.1 ++ o.2) ++ s).head?.all Text.isBlank = true ∧
      Text.words (options.flatMap (fun o => o.1 ++ o.2) ++ s) =
        options.map (·.2) ++ Text.words s := by
  induction options with
  | nil => exact ⟨hs, rfl⟩
  | cons o options ih =>
      rw [List.forall_mem_cons] at h
      obtain ⟨⟨hgap, hword, -⟩, hoptions⟩ := h
      obtain ⟨hapart, hwords⟩ := ih hoptions
      rw [List.flatMap_cons, List.append_assoc, List.append_assoc]
      refine ⟨hgap.head?_append _, ?_⟩
      rw [Text.words_append_of_all hgap.blank, hword.words_append hapart, hwords]
      rfl

theorem isPrefixOf_dash {a : Text} : ['-'].isPrefixOf a = true ↔ a.head? = some '-' := by
  cases a with
  | nil => simp
  | cons c a =>
      rw [List.isPrefixOf_iff_prefix, List.cons_prefix_cons, List.head?_cons, Option.some_inj]
      exact ⟨fun h => h.1.symm, fun h => ⟨h.symm, List.nil_prefix⟩⟩

/-- The name of the program is found among the words of a command. -/
theorem Runs.program?_words {command name : Text} (h : Runs command name) :
    program? (Text.words command) = some name := by
  cases h with
  | direct blank program other apart =>
      rw [Text.words_append_of_all blank, program.isWord.words_append apart, program?,
        program.baseName_eq, if_neg other]
  | @env gap envDir options gap' dir name arguments blank env dashed blank' program undashed
      apart =>
      -- Behind the name of `env`, the options are passed over up to the first word without a dash.
      obtain ⟨hapart, hoptions⟩ :=
        words_options dashed (blank'.head?_append (dir ++ name ++ arguments))
      have hskipped : (options.map (·.2)).find? (fun a => !(['-'].isPrefixOf a)) = none := by
        rw [List.find?_eq_none, List.forall_mem_map]
        intro o ho
        rw [isPrefixOf_dash.mpr (dashed o ho).2.2]
        decide
      have hfound : (!(['-'].isPrefixOf (dir ++ name))) = true := by
        rw [Bool.not_eq_true', ← Bool.not_eq_true, isPrefixOf_dash]
        exact undashed
      rw [Text.words_append_of_all blank, env.isWord.words_append hapart, hoptions,
        Text.words_append_of_all blank'.blank, program.isWord.words_append apart, program?,
        env.baseName_eq, if_pos rfl, List.find?_append, hskipped, List.find?_cons, hfound]
      simp [program.baseName_eq]

theorem Dialects.resolve_of_runs (d : Dialects) {command name line : Text}
    (h : Runs command name) (hline : Text.words (line.drop 2) = Text.words command) :
    d.resolve line = if name ∈ d.recognized then name else d.fallback := by
  rw [resolve, hline, h.program?_words]

/-! ## Readers -/

namespace LineReader

/-- Only a first line with the mark is kept back. -/
theorem fst_feed_eq_none_iff {r : LineReader} {raw : Text} :
    (r.feed raw).1 = none ↔ r.lineNumber = 0 ∧ interpreterMark <+: normalize raw := by
  simp only [feed, List.isPrefixOf_iff_prefix]
  split
  · rename_i hfirst
    exact ⟨fun _ => hfirst, fun _ => rfl⟩
  · rename_i hother
    exact ⟨fun h => absurd h (Option.some_ne_none _), fun h => absurd h hother⟩

theorem dialect_feed_start (d : Dialects) (raw : Text) :
    ((start d).feed raw).2.dialect =
      if interpreterMark <+: normalize raw then d.resolve (normalize raw) else d.fallback := by
  simp only [feed, start, true_and, List.isPrefixOf_iff_prefix]
  split <;> rfl

end LineReader

end Script

/-- The dialect of a script.  A reader keeps back a line exactly if it is the first one and its
normal form begins with the mark; the dialect is settled by the first line, and it is the fallback
or a recognized one.  If the first line is an interpreter line whose command runs a program, the
line is kept back, and the dialect is the name of the program where that is recognized, and the
fallback otherwise. -/
theorem dialect_detection (d : Script.Dialects) :
    let reader (raws : List Text) := ((Script.LineReader.start d).feedAll raws).2
    (∀ raws raw, (((reader raws).feed raw).1 = none ↔
        raws = [] ∧ Script.interpreterMark <+: Script.normalize raw) ∧
      ∀ line ∈ ((reader raws).feed raw).1, line = Script.normalize raw) ∧
    (∀ raw raws, (reader (raw :: raws)).dialect = (reader [raw]).dialect) ∧
    (∀ raws, (reader raws).dialect = d.fallback ∨ (reader raws).dialect ∈ d.recognized) ∧
    ∀ (indent command name : Text) (raws : List Text), indent.all Text.isBlank = true →
      Script.Runs command name →
      let raw := indent ++ Script.interpreterMark ++ command
      ((reader []).feed raw).1 = none ∧
        (reader (raw :: raws)).dialect = if name ∈ d.recognized then name else d.fallback := by
  intro reader
  have hsettled : ∀ raw raws, (reader (raw :: raws)).dialect = (reader [raw]).dialect :=
    fun raw raws => Script.LineReader.dialect_feedAll_feed (.start d) raw raws
  have hfirst : ∀ raw, (reader [raw]).dialect =
      if Script.interpreterMark <+: Script.normalize raw then d.resolve (Script.normalize raw)
      else d.fallback := Script.LineReader.dialect_feed_start d
  refine ⟨?_, hsettled, ?_, ?_⟩
  · intro raws raw
    have hnumber : (reader raws).lineNumber = raws.length :=
      (Script.LineReader.lineNumber_feedAll (.start d) raws).trans (Nat.zero_add _)
    rw [Script.LineReader.fst_feed_eq_none_iff, hnumber, List.length_eq_zero_iff]
    exact ⟨Iff.rfl, fun line hline => Script.LineReader.eq_normalize_of_mem_feed hline⟩
  · intro raws
    cases raws with
    | nil => exact .inl rfl
    | cons raw raws =>
        rw [hsettled, hfirst]
        split
        · exact d.resolve_mem _
        · exact .inl rfl
  · intro indent command name raws hindent hruns raw
    obtain ⟨s, hnormal, hwords⟩ := Script.exists_normalize_interpreterMark hindent command
    have hmark : Script.interpreterMark <+: Script.normalize raw := by
      rw [hnormal]
      exact ⟨s, rfl⟩
    refine ⟨Script.LineReader.fst_feed_eq_none_iff.mpr ⟨rfl, hmark⟩, ?_⟩
    rw [hsettled, hfirst, if_pos hmark, hnormal]
    exact d.resolve_of_runs hruns hwords

/-- An indented line with two options of `env`, tabs between the words, and a program behind its
directory; one that runs a program that is not recognized. -/
theorem dialect_detection_env :
    let d : Script.Dialects := {}
    let reader (raws : List Text) := ((Script.LineReader.start d).feedAll raws).2
    (reader ["\t #! /usr/bin/env\t-S \t--ignore=a /opt/bin/zsh -f\t\n", "#!/bin/bash\n"]).dialect =
        "zsh".toList ∧
      (reader ["#!/usr/bin/python3\n"]).dialect = "sh".toList := by
  intro d reader
  have hruns := @Script.Runs.env " " "/usr/bin/" [("\t", "-S"), (" \t", "--ignore=a")] " "
    "/opt/bin/" "zsh" " -f\t\n" rfl (by decide +kernel) (by decide +kernel) (by decide +kernel)
    (by decide +kernel) (by decide +kernel) rfl
  have hruns' := @Script.Runs.direct [] "/usr/bin/" "python3" "\n" rfl (by decide +kernel)
    (by decide +kernel) rfl
  obtain ⟨-, -, -, hdialect⟩ := dialect_detection d
  have hreader {indent command name raw : Text} (raws : List Text)
      (hindent : indent.all Text.isBlank = true) (hruns : Script.Runs command name)
      (hraw : indent ++ Script.interpreterMark ++ command = raw) :
      (reader (raw :: raws)).dialect = if name ∈ d.recognized then name else d.fallback := by
    rw [← hraw]
    exact (hdialect indent command name raws hindent hruns).2
  have henv := @hreader "\t " _ _
    "\t #! /usr/bin/env\t-S \t--ignore=a /opt/bin/zsh -f\t\n" ["#!/bin/bash\n"] rfl hruns
    (by decide +kernel)
  have hpython := @hreader [] _ _ "#!/usr/bin/python3\n" [] rfl hruns' (by decide +kernel)
  rw [if_pos (by decide +kernel)] at henv
  rw [if_neg (by decide +kernel)] at hpython
  exact ⟨henv, hpython⟩

end ShellDoc
