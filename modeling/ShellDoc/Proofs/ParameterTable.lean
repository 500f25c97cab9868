import ShellDoc.Proofs.SectionGrammar
import ShellDoc.Script.Line

/-!
# The table of parameters

The rows of the table have one length, and cutting one at the widths of the columns gives back the
label and the description of its parameter.  This rests on what blocks hold: neither of the two
texts ends with a space, so that the filling can be told from them (`Text.rdropWhile_padRight`).
The label determines the key of a parameter, because a name holds no space
(`Parameter.key_eq_of_label_eq`); so no two rows have the same label.

A reader of the page does not cut at widths but at bars, at each one that has no backslash in front
of it.  Then a row falls into the pieces of its label and those of its description
(`tableCells_parameterRow`), and it has two cells only if the texts bring in no bars of their own.
-/

namespace ShellDoc

/-! ## Widths -/

namespace Page

theorem max?_eq_width (ts : List Text) (h : ts ≠ []) :
    (ts.map List.length).max? = some (width ts) := by
  obtain ⟨t, ts, rfl⟩ := List.exists_cons_of_ne_nil h
  rw [width, List.map_cons, List.max?_cons', List.foldl_cons, Nat.zero_max]

theorem length_le_width {t : Text} {ts : List Text} (h : t ∈ ts) : t.length ≤ width ts :=
  (List.max?_eq_some_iff.mp (max?_eq_width ts (List.ne_nil_of_mem h))).2 _
    (List.mem_map_of_mem (f := List.length) h)

end Page

theorem Text.rdropWhile_padRight {s : Text} (h : s.getLast? ≠ some ' ') (n : Nat) :
    (padRight n s).rdropWhile (· = ' ') = s := by
  rw [padRight]
  induction n - s.length with
  | zero =>
      rw [List.replicate_zero, List.append_nil, List.rdropWhile_eq_self_iff]
      intro hne
      simpa [List.getLast?_eq_some_getLast hne] using h
  | succ k ih =>
      rw [List.replicate_succ', ← List.append_assoc, List.rdropWhile_concat_pos _ _ _ (by simp), ih]

/-! ## Labels -/

namespace Parameter

theorem label_eq_append (p : Parameter) : p.label = p.name ++ ' ' :: '(' :: (p.type ++ [')']) := by
  simp [label]

theorem getLast?_label (p : Parameter) : p.label.getLast? = some ')' := by
  have hend : p.label = (p.name ++ ' ' :: '(' :: p.type) ++ [')'] := by simp [label]
  rw [hend, List.getLast?_concat]

theorem key_eq_of_label_eq {p q : Parameter} (hp : ' ' ∉ p.name) (hq : ' ' ∉ q.name)
    (h : p.label = q.label) : p.key = q.key := by
  rw [label_eq_append, label_eq_append] at h
  have hcut := congrArg (Text.cut ' ') h
  rw [Text.cut_append _ _ _ hp, Text.cut_append _ _ _ hq, Prod.mk.injEq, List.cons.injEq] at hcut
  obtain ⟨hname, -, htype⟩ := hcut
  rw [key, key, hname, List.append_cancel_right htype]

end Parameter

theorem DocBlock.Tidy.nodup_labels {b : DocBlock} (h : b.Tidy) :
    (b.parameters.map Parameter.label).Nodup := by
  have hkeys := List.pairwise_map.mp h.nodup
  refine List.pairwise_map.mpr (hkeys.imp_of_mem ?_)
  intro p q hp hq hne hlabel
  exact hne (Parameter.key_eq_of_label_eq (h.parameterName p hp) (h.parameterName q hq) hlabel)

/-! ## Columns -/

namespace Page

section Columns

variable {kw vw : Nat} {p : Parameter}

theorem parameterRow_eq_append (kw vw : Nat) (p : Parameter) :
    parameterRow kw vw p =
      '|' :: ' ' :: (Text.padRight kw p.label ++
        ' ' :: '|' :: ' ' :: (Text.padRight vw p.description ++ [' ', '|'])) := by
  simp [parameterRow]

theorem length_padRight_of_le {n : Nat} {s : Text} (h : s.length ≤ n) :
    (Text.padRight n s).length = n := by
  rw [Text.length_padRight, Nat.max_eq_left h]

variable (hkw : p.label.length ≤ kw) (hvw : p.description.length ≤ vw)

include hkw in
theorem labelColumn_parameterRow :
    ((parameterRow kw vw p).drop 2).take kw = Text.padRight kw p.label := by
  rw [parameterRow_eq_append]
  exact List.take_left' (length_padRight_of_le hkw)

include hkw hvw in
theorem descriptionColumn_parameterRow :
    ((parameterRow kw vw p).drop (kw + 5)).take vw = Text.padRight vw p.description := by
  have hfront : parameterRow kw vw p =
      ('|' :: ' ' :: (Text.padRight kw p.label ++ [' ', '|', ' '])) ++
        (Text.padRight vw p.description ++ [' ', '|']) := by
    rw [parameterRow_eq_append]
    simp
  have hlength : ('|' :: ' ' :: (Text.padRight kw p.label ++ [' ', '|', ' '])).length = kw + 5 := by
    simp [length_padRight_of_le hkw]
  rw [hfront, List.drop_left' hlength, List.take_left' (length_padRight_of_le hvw)]

include hkw hvw in
theorem length_parameterRow : (parameterRow kw vw p).length = kw + vw + 7 := by
  rw [parameterRow_eq_append]
  simp [length_padRight_of_le hkw, length_padRight_of_le hvw]
  omega

end Columns

theorem mem_groups_parameterTable (dialect : Text) {b : DocBlock} (h : b.parameters ≠ []) :
    parameterTable b.parameters ∈ groups dialect b := by
  simp [groups, optional, h]

end Page

/-- The table of an emitted block has a row for each parameter, in the order in which the parameters
first appear in the body of the comment.  All rows have the same length.  The label and the
description of a parameter stand in the two columns of its row, with nothing but spaces behind them,
and different rows have different labels. -/
theorem parameter_table_columns (keyword dialect : Text) (lines : List Text) (b : DocBlock)
    (hb : b ∈ (({ keyword } : Recognizer).parse lines).1) (hparameters : b.parameters ≠ []) :
    let rows := Page.parameterTable b.parameters
    rows ∈ (Page.sectionLines dialect b).splitOn [] ∧
      (∃ g ∈ segments lines, g.block keyword = b ∧
        b.parameters.map Parameter.key = g.parameterKeys.eraseDups) ∧
      (b.parameters.map Parameter.label).Nodup ∧
      ∃ kw vw, (b.parameters.map fun p => p.label.length).max? = some kw ∧
        (b.parameters.map fun p => p.description.length).max? = some vw ∧
        List.Forall₂ (fun p row => row.length = kw + vw + 7 ∧
          ((row.drop 2).take kw).rdropWhile (· = ' ') = Text.concat [p.name, " (", p.type, ")"] ∧
          ((row.drop (kw + 5)).take vw).rdropWhile (· = ' ') = p.description)
          b.parameters rows := by
  intro rows
  obtain ⟨g, hg, rfl⟩ := Recognizer.exists_segment_of_mem_parse hb
  have htidy := Segment.tidy_block hg keyword
  have hsection : rows ∈ (Page.sectionLines dialect (g.block keyword)).splitOn [] := by
    rw [Page.splitOn_sectionLines dialect htidy]
    exact List.mem_append_left _ (Page.mem_groups_parameterTable dialect hparameters)
  have hlabels := Page.max?_eq_width ((g.block keyword).parameters.map Parameter.label)
    (by simpa using hparameters)
  have hdescriptions := Page.max?_eq_width
    ((g.block keyword).parameters.map Parameter.description) (by simpa using hparameters)
  rw [List.map_map] at hlabels hdescriptions
  refine ⟨hsection, ⟨g, hg, rfl, g.map_key_parameters keyword⟩, htidy.nodup_labels, _, _, hlabels,
    hdescriptions, List.forall₂_map_right_iff.mpr (List.forall₂_same.mpr fun p hp => ?_)⟩
  have hkw := Page.length_le_width (List.mem_map_of_mem (f := Parameter.label) hp)
  have hvw := Page.length_le_width (List.mem_map_of_mem (f := Parameter.description) hp)
  have hlabel : p.label.getLast? ≠ some ' ' := by simp [p.getLast?_label]
  have hdescription := (htidy.parameterText p hp).getLast?_ne_space
  refine ⟨Page.length_parameterRow hkw hvw, ?_, ?_⟩
  · rw [Page.labelColumn_parameterRow hkw, Text.rdropWhile_padRight hlabel]
    rfl
  · rw [Page.descriptionColumn_parameterRow hkw hvw, Text.rdropWhile_padRight hdescription]

/-- The first parameter is written again behind the second one, and the new description goes on in
another line, with blanks around it. -/
theorem parameter_table_columns_written_again :
    let lines : List Text :=
      ["#/", "#@param int n first", "#@param $1", "# @param int n the last", "#  one\t", "#/",
        "function f()"]
    let b : DocBlock :=
      { name := "f", lineCount := 4,
        parameters := [⟨"int", "n", "the last one"⟩, ⟨"any", "$1", []⟩] }
    let rows : List Text := ["| n (int)  | the last one |", "| $1 (any) |              |"]
    b ∈ (({ keyword := "function" } : Recognizer).parse lines).1 ∧ b.parameters ≠ [] ∧
      rows ∈ (Page.sectionLines "sh" b).splitOn [] ∧
      List.Forall₂ (fun p row => row.length = 8 + 12 + 7 ∧
        ((row.drop 2).take 8).rdropWhile (· = ' ') = Text.concat [p.name, " (", p.type, ")"] ∧
        ((row.drop (8 + 5)).take 12).rdropWhile (· = ' ') = p.description) b.parameters rows := by
  intro lines b rows
  have hb : b ∈ (({ keyword := "function" } : Recognizer).parse lines).1 := by decide +kernel
  have hparameters : b.parameters ≠ [] := List.cons_ne_nil _ _
  have hrows : Page.parameterTable b.parameters = rows := by decide +kernel
  have hlabels : (b.parameters.map fun p => p.label.length).max? = some 8 := by decide +kernel
  have hdescriptions : (b.parameters.map fun p => p.description.length).max? = some 12 := by
    decide +kernel
  obtain ⟨hsection, -, -, kw, vw, hkw, hvw, hcolumns⟩ :=
    parameter_table_columns "function" "sh" lines b hb hparameters
  rw [hlabels] at hkw
  rw [hdescriptions] at hvw
  cases hkw
  cases hvw
  rw [hrows] at hsection hcolumns
  exact ⟨hb, hparameters, hsection, hcolumns⟩

/-! ## Cells -/

namespace Page

/-- The pieces of a text between its bars, where a bar with a backslash in front of it is an
ordinary character; `before` is the character in front of the text. -/
def barPieces (before : Char) : Text → List Text
  | [] => [[]]
  | c :: s =>
      if c = '|' ∧ before ≠ '\\' then [] :: barPieces c s
      else
        match barPieces c s with
        | [] => [[c]]
        | piece :: pieces => (c :: piece) :: pieces

/-- The cells of a row: its pieces without what is outside of the first and the last bar. -/
def tableCells (row : Text) : List Text :=
  let pieces := barPieces ' ' row
  let pieces := if pieces.head? = some [] then pieces.tail else pieces
  if pieces.getLast? = some [] then pieces.dropLast else pieces

/-- The number of bars in a text that have no backslash in front of them. -/
def barCount (before : Char) : Text → Nat
  | [] => 0
  | c :: s => (if c = '|' ∧ before ≠ '\\' then 1 else 0) + barCount c s

theorem barPieces_nil (before : Char) : barPieces before [] = [[]] := rfl

theorem barPieces_cons_of_bar {before c : Char} (h : c = '|' ∧ before ≠ '\\') (s : Text) :
    barPieces before (c :: s) = [] :: barPieces c s := if_pos h

theorem barPieces_cons_eq_match {before c : Char} (h : ¬ (c = '|' ∧ before ≠ '\\')) (s : Text) :
    barPieces before (c :: s) =
      match barPieces c s with
      | [] => [[c]]
      | piece :: pieces => (c :: piece) :: pieces := if_neg h

theorem barPieces_ne_nil (before : Char) (s : Text) : barPieces before s ≠ [] := by
  cases s with
  | nil => exact List.cons_ne_nil _ _
  | cons c s =>
      by_cases h : c = '|' ∧ before ≠ '\\'
      · rw [barPieces_cons_of_bar h]
        exact List.cons_ne_nil _ _
      · rw [barPieces_cons_eq_match h]
        split
        · exact List.cons_ne_nil _ _
        · exact List.cons_ne_nil _ _

theorem barPieces_cons_of_not {before c : Char} (h : ¬ (c = '|' ∧ before ≠ '\\')) (s : Text) :
    ∃ piece pieces, barPieces c s = piece :: pieces ∧
      barPieces before (c :: s) = (c :: piece) :: pieces := by
  obtain ⟨piece, pieces, hpieces⟩ := List.exists_cons_of_ne_nil (barPieces_ne_nil c s)
  refine ⟨piece, pieces, hpieces, ?_⟩
  rw [barPieces_cons_eq_match h, hpieces]

theorem barCount_cons_of_bar {before c : Char} (h : c = '|' ∧ before ≠ '\\') (s : Text) :
    barCount before (c :: s) = 1 + barCount c s := congrArg (· + barCount c s) (if_pos h)

theorem barCount_cons_of_not {before c : Char} (h : ¬ (c = '|' ∧ before ≠ '\\')) (s : Text) :
    barCount before (c :: s) = barCount c s :=
  (congrArg (· + barCount c s) (if_neg h)).trans (Nat.zero_add _)

/-- A bar behind a space divides. -/
theorem barPieces_append_bar (before : Char) (s t : Text) :
    barPieces before (s ++ ' ' :: '|' :: t) =
      barPieces before (s ++ [' ']) ++ barPieces '|' t := by
  induction s generalizing before with
  | nil =>
      have hspace : ¬ ((' ' : Char) = '|' ∧ before ≠ '\\') := fun h => absurd h.1 (by decide)
      have hbar : ('|' : Char) = '|' ∧ (' ' : Char) ≠ '\\' := by decide
      rw [List.nil_append, List.nil_append, barPieces_cons_eq_match hspace,
        barPieces_cons_of_bar hbar, barPieces_cons_eq_match hspace, barPieces_nil]
      rfl
  | cons c s ih =>
      rw [List.cons_append, List.cons_append]
      by_cases h : c = '|' ∧ before ≠ '\\'
      · rw [barPieces_cons_of_bar h, ih, barPieces_cons_of_bar h, List.cons_append]
      · obtain ⟨piece, pieces, hpieces, hcons⟩ := barPieces_cons_of_not h (s ++ [' '])
        rw [barPieces_cons_eq_match h, ih, hpieces, hcons]
        rfl

theorem length_barPieces (before : Char) (s : Text) :
    (barPieces before s).length = barCount before s + 1 := by
  induction s generalizing before with
  | nil => rfl
  | cons c s ih =>
      by_cases h : c = '|' ∧ before ≠ '\\'
      · rw [barPieces_cons_of_bar h, barCount_cons_of_bar h, List.length_cons, ih]
        omega
      · obtain ⟨piece, pieces, hpieces, hcons⟩ := barPieces_cons_of_not h s
        have hlength := ih c
        rw [hpieces, List.length_cons] at hlength
        rw [hcons, barCount_cons_of_not h, List.length_cons, hlength]

theorem barPieces_of_barCount_eq_zero {before : Char} {s : Text} (h : barCount before s = 0) :
    barPieces before s = [s] := by
  induction s generalizing before with
  | nil => rfl
  | cons c s ih =>
      have hbar : ¬ (c = '|' ∧ before ≠ '\\') := by
        intro hbar
        rw [barCount_cons_of_bar hbar] at h
        omega
      rw [barCount_cons_of_not hbar] at h
      rw [barPieces_cons_eq_match hbar, ih h]

/-- A character other than a bar counts only by what it is in front of. -/
theorem barCount_append_cons (before : Char) {c : Char} (hc : c ≠ '|') (s t : Text) :
    barCount before (s ++ c :: t) = barCount before s + barCount c t := by
  induction s generalizing before with
  | nil => exact (barCount_cons_of_not (fun h => hc h.1) t).trans (Nat.zero_add _).symm
  | cons d s ih =>
      rw [List.cons_append]
      by_cases h : d = '|' ∧ before ≠ '\\'
      · rw [barCount_cons_of_bar h, barCount_cons_of_bar h, ih, Nat.add_assoc]
      · rw [barCount_cons_of_not h, barCount_cons_of_not h, ih]

theorem barCount_congr {before other : Char} (hbefore : before ≠ '\\') (hother : other ≠ '\\')
    (s : Text) : barCount before s = barCount other s := by
  cases s with
  | nil => rfl
  | cons c s =>
      by_cases h : c = '|'
      · rw [barCount_cons_of_bar ⟨h, hbefore⟩, barCount_cons_of_bar ⟨h, hother⟩]
      · rw [barCount_cons_of_not fun hbar => h hbar.1, barCount_cons_of_not fun hbar => h hbar.1]

theorem barCount_spaces (n : Nat) : barCount ' ' (List.replicate n ' ') = 0 := by
  induction n with
  | zero => rfl
  | succ n ih =>
      rw [List.replicate_succ, barCount_cons_of_not (by decide), ih]

theorem padRight_append_space (n : Nat) (s : Text) :
    Text.padRight n s ++ [' '] = s ++ List.replicate (n - s.length + 1) ' ' := by
  rw [Text.padRight, List.append_assoc, ← List.replicate_succ']

/-- The filling of a cell brings in no bars. -/
theorem barCount_cell (n : Nat) (s : Text) :
    barCount '|' (' ' :: (Text.padRight n s ++ [' '])) = barCount ' ' s := by
  rw [padRight_append_space, List.replicate_succ, barCount_cons_of_not (by decide),
    barCount_append_cons ' ' (by decide), barCount_spaces, Nat.add_zero]

theorem barCount_label (p : Parameter) :
    barCount ' ' p.label = barCount ' ' p.name + barCount ' ' p.type := by
  have hbefore : barCount '(' p.type = barCount ' ' p.type :=
    barCount_congr (by decide) (by decide) p.type
  have htype : barCount ' ' ('(' :: (p.type ++ [')'])) = barCount ' ' p.type := by
    rw [barCount_cons_of_not (by decide), barCount_append_cons '(' (by decide), hbefore]
    rfl
  rw [p.label_eq_append, barCount_append_cons ' ' (by decide), htype]

/-- The cells of a row are the pieces of its label and those of its description. -/
theorem tableCells_parameterRow (kw vw : Nat) (p : Parameter) :
    tableCells (parameterRow kw vw p) =
      barPieces '|' (' ' :: (Text.padRight kw p.label ++ [' '])) ++
        barPieces '|' (' ' :: (Text.padRight vw p.description ++ [' '])) := by
  have hrow : parameterRow kw vw p =
      '|' :: ((' ' :: Text.padRight kw p.label) ++ ' ' :: '|' ::
        ((' ' :: Text.padRight vw p.description) ++ ' ' :: '|' :: [])) := by
    simp [parameterRow_eq_append]
  have hpieces : barPieces ' ' (parameterRow kw vw p) =
      [] :: ((barPieces '|' (' ' :: (Text.padRight kw p.label ++ [' '])) ++
        barPieces '|' (' ' :: (Text.padRight vw p.description ++ [' ']))) ++ [[]]) := by
    rw [hrow, barPieces_cons_of_bar ⟨rfl, by decide⟩, barPieces_append_bar, barPieces_append_bar,
      List.append_assoc]
    rfl
  rw [tableCells, hpieces]
  simp

end Page

/-- A row of the table has two cells and one more for each bar that the name, the type or the
description of its parameter brings in.  If there is none, the two cells are the label and the
description. -/
theorem parameter_row_cells (b : DocBlock) :
    List.Forall₂ (fun p row =>
        (Page.tableCells row).length =
          2 + Page.barCount ' ' p.name + Page.barCount ' ' p.type +
            Page.barCount ' ' p.description ∧
        ((Page.tableCells row).length = 2 → ∃ m n, Page.tableCells row =
          [' ' :: (p.label ++ List.replicate (m + 1) ' '),
            ' ' :: (p.description ++ List.replicate (n + 1) ' ')]))
      b.parameters (Page.parameterTable b.parameters) := by
  refine List.forall₂_map_right_iff.mpr (List.forall₂_same.mpr fun p _ => ?_)
  generalize Page.width (b.parameters.map Parameter.label) = kw
  generalize Page.width (b.parameters.map Parameter.description) = vw
  have hlength : (Page.tableCells (Page.parameterRow kw vw p)).length =
      2 + Page.barCount ' ' p.name + Page.barCount ' ' p.type +
        Page.barCount ' ' p.description := by
    rw [Page.tableCells_parameterRow, List.length_append, Page.length_barPieces,
      Page.length_barPieces, Page.barCount_cell, Page.barCount_cell, Page.barCount_label]
    omega
  refine ⟨hlength, fun htwo => ?_⟩
  rw [hlength] at htwo
  have hlabel : Page.barCount ' ' p.label = 0 := by
    rw [Page.barCount_label]
    omega
  have hdescription : Page.barCount ' ' p.description = 0 := by omega
  rw [Page.tableCells_parameterRow,
    Page.barPieces_of_barCount_eq_zero (by rw [Page.barCount_cell, hlabel]),
    Page.barPieces_of_barCount_eq_zero (by rw [Page.barCount_cell, hdescription]),
    Page.padRight_append_space, Page.padRight_append_space]
  exact ⟨_, _, rfl⟩

/-- A bar in a description makes a third column. -/
theorem bar_in_description_adds_cell :
    let lines : List Text := ["#/", "# @param int n a | b", "#/", "function f()"]
    let b : DocBlock := { name := "f", parameters := [⟨"int", "n", "a | b"⟩], lineCount := 1 }
    (∀ line ∈ lines, Script.normalize line = line) ∧
      (({} : Recognizer).parse lines).1 = [b] ∧
      Page.parameterTable b.parameters = ["| n (int) | a | b |"] ∧
      Page.tableCells "| n (int) | a | b |" = [" n (int) ", " a ", " b "] := by
  decide +kernel

-- A backslash keeps a bar inside of its cell.
example : Page.tableCells "| n (int) | a \\| b |" = [" n (int) ", " a \\| b "] := by
  decide +kernel

end ShellDoc
