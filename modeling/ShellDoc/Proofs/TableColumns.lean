import ShellDoc.Command.Table
import ShellDoc.Proofs.Keyed
import Mathlib.Algebra.GroupWithZero.Nat

/-!
# The columns of a table

Every line of a table joins one part for each column, and a part is as long as its column is wide:
a text filled up with spaces, or a run of dashes.  So the lines have one length, and the parts of a
column stand at the same offset in all of them (`Aligned`).  That a line is cut into its parts there
is a fact about joined texts, of which `Text.drop_join` skips the first parts.

Only the columns of the first row count: other cells of a row change nothing (`table_keep`).
-/

namespace ShellDoc

/-! ## Joined texts -/

namespace Text

variable {sep : Text} {parts : List Text}

theorem length_join (hne : parts ≠ []) : (join sep parts).length =
    (parts.map List.length).sum + sep.length * (parts.length - 1) := by
  induction parts with
  | nil => exact absurd rfl hne
  | cons part parts ih =>
      cases parts with
      | nil => simp
      | cons next parts =>
          rw [join_cons_cons, List.length_append, List.length_append, ih (List.cons_ne_nil _ _)]
          simp only [List.map_cons, List.sum_cons, List.length_cons, Nat.add_sub_cancel,
            Nat.mul_succ]
          omega

/-- Behind the first parts and the separators that follow them stand the other parts. -/
theorem drop_join {i : ℕ} (hi : i < parts.length) :
    (join sep parts).drop (((parts.take i).map List.length).sum + sep.length * i) =
      join sep (parts.drop i) := by
  induction parts generalizing i with
  | nil => exact absurd hi (Nat.not_lt_zero i)
  | cons part parts ih =>
      cases i with
      | zero => simp
      | succ i =>
          have hi' : i < parts.length := Nat.lt_of_succ_lt_succ hi
          obtain ⟨next, rest, rfl⟩ := List.exists_cons_of_length_pos (Nat.zero_lt_of_lt hi')
          -- the first part goes together with the separator behind it
          have hoffset : (((part :: next :: rest).take (i + 1)).map List.length).sum +
              sep.length * (i + 1) = (part ++ sep).length +
                ((((next :: rest).take i).map List.length).sum + sep.length * i) := by
            simp only [List.take_succ_cons, List.map_cons, List.sum_cons, List.length_append,
              Nat.mul_succ]
            omega
          rw [hoffset, join_cons_cons, ← List.append_assoc, List.drop_length_add_append, ih hi',
            List.drop_succ_cons]

theorem take_join_cons (part : Text) (parts : List Text) :
    (join sep (part :: parts)).take part.length = part := by
  cases parts with
  | nil => simp
  | cons next parts => rw [join_cons_cons, List.take_left]

end Text

namespace Command

/-! ## Aligned lines -/

/-- Where the column with an index begins. -/
def columnOffset (width : Text → ℕ) (columns : List Text) (i : ℕ) : ℕ :=
  ((columns.take i).map width).sum + 3 * i

/-- The line holds one part for each column, at the offset of the column and as wide as it, with
three characters `sep` between each two of them. -/
structure Aligned (width : Text → ℕ) (columns : List Text) (part : Text → Text) (sep line : Text) :
    Prop where
  length : line.length = (columns.map width).sum + 3 * (columns.length - 1)
  column {i : ℕ} {c : Text} (hc : columns[i]? = some c) :
    (line.drop (columnOffset width columns i)).take (width c) = part c
  gap {i : ℕ} {c : Text} (hc : columns[i]? = some c) (hi : i + 1 < columns.length) :
    (line.drop (columnOffset width columns i + width c)).take 3 = sep

theorem aligned_join {width : Text → ℕ} {columns : List Text} {part : Text → Text} {sep : Text}
    (hne : columns ≠ []) (hsep : sep.length = 3)
    (hpart : ∀ c ∈ columns, (part c).length = width c) :
    Aligned width columns part sep (Text.join sep (columns.map part)) := by
  have hwidths {cs : List Text} (hcs : cs ⊆ columns) :
      (cs.map part).map List.length = cs.map width := by
    rw [List.map_map]
    exact List.map_congr_left fun c hc => hpart c (hcs hc)
  have hdrop (i : ℕ) (hi : i < columns.length) :
      (Text.join sep (columns.map part)).drop (columnOffset width columns i) =
        Text.join sep ((columns.drop i).map part) := by
    have hi' : i < (columns.map part).length := by rwa [List.length_map]
    have hjoin : (Text.join sep (columns.map part)).drop _ = _ := Text.drop_join hi'
    rwa [← List.map_take, hwidths (List.take_subset i columns), hsep, ← List.map_drop] at hjoin
  constructor
  · rw [Text.length_join (by simpa using hne), hwidths (List.Subset.refl _), hsep,
      List.length_map]
  · intro i c hc
    obtain ⟨hi, rfl⟩ := List.getElem?_eq_some_iff.mp hc
    rw [hdrop i hi, List.drop_eq_getElem_cons hi, List.map_cons,
      ← hpart _ (List.getElem_mem hi), Text.take_join_cons]
  · intro i c hc hi
    obtain ⟨hi', rfl⟩ := List.getElem?_eq_some_iff.mp hc
    rw [← List.drop_drop, hdrop i hi', List.drop_eq_getElem_cons hi', List.drop_eq_getElem_cons hi,
      List.map_cons, List.map_cons, Text.join_cons_cons, ← hpart _ (List.getElem_mem hi'),
      List.drop_left, ← hsep, List.take_left]

/-! ## The lines of a table -/

section Lines

variable {first : Fields Value} {rows : List (Fields Value)}

/-- A column is as wide as its widest text. -/
theorem max?_eq_columnWidth (rows : List (Fields Value)) (column : Text) :
    (column.length :: rows.map fun row => (cell row column).length).max? =
      some (columnWidth rows column) :=
  List.max?_cons' ..

theorem length_le_columnWidth (rows : List (Fields Value)) (column : Text) :
    column.length ≤ columnWidth rows column :=
  (List.max?_eq_some_iff.mp (max?_eq_columnWidth rows column)).2 _ List.mem_cons_self

theorem length_cell_le_columnWidth {row : Fields Value} (hrow : row ∈ rows) (column : Text) :
    (cell row column).length ≤ columnWidth rows column :=
  (List.max?_eq_some_iff.mp (max?_eq_columnWidth rows column)).2 _
    (List.mem_cons_of_mem _ (List.mem_map_of_mem (f := fun row => (cell row column).length) hrow))

/-- The content of a column, filled up with spaces to its width. -/
def filled (width : Text → ℕ) (content : Text → Text) (column : Text) : Text :=
  Text.padRight (width column) (content column)

theorem length_filled {width : Text → ℕ} {content : Text → Text} {column : Text}
    (h : (content column).length ≤ width column) :
    (filled width content column).length = width column := by
  rw [filled, Text.length_padRight, Nat.max_eq_left h]

/-- A line of texts, one for each column. -/
def textLine (width : Text → ℕ) (columns : List Text) (content : Text → Text) : Text :=
  Text.join " | " (columns.map (filled width content))

/-- The rule under the headers. -/
def ruleLine (width : Text → ℕ) (columns : List Text) : Text :=
  Text.join "-+-" (columns.map fun c => List.replicate (width c) '-')

theorem tableLine_eq (width : Text → ℕ) (content : Text → Text) (columns : List Text) :
    tableLine (columns.map width) (columns.map content) = textLine width columns content := by
  rw [tableLine, List.zipWith_map, List.zipWith_self]
  rfl

theorem tableLines_eq (first : Fields Value) (rows : List (Fields Value)) :
    tableLines (first :: rows) =
      textLine (columnWidth (first :: rows)) first.names id ::
        ruleLine (columnWidth (first :: rows)) first.names ::
          (first :: rows).map fun row =>
            textLine (columnWidth (first :: rows)) first.names (cell row) := by
  rw [tableLines]
  simp only [tableLine_eq, List.map_map]
  rw [← tableLine_eq, List.map_id]
  rfl

theorem textLine_congr {width width' : Text → ℕ} {content content' : Text → Text}
    {columns : List Text} (hwidth : ∀ c ∈ columns, width c = width' c)
    (hcontent : ∀ c ∈ columns, content c = content' c) :
    textLine width columns content = textLine width' columns content' := by
  refine congrArg (Text.join " | ") (List.map_congr_left fun c hc => ?_)
  rw [filled, filled, hwidth c hc, hcontent c hc]

theorem ruleLine_congr {width width' : Text → ℕ} {columns : List Text}
    (hwidth : ∀ c ∈ columns, width c = width' c) :
    ruleLine width columns = ruleLine width' columns :=
  congrArg (Text.join "-+-") (List.map_congr_left fun c hc => by rw [hwidth c hc])

theorem newline_not_mem_join {sep : Text} {columns : List Text} {part : Text → Text}
    (hsep : '\n' ∉ sep) (hpart : ∀ c ∈ columns, '\n' ∉ part c) :
    '\n' ∉ Text.join sep (columns.map part) := by
  intro hmem
  obtain hmem | ⟨t, ht, hmem⟩ := Text.mem_join hmem
  · exact hsep hmem
  · obtain ⟨c, hc, rfl⟩ := List.mem_map.mp ht
    exact hpart c hc hmem

theorem newline_not_mem_filled {width : Text → ℕ} {content : Text → Text} {column : Text}
    (h : '\n' ∉ content column) : '\n' ∉ filled width content column := by
  rw [filled, Text.padRight, List.mem_append, List.mem_replicate, not_or]
  exact ⟨h, fun hspace => absurd hspace.2 (by decide)⟩

theorem newline_not_mem_tableLines (hheaders : ∀ column ∈ first.names, '\n' ∉ column)
    (hcells : ∀ row ∈ first :: rows, ∀ column ∈ first.names, '\n' ∉ cell row column) :
    ∀ line ∈ tableLines (first :: rows), '\n' ∉ line := by
  rw [tableLines_eq, List.forall_mem_cons, List.forall_mem_cons, List.forall_mem_map]
  refine ⟨?_, ?_, fun row hrow => ?_⟩
  · exact newline_not_mem_join (by decide) fun c hc => newline_not_mem_filled (hheaders c hc)
  · refine newline_not_mem_join (by decide) fun c _ hdash => ?_
    exact absurd (List.mem_replicate.mp hdash).2 (by decide)
  · exact newline_not_mem_join (by decide) fun c hc =>
      newline_not_mem_filled (hcells row hrow c hc)

theorem splitOn_table (hheaders : ∀ column ∈ first.names, '\n' ∉ column)
    (hcells : ∀ row ∈ first :: rows, ∀ column ∈ first.names, '\n' ∉ cell row column) :
    (table (first :: rows)).splitOn '\n' = tableLines (first :: rows) :=
  List.splitOn_intercalate '\n' (newline_not_mem_tableLines hheaders hcells) (List.cons_ne_nil _ _)

/-- The cells of a row in some columns. -/
def keep (columns : List Text) (row : Fields Value) : Fields Value :=
  row.filter fun f => columns.contains f.1

theorem cell_keep {columns : List Text} {column : Text} (h : column ∈ columns)
    (row : Fields Value) : cell (keep columns row) column = cell row column := by
  rw [cell, cell, keep, Fields.get?_filter (p := columns.contains) (by simpa)]

theorem columnWidth_keep {first : Fields Value} {column : Text} (h : column ∈ first.names)
    (rows : List (Fields Value)) :
    columnWidth (first :: rows.map (keep first.names)) column =
      columnWidth (first :: rows) column := by
  rw [columnWidth, columnWidth, List.map_cons, List.map_cons, List.map_map]
  simp only [Function.comp_def, cell_keep h]

/-- Cells outside of the columns of the first row change nothing. -/
theorem table_keep (first : Fields Value) (rows : List (Fields Value)) :
    table (first :: rows.map (keep first.names)) = table (first :: rows) := by
  have hwidth := fun c (hc : c ∈ first.names) => columnWidth_keep hc rows
  have hrows (row : Fields Value) := textLine_congr hwidth fun c hc => cell_keep hc row
  rw [table, table, tableLines_eq, tableLines_eq, List.map_cons, List.map_cons, List.map_map,
    textLine_congr hwidth fun _ _ => rfl, ruleLine_congr hwidth,
    textLine_congr hwidth fun _ _ => rfl]
  simp only [Function.comp_def, hrows]

/-- A table has a line for the headers, a rule, and a line for each row, all of one length.  In all
of them a column stands at the same offset and is as wide as its widest text: the header or the cell
filled up with spaces, or dashes.  Three characters stand between each two columns.  A cell that a
row does not have is empty, and cells outside of the columns of the first row do not count. -/
theorem table_columns (first : Fields Value) (rows : List (Fields Value)) (hcolumns : first ≠ [])
    (hheaders : ∀ column ∈ first.names, '\n' ∉ column)
    (hcells : ∀ row ∈ first :: rows, ∀ column ∈ first.names, '\n' ∉ cell row column) :
    let all := first :: rows
    let columns := first.names
    let width := columnWidth all
    (∀ column, (column.length :: all.map fun row => (cell row column).length).max? =
        some (width column)) ∧
      (∀ row column, row.get? column = none → cell row column = []) ∧
      table (first :: rows.map (keep columns)) = table all ∧
      ((table all).splitOn '\n').length = all.length + 2 ∧
      ∃ header rule body, (table all).splitOn '\n' = header :: rule :: body ∧
        Aligned width columns (filled width id) " | " header ∧
        Aligned width columns (fun c => List.replicate (width c) '-') "-+-" rule ∧
        List.Forall₂ (fun row line => Aligned width columns (filled width (cell row)) " | " line)
          all body := by
  intro all columns width
  have hne : columns ≠ [] := by simpa [columns, Fields.names] using hcolumns
  have hlines := splitOn_table hheaders hcells
  rw [tableLines_eq] at hlines
  refine ⟨max?_eq_columnWidth all, fun row column h => by rw [cell, h]; rfl,
    table_keep first rows, by rw [hlines]; simp [all], _, _, _, hlines, ?_, ?_, ?_⟩
  · exact aligned_join hne rfl fun c _ => length_filled (length_le_columnWidth all c)
  · exact aligned_join hne rfl fun c _ => List.length_replicate ..
  · rw [List.forall₂_map_right_iff, List.forall₂_same]
    exact fun row hrow =>
      aligned_join hne rfl fun c _ => length_filled (length_cell_le_columnWidth hrow c)

end Lines

/-- A row without a cell, and one with a cell in no column. -/
theorem table_columns_two :
    let first : Fields Value := [("name", .text "-"), ("n", .int 12)]
    let rows : List (Fields Value) := [[("name", .text "first"), ("other", .text "long text")]]
    (table (first :: rows)).splitOn '\n' =
        ["name  | n ".toList, "------+---".toList, "-     | 12".toList, "first |   ".toList] ∧
      ((table (first :: rows)).splitOn '\n').length = 4 ∧
      table (first :: rows.map (keep first.names)) = table (first :: rows) ∧
      ∃ header, Aligned (columnWidth (first :: rows)) first.names
        (filled (columnWidth (first :: rows)) id) " | " header := by
  intro first rows
  have hheaders : ∀ column ∈ first.names, '\n' ∉ column := by decide
  have hcells : ∀ row ∈ first :: rows, ∀ column ∈ first.names, '\n' ∉ cell row column := by
    decide
  obtain ⟨-, -, hkeep, hlength, header, -, -, -, hheader, -⟩ :=
    table_columns first rows (List.cons_ne_nil _ _) hheaders hcells
  exact ⟨by decide, hlength, hkeep, header, hheader⟩

end Command

end ShellDoc
