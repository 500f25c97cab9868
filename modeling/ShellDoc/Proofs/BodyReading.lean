import ShellDoc.DocBlock.Body
import ShellDoc.Proofs.Keyed
import Mathlib.Data.List.TakeWhile

/-!
# What a body says

A body is read line by line, with the entry that was opened last carried along.
`DocBlock.reading` says what comes out without any such state: the lines in front
of the first entry are the summary and the description, the others fall into
groups, one for each `@`, and each group stands for one entry.  Empty lines count
and say nothing.

The two agree on every body.  The number of lines is separated first
(`consumeAll_eq_addLines`), then the lines that say something are read in three
steps: the text in front of the entries, one group, and all groups.
-/

namespace ShellDoc

/-- Whether a content line opens an entry. -/
def opensEntry (content : Text) : Bool := ['@'].isPrefixOf content

/-- An entry as it is written: the text behind its `@`, and the lines that
continue it. -/
structure EntryGroup where
  opening : Text
  continuation : List Text
  deriving DecidableEq, Repr

namespace EntryGroup

def name (g : EntryGroup) : Text := (Text.cut ' ' g.opening).1

def value (g : EntryGroup) : Text := (Text.cut ' ' g.opening).2

/-- The text of an entry that begins with `initial`: its parts that are not empty,
with one space between each two. -/
def textFrom (g : EntryGroup) (initial : Text) : Text :=
  Text.join " " ((initial :: g.continuation).filter (· ≠ []))

/-- The parameter that a group describes; any other group describes a property. -/
def parameter? (g : EntryGroup) : Option Parameter :=
  if g.name = Draft.parameterProperty then
    let p := Parameter.ofText g.value
    some { p with description := g.textFrom p.description }
  else none

def property? (g : EntryGroup) : Option (Text × Text) :=
  if g.name = Draft.parameterProperty then none else some (g.name, g.textFrom g.value)

end EntryGroup

/-- The groups of lines of which the first one opens an entry: each goes on up to
the next line that opens one. -/
def entryGroups : List Text → List EntryGroup
  | [] => []
  | line :: lines =>
      ⟨line.drop 1, lines.takeWhile fun l => !opensEntry l⟩ ::
        entryGroups (lines.dropWhile fun l => !opensEntry l)
termination_by lines => lines.length
decreasing_by
  have hle := (List.dropWhile_suffix (l := lines) fun l => !opensEntry l).length_le
  simp only [List.length_cons]
  omega

/-- The block that a body describes. -/
def DocBlock.reading (contents : List Text) : DocBlock :=
  let lines := contents.filter (· ≠ [])
  let plain := lines.takeWhile fun l => !opensEntry l
  let groups := entryGroups (lines.dropWhile fun l => !opensEntry l)
  { summary := plain.headD []
    description := plain.tail
    parameters := Keyed.lastOfEach Parameter.key (groups.filterMap EntryGroup.parameter?)
    properties := Keyed.lastOfEach Prod.fst (groups.filterMap EntryGroup.property?)
    lineCount := contents.length }

/-! ## Counting apart from reading -/

namespace DocBlock

/-- The block with `n` more lines counted. -/
def addLines (n : Nat) (b : DocBlock) : DocBlock := { b with lineCount := b.lineCount + n }

theorem addText_first {b : DocBlock} (h : b.summary = [] ∧ b.description = []) (s : Text) :
    b.addText s = { b with summary := s } := if_pos h

theorem addText_next {b : DocBlock} (h : ¬ (b.summary = [] ∧ b.description = [])) (s : Text) :
    b.addText s = { b with description := b.description ++ [s] } := if_neg h

theorem addText_addLines (n : Nat) (b : DocBlock) (s : Text) :
    (b.addLines n).addText s = (b.addText s).addLines n := by
  by_cases h : b.summary = [] ∧ b.description = []
  · rw [addText_first h, addText_first (b := b.addLines n) h]
    rfl
  · rw [addText_next h, addText_next (b := b.addLines n) h]
    rfl

theorem extend?_addLines (n : Nat) (b : DocBlock) (e : Entry) (s : Text) :
    (b.addLines n).extend? e s = (b.extend? e s).map (addLines n) := by
  cases e with
  | parameter type name =>
      have hentry : (b.addLines n).hasEntry (.parameter type name) =
          b.hasEntry (.parameter type name) := rfl
      simp only [extend?, hentry]
      split <;> rfl
  | property name =>
      have hget : (b.addLines n).properties.get? name = b.properties.get? name := rfl
      simp only [extend?, hget, Option.map_map]
      rfl

end DocBlock

namespace Draft

/-- What a content line says, without counting it. -/
def read (d : Draft) (content : Text) : Draft :=
  match content with
  | [] => d
  | '@' :: s => d.openEntry s
  | s => d.continueWith s

def addLines (n : Nat) (d : Draft) : Draft := { d with block := d.block.addLines n }

theorem addLines_addLines (m n : Nat) (d : Draft) :
    (d.addLines m).addLines n = d.addLines (m + n) := by
  simp only [addLines, DocBlock.addLines, Nat.add_assoc]

theorem openEntry_addLines (n : Nat) (d : Draft) (s : Text) :
    (d.addLines n).openEntry s = (d.openEntry s).addLines n := by
  simp only [openEntry]
  split <;> rfl

theorem continueWith_addLines (n : Nat) (d : Draft) (s : Text) :
    (d.addLines n).continueWith s = (d.continueWith s).addLines n := by
  obtain ⟨b, active⟩ := d
  cases active with
  | none => simp only [continueWith, addLines, DocBlock.addText_addLines]
  | some e =>
      simp only [continueWith, addLines, DocBlock.extend?_addLines]
      cases b.extend? e s <;> rfl

theorem read_addLines (n : Nat) (d : Draft) (content : Text) :
    (d.addLines n).read content = (d.read content).addLines n := by
  unfold read
  split
  · rfl
  · exact openEntry_addLines n d _
  · exact continueWith_addLines n d _

theorem consume_eq_addLines (d : Draft) (content : Text) :
    d.consume content = (d.read content).addLines 1 := by
  rw [← read_addLines]
  rfl

theorem foldl_read_addLines (n : Nat) (d : Draft) (body : List Text) :
    body.foldl read (d.addLines n) = (body.foldl read d).addLines n := by
  induction body generalizing d with
  | nil => rfl
  | cons content body ih => rw [List.foldl_cons, read_addLines, ih, List.foldl_cons]

/-- A body is read as if its lines were counted in advance. -/
theorem consumeAll_eq_addLines (d : Draft) (body : List Text) :
    d.consumeAll body = (body.foldl read d).addLines body.length := by
  induction body generalizing d with
  | nil => rfl
  | cons content body ih =>
      rw [consumeAll_cons, ih, consume_eq_addLines, foldl_read_addLines, List.foldl_cons,
        List.length_cons, Nat.add_comm body.length 1, ← addLines_addLines]

theorem foldl_read_filter (d : Draft) (body : List Text) :
    (body.filter (· ≠ [])).foldl read d = body.foldl read d := by
  induction body generalizing d with
  | nil => rfl
  | cons content body ih =>
      by_cases h : content = []
      · subst h
        rw [List.filter_cons_of_neg (by simp), ih]
        rfl
      · rw [List.filter_cons_of_pos (by simpa using h), List.foldl_cons, ih, List.foldl_cons]

theorem eq_cons_of_opensEntry {content : Text} (h : opensEntry content = true) :
    content = '@' :: content.drop 1 := by
  obtain ⟨s, rfl⟩ := List.isPrefixOf_iff_prefix.mp h
  rfl

theorem read_of_not_opensEntry {content : Text} (h : opensEntry content = false)
    (hne : content ≠ []) (d : Draft) : d.read content = d.continueWith content := by
  unfold read
  split
  · exact absurd rfl hne
  · exact absurd h (by simp [opensEntry])
  · rfl

/-! ## The text in front of the entries -/

theorem foldl_read_description (b : DocBlock) (lines : List Text)
    (hfirst : ¬ (b.summary = [] ∧ b.description = []))
    (hlines : ∀ l ∈ lines, opensEntry l = false ∧ l ≠ []) :
    lines.foldl read ⟨b, none⟩ = ⟨{ b with description := b.description ++ lines }, none⟩ := by
  induction lines generalizing b with
  | nil => simp
  | cons line lines ih =>
      obtain ⟨hline, hne⟩ := hlines line List.mem_cons_self
      have hread : read ⟨b, none⟩ line =
          ⟨{ b with description := b.description ++ [line] }, none⟩ := by
        rw [read_of_not_opensEntry hline hne]
        simp only [continueWith, DocBlock.addText_next hfirst]
      rw [List.foldl_cons, hread, ih _ (by simp)
        fun l hl => hlines l (List.mem_cons_of_mem line hl)]
      simp

/-- Plain lines fill the summary first and the description afterwards. -/
theorem foldl_read_plain (lines : List Text)
    (hlines : ∀ l ∈ lines, opensEntry l = false ∧ l ≠ []) :
    lines.foldl read {} =
      ⟨{ summary := lines.headD [], description := lines.tail }, none⟩ := by
  cases lines with
  | nil => rfl
  | cons line lines =>
      obtain ⟨hline, hne⟩ := hlines line List.mem_cons_self
      have hread : ({} : Draft).read line = ⟨{ summary := line }, none⟩ := by
        rw [read_of_not_opensEntry hline hne]
        rfl
      rw [List.foldl_cons, hread, foldl_read_description _ _ (by simp [hne])
        fun l hl => hlines l (List.mem_cons_of_mem line hl)]
      rfl

/-! ## One group -/

/-- If each line that continues an entry is joined to its text, then all of them are. -/
theorem foldl_read_continuation (state : Text → Draft) (lines : List Text)
    (hlines : ∀ l ∈ lines, opensEntry l = false ∧ l ≠ [])
    (hstep : ∀ text line, opensEntry line = false → line ≠ [] →
      (state text).read line = state (DocBlock.joined text line)) (text : Text) :
    lines.foldl read (state text) = state (lines.foldl DocBlock.joined text) := by
  induction lines generalizing text with
  | nil => rfl
  | cons line lines ih =>
      obtain ⟨hline, hne⟩ := hlines line List.mem_cons_self
      rw [List.foldl_cons, hstep text line hline hne,
        ih fun l hl => hlines l (List.mem_cons_of_mem line hl), List.foldl_cons]

theorem read_property (b : DocBlock) (name value : Text) {line : Text}
    (hline : opensEntry line = false) (hne : line ≠ []) :
    read ⟨b.setProperty name value, some (.property name)⟩ line =
      ⟨b.setProperty name (DocBlock.joined value line), some (.property name)⟩ := by
  have hput := Keyed.put_put Prod.fst (a := (name, value))
    (b := (name, DocBlock.joined value line)) rfl b.properties
  rw [read_of_not_opensEntry hline hne]
  simp only [continueWith, DocBlock.extend?, DocBlock.setProperty, Fields.get?_put_self,
    Option.map_some, Option.getD_some]
  rw [Fields.put_eq_put, Fields.put_eq_put, Fields.put_eq_put, hput]

/-- The text of a parameter is extended at every place that has its key, so its key may
stand only once. -/
theorem read_parameter (b : DocBlock) (p : Parameter) {line : Text}
    (hline : opensEntry line = false) (hne : line ≠ [])
    (hnodup : (b.parameters.map Parameter.key).Nodup) :
    read ⟨b.addParameter p, some (.parameter p.type p.name)⟩ line =
      ⟨b.addParameter { p with description := DocBlock.joined p.description line },
        some (.parameter p.type p.name)⟩ := by
  have hentry : (b.addParameter p).hasEntry (.parameter p.type p.name) = true := by
    refine List.any_eq_true.mpr ⟨p, ?_, by simp [Parameter.key]⟩
    rw [DocBlock.addParameter, DocBlock.putParameter_eq_put]
    exact Keyed.mem_put_self _ p _
  have hmap := Keyed.map_put Parameter.key (a := p)
    (fun q => { q with description := DocBlock.joined q.description line })
    rfl b.parameters hnodup
  rw [read_of_not_opensEntry hline hne]
  simp only [continueWith, DocBlock.extend?, hentry, if_true, Option.getD_some]
  simp only [DocBlock.addParameter, DocBlock.putParameter_eq_put]
  rw [← hmap]
  rfl

end Draft

theorem foldl_joined_of_ne {s : Text} (h : s ≠ []) (lines : List Text) :
    lines.foldl DocBlock.joined s = Text.join " " (s :: lines) := by
  induction lines generalizing s with
  | nil => simp
  | cons line lines ih =>
      have hjoined : DocBlock.joined s line = s ++ ' ' :: line := if_neg h
      have hne : s ++ ' ' :: line ≠ [] := by simp
      rw [List.foldl_cons, hjoined, ih hne]
      cases lines <;> simp [Text.join, List.intercalate]

/-- The lines of a group joined one after the other are its text. -/
theorem EntryGroup.foldl_joined_eq_textFrom (g : EntryGroup) (initial : Text)
    (hlines : ∀ l ∈ g.continuation, opensEntry l = false ∧ l ≠ []) :
    g.continuation.foldl DocBlock.joined initial = g.textFrom initial := by
  have hfilter : g.continuation.filter (· ≠ []) = g.continuation := by
    rw [List.filter_eq_self]
    intro l hl
    simpa using (hlines l hl).2
  by_cases h : initial = []
  · subst h
    rw [textFrom, List.filter_cons_of_neg (by simp), hfilter]
    cases hg : g.continuation with
    | nil => simp
    | cons line lines =>
        have hne : line ≠ [] := (hlines line (hg ▸ List.mem_cons_self)).2
        rw [List.foldl_cons, ← foldl_joined_of_ne hne]
        rfl
  · rw [textFrom, List.filter_cons_of_pos (by simpa using h), hfilter, foldl_joined_of_ne h]

/-- The block with the entry of a group put into its tables. -/
def EntryGroup.addTo (g : EntryGroup) (b : DocBlock) : DocBlock :=
  { b with
    parameters := Keyed.putAll Parameter.key b.parameters g.parameter?.toList
    properties := Keyed.putAll Prod.fst b.properties g.property?.toList }

theorem EntryGroup.addTo_parameter {g : EntryGroup} (h : g.name = Draft.parameterProperty)
    (b : DocBlock) :
    g.addTo b =
      let p := Parameter.ofText g.value
      b.addParameter { p with description := g.textFrom p.description } := by
  rw [addTo, parameter?, if_pos h, property?, if_pos h, DocBlock.addParameter,
    DocBlock.putParameter_eq_put]
  rfl

theorem EntryGroup.addTo_property {g : EntryGroup} (h : g.name ≠ Draft.parameterProperty)
    (b : DocBlock) : g.addTo b = b.setProperty g.name (g.textFrom g.value) := by
  rw [addTo, parameter?, if_neg h, property?, if_neg h, DocBlock.setProperty, Fields.put_eq_put]
  rfl

/-- The opening line of a group and the lines that continue it put one entry. -/
theorem Draft.foldl_read_group (d : Draft) (g : EntryGroup)
    (hlines : ∀ l ∈ g.continuation, opensEntry l = false ∧ l ≠ [])
    (hnodup : (d.block.parameters.map Parameter.key).Nodup) :
    ((('@' :: g.opening) :: g.continuation).foldl read d).block = g.addTo d.block := by
  have hread : d.read ('@' :: g.opening) = d.openEntry g.opening := rfl
  rw [List.foldl_cons, hread]
  by_cases hname : g.name = parameterProperty
  · let p := Parameter.ofText g.value
    have hopen : d.openEntry g.opening =
        ⟨d.block.addParameter p, some (.parameter p.type p.name)⟩ := if_pos hname
    have hlast := foldl_read_continuation
      (fun text => ⟨d.block.addParameter { p with description := text },
        some (.parameter p.type p.name)⟩) g.continuation hlines
      (fun text line hline hne =>
        read_parameter d.block { p with description := text } hline hne hnodup) p.description
    rw [hopen, hlast, EntryGroup.addTo_parameter hname, g.foldl_joined_eq_textFrom _ hlines]
  · have hopen : d.openEntry g.opening =
        ⟨d.block.setProperty g.name g.value, some (.property g.name)⟩ := if_neg hname
    have hlast := foldl_read_continuation
      (fun text => ⟨d.block.setProperty g.name text, some (.property g.name)⟩)
      g.continuation hlines
      (fun text line hline hne => read_property d.block g.name text hline hne) g.value
    rw [hopen, hlast, EntryGroup.addTo_property hname, g.foldl_joined_eq_textFrom _ hlines]

/-! ## All groups -/

theorem EntryGroup.nodup_addTo (g : EntryGroup) {b : DocBlock}
    (h : (b.parameters.map Parameter.key).Nodup) :
    ((g.addTo b).parameters.map Parameter.key).Nodup := by
  cases hp : g.parameter? with
  | none => simpa [addTo, hp, Keyed.putAll] using h
  | some p =>
      have hput : (g.addTo b).parameters = Keyed.put Parameter.key p b.parameters := by
        simp [addTo, hp, Keyed.putAll]
      rw [hput]
      exact DocBlock.nodup_map_key_put p h

/-- Groups put their entries one after the other. -/
theorem foldl_addTo (groups : List EntryGroup) (b : DocBlock) :
    groups.foldl (fun b g => g.addTo b) b =
      { b with
        parameters := Keyed.putAll Parameter.key b.parameters
          (groups.filterMap EntryGroup.parameter?)
        properties := Keyed.putAll Prod.fst b.properties
          (groups.filterMap EntryGroup.property?) } := by
  induction groups generalizing b with
  | nil => rfl
  | cons g groups ih =>
      have hcons : ∀ {β : Type} (f : EntryGroup → Option β),
          (g :: groups).filterMap f = (f g).toList ++ groups.filterMap f := by
        intro β f
        cases hf : f g <;> simp [hf]
      rw [List.foldl_cons, ih, hcons, hcons, Keyed.putAll_append, Keyed.putAll_append]
      rfl

theorem plain_of_mem_takeWhile {lines : List Text} (hne : ∀ l ∈ lines, l ≠ []) :
    ∀ l ∈ lines.takeWhile fun l => !opensEntry l, opensEntry l = false ∧ l ≠ [] := by
  intro l hl
  exact ⟨by simpa using List.mem_takeWhile_imp hl, hne l ((List.takeWhile_prefix _).subset hl)⟩

theorem not_of_head?_dropWhile {α : Type*} {p : α → Bool} {l : List α} {a : α}
    (h : (l.dropWhile p).head? = some a) : p a = false := by
  have hstop := List.head?_dropWhile_not p l
  rw [h] at hstop
  exact hstop

/-- Lines of which the first one opens an entry are read group by group. -/
theorem Draft.foldl_read_groups (d : Draft) (lines : List Text)
    (hhead : ∀ l, lines.head? = some l → opensEntry l = true) (hne : ∀ l ∈ lines, l ≠ [])
    (hnodup : (d.block.parameters.map Parameter.key).Nodup) :
    (lines.foldl read d).block = (entryGroups lines).foldl (fun b g => g.addTo b) d.block := by
  induction lines using entryGroups.induct generalizing d with
  | case1 => rw [entryGroups]; rfl
  | case2 line lines ih =>
      have hplain := plain_of_mem_takeWhile fun l hl => hne l (List.mem_cons_of_mem line hl)
      have hgroup := foldl_read_group d ⟨line.drop 1, lines.takeWhile fun l => !opensEntry l⟩
        hplain hnodup
      rw [← eq_cons_of_opensEntry (hhead line rfl)] at hgroup
      have hsplit : line :: lines = (line :: lines.takeWhile fun l => !opensEntry l) ++
          lines.dropWhile fun l => !opensEntry l := by
        rw [List.cons_append, List.takeWhile_append_dropWhile]
      rw [entryGroups, hsplit, List.foldl_append, ih, hgroup, List.foldl_cons]
      · intro l hl
        simpa using not_of_head?_dropWhile hl
      · intro l hl
        exact hne l (List.mem_cons_of_mem line ((List.dropWhile_suffix _).subset hl))
      · rw [hgroup]
        exact EntryGroup.nodup_addTo _ hnodup

/-! ## Whole bodies -/

theorem Draft.foldl_read_lines (lines : List Text) (hne : ∀ l ∈ lines, l ≠ []) :
    (lines.foldl read {}).block =
      let plain := lines.takeWhile fun l => !opensEntry l
      let groups := entryGroups (lines.dropWhile fun l => !opensEntry l)
      { summary := plain.headD []
        description := plain.tail
        parameters := Keyed.lastOfEach Parameter.key (groups.filterMap EntryGroup.parameter?)
        properties := Keyed.lastOfEach Prod.fst (groups.filterMap EntryGroup.property?) } := by
  have hrest : ∀ l ∈ lines.dropWhile fun l => !opensEntry l, l ≠ [] := by
    intro l hl
    exact hne l ((List.dropWhile_suffix _).subset hl)
  have hread : lines.foldl read {} =
      (lines.dropWhile fun l => !opensEntry l).foldl read
        ((lines.takeWhile fun l => !opensEntry l).foldl read {}) := by
    rw [← List.foldl_append, List.takeWhile_append_dropWhile]
  rw [hread, foldl_read_plain _ (plain_of_mem_takeWhile hne), foldl_read_groups, foldl_addTo]
  · simp only [Keyed.putAll_nil_eq_lastOfEach]
  · intro l hl
    simpa using not_of_head?_dropWhile hl
  · exact hrest
  · exact List.nodup_nil

theorem DocBlock.ofBody_eq_addLines (contents : List Text) :
    ofBody contents =
      (((contents.filter (· ≠ [])).foldl Draft.read {}).block).addLines contents.length := by
  rw [ofBody, Draft.consumeAll_eq_addLines, Draft.foldl_read_filter]
  rfl

theorem ne_nil_of_mem_filter {contents : List Text} :
    ∀ l ∈ contents.filter (· ≠ []), l ≠ [] := by
  intro l hl
  simpa using (List.mem_filter.mp hl).2

/-- Every line of a body is counted, the empty ones too. -/
theorem DocBlock.lineCount_ofBody (contents : List Text) :
    (ofBody contents).lineCount = contents.length := by
  rw [ofBody_eq_addLines, Draft.foldl_read_lines _ ne_nil_of_mem_filter]
  exact Nat.zero_add _

/-- Reading a body line by line gives the block that it describes. -/
theorem ofBody_eq_reading (contents : List Text) :
    DocBlock.ofBody contents = DocBlock.reading contents := by
  rw [DocBlock.ofBody_eq_addLines, Draft.foldl_read_lines _ ne_nil_of_mem_filter,
    DocBlock.reading]
  simp only [DocBlock.addLines, Nat.zero_add]

-- The second entry under a key replaces the first one with all that continued it.
example : (DocBlock.reading ["@param int n first", "more", [], "@return", "@param int n",
    "last"]).parameters = [⟨"int", "n", "last"⟩] := by decide +kernel

end ShellDoc
