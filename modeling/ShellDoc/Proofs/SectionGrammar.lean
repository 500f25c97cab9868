import ShellDoc.Page.Section
import ShellDoc.Proofs.BlockEntries

/-!
# The grammar of a section

A section is read back from its lines: cut at the empty lines, it falls into groups, and these are
the parts of the block that have something to say, in a fixed order.  `SectionPart.IsPresent` says
which parts these are, and `SectionPart.Shows` what the lines of a group are.

That the groups come back as they were written needs that none of them holds an empty line
(`SectionPart.Shows.full`).  Most lines have a mark of their own; the description has none, but a
block has no empty line of description.  The line for the returned value has two forms and not a
third one, with a type and an empty rest, because no value ends with a space
(`showsReturned_returnLine`).
-/

namespace ShellDoc

theorem Fields.mem_of_get? {α : Type} {fs : Fields α} {name : Text} {value : α}
    (h : fs.get? name = some value) : (name, value) ∈ fs := by
  induction fs with
  | nil => cases h
  | cons f fs ih =>
      rw [get?] at h
      split at h
      · rename_i hname
        cases h
        rw [← hname]
        exact List.mem_cons_self
      · exact List.mem_cons_of_mem f (ih h)

namespace Page

/-- The parts of a section. -/
inductive SectionPart where
  | heading
  | fence
  | summary
  | description
  | parameters
  | returned
  | properties
  deriving DecidableEq, Repr

namespace SectionPart

/-- All parts in the order in which they stand. -/
def all : List SectionPart :=
  [heading, fence, summary, description, parameters, returned, properties]

/-- Whether a block has something to say in a part. -/
def IsPresent (b : DocBlock) : SectionPart → Prop
  | heading => True
  | fence => True
  | summary => b.summary ≠ []
  | description => b.description ≠ []
  | parameters => b.parameters ≠ []
  | returned => ∃ value ∈ b.properties.get? DocBlock.returnProperty, value ≠ []
  | properties => ∃ p ∈ b.properties, p.1 ≠ DocBlock.returnProperty

instance (b : DocBlock) : (part : SectionPart) → Decidable (part.IsPresent b)
  | heading => inferInstanceAs (Decidable True)
  | fence => inferInstanceAs (Decidable True)
  | summary => inferInstanceAs (Decidable (b.summary ≠ []))
  | description => inferInstanceAs (Decidable (b.description ≠ []))
  | parameters => inferInstanceAs (Decidable (b.parameters ≠ []))
  | returned =>
      inferInstanceAs (Decidable (∃ value ∈ b.properties.get? DocBlock.returnProperty, value ≠ []))
  | properties => inferInstanceAs (Decidable (∃ p ∈ b.properties, p.1 ≠ DocBlock.returnProperty))

/-- A row of the table shows a parameter: its name and type, and its description, each filled up
with spaces. -/
def ShowsParameter (p : Parameter) (row : Text) : Prop :=
  ∃ m n, row = Text.concat ["| ", p.name, " (", p.type, ")", List.replicate m ' ', " | ",
    p.description, List.replicate n ' ', " |"]

/-- A line shows a returned value: a type alone, or a type and what is said about it. -/
def ShowsReturned (value line : Text) : Prop :=
  (' ' ∉ value ∧ line = Text.concat ["**return (", value, ")**"]) ∨
    ∃ type rest, value = type ++ ' ' :: rest ∧ ' ' ∉ type ∧ rest ≠ [] ∧
      line = Text.concat ["**return (", type, ")** - ", rest]

/-- The lines in which a block says a part. -/
def Shows (dialect : Text) (b : DocBlock) : SectionPart → List Text → Prop
  | heading, group => group = [Text.concat ["## ", b.name, "()"]]
  | fence, group =>
      group = [Text.concat ["```", dialect], Text.concat [b.name, "() "], "```"]
  | summary, group => group = [Text.concat ["*", b.summary, "*"]]
  | description, group => group = [Text.join " " b.description]
  | parameters, group => List.Forall₂ ShowsParameter b.parameters group
  | returned, group =>
      ∃ value line, b.properties.get? DocBlock.returnProperty = some value ∧
        ShowsReturned value line ∧ group = [line]
  | properties, group =>
      let others := b.properties.filter fun p => p.1 ≠ DocBlock.returnProperty
      group = [Text.concat ["*", Text.join ", " (others.map fun p =>
        if p.2 = [] then p.1 else Text.concat [p.1, ": ", p.2]), "*"]]

end SectionPart

/-! ## One group -/

theorem showsParameter_parameterRow (m n : Nat) (p : Parameter) :
    SectionPart.ShowsParameter p (parameterRow m n p) := by
  refine ⟨m - p.label.length, n - p.description.length, ?_⟩
  simp [parameterRow, Text.padRight, Parameter.label]

theorem showsReturned_returnLine {value : Text} (h : value.NoTrailingBlank) :
    SectionPart.ShowsReturned value (returnLine value) := by
  rcases Text.cut_cases ' ' value with ⟨hspace, hcut⟩ | ⟨type, rest, rfl, hspace, hcut⟩
  · refine .inl ⟨hspace, ?_⟩
    rw [returnLine, hcut]
    rfl
  · have hrest : rest ≠ [] := by
      rintro rfl
      exact h.getLast?_ne_space (by simp)
    refine .inr ⟨type, rest, rfl, hspace, hrest, ?_⟩
    rw [returnLine, hcut]
    exact if_neg hrest

namespace SectionPart

variable {dialect : Text} {b : DocBlock}

/-- A group has lines, and none of them is empty. -/
theorem Shows.full (hb : b.Tidy) {part : SectionPart} {group : List Text}
    (hpresent : part.IsPresent b) (h : part.Shows dialect b group) : group ≠ [] ∧ [] ∉ group := by
  cases part with
  | heading =>
      rw [h]
      simp
  | fence =>
      rw [h]
      simp
  | summary =>
      rw [h]
      simp
  | description =>
      obtain ⟨line, lines, hlines⟩ := List.exists_cons_of_ne_nil hpresent
      have hline : line ≠ [] := hb.description line (by rw [hlines]; exact List.mem_cons_self)
      have hjoin := Text.join_cons_ne_nil " " hline lines
      rw [h, hlines]
      simpa using fun hempty => hjoin hempty
  | parameters =>
      have hrows : ∀ {ps rows}, List.Forall₂ ShowsParameter ps rows → [] ∉ rows := by
        intro ps rows hshows
        induction hshows with
        | nil => exact List.not_mem_nil
        | cons hrow _ ih =>
            obtain ⟨m, n, rfl⟩ := hrow
            simpa using ih
      refine ⟨?_, hrows h⟩
      rintro rfl
      exact hpresent (List.forall₂_nil_right_iff.mp h)
  | returned =>
      obtain ⟨value, line, -, hline, rfl⟩ := h
      rcases hline with ⟨-, rfl⟩ | ⟨type, rest, -, -, -, rfl⟩
      · simp
      · simp
  | properties =>
      rw [h]
      simp

end SectionPart

/-! ## All groups -/

theorem forall₂_filter_cons {P : SectionPart → Prop} [DecidablePred P]
    {R : SectionPart → List Text → Prop} {part : SectionPart} {parts : List SectionPart}
    {present : Bool} {group : List Text} {groups : List (List Text)}
    (hpresent : present = true ↔ P part) (hgroup : P part → R part group)
    (hgroups : List.Forall₂ R (parts.filter (P ·)) groups) :
    List.Forall₂ R ((part :: parts).filter (P ·)) (optional present group ++ groups) := by
  by_cases hpart : P part
  · rw [List.filter_cons_of_pos (by simpa using hpart), hpresent.mpr hpart]
    exact .cons (hgroup hpart) hgroups
  · have habsent : present = false := by simpa [hpart] using hpresent
    rw [List.filter_cons_of_neg (by simpa using hpart), habsent]
    exact hgroups

/-- The groups that are written are those of the parts that are present. -/
theorem forall₂_shows_groups (dialect : Text) {b : DocBlock} (hb : b.Tidy) :
    List.Forall₂ (SectionPart.Shows dialect b) (SectionPart.all.filter (·.IsPresent b))
      (groups dialect b) := by
  have hgroups : groups dialect b =
      optional true [Text.concat ["## ", b.name, "()"]] ++
      (optional true [Text.concat ["```", dialect], Text.concat [b.name, "() "], "```"] ++
      (optional (!b.summary.isEmpty) [Text.concat ["*", b.summary, "*"]] ++
      (optional (!b.description.isEmpty) [b.descriptionText] ++
      (optional (!b.parameters.isEmpty) (parameterTable b.parameters) ++
      (optional (!b.returnValue.isEmpty) [returnLine b.returnValue] ++
      (optional (!b.otherProperties.isEmpty) [propertyLine b.otherProperties] ++ [])))))) := by
    simp [groups, optional]
  rw [hgroups]
  refine forall₂_filter_cons (by simp [SectionPart.IsPresent]) (fun _ => rfl)
    (forall₂_filter_cons (by simp [SectionPart.IsPresent]) (fun _ => rfl)
    (forall₂_filter_cons (by simp [SectionPart.IsPresent]) (fun _ => rfl)
    (forall₂_filter_cons (by simp [SectionPart.IsPresent]) (fun _ => rfl)
    (forall₂_filter_cons (by simp [SectionPart.IsPresent]) ?_
    (forall₂_filter_cons ?_ ?_
    (forall₂_filter_cons ?_ (fun _ => rfl) .nil))))))
  · intro _
    refine List.forall₂_map_right_iff.mpr (List.forall₂_same.mpr fun p _ => ?_)
    exact showsParameter_parameterRow _ _ p
  · cases h : b.properties.get? DocBlock.returnProperty <;>
      simp [SectionPart.IsPresent, DocBlock.returnValue, h]
  · rintro ⟨value, hvalue, -⟩
    have hreturn : b.returnValue = value := by
      rw [DocBlock.returnValue, Option.mem_def.mp hvalue]
      rfl
    have htext := hb.propertyText _ (Fields.mem_of_get? hvalue)
    rw [hreturn]
    exact ⟨value, _, hvalue, showsReturned_returnLine htext, rfl⟩
  · simp [SectionPart.IsPresent, DocBlock.otherProperties]

/-- Groups with a separator behind each are split back at the separators. -/
theorem splitOn_flatMap_groups {α : Type*} [BEq α] [LawfulBEq α] {sep : α} {groups : List (List α)}
    (h : ∀ group ∈ groups, sep ∉ group) :
    (groups.flatMap (· ++ [sep])).splitOn sep = groups ++ [[]] := by
  induction groups with
  | nil => rfl
  | cons group groups ih =>
      rw [List.forall_mem_cons] at h
      rw [List.flatMap_cons, List.append_assoc, List.singleton_append,
        List.splitOn_append_cons_self_of_not_mem h.1, ih h.2, List.cons_append]

theorem forall_mem_of_forall₂ {α β : Type*} {R : α → β → Prop} {P : β → Prop} {as : List α}
    {bs : List β} (h : List.Forall₂ R as bs) (hP : ∀ a ∈ as, ∀ b, R a b → P b) :
    ∀ b ∈ bs, P b := by
  induction h with
  | nil => exact List.forall_mem_nil _
  | cons hab _ ih =>
      rw [List.forall_mem_cons] at hP ⊢
      exact ⟨hP.1 _ hab, ih hP.2⟩

/-- Every group has lines, and none of them is empty. -/
theorem groups_full (dialect : Text) {b : DocBlock} (hb : b.Tidy) :
    ∀ group ∈ groups dialect b, group ≠ [] ∧ [] ∉ group := by
  refine forall_mem_of_forall₂ (forall₂_shows_groups dialect hb) fun part hpart group hshows => ?_
  exact SectionPart.Shows.full hb (by simpa using (List.mem_filter.mp hpart).2) hshows

theorem splitOn_sectionLines (dialect : Text) {b : DocBlock} (hb : b.Tidy) :
    (sectionLines dialect b).splitOn [] = groups dialect b ++ [[]] :=
  splitOn_flatMap_groups fun group hgroup => (groups_full dialect hb group hgroup).2

end Page

/-- The section of an emitted block is made of groups of lines with an empty line behind each, and
nothing else in it is empty.  The groups are those of the parts that the block has something to say
in, in their order; the properties are listed in the order in which they first appear in the body
of the comment. -/
theorem section_grammar (keyword dialect : Text) (lines : List Text) (b : DocBlock)
    (hb : b ∈ (({ keyword } : Recognizer).parse lines).1) :
    ∃ groups : List (List Text),
      Page.sectionLines dialect b = groups.flatMap (· ++ [[]]) ∧
      (∀ group ∈ groups, group ≠ [] ∧ [] ∉ group) ∧
      (Page.sectionLines dialect b).splitOn [] = groups ++ [[]] ∧
      List.Forall₂ (Page.SectionPart.Shows dialect b)
        (Page.SectionPart.all.filter (·.IsPresent b)) groups ∧
      ∃ g ∈ segments lines, g.block keyword = b ∧
        b.properties.names = g.propertyNames.eraseDups := by
  obtain ⟨g, hg, rfl⟩ := Recognizer.exists_segment_of_mem_parse hb
  have htidy := Segment.tidy_block hg keyword
  exact ⟨Page.groups dialect (g.block keyword), rfl, Page.groups_full dialect htidy,
    Page.splitOn_sectionLines dialect htidy, Page.forall₂_shows_groups dialect htidy,
    g, hg, rfl, g.names_properties keyword⟩

/-- The returned value stands between two other properties and goes on in a second line; there is
neither a summary nor a parameter. -/
theorem section_grammar_between_properties :
    let lines : List Text :=
      ["#/", "#@since", "#@return int", "# the status", "#@see g()", "#/", "function f()"]
    let b : DocBlock :=
      { name := "f", lineCount := 4,
        properties := [("since", []), ("return", "int the status"), ("see", "g()")] }
    let written : List Text :=
      ["## f()", [], "```sh", "f() ", "```", [], "**return (int)** - the status", [],
        "*since, see: g()*", []]
    b ∈ (({ keyword := "function" } : Recognizer).parse lines).1 ∧
      Page.sectionLines "sh" b = written ∧
      ∃ groups, written = groups.flatMap (· ++ [[]]) ∧ written.splitOn [] = groups ++ [[]] ∧
        List.Forall₂ (Page.SectionPart.Shows "sh" b)
          [.heading, .fence, .returned, .properties] groups := by
  intro lines b written
  have hb : b ∈ (({ keyword := "function" } : Recognizer).parse lines).1 := by decide +kernel
  have hwritten : Page.sectionLines "sh" b = written := by decide +kernel
  have hparts : Page.SectionPart.all.filter (·.IsPresent b) =
      [.heading, .fence, .returned, .properties] := by decide +kernel
  obtain ⟨groups, hlines, -, hsplit, hshows, -⟩ := section_grammar "function" "sh" lines b hb
  rw [hwritten] at hlines hsplit
  rw [hparts] at hshows
  exact ⟨hb, hwritten, groups, hlines, hsplit, hshows⟩

end ShellDoc
