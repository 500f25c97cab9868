import ShellDoc.Proofs.Segmentation
import ShellDoc.Proofs.TextParts

/-!
# The entries of an emitted block

An emitted block is the block of a segment, and its parameters and properties are read off the
lines of the body that open an entry.  They stand in the order in which their keys first appear in
the body (`Segment.parameterKeys`, `Segment.propertyNames`).

The contents of a body are stripped.  So no text of an entry ends with a blank, also where lines
were joined to it (`EntryGroup.noTrailingBlank_textFrom`), and the names of parameters are cut at
spaces, so that they hold none.  `DocBlock.Tidy` collects what holds of every block of a segment.
-/

namespace ShellDoc

/-! ## The lines that open entries -/

namespace Keyed

variable {α κ : Type*} [DecidableEq κ] (key : α → κ)

theorem mem_of_mem_lastOfEach {as : List α} {a : α} (h : a ∈ lastOfEach key as) : a ∈ as := by
  obtain ⟨k, -, hfind⟩ := List.mem_filterMap.mp h
  exact List.mem_reverse.mp (List.mem_of_find?_eq_some hfind)

theorem map_key_lastOfEach [BEq κ] [LawfulBEq κ] (as : List α) :
    (lastOfEach key as).map key = (as.map key).eraseDups := by
  obtain rfl : ‹BEq κ› = instBEqOfDecidableEq := lawful_beq_subsingleton _ _
  rw [lastOfEach, List.map_filterMap]
  conv_rhs => rw [← List.filterMap_some (l := (as.map key).eraseDups)]
  apply List.filterMap_congr
  intro k hk
  obtain ⟨a, ha, rfl⟩ := exists_find?_reverse key as k hk
  rw [ha]
  rfl

theorem nodup_map_key_lastOfEach (as : List α) : ((lastOfEach key as).map key).Nodup := by
  rw [map_key_lastOfEach]
  exact nodup_eraseDups _

end Keyed

/-- The entries of a body as they are written. -/
def bodyEntries (body : List Text) : List EntryGroup :=
  entryGroups ((body.filter (· ≠ [])).dropWhile fun l => !opensEntry l)

namespace DocBlock

theorem description_ofBody (body : List Text) :
    (ofBody body).description =
      ((body.filter (· ≠ [])).takeWhile fun l => !opensEntry l).tail := by
  rw [ofBody_eq_addLines, Draft.foldl_read_lines _ ne_nil_of_mem_filter]
  rfl

theorem parameters_ofBody (body : List Text) :
    (ofBody body).parameters =
      Keyed.lastOfEach Parameter.key ((bodyEntries body).filterMap EntryGroup.parameter?) := by
  rw [ofBody_eq_addLines, Draft.foldl_read_lines _ ne_nil_of_mem_filter]
  rfl

theorem properties_ofBody (body : List Text) :
    (ofBody body).properties =
      Keyed.lastOfEach Prod.fst ((bodyEntries body).filterMap EntryGroup.property?) := by
  rw [ofBody_eq_addLines, Draft.foldl_read_lines _ ne_nil_of_mem_filter]
  rfl

end DocBlock

/-- The lines of a group are among those that were grouped. -/
theorem mem_of_mem_entryGroups {lines : List Text} {g : EntryGroup} (h : g ∈ entryGroups lines) :
    (∃ line ∈ lines, g.opening = line.drop 1) ∧ ∀ line ∈ g.continuation, line ∈ lines := by
  induction lines using entryGroups.induct with
  | case1 =>
      rw [entryGroups] at h
      cases h
  | case2 line lines ih =>
      rw [entryGroups] at h
      rcases List.mem_cons.mp h with rfl | hrest
      · refine ⟨⟨line, List.mem_cons_self, rfl⟩, ?_⟩
        intro l hl
        exact List.mem_cons_of_mem line ((List.takeWhile_prefix _).subset hl)
      · obtain ⟨⟨first, hfirst, hopening⟩, hcontinuation⟩ := ih hrest
        have hsub : ∀ l ∈ lines.dropWhile fun l => !opensEntry l, l ∈ line :: lines :=
          fun l hl => List.mem_cons_of_mem line ((List.dropWhile_suffix _).subset hl)
        exact ⟨⟨first, hsub first hfirst, hopening⟩, fun l hl => hsub l (hcontinuation l hl)⟩

theorem filter_opensEntry_dropWhile (lines : List Text) :
    (lines.dropWhile fun l => !opensEntry l).filter opensEntry = lines.filter opensEntry := by
  induction lines with
  | nil => rfl
  | cons line lines ih =>
      cases h : opensEntry line with
      | true => rw [List.dropWhile_cons_of_neg (by simp [h])]
      | false =>
          rw [List.dropWhile_cons_of_pos (by simp [h]), ih, List.filter_cons_of_neg (by simp [h])]

/-- Each line that opens an entry opens one group. -/
theorem map_opening_entryGroups (lines : List Text)
    (hhead : ∀ l, lines.head? = some l → opensEntry l = true) :
    (entryGroups lines).map EntryGroup.opening = (lines.filter opensEntry).map (·.drop 1) := by
  induction lines using entryGroups.induct with
  | case1 =>
      rw [entryGroups]
      rfl
  | case2 line lines ih =>
      have hrest := ih fun l hl => by simpa using not_of_head?_dropWhile hl
      rw [entryGroups, List.map_cons, hrest, filter_opensEntry_dropWhile,
        List.filter_cons_of_pos (hhead line rfl), List.map_cons]

theorem map_opening_bodyEntries (body : List Text) :
    (bodyEntries body).map EntryGroup.opening = (body.filter opensEntry).map (·.drop 1) := by
  have hfull : (body.filter (· ≠ [])).filter opensEntry = body.filter opensEntry := by
    rw [List.filter_filter]
    apply List.filter_congr
    intro l _
    cases l with
    | nil => rfl
    | cons c l => exact Bool.and_true _
  rw [bodyEntries, map_opening_entryGroups _ fun l hl => by simpa using not_of_head?_dropWhile hl,
    filter_opensEntry_dropWhile, hfull]

namespace EntryGroup

theorem map_key_filterMap_parameter? (groups : List EntryGroup) :
    (groups.filterMap parameter?).map Parameter.key =
      ((groups.map opening).filter fun s => (Text.cut ' ' s).1 = Draft.parameterProperty).map
        fun s => (Parameter.ofText (Text.cut ' ' s).2).key := by
  induction groups with
  | nil => rfl
  | cons e groups ih =>
      by_cases hname : (Text.cut ' ' e.opening).1 = Draft.parameterProperty
      · simp [parameter?, name, hname, ih, Parameter.key, value]
      · simp [parameter?, name, hname, ih]

theorem map_fst_filterMap_property? (groups : List EntryGroup) :
    (groups.filterMap property?).map Prod.fst =
      ((groups.map opening).map fun s => (Text.cut ' ' s).1).filter
        (· ≠ Draft.parameterProperty) := by
  induction groups with
  | nil => rfl
  | cons e groups ih =>
      by_cases hname : (Text.cut ' ' e.opening).1 = Draft.parameterProperty
      · simpa [property?, name, hname] using ih
      · simpa [property?, name, hname] using ih

end EntryGroup

namespace Segment

/-- The texts behind the `@` of the lines that open an entry. -/
def openingTexts (g : Segment) : List Text := (g.body.filter opensEntry).map (·.drop 1)

/-- The keys of the parameters in the body, as often as they are written. -/
def parameterKeys (g : Segment) : List (Text × Text) :=
  (g.openingTexts.filter fun s => (Text.cut ' ' s).1 = Draft.parameterProperty).map
    fun s => (Parameter.ofText (Text.cut ' ' s).2).key

/-- The names of the other properties in the body, as often as they are written. -/
def propertyNames (g : Segment) : List Text :=
  (g.openingTexts.map fun s => (Text.cut ' ' s).1).filter (· ≠ Draft.parameterProperty)

/-- The parameters of a block stand in the order in which they first appear. -/
theorem map_key_parameters (keyword : Text) (g : Segment) :
    (g.block keyword).parameters.map Parameter.key = g.parameterKeys.eraseDups := by
  have hparameters : (g.block keyword).parameters = (DocBlock.ofBody g.body).parameters := rfl
  rw [hparameters, DocBlock.parameters_ofBody, Keyed.map_key_lastOfEach,
    EntryGroup.map_key_filterMap_parameter?, map_opening_bodyEntries]
  rfl

/-- The properties of a block stand in the order in which they first appear. -/
theorem names_properties (keyword : Text) (g : Segment) :
    (g.block keyword).properties.names = g.propertyNames.eraseDups := by
  have hproperties : (g.block keyword).properties = (DocBlock.ofBody g.body).properties := rfl
  rw [Fields.names, hproperties, DocBlock.properties_ofBody, Keyed.map_key_lastOfEach,
    EntryGroup.map_fst_filterMap_property?, map_opening_bodyEntries]
  rfl

end Segment

/-! ## What an entry holds -/

namespace EntryGroup

/-- Joining lines to a text leaves no blank at its end, as long as none of them has one. -/
theorem noTrailingBlank_textFrom {g : EntryGroup} {initial : Text}
    (hinitial : initial.NoTrailingBlank) (hlines : ∀ l ∈ g.continuation, l.NoTrailingBlank) :
    (g.textFrom initial).NoTrailingBlank := by
  apply Text.noTrailingBlank_join
  intro part hpart
  obtain ⟨hmem, hne⟩ := List.mem_filter.mp hpart
  refine ⟨by simpa using hne, ?_⟩
  rcases List.mem_cons.mp hmem with rfl | hline
  · exact hinitial
  · exact hlines part hline

end EntryGroup

namespace Parameter

theorem description_ofText_suffix (s : Text) : (ofText s).description <:+ s := by
  unfold ofText
  dsimp only
  split
  · exact Text.cut_snd_suffix ' ' s
  · exact (Text.cut_snd_suffix ' ' _).trans (Text.cut_snd_suffix ' ' s)

theorem space_not_mem_name_ofText (s : Text) : ' ' ∉ (ofText s).name := by
  unfold ofText
  dsimp only
  split
  · exact Text.not_mem_cut_fst ' ' s
  · exact Text.not_mem_cut_fst ' ' _

end Parameter

/-- What holds of the blocks that are made of stripped contents. -/
structure DocBlock.Tidy (b : DocBlock) : Prop where
  description : ∀ line ∈ b.description, line ≠ []
  nodup : (b.parameters.map Parameter.key).Nodup
  parameterName : ∀ p ∈ b.parameters, ' ' ∉ p.name
  parameterText : ∀ p ∈ b.parameters, p.description.NoTrailingBlank
  propertyText : ∀ p ∈ b.properties, p.2.NoTrailingBlank

/-- The texts of an entry are ends of contents, or contents. -/
theorem noTrailingBlank_of_mem_bodyEntries {body : List Text}
    (h : ∀ content ∈ body, content.NoTrailingBlank) {g : EntryGroup} (hg : g ∈ bodyEntries body) :
    g.value.NoTrailingBlank ∧ ∀ l ∈ g.continuation, l.NoTrailingBlank := by
  obtain ⟨⟨line, hline, hopening⟩, hcontinuation⟩ := mem_of_mem_entryGroups hg
  have hbody : ∀ l ∈ (body.filter (· ≠ [])).dropWhile fun l => !opensEntry l,
      l.NoTrailingBlank := fun l hl =>
    h l (List.mem_of_mem_filter ((List.dropWhile_suffix _).subset hl))
  refine ⟨?_, fun l hl => hbody l (hcontinuation l hl)⟩
  apply (hbody line hline).of_suffix
  rw [EntryGroup.value, hopening]
  exact (Text.cut_snd_suffix ' ' _).trans (List.drop_suffix 1 line)

namespace DocBlock

theorem exists_entry_of_mem_parameters {body : List Text} {p : Parameter}
    (hp : p ∈ (ofBody body).parameters) : ∃ g ∈ bodyEntries body,
      p.name = (Parameter.ofText g.value).name ∧
        p.description = g.textFrom (Parameter.ofText g.value).description := by
  rw [parameters_ofBody] at hp
  obtain ⟨g, hmem, hg⟩ := List.mem_filterMap.mp (Keyed.mem_of_mem_lastOfEach _ hp)
  rw [EntryGroup.parameter?] at hg
  split at hg
  · cases hg
    exact ⟨g, hmem, rfl, rfl⟩
  · cases hg

theorem exists_entry_of_mem_properties {body : List Text} {p : Text × Text}
    (hp : p ∈ (ofBody body).properties) :
    ∃ g ∈ bodyEntries body, p = (g.name, g.textFrom g.value) := by
  rw [properties_ofBody] at hp
  obtain ⟨g, hmem, hg⟩ := List.mem_filterMap.mp (Keyed.mem_of_mem_lastOfEach _ hp)
  rw [EntryGroup.property?] at hg
  split at hg
  · cases hg
  · cases hg
    exact ⟨g, hmem, rfl⟩

theorem tidy_ofBody {body : List Text} (h : ∀ content ∈ body, content.NoTrailingBlank) :
    (ofBody body).Tidy := by
  refine ⟨?_, ?_, ?_, ?_, ?_⟩
  · rw [description_ofBody]
    intro line hline
    exact ne_nil_of_mem_filter line
      ((List.takeWhile_prefix _).subset (List.mem_of_mem_tail hline))
  · rw [parameters_ofBody]
    exact Keyed.nodup_map_key_lastOfEach _ _
  · intro p hp
    obtain ⟨g, -, hname, -⟩ := exists_entry_of_mem_parameters hp
    rw [hname]
    exact Parameter.space_not_mem_name_ofText g.value
  · intro p hp
    obtain ⟨g, hmem, -, hdescription⟩ := exists_entry_of_mem_parameters hp
    obtain ⟨hvalue, hlines⟩ := noTrailingBlank_of_mem_bodyEntries h hmem
    rw [hdescription]
    exact EntryGroup.noTrailingBlank_textFrom
      (hvalue.of_suffix (Parameter.description_ofText_suffix g.value)) hlines
  · intro p hp
    obtain ⟨g, hmem, rfl⟩ := exists_entry_of_mem_properties hp
    obtain ⟨hvalue, hlines⟩ := noTrailingBlank_of_mem_bodyEntries h hmem
    exact EntryGroup.noTrailingBlank_textFrom hvalue hlines

end DocBlock

/-! ## Blocks of segments -/

theorem exists_opening_of_mem_segments {lines : List Text} {g : Segment} (h : g ∈ segments lines) :
    ∃ opening rest, segmentBehind? opening rest = some g := by
  rw [segments, List.mem_filterMap] at h
  obtain ⟨found, hfound, hsome⟩ := h
  obtain rfl : found = some g := hsome
  fun_induction openings lines with
  | case1 => cases hfound
  | case2 => cases List.mem_singleton.mp hfound
  | case3 lines opening rest hlines g' hrest ih =>
      rcases List.mem_cons.mp hfound with hhead | htail
      · cases hhead
        exact ⟨opening, rest, hrest⟩
      · exact ih htail

theorem exists_strip_of_mem_body {lines : List Text} {g : Segment} (h : g ∈ segments lines) :
    ∀ content ∈ g.body, ∃ s, content = Text.strip s := by
  obtain ⟨opening, rest, hsegment⟩ := exists_opening_of_mem_segments h
  rw [segmentBehind?] at hsegment
  split at hsegment
  · cases hsegment
  · rename_i body behind hbody
    split at hsegment
    · cases hsegment
    · cases hsegment
      rw [bodyBehind?] at hbody
      split at hbody
      · cases hbody
        intro content hcontent
        exact ⟨_, List.mem_singleton.mp hcontent⟩
      · split at hbody
        · cases hbody
        · cases hbody
          rw [List.forall_mem_map]
          intro line _
          unfold commentContent
          split
          · exact ⟨_, rfl⟩
          · exact ⟨_, rfl⟩

theorem Segment.tidy_block {lines : List Text} {g : Segment} (h : g ∈ segments lines)
    (keyword : Text) : (g.block keyword).Tidy := by
  have hbody : ∀ content ∈ g.body, content.NoTrailingBlank := by
    intro content hcontent
    obtain ⟨s, rfl⟩ := exists_strip_of_mem_body h content hcontent
    exact Text.noTrailingBlank_strip s
  have htidy := DocBlock.tidy_ofBody hbody
  exact ⟨htidy.description, htidy.nodup, htidy.parameterName, htidy.parameterText,
    htidy.propertyText⟩

/-- An emitted block is the block of a segment. -/
theorem Recognizer.exists_segment_of_mem_parse {keyword : Text} {lines : List Text} {b : DocBlock}
    (h : b ∈ (({ keyword } : Recognizer).parse lines).1) :
    ∃ g ∈ segments lines, g.block keyword = b := by
  have hblocks : (({ keyword } : Recognizer).parse lines).1 =
      (segments lines).map (Segment.block keyword) := feedAll_eq_segments keyword 0 lines
  rw [hblocks] at h
  exact List.mem_map.mp h

end ShellDoc
