import ShellDoc.Proofs.PageNames

/-!
# The titles of pages

The heading of a page is the name of its script without the extension, and the table of contents
takes its title from the name of the page, again without the extension.  An extension is cut off
in two ways: `splitName` cuts at a last dot that stands inside of the name, `withoutExtension` at a
last dot that has something other than dots in front of it.  They agree on a name with a suffix as
soon as its stem is more than dots (`Path.withoutExtension_eq_stem`).

The name of a page has such a stem if the name of its script has one: a capital letter at the
beginning does not turn anything into a dot (`exists_ne_dot_capitalized`).
-/

namespace ShellDoc

open Files (Location)

theorem Path.withoutExtension_eq_stem {name : Text} (hsuffix : (splitName name).2 ≠ [])
    (hstem : ∃ c ∈ (splitName name).1, c ≠ '.') :
    withoutExtension name = (splitName name).1 := by
  rw [withoutExtension]
  cases hcut : Text.cutLast? '.' name with
  | none => simp [splitName, hcut] at hsuffix
  | some parts =>
      obtain ⟨front, back⟩ := parts
      by_cases hordinary : front ≠ [] ∧ 1 < back.length
      · have hsplit : splitName name = (front, back) := by
          rw [splitName, hcut]
          exact if_pos hordinary
        rw [hsplit] at hstem ⊢
        exact if_pos (by simpa using hstem)
      · rw [splitName, hcut] at hsuffix
        simp [hordinary] at hsuffix

namespace Run

variable {s : Settings} {source output : Path}

theorem capitalized_append {front : Text} (h : front ≠ []) (back : Text) :
    capitalized s (front ++ back) = capitalized s front ++ back := by
  obtain ⟨c, rest, rfl⟩ := List.exists_cons_of_ne_nil h
  rw [capitalized, capitalized]
  split
  · simp
  · rfl

theorem exists_ne_dot_capitalized {name : Text} (h : ∃ c ∈ name, c ≠ '.') :
    ∃ c ∈ capitalized s name, c ≠ '.' := by
  rw [capitalized]
  split
  · obtain ⟨c, hc, hdot⟩ := h
    obtain ⟨first, rest, rfl⟩ := List.exists_cons_of_ne_nil (List.ne_nil_of_mem hc)
    rw [Text.capitalizeFirst_cons]
    rcases Text.upperChar_cases first with hsame | ⟨hupper, hletters⟩
    · rw [hsame]
      exact ⟨c, hc, hdot⟩
    · obtain ⟨d, hd⟩ := List.exists_mem_of_ne_nil _ hupper
      refine ⟨d, List.mem_append_left rest hd, ?_⟩
      rintro rfl
      exact absurd (hletters _ hd) (by decide)
  · exact h

theorem outputName_eq_append (h : source.stem ≠ []) :
    outputName s source = capitalized s source.stem ++ pageSuffix := by
  have hconcat : Text.concat [source.stem, ".md"] = source.stem ++ pageSuffix := by
    simp [pageSuffix]
  rw [outputName, hconcat, capitalized_append h]

theorem withoutExtension_outputName (hstem : ∃ c ∈ source.stem, c ≠ '.') :
    Path.withoutExtension (outputName s source) = capitalized s source.stem := by
  obtain ⟨c, hc, hdot⟩ := exists_ne_dot_capitalized (s := s) hstem
  have hne : source.stem ≠ [] := by
    obtain ⟨d, hd, -⟩ := hstem
    exact List.ne_nil_of_mem hd
  have hsplit := splitName_append_pageSuffix (List.ne_nil_of_mem hc)
  rw [outputName_eq_append hne, Path.withoutExtension_eq_stem, hsplit]
  · rw [hsplit]
    exact List.cons_ne_nil _ _
  · rw [hsplit]
    exact ⟨c, hc, hdot⟩

theorem isName_of_stem (hstem : ∃ c ∈ source.stem, c ≠ '.') (hslash : '/' ∉ source.name) :
    Files.IsName source.name := by
  obtain ⟨c, hc, hdot⟩ := hstem
  have hmem : c ∈ source.name := by
    rw [← Path.splitName_append source.name]
    exact List.mem_append_left _ hc
  refine ⟨List.ne_nil_of_mem hmem, ?_, ?_, hslash⟩
  · intro hcurrent
    rw [hcurrent] at hmem
    simp [Files.current, hdot] at hmem
  · intro hupward
    rw [hupward] at hmem
    simp [Files.upward, hdot] at hmem

theorem name_ofText_pagePath (houtput : output.Normal) (hname : Files.IsName source.name) :
    (Path.ofText (pagePath s output source).toText).name = outputName s source := by
  have hnormal := houtput.child (isName_outputName (s := s) hname)
  rw [pagePath_eq_child hname, Path.ofText_toText hnormal (by simp [Path.child]), Path.name_child]

/-- Without the extensions, the heading of a page and its title in the table of contents are the
same: the stem of the script, with its first character in upper case if the settings ask for it. -/
theorem heading_eq_contents_title (s : Settings) (source : Path)
    (hextension : s.keepExtension = false) (hsuffix : source.suffix ≠ [])
    (hstem : ∃ c ∈ source.stem, c ≠ '.') :
    let title :=
      if s.capitalize then Text.upper (source.stem.take 1) ++ source.stem.drop 1 else source.stem
    fileTitle s source = title ∧ Path.withoutExtension (outputName s source) = title ∧
      ∀ (wd : Location) (output root : Path), output.Normal → '/' ∉ source.name →
        (contentsEntry s wd root (pagePath s output source).toText).1 = title := by
  intro title
  have htitle : title = capitalized s source.stem := by
    obtain ⟨c, hc, -⟩ := hstem
    obtain ⟨first, rest, hcons⟩ := List.exists_cons_of_ne_nil (List.ne_nil_of_mem hc)
    unfold title
    rw [capitalized, hcons]
    simp [Text.upper]
  have hname : ∀ name, nameTitle s name = Path.withoutExtension name := by
    intro name
    rw [nameTitle, hextension]
    rfl
  rw [htitle]
  refine ⟨?_, withoutExtension_outputName hstem, ?_⟩
  · rw [fileTitle, hname, Path.withoutExtension_eq_stem hsuffix hstem]
    rfl
  · intro wd output root houtput hslash
    rw [contentsEntry, hname, name_ofText_pagePath houtput (isName_of_stem hstem hslash),
      withoutExtension_outputName hstem]

/-- The first character becomes two, and the stem ends with a dot. -/
theorem heading_eq_contents_title_sharp_s :
    let s : Settings := { capitalize := true }
    let source := Path.ofText "d/ß..sh"
    s.keepExtension = false ∧ source.suffix ≠ [] ∧ (∃ c ∈ source.stem, c ≠ '.') ∧
      fileTitle s source = "SS." ∧ Path.withoutExtension (outputName s source) = "SS." ∧
      (contentsEntry s ["w"] ⟨[], []⟩ "o/SS..md").1 = "SS." := by
  intro s source
  have hsuffix : source.suffix ≠ [] := by decide
  have hstem : ∃ c ∈ source.stem, c ≠ '.' := ⟨'ß', by decide, by decide⟩
  have htitle : (if s.capitalize then Text.upper (source.stem.take 1) ++ source.stem.drop 1
      else source.stem) = "SS.".toList := by
    unfold s source
    decide +kernel
  have hpage : (pagePath s (Path.ofText "o") source).toText = "o/SS..md".toList := by
    unfold s source
    decide +kernel
  obtain ⟨hheading, houtput, hcontents⟩ := heading_eq_contents_title s source rfl hsuffix hstem
  have hentry := hcontents ["w"] (Path.ofText "o") ⟨[], []⟩ (Path.normal_ofText _) (by decide)
  rw [hpage] at hentry
  exact ⟨rfl, hsuffix, hstem, hheading.trans htitle, houtput.trans htitle, hentry.trans htitle⟩

-- A stem of nothing but dots is not cut off.
example : Path.stem ⟨[], ["..sh"]⟩ = "." ∧ Path.withoutExtension "..sh" = "..sh" := by decide

end Run

end ShellDoc
