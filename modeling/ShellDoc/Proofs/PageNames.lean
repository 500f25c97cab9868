import ShellDoc.Proofs.Discovery
import ShellDoc.Proofs.RunSteps

/-!
# The names of pages

The page of a script is named by the stem of the script with the extension `.md`, and it stands
under that name in the output directory (`pagePath_eq_child`).  A capital letter at the beginning
does not change this: a character in upper case is itself, or it is made of letters
(`Text.upperChar_cases`), so it is neither empty nor does it bring in a slash or a dot.

A file that is written takes the last part of its path as its name (`name_of_locateOutput`).
-/

namespace ShellDoc

open Files (Location Tree)

/-! ## Characters -/

theorem Text.mem_of_mem_pieces {sep : Char} {s piece : Text} (h : piece ∈ pieces sep s) {c : Char}
    (hc : c ∈ piece) : c ∈ s := by
  induction s generalizing piece with
  | nil =>
      rw [pieces, List.mem_singleton] at h
      rw [h] at hc
      exact hc
  | cons d s ih =>
      rw [pieces] at h
      split at h
      · rcases List.mem_cons.mp h with rfl | h
        · cases hc
        · exact List.mem_cons_of_mem d (ih h hc)
      · split at h
        · rw [List.mem_singleton.mp h, List.mem_singleton] at hc
          rw [hc]
          exact List.mem_cons_self
        · rename_i first rest hpieces
          rw [hpieces] at ih
          rcases List.mem_cons.mp h with rfl | h
          · rcases List.mem_cons.mp hc with rfl | hc
            · exact List.mem_cons_self
            · exact List.mem_cons_of_mem d (ih List.mem_cons_self hc)
          · exact List.mem_cons_of_mem d (ih (List.mem_cons_of_mem first h) hc)

namespace Text

theorem toNat_ofNat {n : Nat} (h : n < 0xd800 ∨ 0xdfff < n ∧ n < 0x110000) :
    (Char.ofNat n).toNat = n := by
  have hvalid : n.isValidChar := h
  rw [Char.ofNat, dif_pos hvalid]
  rfl

theorem mapCase_cases (runs : List CaseRun) (long : List (Nat × List Nat)) (c : Char) :
    (∃ ns, (c.toNat, ns) ∈ long ∧ mapCase runs long c = ns.map Char.ofNat) ∨
      (∃ r ∈ runs, r.Covers c.toNat ∧ mapCase runs long c = [Char.ofNat (r.apply c.toNat)]) ∨
      mapCase runs long c = [c] := by
  rw [mapCase]
  split
  · rename_i ns hlong
    obtain ⟨front, back, rfl, -⟩ := List.lookup_eq_some_iff.mp hlong
    exact .inl ⟨ns, by simp, rfl⟩
  · split
    · rename_i r hr
      exact .inr (.inl ⟨r, List.mem_of_find?_eq_some hr,
        by simpa using List.find?_some hr, rfl⟩)
    · exact .inr (.inr rfl)

/-- A character in upper case is itself, or it is made of characters from the capital letters
on. -/
theorem upperChar_cases (c : Char) :
    upperChar c = [c] ∨ upperChar c ≠ [] ∧ ∀ d ∈ upperChar c, 0x41 ≤ d.toNat := by
  rw [upperChar]
  split
  · rename_i hascii
    rcases toUpper_of_ascii c.toNat hascii with hsame | hletter
    · rw [Char.ofNat_toNat] at hsame
      exact .inl (by rw [hsame])
    · rw [Char.ofNat_toNat] at hletter
      exact .inr ⟨by simp, by simpa using hletter⟩
  · rcases mapCase_cases upperRuns upperLong c with
      ⟨ns, hns, hmap⟩ | ⟨r, hr, hcovers, hmap⟩ | hmap
    · obtain ⟨hne, hletters⟩ := mem_upperLong _ hns
      rw [hmap]
      refine .inr ⟨by simpa using hne, ?_⟩
      rw [List.forall_mem_map]
      intro n hn
      rw [toNat_ofNat (.inl (hletters n hn).2)]
      exact (hletters n hn).1
    · obtain ⟨hletter, hvalid⟩ := apply_upperRuns r hr
      obtain ⟨hfirst, hlast, -⟩ := hcovers
      have happly : (r.apply c.toNat : Int) = c.toNat + r.shift := by
        rw [CaseRun.apply, Int.ofNat_eq_natCast]
        omega
      rw [hmap]
      refine .inr ⟨by simp, ?_⟩
      simp only [List.mem_singleton, forall_eq]
      rw [toNat_ofNat (by omega)]
      omega
    · exact .inl hmap
end Text

namespace Path

/-! ## Stem and suffix -/

theorem append_of_cutLast? {sep : Char} {s front back : Text}
    (h : Text.cutLast? sep s = some (front, back)) : front ++ back = s := by
  rw [Text.cutLast?] at h
  split at h
  · cases h
  · rename_i c rest hdrop
    cases h
    have hc : c = sep := by
      have hhead := List.head_dropWhile_not (p := (· != sep)) (l := s.reverse) (by simp [hdrop])
      simpa [hdrop] using hhead
    have hparts := List.takeWhile_append_dropWhile (p := (· != sep)) (l := s.reverse)
    rw [hdrop, hc] at hparts
    rw [← List.reverse_inj, ← hparts, Text.afterLast]
    simp

theorem splitName_append (name : Text) : (splitName name).1 ++ (splitName name).2 = name := by
  rw [splitName]
  split
  · rename_i front back hcut
    split
    · exact append_of_cutLast? hcut
    · exact List.append_nil name
  · exact List.append_nil name

theorem splitName_fst_ne_nil {name : Text} (h : name ≠ []) : (splitName name).1 ≠ [] := by
  rw [splitName]
  split
  · split
    · rename_i hordinary
      exact hordinary.1
    · exact h
  · exact h

theorem toText_child {p : Path} (h : p.parts ≠ []) (name : Text) :
    (p.child name).toText = p.toText ++ (['/'] ++ name) := by
  have hjoin : ∀ parts : List Text, parts ≠ [] →
      Text.join ['/'] (parts ++ [name]) = Text.join ['/'] parts ++ (['/'] ++ name) := by
    intro parts hne
    induction parts with
    | nil => exact absurd rfl hne
    | cons part parts ih =>
        cases parts with
        | nil => simp [Text.join, List.intercalate]
        | cons next parts =>
            have hrest := ih (by simp)
            simp only [Text.join, List.intercalate, List.cons_append, List.intersperse_cons_cons,
              List.flatten_cons] at hrest ⊢
            rw [hrest]
            simp
  rw [toText_of_parts_ne h, toText_of_parts_ne (by simp [child]), child, hjoin _ h,
    List.append_assoc]

theorem name_join {p q : Path} (h : q.parts ≠ []) : (p.join q).name = q.name := by
  rw [Path.join]
  split
  · simp [name, List.getLast?_append, List.getLast?_eq_some_getLast h]
  · rfl

/-- A name by itself is a path of one part. -/
theorem ofText_of_isName {name : Text} (h : Files.IsName name) : ofText name = ⟨[], [name]⟩ := by
  have hnormal : Normal ⟨[], [name]⟩ := by
    refine ⟨.inl rfl, ?_⟩
    simpa using ⟨h.ne_nil, h.ne_current, h.not_mem_slash⟩
  have htext : toText ⟨[], [name]⟩ = name := by
    rw [toText_of_parts_ne (by simp)]
    simp
  rw [← ofText_toText hnormal (by simp), htext]

theorem Normal.join {p q : Path} (hp : p.Normal) (hq : q.Normal) : (p.join q).Normal := by
  rw [Path.join]
  split
  · refine ⟨hp.root, ?_⟩
    intro part hpart
    rcases List.mem_append.mp hpart with hpart | hpart
    · exact hp.parts part hpart
    · exact hq.parts part hpart
  · exact hq

theorem Normal.parent {p : Path} (h : p.Normal) : p.parent.Normal :=
  ⟨h.root, fun part hpart => h.parts part (List.dropLast_subset _ hpart)⟩

end Path

/-! ## The name of a file that is written -/

namespace Files

variable {t : Tree} {wd place : Location} {p : Path}

theorem parts_ne_nil_of_locateOutput (hp : p.Normal)
    (h : locateOutput t wd p.toText = .ok place) : p.parts ≠ [] := by
  obtain ⟨parent, name, -, hends, -⟩ := locateOutput_eq_ok h
  intro hempty
  have hnames := hends.names
  rcases hp.root with hroot | hroot | hroot
  · -- A single dot is no ordinary name.
    have hdot : namesOf p.toText = [current] := by
      rw [Path.toText, hroot, hempty]
      rfl
    rw [hdot] at hnames
    cases hnames
    exact hends.ordinary.1 rfl
  · have hnone : namesOf p.toText = [] := by
      rw [Path.toText, hroot, hempty]
      rfl
    rw [hnone] at hnames
    cases hnames
  · have hnone : namesOf p.toText = [] := by
      rw [Path.toText, hroot, hempty]
      rfl
    rw [hnone] at hnames
    cases hnames

theorem not_mem_null_of_checkPath {path : Text} (h : checkPath path = .ok ()) :
    nullChar ∉ path := by
  intro hnull
  rw [checkPath, if_pos (by simpa using hnull)] at h
  cases h

/-- A file stands under the last part of its path, which can be the name of an entry. -/
theorem name_of_locateOutput {name : Text} (hp : p.Normal)
    (h : locateOutput t wd p.toText = .ok (place ++ [name])) :
    p.name = name ∧ IsName name ∧ nameFits name = true ∧ nullChar ∉ name := by
  have hne := parts_ne_nil_of_locateOutput hp h
  obtain ⟨parent, last, hplace, hends, -⟩ := locateOutput_eq_ok h
  obtain ⟨-, hlast⟩ := List.append_inj' hplace rfl
  cases hlast
  have hnames := hends.names
  have hmem : name ∈ namesOf p.toText := by
    rw [hnames]
    exact List.mem_append_right _ (List.mem_singleton_self name)
  refine ⟨?_, hends.isName, hends.fits, ?_⟩
  · rw [Path.namesOf_toText hp hne] at hnames
    rw [Path.name, hnames, List.getLast?_append]
    rfl
  · intro hnull
    exact not_mem_null_of_checkPath hends.checked
      (Text.mem_of_mem_pieces (List.mem_filter.mp hmem).1 hnull)

theorem not_mem_null_child {directory : Path} {name : Text} (hdirectory : directory.Normal)
    (hchecked : checkPath directory.toText = .ok ()) (hnull : nullChar ∉ name) :
    nullChar ∉ (directory.child name).toText := by
  have hparts : ∀ part ∈ directory.parts, nullChar ∉ part := by
    intro part hpart hmem
    have hne := List.ne_nil_of_mem hpart
    apply not_mem_null_of_checkPath hchecked
    rw [← Path.namesOf_toText hdirectory hne] at hpart
    exact Text.mem_of_mem_pieces (List.mem_filter.mp hpart).1 hmem
  rw [Path.toText_of_parts_ne (by simp [Path.child])]
  intro hmem
  rcases List.mem_append.mp hmem with hroot | hjoin
  · have hslash : ∀ c ∈ directory.root, c = '/' := by
      rcases hdirectory.root with h | h | h <;> simp [h]
    exact absurd (hslash _ hroot) (by decide)
  · obtain hslash | ⟨part, hpart, hmem⟩ := Text.mem_join hjoin
    · exact absurd (List.mem_singleton.mp hslash) (by decide)
    · rcases List.mem_append.mp hpart with hpart | hpart
      · exact hparts part hpart hmem
      · rw [List.mem_singleton.mp hpart] at hmem
        exact hnull hmem

/-- The path of an entry can be followed if the one of its directory can, unless it is too long. -/
theorem checkPath_child {directory : Path} {name : Text} (hdirectory : directory.Normal)
    (hname : IsName name) (hchecked : checkPath directory.toText = .ok ())
    (hnull : nullChar ∉ name) :
    checkPath (directory.child name).toText =
      if pathLimit ≤ (Text.encode (directory.child name).toText).length then
        .error (.system .nameTooLong (directory.child name).toText)
      else .ok () := by
  have hnone := not_mem_null_child hdirectory hchecked hnull
  have hne : (directory.child name).toText ≠ [] := by
    intro hempty
    have hnames := Path.namesOf_toText (hdirectory.child hname) (by simp [Path.child])
    rw [hempty] at hnames
    simp [namesOf, Text.pieces, Path.child] at hnames
  rw [checkPath, if_neg (by simpa using hnone), if_neg hne]

/-- An entry that is a file is found to be one. -/
theorem pathIsFile_child {directory : Path} {name : Text} {content : Text.Bytes}
    (hdirectory : directory.Normal) (hname : IsName name)
    (hplace : locate t wd directory.toText = .ok place) (hthere : t.get? place = some .directory)
    (hentry : t.get? (place ++ [name]) = some (.file content)) (hfits : nameFits name = true)
    (hchecked : checkPath (directory.child name).toText = .ok ()) :
    pathIsFile t wd (directory.child name).toText = .ok true := by
  refine pathIsFile_eq_true_iff.mpr ⟨place ++ [name], ?_, by simp [Tree.isDirectory, hentry]⟩
  rw [locate_child hdirectory hname hplace, hchecked,
    walk_name hthere hname.ne_current hname.ne_upward, hfits, hentry]
  rfl

/-- The parent of a directory is a directory, so no file is written there. -/
theorem locateOutput_parent_ne {output : Path} (houtput : output.Normal)
    (hdirectory : pathIsDirectory t wd output.toText = .ok true) :
    locateOutput t wd output.parent.toText ≠ .ok place := by
  intro h
  have hne := parts_ne_nil_of_locateOutput houtput.parent h
  obtain ⟨directory, hplace, -⟩ := pathIsDirectory_eq_true_iff.mp hdirectory
  have hwalk := walk_parts_of_locate houtput hplace
  have hparts : output.parts ≠ [] := by
    intro hempty
    exact hne (by rw [Path.parent, hempty]; rfl)
  rw [← List.dropLast_append_getLast hparts, walk_append_eq_ok_iff] at hwalk
  obtain ⟨middle, hfront, hlast⟩ := hwalk
  have hmiddle : t.get? middle = some .directory := directory_of_walk_cons hlast
  obtain ⟨parent, name, rfl, hends, hslash, hfile⟩ := locateOutput_eq_ok h
  have hlocate : locate t wd output.parent.toText = .ok middle := by
    refine locate_eq_ok_iff.mpr ⟨hends.checked, ?_⟩
    rw [Path.origin_toText houtput.parent, Path.namesOf_toText houtput.parent hne, hslash,
      if_neg Bool.false_ne_true, List.append_nil]
    exact hfront
  have hthere : (t.get? (parent ++ [name])).isSome = true := by
    have hexists := pathExists_of_locateOutput h
    rw [pathExists_of_locate hlocate] at hexists
    exact (Except.ok.inj hexists).symm
  have hsame := locate_of_locateOutput h (Tree.Kept.refl (fun _ => False) t) hthere
  rw [hlocate] at hsame
  cases hsame
  simp [Tree.isDirectory, hmiddle] at hfile

end Files

namespace Run

/-- The table of contents has the name that the settings give it. -/
theorem name_contentsPath {s : Settings} {wd place : Location} {t : Tree} {output : Path}
    (houtput : output.Normal)
    (hdirectory : Files.pathIsDirectory t wd output.toText = .ok true)
    (h : Files.locateOutput t wd (contentsPath s output).toText = .ok place) :
    (contentsPath s output).name = (Path.ofText s.contentsFile).name := by
  apply Path.name_join
  intro hempty
  have hnormal := Path.normal_ofText s.contentsFile
  have hne := Files.parts_ne_nil_of_locateOutput (houtput.parent.join hnormal) h
  rw [contentsPath, Path.join] at h
  rw [Path.join] at hne
  split at h
  · -- Without a name of its own it would have to stand in the place of a directory.
    rw [hempty, List.append_nil] at h
    exact Files.locateOutput_parent_ne houtput hdirectory h
  · rename_i hroot
    rw [if_neg hroot] at hne
    exact hne hempty

/-! ## The name of a page -/

/-- The extension of pages. -/
def pageSuffix : Text := ".md"

theorem splitName_append_pageSuffix {front : Text} (h : front ≠ []) :
    Path.splitName (front ++ pageSuffix) = (front, pageSuffix) := by
  have hcut : Text.cutLast? '.' (front ++ pageSuffix) = some (front, pageSuffix) := by
    simp [Text.cutLast?, Text.afterLast, pageSuffix]
  rw [Path.splitName, hcut]
  exact if_pos ⟨h, by decide⟩

variable {s : Settings} {source output : Path}

theorem capitalizeFirst_append {name : Text} (hne : name ≠ []) (hslash : '/' ∉ name) (back : Text) :
    ∃ front, Text.capitalizeFirst (name ++ back) = front ++ back ∧ front ≠ [] ∧ '/' ∉ front := by
  obtain ⟨c, rest, rfl⟩ := List.exists_cons_of_ne_nil hne
  rw [List.mem_cons, not_or] at hslash
  refine ⟨Text.upperChar c ++ rest, by simp, ?_⟩
  rcases Text.upperChar_cases c with hsame | ⟨hupper, hletters⟩
  · rw [hsame]
    exact ⟨by simp, by simpa using hslash⟩
  · refine ⟨by simp [hupper], ?_⟩
    rw [List.mem_append, not_or]
    refine ⟨?_, hslash.2⟩
    intro hmem
    exact absurd (hletters _ hmem) (by decide)

/-- The name of a page is something proper with the extension of pages. -/
theorem exists_outputName (hname : Files.IsName source.name) :
    ∃ front, outputName s source = front ++ pageSuffix ∧ front ≠ [] ∧ '/' ∉ front := by
  have hstem : source.stem ≠ [] := Path.splitName_fst_ne_nil hname.ne_nil
  have hslash : '/' ∉ source.stem := by
    intro hmem
    apply hname.not_mem_slash
    rw [← Path.splitName_append source.name]
    exact List.mem_append_left _ hmem
  have hconcat : Text.concat [source.stem, ".md"] = source.stem ++ pageSuffix := by
    simp [pageSuffix]
  rw [outputName, hconcat, capitalized]
  split
  · exact capitalizeFirst_append hstem hslash pageSuffix
  · exact ⟨source.stem, rfl, hstem, hslash⟩

theorem isName_outputName (hname : Files.IsName source.name) :
    Files.IsName (outputName s source) := by
  obtain ⟨front, houtput, hne, hslash⟩ := exists_outputName (s := s) hname
  have hlong : 3 < (outputName s source).length := by
    rw [houtput, List.length_append]
    have hfront := List.length_pos_iff.mpr hne
    have hsuffix : pageSuffix.length = 3 := rfl
    omega
  refine ⟨?_, ?_, ?_, ?_⟩
  · rintro hnil
    simp [hnil] at hlong
  · rintro hcurrent
    simp [hcurrent, Files.current] at hlong
  · rintro hupward
    simp [hupward, Files.upward] at hlong
  · rw [houtput, List.mem_append, not_or]
    exact ⟨hslash, by decide⟩

theorem splitName_outputName (hname : Files.IsName source.name) :
    (Path.splitName (outputName s source)).2 = pageSuffix := by
  obtain ⟨front, houtput, hne, -⟩ := exists_outputName (s := s) hname
  rw [houtput, splitName_append_pageSuffix hne]

/-- A page is an entry of the output directory. -/
theorem pagePath_eq_child (hname : Files.IsName source.name) :
    pagePath s output source = output.child (outputName s source) := by
  rw [pagePath, Path.ofText_of_isName (isName_outputName hname)]
  rfl

end Run

end ShellDoc
