import ShellDoc.Proofs.DirectoryRun
import ShellDoc.Proofs.PageNames
import Mathlib.Data.List.Forall2
import Mathlib.Data.List.Induction

/-!
# The links of the table of contents

The way from one place to another, followed from the first, ends at the second
(`Path.foldl_step_way`): it goes back as often as there are names behind the common ones, and then
down by names that are no steps back.  So a relative path, followed from the directory that it was
made for, ends where the path does that it stands for (`Path.absolute_relativeTo`).

A path that exists leads to the place where it ends when it is followed without a look at the tree
(`Files.eq_absolute_of_locate`).  Hence the links of a table of contents lead from the directory
around the output directory to the pages of the run (`Run.contents_links_lead_to_pages`), with steps
back in the path of that directory or without.
-/

namespace ShellDoc

open Files (Location Tree)

/-! ## The way from one place to another -/

namespace Path

variable {wd : Location} {p target start : Path}

theorem step_of_ne {place : Location} {name : Text} (h : name ≠ Files.upward) :
    step place name = place ++ [name] := if_neg h

@[simp] theorem step_upward (place : Location) : step place Files.upward = place.dropLast := rfl

/-- Names lead down. -/
theorem foldl_step_names {names : List Text} (h : Files.upward ∉ names) (place : Location) :
    names.foldl step place = place ++ names := by
  induction names generalizing place with
  | nil => simp
  | cons name names ih =>
      have hname : name ≠ Files.upward := fun e => h (e ▸ List.mem_cons_self)
      rw [List.foldl_cons, step_of_ne hname, ih fun hmem => h (List.mem_cons_of_mem _ hmem)]
      simp

/-- As many steps back as there are names lead back over them. -/
theorem foldl_step_back (place names : Location) :
    (List.replicate names.length Files.upward).foldl step (place ++ names) = place := by
  induction names using List.reverseRecOn with
  | nil => simp
  | append_singleton names name ih =>
      rw [List.length_append, List.length_singleton, List.replicate_succ, List.foldl_cons,
        step_upward, ← List.append_assoc, List.dropLast_concat, ih]

theorem foldl_step_back_append (place names : Location) {there : Location}
    (h : Files.upward ∉ there) :
    (List.replicate names.length Files.upward ++ there).foldl step (place ++ names) =
      place ++ there := by
  rw [List.foldl_append, foldl_step_back, foldl_step_names h]

/-- The way to a place ends there. -/
theorem foldl_step_way (common : Location) {here there : Location} (h : Files.upward ∉ there) :
    (way here there).foldl step (common ++ here) = common ++ there := by
  fun_induction way here there generalizing common with
  | case1 here a there ih =>
      -- A name in common stays where it is.
      have hdown := ih (common ++ [a]) fun hmem => h (List.mem_cons_of_mem _ hmem)
      simpa using hdown
  | case2 a here b there hne => exact foldl_step_back_append common (a :: here) h
  | case3 here there hnone => exact foldl_step_back_append common here h

/-- A way consists of steps back and of names of the place that it leads to. -/
theorem eq_upward_or_mem_of_mem_way {here there : Location} {part : Text}
    (h : part ∈ way here there) : part = Files.upward ∨ part ∈ there := by
  fun_induction way here there with
  | case1 here a there ih => exact (ih h).imp_right (List.mem_cons_of_mem _)
  | case2 a here b there hne =>
      exact (List.mem_append.mp h).imp_left List.eq_of_mem_replicate
  | case3 here there hnone =>
      exact (List.mem_append.mp h).imp_left List.eq_of_mem_replicate

/-! ## The places of paths -/

theorem isName_of_mem_step {place : Location} {part : Text}
    (hpart : part ≠ [] ∧ part ≠ Files.current ∧ '/' ∉ part)
    (hplace : ∀ name ∈ place, Files.IsName name) :
    ∀ name ∈ step place part, Files.IsName name := by
  obtain ⟨hnil, hcurrent, hslash⟩ := hpart
  intro name hname
  by_cases hback : part = Files.upward
  · rw [hback, step_upward] at hname
    exact hplace name (List.dropLast_subset _ hname)
  · rw [step_of_ne hback] at hname
    rcases List.mem_append.mp hname with hname | hname
    · exact hplace name hname
    · rw [List.mem_singleton.mp hname]
      exact ⟨hnil, hcurrent, hback, hslash⟩

theorem isName_of_mem_foldl_step {parts : List Text} {place : Location}
    (hparts : ∀ part ∈ parts, part ≠ [] ∧ part ≠ Files.current ∧ '/' ∉ part)
    (hplace : ∀ name ∈ place, Files.IsName name) :
    ∀ name ∈ parts.foldl step place, Files.IsName name := by
  induction parts generalizing place with
  | nil => exact hplace
  | cons part parts ih =>
      obtain ⟨hpart, hparts⟩ := List.forall_mem_cons.mp hparts
      exact ih hparts (isName_of_mem_step hpart hplace)

/-- A path that is followed from the working directory ends at a place with proper names. -/
theorem isName_of_mem_absolute (hwd : ∀ name ∈ wd, Files.IsName name) (hp : p.Normal) {name : Text}
    (h : name ∈ p.absolute wd) : Files.IsName name := by
  refine isName_of_mem_foldl_step hp.parts ?_ name h
  split
  · exact hwd
  · simp

theorem upward_not_mem_absolute (hwd : ∀ name ∈ wd, Files.IsName name) (hp : p.Normal) :
    Files.upward ∉ p.absolute wd :=
  fun h => (isName_of_mem_absolute hwd hp h).ne_upward rfl

theorem absolute_child {name : Text} (h : Files.IsName name) :
    (p.child name).absolute wd = p.absolute wd ++ [name] := by
  rw [absolute, child, List.foldl_append]
  exact step_of_ne h.ne_upward

theorem normal_relativeTo (hwd : ∀ name ∈ wd, Files.IsName name) (htarget : target.Normal) :
    (relativeTo wd target start).Normal := by
  refine ⟨.inl rfl, ?_⟩
  intro part hpart
  rcases eq_upward_or_mem_of_mem_way hpart with rfl | hmem
  · decide
  · have hname := isName_of_mem_absolute hwd htarget hmem
    exact ⟨hname.ne_nil, hname.ne_current, hname.not_mem_slash⟩

/-- A relative path in normal form is read back from its text, also if it stays where it is. -/
theorem ofText_toText_of_relative (hp : p.Normal) (hroot : p.root = []) : ofText p.toText = p := by
  by_cases hparts : p.parts = []
  · obtain ⟨root, parts⟩ := p
    cases hroot
    cases hparts
    rfl
  · exact ofText_toText hp hparts

/-- A relative path, followed from the directory that it was made for, ends where the path does that
it stands for. -/
theorem absolute_relativeTo (hwd : ∀ name ∈ wd, Files.IsName name) (htarget : target.Normal) :
    (relativeTo wd target start).absolute (start.absolute wd) = target.absolute wd :=
  foldl_step_way [] (upward_not_mem_absolute hwd htarget)

end Path

namespace Files

variable {t : Tree} {wd place : Location} {p : Path}

theorem eq_foldl_step_of_walk {names : List Text} {here : Location} (hnames : current ∉ names)
    (h : walk t here names = .ok place) : place = names.foldl Path.step here := by
  induction names generalizing here with
  | nil =>
      cases h
      rfl
  | cons name names ih =>
      have hname : name ≠ current := fun e => hnames (e ▸ List.mem_cons_self)
      have hrest : current ∉ names := fun hmem => hnames (List.mem_cons_of_mem _ hmem)
      obtain ⟨middle, hstep, htail⟩ := walk_cons_eq_ok_iff.mp h
      rw [List.foldl_cons, ih hrest htail]
      obtain ⟨-, ⟨hdot, -⟩ | ⟨rfl, rfl⟩ | ⟨⟨-, hupward⟩, -, -, rfl⟩⟩ := walk_name_eq_ok_iff.mp hstep
      · exact absurd hdot hname
      · rw [Path.step_upward]
      · rw [Path.step_of_ne hupward]

/-- A path that exists leads to the place where it ends when it is followed without a look at the
tree. -/
theorem eq_absolute_of_locate (hp : p.Normal) (h : locate t wd p.toText = .ok place) :
    place = p.absolute wd := by
  refine eq_foldl_step_of_walk ?_ (walk_parts_of_locate hp h)
  exact fun hmem => (hp.parts current hmem).2.1 rfl

end Files

/-! ## The links to the pages -/

namespace Run

/-- A link that leads from a directory to a file: it is relative and, followed from the directory,
ends at the place of the file. -/
structure LinksTo (wd : Location) (t : Tree) (root : Path) (link file : Text) : Prop where
  relative : (Path.ofText link).root = []
  followed : (Path.ofText link).absolute (root.absolute wd) = (Path.ofText file).absolute wd
  located : Files.locate t wd file = .ok ((Path.ofText file).absolute wd)

theorem linksTo_contentsEntry {s : Settings} {wd place : Location} {t : Tree} {p root : Path}
    (hwd : ∀ name ∈ wd, Files.IsName name) (hp : p.Normal) (hread : Path.ofText p.toText = p)
    (hplace : Files.locate t wd p.toText = .ok place) :
    LinksTo wd t root (contentsEntry s wd root p.toText).2 p.toText := by
  have hlink : Path.ofText (contentsEntry s wd root p.toText).2 = Path.relativeTo wd p root := by
    rw [contentsEntry, hread]
    exact Path.ofText_toText_of_relative (Path.normal_relativeTo hwd hp) rfl
  refine ⟨?_, ?_, ?_⟩
  · rw [hlink]
    rfl
  · rw [hlink, hread]
    exact Path.absolute_relativeTo hwd hp
  · rw [hread, hplace, Files.eq_absolute_of_locate hp hplace]

/-- The page of a script that was found has a path that is read back from its text. -/
theorem normal_pagePath {s : Settings} {wd : Location} {t : Tree} {directory output : Path}
    {sources : List Path} (ht : t.WellNamed) (houtput : output.Normal)
    (h : discover s wd t directory = .ok sources) {source : Path} (hsource : source ∈ sources) :
    (pagePath s output source).Normal ∧
      Path.ofText (pagePath s output source).toText = pagePath s output source := by
  have hscript := isName_of_discover ht h hsource
  have hnormal := houtput.child (isName_outputName (s := s) hscript)
  rw [pagePath_eq_child hscript]
  exact ⟨hnormal, Path.ofText_toText hnormal (by simp [Path.child])⟩

/-- A table of contents has one entry for each page of the run, in the order of the pages.  The link
of an entry, followed from the directory around the output directory, ends at the page; a table of
contents with a plain name stands in that directory. -/
theorem contents_links_lead_to_pages (s : Settings) (wd : Location) (t : Tree) (path : Text)
    (report : Report) (ht : t.WellNamed) (hwd : ∀ name ∈ wd, Files.IsName name)
    (hcontents : s.tableOfContents = true)
    (hdirectory : Files.pathIsDirectory t wd (Path.ofText path).toText = .ok true)
    (hok : (generate s wd t path).result = .ok report) :
    let t' := (generate s wd t path).tree
    let root := (Path.ofText s.output).parent
    let heading := if s.title.isEmpty then s.contentsHeading else s.title
    ∃ file entries, report.contents = some file ∧
      Files.readFile t' wd file =
        .ok (Text.encode (Text.ofLines (Page.contents heading entries))) ∧
      (Files.IsName s.contentsFile →
        Files.locate t' wd file = .ok (root.absolute wd ++ [s.contentsFile])) ∧
      List.Forall₂ (fun page entry => entry.1 = nameTitle s (Path.ofText page).name ∧
        LinksTo wd t' root entry.2 page) report.files entries := by
  intro t' root heading
  obtain ⟨r⟩ := exists_directoryRun hdirectory hok
  have hfound := r.discover ht (Path.normal_ofText path) hdirectory
  have houtput := Path.normal_ofText s.output
  obtain ⟨place, hplace⟩ : ∃ place, place ∈ r.contentsPlace :=
    Option.isSome_iff_exists.mp (r.contents.asked.trans hcontents)
  have hlocate := r.contents.locate hplace
  refine ⟨(contentsPath s (Path.ofText s.output)).toText,
    report.files.map (contentsEntry s wd root), ?_, ?_, ?_, ?_⟩
  · rw [r.contents.contents, Option.mem_def.mp hplace]
    rfl
  · exact Files.readFile_of_locate hlocate (r.contents.get?_place hplace)
  · intro hname
    have hchild : contentsPath s (Path.ofText s.output) = root.child s.contentsFile := by
      rw [contentsPath, Path.ofText_of_isName hname]
      rfl
    rw [hlocate, Files.eq_absolute_of_locate (hchild ▸ houtput.parent.child hname) hlocate,
      hchild, Path.absolute_child hname]
  · rw [List.forall₂_map_right_iff, List.forall₂_same, r.files, List.forall_mem_map]
    intro w hw
    obtain ⟨hnormal, hread⟩ :=
      normal_pagePath (s := s) ht houtput hfound (List.mem_map_of_mem hw)
    exact ⟨rfl, linksTo_contentsEntry hwd hnormal hread (r.locate_file hw)⟩

/-- A run that writes its pages outside of the working directory, to a directory that is named by
steps back. -/
theorem contents_links_lead_to_pages_above :
    let s : Settings := { output := "../q/..", tableOfContents := true }
    let wd : Location := ["w"]
    let t : Tree := ⟨[(["w"], .directory), (["w", "d"], .directory),
      (["w", "d", "a.sh"], .file (Text.encode "#/ A #/\nfunction f()\n")),
      (["w", "d", "b.sh"], .file [])]⟩
    let t' := (generate s wd t "d").tree
    let report : Report :=
      { files := ["../q/../a.md", "../q/../b.md"]
        blockCounts := [("../q/../a.md", 1), ("../q/../b.md", 0)]
        contents := some "../q/Home.md" }
    t.WellNamed ∧ (∀ name ∈ wd, Files.IsName name) ∧ s.tableOfContents = true ∧
      Files.pathIsDirectory t wd (Path.ofText "d").toText = .ok true ∧
      (generate s wd t "d").result = .ok report ∧
      Files.readFile t' wd "../q/Home.md" =
        .ok (Text.encode (Text.concat ["Table of contents\n=================\n\n",
          "- [a](../a.md)\n", "- [b](../b.md)\n"])) ∧
      Files.locate t' wd "../q/Home.md" = .ok ["q", "Home.md"] ∧
      ∃ entries, Files.readFile t' wd "../q/Home.md" =
          .ok (Text.encode (Text.ofLines (Page.contents "Table of contents" entries))) ∧
        List.Forall₂ (fun page entry => entry.1 = nameTitle s (Path.ofText page).name ∧
          LinksTo wd t' ⟨[], ["..", "q"]⟩ entry.2 page) report.files entries := by
  intro s wd t t' report
  have ht : t.WellNamed := by decide
  have hwd : ∀ name ∈ wd, Files.IsName name := by decide
  have hdirectory : Files.pathIsDirectory t wd (Path.ofText "d").toText = .ok true := rfl
  let names : List Text := ["a.sh", "b.sh"]
  let made : Tree := t.put ["q"] .directory
  have hmade : makeOutput wd t (Path.ofText s.output) = ⟨.ok (), made, []⟩ := by
    unfold s wd made t
    apply makeOutput_of_ensured
    decide +kernel
  have hfound : discover s wd made (Path.ofText "d") =
      .ok (names.map (Path.ofText "d").child) := by
    have hplace : Files.locate made wd (Path.ofText "d").toText = .ok ["w", "d"] := rfl
    exact discover_of_inOrder hplace rfl rfl rfl rfl
  obtain ⟨hresult, htree⟩ := generate_of_sources hdirectory hmade hfound
  have hok : (generate s wd t "d").result = .ok report := by
    rw [hresult]
    unfold s wd made t names report
    decide +kernel
  have hread : Files.readFile t' wd "../q/Home.md" =
      .ok (Text.encode (Text.concat ["Table of contents\n=================\n\n",
        "- [a](../a.md)\n", "- [b](../b.md)\n"])) := by
    unfold t'
    rw [htree]
    unfold s wd made t names
    decide +kernel
  obtain ⟨file, entries, hfile, hentries, hlocate, hlinks⟩ :=
    contents_links_lead_to_pages s wd t "d" report ht hwd rfl hdirectory hok
  cases hfile
  exact ⟨ht, hwd, rfl, hdirectory, hok, hread, hlocate (by decide), entries, hentries, hlinks⟩

end Run

end ShellDoc
