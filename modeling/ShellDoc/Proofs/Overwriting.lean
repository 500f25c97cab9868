import ShellDoc.Proofs.RunSteps

/-!
# What a run may write over

A run makes directories, and writes pages and a table of contents.  Directories are made at free
places only.  A file is written after its path was checked: without force the path names nothing,
so the place is free; with force the file at that place, if there is one, gets another content.

`WritesOver s wd outs t t'` puts this into one relation between the trees before and behind a step:
all that was there is kept, except that under force the files named by the paths `outs` may have
another content.  Steps compose (`WritesOver.trans`), so the relation goes from one page to all
pages of a directory and from there to the whole run, whether it succeeds or fails.
-/

namespace ShellDoc.Run

open Files (Location Node Tree)

/-! ## The outputs of a run -/

/-- The files that a run on a directory of scripts is to write. -/
def directoryOutputs (s : Settings) (sources : List Path) : List Path :=
  sources.map (pagePath s (Path.ofText s.output)) ++
    if s.tableOfContents then [contentsPath s (Path.ofText s.output)] else []

/-- The files that a run is to write. -/
def outputs (s : Settings) (wd : Location) (t : Tree) (path : Text) : List Path :=
  let source := Path.ofText path
  match Files.pathIsDirectory t wd source.toText with
  | .ok true =>
      match discover s wd (makeOutput wd t (Path.ofText s.output)).tree source with
      | .ok sources => directoryOutputs s sources
      | .error _ => []
  | _ =>
      match resolveOutput s wd t source with
      | .ok out => [out]
      | .error _ => []

section Outputs

variable {s : Settings} {wd : Location} {t : Tree} {path : Text}

theorem outputs_of_sources {sources : List Path}
    (hdirectory : Files.pathIsDirectory t wd (Path.ofText path).toText = .ok true)
    (hfound : discover s wd (makeOutput wd t (Path.ofText s.output)).tree (Path.ofText path) =
      .ok sources) : outputs s wd t path = directoryOutputs s sources := by
  simp only [outputs, hdirectory, hfound]

theorem outputs_of_script {out : Path}
    (hscript : Files.pathIsDirectory t wd (Path.ofText path).toText ≠ .ok true)
    (hout : resolveOutput s wd t (Path.ofText path) = .ok out) :
    outputs s wd t path = [out] := by
  rw [outputs]
  split
  · rename_i hdirectory
    exact absurd hdirectory hscript
  · rw [hout]

end Outputs

/-- A place that a run may write over: force is set, and an output names the place. -/
def Replaceable (s : Settings) (wd : Location) (outs : List Path) (t : Tree) (place : Location) :
    Prop :=
  s.force = true ∧ ∃ out ∈ outs, Files.locate t wd out.toText = .ok place

/-- All that was in the tree is kept, save the content of files that the outputs name, which force
gives up. -/
def WritesOver (s : Settings) (wd : Location) (outs : List Path) (t t' : Tree) : Prop :=
  t.Kept (Replaceable s wd outs t') t'

variable {s : Settings} {wd : Location} {t t' t'' : Tree} {outs outs' : List Path}

theorem Replaceable.of_kept {W : Location → Prop} {place : Location}
    (h : Replaceable s wd outs t place) (hkept : t.Kept W t') (hsubset : outs ⊆ outs') :
    Replaceable s wd outs' t' place := by
  obtain ⟨hforce, out, hout, hplace⟩ := h
  exact ⟨hforce, out, hsubset hout, Files.locate_of_kept hkept hplace⟩

namespace WritesOver

theorem refl (s : Settings) (wd : Location) (outs : List Path) (t : Tree) :
    WritesOver s wd outs t t := Tree.Kept.refl _ t

theorem subset (h : WritesOver s wd outs t t') (hsubset : outs ⊆ outs') :
    WritesOver s wd outs' t t' :=
  h.mono fun _ _ _ hplace => hplace.of_kept (Tree.Kept.refl (fun _ => False) t') hsubset

theorem trans (h : WritesOver s wd outs t t') (h' : WritesOver s wd outs' t' t'') :
    WritesOver s wd (outs ++ outs') t t'' := by
  refine (Tree.Kept.trans h h').mono ?_
  rintro place node hnode (hplace | hplace)
  · exact hplace.of_kept h' (List.subset_append_left outs outs')
  · exact hplace.of_kept (Tree.Kept.refl (fun _ => False) t'') (List.subset_append_right outs outs')

end WritesOver

/-! ## One file -/

/-- A checked output goes to a free place, or force is set. -/
theorem get?_eq_none_of_checkOverwrite {out : Path} {place : Location}
    (hcheck : checkOverwrite s wd t out = .ok ())
    (hplace : Files.locateOutput t wd out.toText = .ok place) :
    t.get? place = none ∨ s.force = true := by
  obtain ⟨there, hthere, hfree | hforce⟩ := checkOverwrite_eq_ok_iff.mp hcheck
  · subst hfree
    exact .inl (Files.get?_eq_none_of_locateOutput hplace hthere)
  · exact .inr hforce

theorem writesOver_put {out : Path} {place : Location}
    (hcheck : checkOverwrite s wd t out = .ok ())
    (hplace : Files.locateOutput t wd out.toText = .ok place) (content : Text.Bytes) :
    WritesOver s wd [out] t (t.put place (.file content)) := by
  obtain hfree | hforce := get?_eq_none_of_checkOverwrite hcheck hplace
  · exact Tree.Kept.put_of_none hfree _
  · obtain ⟨-, -, -, -, -, hfile⟩ := Files.locateOutput_eq_ok hplace
    have hne := Files.ne_nil_of_locateOutput hplace
    have hkept : t.Kept (· = place) (t.put place (.file content)) :=
      Tree.Kept.put_file hne hfile content
    have hnamed : Files.locate (t.put place (.file content)) wd out.toText = .ok place := by
      refine Files.locate_of_locateOutput hplace hkept ?_
      rw [Tree.get?_put_self t hne]
      rfl
    refine hkept.mono ?_
    rintro _ _ _ rfl
    exact ⟨hforce, out, List.mem_singleton_self out, hnamed⟩

theorem writesOver_documentFile {output : Path} (source : Path) (title : Text)
    (hcheck : checkOverwrite s wd t output = .ok ()) :
    WritesOver s wd [output] t (documentFile s wd t source output title).tree := by
  rcases documentFile_cases s wd t source output title with
    ⟨-, -, htree⟩ | ⟨script, page, -, hpage, ⟨lines, -, -, htree⟩ | ⟨lines, u, -, -, htree⟩⟩
  · rw [htree]
    exact WritesOver.refl _ _ _ t
  · rw [htree]
    exact writesOver_put hcheck hpage _
  · rw [htree]
    exact writesOver_put hcheck hpage _

/-! ## All files of a run -/

theorem writesOver_documentAll (s : Settings) (wd : Location) (output : Path)
    (sources : List Path) (report : Report) (t : Tree) :
    WritesOver s wd (sources.map (pagePath s output)) t
      (documentAll s wd output report t sources).tree := by
  induction sources generalizing report t with
  | nil => exact WritesOver.refl _ _ _ t
  | cons source sources ih =>
      rw [documentAll]
      refine Outcome.tree_andThen (WritesOver.refl _ _ _ t) ?_
      intro _ hcheck
      -- A script that breaks off ends the run; the part of its page that was written counts too.
      have hpage := writesOver_documentFile (t := t) source [] hcheck
      refine Outcome.tree_andThen (hpage.subset ?_) ?_
      · exact List.cons_subset.mpr ⟨List.mem_cons_self, List.nil_subset _⟩
      · intro count _
        exact hpage.trans (ih _ _)

theorem writesOver_writeContents (output : Path) (report : Report) (t : Tree) :
    WritesOver s wd [contentsPath s output] t (writeContents s wd output report t).tree := by
  rcases writeContents_cases s wd output report t with
    ⟨-, -, htree⟩ | ⟨place, hcheck, hplace, -, htree⟩
  · rw [htree]
    exact WritesOver.refl _ _ _ t
  · rw [htree]
    exact writesOver_put hcheck hplace _

theorem writesOver_pagesAndContents (s : Settings) (wd : Location) (t : Tree)
    (sources : List Path) :
    WritesOver s wd (directoryOutputs s sources) t (pagesAndContents s wd t sources).tree := by
  have hpages := writesOver_documentAll s wd (Path.ofText s.output) sources {} t
  rw [pagesAndContents, directoryOutputs]
  refine Outcome.tree_andThen (hpages.subset (List.subset_append_left _ _)) ?_
  intro report _
  split
  · exact hpages.trans (writesOver_writeContents _ _ _)
  · rw [List.append_nil]
    exact hpages

theorem writesOver_makeOutput (wd : Location) (t : Tree) (output : Path) :
    WritesOver s wd [] t (makeOutput wd t output).tree :=
  (makeOutput_grown wd t output).kept

theorem writesOver_generate (s : Settings) (wd : Location) (t : Tree) (path : Text) :
    WritesOver s wd (outputs s wd t path) t (generate s wd t path).tree := by
  rw [generate]
  refine Outcome.tree_andThen (WritesOver.refl _ _ _ t) ?_
  intro isDirectory hdirectory
  rw [Outcome.result_ofAccess_eq_ok_iff] at hdirectory
  cases isDirectory with
  | true =>
      have hmade := writesOver_makeOutput (s := s) wd t (Path.ofText s.output)
      simp only [if_true]
      rcases generateDirectory_cases s wd t (Path.ofText path) with
        ⟨f, -, htree⟩ | ⟨sources, hsources, -, htree⟩
      · exact htree ▸ hmade.subset (List.nil_subset _)
      · rw [outputs_of_sources hdirectory hsources]
        exact htree ▸ hmade.trans (writesOver_pagesAndContents s wd _ sources)
  | false =>
      have hscript : Files.pathIsDirectory t wd (Path.ofText path).toText ≠ .ok true := by
        simp [hdirectory]
      simp only [Bool.false_eq_true, if_false]
      refine Outcome.tree_andThen (WritesOver.refl _ _ _ t) ?_
      intro isFile _
      split
      · exact WritesOver.refl _ _ _ t
      · refine Outcome.tree_andThen (WritesOver.refl _ _ _ t) ?_
        intro out hout
        refine Outcome.tree_andThen (WritesOver.refl _ _ _ t) ?_
        intro _ hcheck
        rw [Outcome.result_ofAccess_eq_ok_iff] at hout
        rw [outputs_of_script hscript hout]
        exact writesOver_documentFile (Path.ofText path) s.title hcheck

/-! ## What is never lost -/

/-- Without force a run keeps all that was there, files with their bytes and directories, whether
it succeeds or fails. -/
theorem generate_keeps_existing (s : Settings) (wd : Location) (t : Tree) (path : Text)
    (hforce : s.force = false) (place : Location) (node : Node)
    (hnode : t.get? place = some node) :
    (generate s wd t path).tree.get? place = some node := by
  refine (writesOver_generate s wd t path).get?_of_not hnode ?_
  rintro ⟨hforced, -⟩
  rw [hforce] at hforced
  cases hforced

/-- A page that stands in the way of a run on a directory. -/
theorem generate_keeps_existing_page :
    let s : Settings := { output := "o" }
    let t : Tree := ⟨[(["d"], .directory), (["d", "a.sh"], .file []), (["o"], .directory),
      (["o", "a.md"], .file (Text.encode "mine"))]⟩
    s.force = false ∧ t.get? ["o", "a.md"] = some (.file (Text.encode "mine")) ∧
      (generate s [] t "d").tree.get? ["o", "a.md"] = some (.file (Text.encode "mine")) := by
  intro s t
  have hnode : t.get? ["o", "a.md"] = some (.file (Text.encode "mine")) := rfl
  exact ⟨rfl, hnode, generate_keeps_existing s [] t "d" rfl _ _ hnode⟩

/-- A file keeps its bytes unless force is set and one of the outputs of the run names that very
file.  In particular a script is safe as long as no page and no table of contents goes to its
place. -/
theorem generate_keeps_script (s : Settings) (wd : Location) (t : Tree) (path source : Text)
    (place : Location) (content : Text.Bytes) (hsource : Files.locate t wd source = .ok place)
    (hfile : t.get? place = some (.file content))
    (hapart : s.force = true → ∀ out ∈ outputs s wd t path,
      Files.locate (generate s wd t path).tree wd out.toText ≠ .ok place) :
    Files.readFile (generate s wd t path).tree wd source = .ok content := by
  have hwrites := writesOver_generate s wd t path
  have hkept : (generate s wd t path).tree.get? place = some (.file content) := by
    refine hwrites.get?_of_not hfile ?_
    rintro ⟨hforce, out, hout, hplace⟩
    exact hapart hforce out hout hplace
  exact Files.readFile_of_locate (Files.locate_of_kept hwrites hsource) hkept

/-- A forced run whose page goes beside the script. -/
theorem generate_keeps_script_beside_page :
    let s : Settings := { force := true }
    let t : Tree := ⟨[(["a.sh"], .file (Text.encode "#/ A #/\nfunction f()\n")),
      (["a.md"], .file [])]⟩
    Files.locate t [] "a.sh" = .ok ["a.sh"] ∧
      (∀ out ∈ outputs s [] t "a.sh",
        Files.locate (generate s [] t "a.sh").tree [] out.toText ≠ .ok ["a.sh"]) ∧
      Files.readFile (generate s [] t "a.sh").tree [] "a.sh" =
        .ok (Text.encode "#/ A #/\nfunction f()\n") := by
  intro s t
  have hsource : Files.locate t [] "a.sh" = .ok ["a.sh"] := rfl
  have hfile : t.get? ["a.sh"] = some (.file (Text.encode "#/ A #/\nfunction f()\n")) := rfl
  have houtputs : outputs s [] t "a.sh" = [Path.ofText "a.md"] := rfl
  have hapart : ∀ out ∈ outputs s [] t "a.sh",
      Files.locate (generate s [] t "a.sh").tree [] out.toText ≠ .ok ["a.sh"] := by
    intro out hout
    rw [houtputs, List.mem_singleton] at hout
    subst hout
    have hplace : Files.locate (generate s [] t "a.sh").tree [] (Path.ofText "a.md").toText =
        .ok ["a.md"] := by
      unfold s t
      decide +kernel
    rw [hplace]
    simp
  exact ⟨hsource, hapart,
    generate_keeps_script s [] t "a.sh" "a.sh" _ _ hsource hfile fun _ => hapart⟩

/-- A script named like its own page is emptied before it is read: a forced run leaves the heading
of a page without sections in its place. -/
theorem forced_run_replaces_script :
    let s : Settings := { force := true }
    let t : Tree := ⟨[(["a.md"], .file (Text.encode "#/ A #/\nfunction f()\n"))]⟩
    (generate s [] t "a.md").result =
        .ok { files := ["a.md"], blockCounts := [("a.md", 0)] } ∧
      Files.readFile t [] "a.md" = .ok (Text.encode "#/ A #/\nfunction f()\n") ∧
      Files.readFile (generate s [] t "a.md").tree [] "a.md" = .ok (Text.encode "a\n=\n\n") ∧
      Text.encode "a\n=\n\n" ≠ Text.encode "#/ A #/\nfunction f()\n" :=
  ⟨rfl, rfl, rfl, by decide⟩

end ShellDoc.Run
