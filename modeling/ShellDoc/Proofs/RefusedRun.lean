import ShellDoc.Proofs.DirectoryRun

/-!
# Runs that are refused

A run is refused when its script does not exist, or when something stands in the way of one of its
outputs and force is not set.  For a single script both are found out before anything is written.  A
run on a directory checks each output only when its turn comes, so it stops in the middle: with the
pages of the scripts in front of the refused one, or with all pages when the table of contents is
refused.

What a stopped run leaves is told by `PagesLeft`: the output directory, the complete pages of the
scripts that it came to, each at a place that was free, and everything else as it was.  It holds of
every list of pages that were written without force (`PagesWritten.pagesLeft`), so the rest is to
find out how far a refused run came (`documentAll_refused`).
-/

namespace ShellDoc.Run

open Files (Location Node Tree)

variable {s : Settings} {wd : Location} {t t' : Tree}

/-! ## The step that refuses -/

theorem checkOverwrite_eq_outputExists_iff {output : Path} {file : Text} :
    checkOverwrite s wd t output = .error (.outputExists file) ↔
      Files.pathExists t wd output.toText = .ok true ∧ s.force = false ∧
        file = output.toText := by
  rw [checkOverwrite]
  cases Files.pathExists t wd output.toText with
  | error f => simp
  | ok there => cases there <;> cases hforce : s.force <;> simp [eq_comm]

/-- Opening files and reading them has faults of its own, and never refuses. -/
theorem documentFile_eq_error {source output : Path} {title : Text} {f : Fault}
    (h : (documentFile s wd t source output title).result = .error f) :
    (∃ g, f = .access g) ∨ ∃ u, f = .undecodable u := by
  have hopened : (openAndWrite s wd t source output
      (if title.isEmpty then fileTitle s source else title)).result = .error f := h
  rw [openAndWrite, Outcome.result_andThen_eq_error_iff] at hopened
  rcases hopened with hscript | ⟨script, -, hopened⟩
  · exact .inl (Outcome.exists_of_result_ofAccess_eq_error hscript)
  · rw [Outcome.result_andThen_eq_error_iff] at hopened
    rcases hopened with hpage | ⟨page, -, hwrite⟩
    · exact .inl (Outcome.exists_of_result_ofAccess_eq_error hpage)
    · simp only [writePage] at hwrite
      split at hwrite
      · cases hwrite
      · cases hwrite
        exact .inr ⟨_, rfl⟩

/-- A run over scripts is refused at one of them, with the pages of those in front of it
written. -/
theorem documentAll_refused {output : Path} {sources : List Path} {report : Report} {file : Text}
    (h : (documentAll s wd output report t sources).result = .error (.outputExists file)) :
    ∃ (ws : List PageRecord) (source : Path) (back : List Path),
      sources = ws.map PageRecord.source ++ source :: back ∧
      PagesWritten s wd output t ws (documentAll s wd output report t sources).tree ∧
      checkOverwrite s wd (documentAll s wd output report t sources).tree
        (pagePath s output source) = .error (.outputExists file) := by
  induction sources generalizing report t with
  | nil => cases h
  | cons source sources ih =>
      rw [documentAll] at h ⊢
      rcases Outcome.result_andThen_eq_error_iff.mp h with hrefused | ⟨_, hcheck, h⟩
      · rw [Outcome.tree_andThen_of_error hrefused]
        exact ⟨[], source, sources, rfl, .nil t, hrefused⟩
      · rcases Outcome.result_andThen_eq_error_iff.mp h with hfault | ⟨count, hcount, h⟩
        · rcases documentFile_eq_error hfault with ⟨_, hf⟩ | ⟨_, hf⟩ <;> cases hf
        · rw [Outcome.tree_andThen_of_ok hcheck, Outcome.tree_andThen_of_ok hcount]
          obtain ⟨w, rfl, hwritten, -, htree⟩ := documentFile_eq_ok hcheck hcount
          obtain ⟨ws, source, back, hsources, hrest, hrefused⟩ := ih h
          refine ⟨w :: ws, source, back, ?_, ?_, hrefused⟩
          · rw [hsources]
            rfl
          · refine .cons hwritten ?_
            rw [← htree]
            exact hrest

theorem writeContents_refused {output : Path} {report : Report} {file : Text}
    (h : (writeContents s wd output report t).result = .error (.outputExists file)) :
    (writeContents s wd output report t).tree = t ∧
      checkOverwrite s wd t (contentsPath s output) = .error (.outputExists file) := by
  rw [writeContents] at h ⊢
  rcases Outcome.result_andThen_eq_error_iff.mp h with hrefused | ⟨_, hcheck, h⟩
  · rw [Outcome.tree_andThen_of_error hrefused]
    exact ⟨rfl, hrefused⟩
  · rcases Outcome.result_andThen_eq_error_iff.mp h with hfault | ⟨_, -, h⟩
    · obtain ⟨f, hf⟩ := Outcome.exists_of_result_ofAccess_eq_error hfault
      cases hf
    · cases h

theorem discover_ne_outputExists (s : Settings) (wd : Location) (t : Tree) (directory : Path)
    (file : Text) : discover s wd t directory ≠ .error (.outputExists file) := by
  intro h
  simp only [discover] at h
  split at h
  · cases h
  · split at h <;> cases h

theorem makeOutput_ne_outputExists (wd : Location) (t : Tree) (output : Path) (file : Text) :
    (makeOutput wd t output).result ≠ .error (.outputExists file) := by
  intro h
  rw [makeOutput] at h
  split at h <;> cases h

theorem pathIsDirectory_of_makeOutput {output : Path}
    (h : (makeOutput wd t output).result = .ok ()) :
    Files.pathIsDirectory (makeOutput wd t output).tree wd output.toText = .ok true := by
  rw [makeOutput] at h ⊢
  split at h
  · rename_i made hmade
    have hdirectory := Files.pathIsDirectory_of_ensureDirectories
      (show (Files.ensureDirectories t wd output).2 = .ok () by rw [hmade])
    rwa [hmade] at hdirectory
  · cases h

/-- Pages and contents are refused at one of the scripts, or at the table of contents. -/
theorem pagesAndContents_refused {sources : List Path} {file : Text}
    (h : (pagesAndContents s wd t sources).result = .error (.outputExists file)) :
    let output := Path.ofText s.output
    let t' := (pagesAndContents s wd t sources).tree
    ∃ (ws : List PageRecord) (refused : Path), PagesWritten s wd output t ws t' ∧
      checkOverwrite s wd t' refused = .error (.outputExists file) ∧
      ((∃ source back, sources = ws.map PageRecord.source ++ source :: back ∧
          refused = pagePath s output source) ∨
        sources = ws.map PageRecord.source ∧ s.tableOfContents = true ∧
          refused = contentsPath s output) := by
  intro output t'
  have htree : t' = (pagesAndContents s wd t sources).tree := rfl
  rw [pagesAndContents] at h htree
  rcases Outcome.result_andThen_eq_error_iff.mp h with hpages | ⟨report, hreport, hcontents⟩
  · rw [Outcome.tree_andThen_of_error hpages] at htree
    obtain ⟨ws, source, back, hsources, hwritten, hrefused⟩ := documentAll_refused hpages
    rw [← htree] at hwritten hrefused
    exact ⟨ws, _, hwritten, hrefused, .inl ⟨source, back, hsources, rfl⟩⟩
  · rw [Outcome.tree_andThen_of_ok hreport] at htree
    obtain ⟨ws, hsources, -, hwritten⟩ := documentAll_eq_ok hreport
    by_cases htoc : s.tableOfContents = true
    · rw [if_pos htoc] at hcontents htree
      obtain ⟨hsame, hrefused⟩ := writeContents_refused hcontents
      rw [← hsame, ← htree] at hwritten hrefused
      exact ⟨ws, _, hwritten, hrefused, .inr ⟨hsources.symm, htoc, rfl⟩⟩
    · rw [if_neg htoc] at hcontents
      cases hcontents

/-- A run on a directory that is refused has made the output directory and found the scripts. -/
theorem generateDirectory_refused {directory : Path} {file : Text}
    (h : (generateDirectory s wd t directory).result = .error (.outputExists file)) :
    let made := makeOutput wd t (Path.ofText s.output)
    made.result = .ok () ∧ ∃ sources, discover s wd made.tree directory = .ok sources ∧
      (pagesAndContents s wd made.tree sources).result = .error (.outputExists file) ∧
      (pagesAndContents s wd made.tree sources).tree =
        (generateDirectory s wd t directory).tree := by
  intro made
  have hrun := h
  rw [generateDirectory_eq] at hrun
  rcases Outcome.result_andThen_eq_error_iff.mp hrun with hmade | ⟨_, hmade, hrun⟩
  · exact absurd hmade (makeOutput_ne_outputExists wd t _ file)
  · rcases Outcome.result_andThen_eq_error_iff.mp hrun with hfound | ⟨sources, hfound, -⟩
    · exact absurd hfound (discover_ne_outputExists s wd _ directory file)
    · obtain ⟨hresult, htree⟩ := generateDirectory_of_discover hmade hfound
      exact ⟨hmade, sources, hfound, hresult ▸ h, htree.symm⟩

/-! ## What a stopped run leaves -/

/-- The path of the page of a script, in the output directory of the settings. -/
def pageFile (s : Settings) (source : Path) : Text :=
  (pagePath s (Path.ofText s.output) source).toText

/-- What a run on a directory leaves behind the last of some pages: the output directory, the pages
of these scripts as they were in the tree before the run, and nothing else. -/
structure PagesLeft (s : Settings) (wd : Location) (t : Tree) (sources : List Path) (t' : Tree) :
    Prop where
  directory : Files.pathIsDirectory t' wd (Path.ofText s.output).toText = .ok true
  readable : ∀ source ∈ sources, ∃ bytes, Files.readFile t wd source.toText = .ok bytes ∧
    (Script.Content.ofBytes bytes).fault = none
  pages : ∀ source ∈ sources,
    Files.readFile t' wd (pageFile s source) = .ok (Text.encode (scriptPage s wd t source).text)
  distinct : (sources.map fun source => Files.locate t' wd (pageFile s source)).Nodup
  free : ∀ source ∈ sources, ∃ place, Files.locate t' wd (pageFile s source) = .ok place ∧
    t.get? place = none
  /-- Besides the pages, only the directories that lead to the output are new. -/
  rest : ∀ place, (∀ source ∈ sources, Files.locate t' wd (pageFile s source) ≠ .ok place) →
    t'.get? place = t.get? place ∨
      t.get? place = none ∧ t'.get? place = some .directory ∧
        ∃ front, front <+: (Path.ofText s.output).parts ∧
          Files.locate t' wd (Path.toText ⟨(Path.ofText s.output).root, front⟩) = .ok place

theorem PagesWritten.pagesLeft {directory : Path} {sources : List Path} {ws : List PageRecord}
    (h : PagesWritten s wd (Path.ofText s.output)
      (makeOutput wd t (Path.ofText s.output)).tree ws t')
    (hmade : (makeOutput wd t (Path.ofText s.output)).result = .ok ())
    (hforce : s.force = false) (ht : t.WellNamed) (hnormal : directory.Normal)
    (hfound : discover s wd t directory = .ok sources)
    (hsources : ws.map PageRecord.source ⊆ sources) :
    PagesLeft s wd t (ws.map PageRecord.source) t' := by
  have hgrown := makeOutput_grown wd t (Path.ofText s.output)
  have hkept : t.Kept (fun _ => False) (makeOutput wd t (Path.ofText s.output)).tree :=
    hgrown.kept
  obtain ⟨hnodup, hfree⟩ := h.free_of_not_force hforce
  have hapart := h.apart_of_not_force hforce hkept ht hnormal hfound hsources
  have hlines := fun {w : PageRecord} (hw : w ∈ ws) =>
    h.lines_eq hkept ht hnormal hfound hsources hapart hw
  refine ⟨?_, ?_, ?_, ?_, ?_, ?_⟩
  · exact Files.pathIsDirectory_of_kept h.kept (pathIsDirectory_of_makeOutput hmade)
  · rw [List.forall_mem_map]
    intro w hw
    obtain ⟨bytes, hbytes, hcontent⟩ := hlines hw
    exact ⟨bytes, hbytes, by rw [hcontent]⟩
  · rw [List.forall_mem_map]
    intro w hw
    rw [← PageRecord.writer_eq_scriptPage (hlines hw)]
    exact Files.readFile_of_locate (h.locate hw).2 (h.get?_page hnodup hw)
  · have hplaces : (ws.map PageRecord.source).map
        (fun source => Files.locate t' wd (pageFile s source)) =
        (ws.map PageRecord.page).map .ok := by
      rw [List.map_map, List.map_map]
      exact List.map_congr_left fun w hw => (h.locate hw).2
    rw [hplaces, List.nodup_map_iff fun _ _ => Except.ok.inj]
    exact hnodup
  · rw [List.forall_mem_map]
    intro w hw
    refine ⟨w.page, (h.locate hw).2, ?_⟩
    rcases hgrown.get? w.page with hsame | ⟨hnone, -⟩
    · rw [← hsame, hfree w hw]
    · exact hnone
  · intro place hplace
    rw [List.forall_mem_map] at hplace
    have hnot : place ∉ ws.map PageRecord.page := by
      intro hmem
      obtain ⟨w, hw, rfl⟩ := List.mem_map.mp hmem
      exact hplace w hw (h.locate hw).2
    have hsame := h.get?_of_not_mem hnot
    rcases hgrown.get? place with hbefore | ⟨hnone, hdirectory, front, hfront, hnamed⟩
    · exact .inl (hsame.trans hbefore)
    · exact .inr ⟨hnone, hsame.trans hdirectory, front, hfront,
        Files.locate_of_kept h.kept hnamed.locate⟩

/-! ## Refused runs -/

/-- A run that is refused for a single script has written nothing. -/
theorem tree_of_refused_script {path file : Text}
    (hdirectory : Files.pathIsDirectory t wd (Path.ofText path).toText ≠ .ok true)
    (h : (generate s wd t path).result = .error (.sourceNotFound file) ∨
      (generate s wd t path).result = .error (.outputExists file)) :
    (generate s wd t path).tree = t := by
  rcases generate_script_cases hdirectory with ⟨-, -, htree⟩ | ⟨out, -, -, -, hresult, -⟩
  · exact htree
  · rw [hresult] at h
    cases hdone : (documentFile s wd t (Path.ofText path) out s.title).result with
    | ok count => rcases h with h | h <;> simp [hdone, Except.map] at h
    | error f =>
        rcases documentFile_eq_error hdone with ⟨g, rfl⟩ | ⟨u, rfl⟩ <;>
          simp [hdone, Except.map] at h

/-- What stands at a place that is no page was there before, or is a directory that was made. -/
theorem PagesLeft.get?_cases {sources : List Path} (h : PagesLeft s wd t sources t')
    (place : Location) :
    (∃ source ∈ sources, Files.locate t' wd (pageFile s source) = .ok place) ∨
      t'.get? place = t.get? place ∨ t'.get? place = some .directory := by
  by_cases hpage : ∃ source ∈ sources, Files.locate t' wd (pageFile s source) = .ok place
  · exact .inl hpage
  · have hother : ∀ source ∈ sources, Files.locate t' wd (pageFile s source) ≠ .ok place :=
      fun source hsource hplace => hpage ⟨source, hsource, hplace⟩
    rcases h.rest place hother with hsame | ⟨-, hmade, -⟩
    · exact .inr (.inl hsame)
    · exact .inr (.inr hmade)

/-- A refused run.  For a single script the tree is as it was.  For a directory the file that is
refused is there, and it is the page of one of the scripts, of which exactly those in front have
their pages, or it is the table of contents, which stays what it was while all scripts have their
pages. -/
theorem refused_run (s : Settings) (wd : Location) (t : Tree) (path file : Text)
    (ht : t.WellNamed) :
    let o := generate s wd t path
    let isDirectory := Files.pathIsDirectory t wd (Path.ofText path).toText
    (isDirectory ≠ .ok true →
        o.result = .error (.sourceNotFound file) ∨ o.result = .error (.outputExists file) →
        o.tree = t) ∧
      (isDirectory = .ok true → o.result = .error (.outputExists file) →
        Files.pathExists o.tree wd file = .ok true ∧
          ∃ sources, discover s wd t (Path.ofText path) = .ok sources ∧
            ((∃ front source back, sources = front ++ source :: back ∧
                file = pageFile s source ∧ PagesLeft s wd t front o.tree) ∨
              s.tableOfContents = true ∧
                file = (contentsPath s (Path.ofText s.output)).toText ∧
                PagesLeft s wd t sources o.tree ∧
                ∀ place, Files.locate o.tree wd file = .ok place →
                  (∃ source ∈ sources, Files.locate o.tree wd (pageFile s source) = .ok place) ∨
                    o.tree.get? place = t.get? place ∨
                    o.tree.get? place = some .directory)) := by
  intro o isDirectory
  refine ⟨tree_of_refused_script, ?_⟩
  intro hdirectory hrefused
  have ho : o = generateDirectory s wd t (Path.ofText path) := generate_of_directory hdirectory
  rw [ho] at hrefused ⊢
  obtain ⟨hmade, sources, hfound, hrun, htree⟩ := generateDirectory_refused hrefused
  obtain ⟨ws, refused, hpages, hcheck, hwhere⟩ := pagesAndContents_refused hrun
  rw [htree] at hpages hcheck
  obtain ⟨hthere, hforce, rfl⟩ := checkOverwrite_eq_outputExists_iff.mp hcheck
  have hnormal := Path.normal_ofText path
  have hbefore := discover_of_makeOutput ht hnormal hdirectory hfound
  have hleft := fun hsources => hpages.pagesLeft hmade hforce ht hnormal hbefore hsources
  refine ⟨hthere, sources, hbefore, ?_⟩
  rcases hwhere with ⟨source, back, rfl, rfl⟩ | ⟨rfl, htoc, rfl⟩
  · exact .inl ⟨_, source, back, rfl, rfl, hleft (List.subset_append_left _ _)⟩
  · have hall := hleft (List.Subset.refl _)
    exact .inr ⟨htoc, rfl, hall, fun place _ => hall.get?_cases place⟩

/-- Of two scripts the first has its page when the page of the second is refused. -/
theorem refused_run_second_script :
    let s : Settings := { output := "o" }
    let t : Tree := ⟨[(["d"], .directory),
      (["d", "a.sh"], .file (Text.encode "#/ A #/\nfunction f()\n")), (["d", "b.sh"], .file []),
      (["o"], .directory), (["o", "b.md"], .file [])]⟩
    let t' := (generate s [] t "d").tree
    t.WellNamed ∧ Files.pathIsDirectory t [] (Path.ofText "d").toText = .ok true ∧
      (generate s [] t "d").result = .error (.outputExists "o/b.md") ∧
      Files.pathExists t' [] "o/b.md" = .ok true ∧
      ∃ sources, discover s [] t (Path.ofText "d") = .ok sources ∧
        ∃ front source back, sources = front ++ source :: back ∧
          "o/b.md" = pageFile s source ∧ PagesLeft s [] t front t' := by
  intro s t t'
  have ht : t.WellNamed := by decide
  have hdirectory : Files.pathIsDirectory t [] (Path.ofText "d").toText = .ok true := rfl
  have hfound : discover s [] t (Path.ofText "d") =
      .ok (["a.sh", "b.sh"].map (Path.ofText "d").child) := by
    have hplace : Files.locate t [] (Path.ofText "d").toText = .ok ["d"] := rfl
    exact discover_of_inOrder hplace rfl rfl rfl rfl
  have hrefused : (generate s [] t "d").result = .error (.outputExists "o/b.md") := by
    have houtput : Files.pathIsDirectory t [] (Path.ofText s.output).toText = .ok true := rfl
    rw [(generate_of_sources hdirectory (makeOutput_of_directory houtput) hfound).1]
    unfold s t
    decide +kernel
  obtain ⟨hthere, sources, hsources, hpage | ⟨htoc, -⟩⟩ :=
    (refused_run s [] t "d" "o/b.md" ht).2 hdirectory hrefused
  · exact ⟨ht, hdirectory, hrefused, hthere, sources, hsources, hpage⟩
  · cases htoc

end ShellDoc.Run
