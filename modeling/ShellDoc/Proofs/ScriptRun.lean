import ShellDoc.Proofs.RefusedRun

/-!
# A script on its own and in its directory

The page of a script is the same whether the script is given to a run by itself or found in its
directory, as long as the output is a directory that is there.  Both runs then write to the same
path, though they come to it on different ways (`resolveOutput_of_directory`).

The run on the directory writes a page into a tree that holds the pages before it.  Without force
these went to free places and brought no directory, so the page could as well have been the first
one (`PagesWritten.alone`), which is what the run on the script alone does.
-/

namespace ShellDoc.Run

open Files (Location Node Tree)

variable {s : Settings} {wd : Location} {t t' : Tree}

namespace PagesWritten

variable {output : Path} {ws : List PageRecord} {w : PageRecord}

/-- The tree in which a page was written has all that was there before the first page, and no
directory that was not. -/
theorem exists_written (h : PagesWritten s wd output t ws t') (hw : w ∈ ws) :
    ∃ u, PageWritten s wd output u w ∧ t.Kept (fun _ => True) u ∧
      ∀ place, u.get? place = some .directory → t.get? place = some .directory := by
  induction h with
  | nil t => cases hw
  | @cons t t' v ws first rest ih =>
      rcases List.mem_cons.mp hw with rfl | hw
      · exact ⟨t, first, Tree.Kept.refl _ t, fun _ h => h⟩
      · obtain ⟨u, hwritten, hkept, hdirectories⟩ := ih hw
        refine ⟨u, hwritten, (first.kept.trans hkept).mono fun _ _ _ _ => trivial, ?_⟩
        intro place hplace
        have hbefore := hdirectories place hplace
        have hne : place ≠ v.page := by
          rintro rfl
          rw [first.get?_page] at hbefore
          cases hbefore
        rwa [Tree.get?_put_of_ne t hne] at hbefore

/-- Every page of a run goes to the place that its path has before the run. -/
theorem locateOutput (h : PagesWritten s wd output t ws t') (hw : w ∈ ws) :
    Files.locateOutput t wd (w.file s output) = .ok w.page := by
  obtain ⟨u, hwritten, hkept, hdirectories⟩ := h.exists_written hw
  obtain ⟨parent, name, hpage, hends, hslash, hfile⟩ := Files.locateOutput_eq_ok hwritten.page
  rw [hpage] at hfile ⊢
  refine (hends.of_directories hdirectories).locateOutput hslash ?_
  cases hthere : t.isDirectory (parent ++ [name]) with
  | false => rfl
  | true =>
      rw [Tree.isDirectory, decide_eq_true_eq] at hthere
      simp [Tree.isDirectory, hkept.directory hthere] at hfile

/-- A page that was written in the course of a run without force could have been written first. -/
theorem alone (h : PagesWritten s wd output t ws t') (hforce : s.force = false)
    (hapart : ∀ w ∈ ws, ∀ v ∈ ws, v.script ≠ w.page) (hw : w ∈ ws)
    (hscript : Files.locateFile t wd w.source.toText = .ok w.script) :
    PageWritten s wd output t w := by
  have hpage := h.locateOutput hw
  have hexists : Files.pathExists t wd (w.file s output) = .ok false := by
    rw [Files.pathExists_of_locateOutput hpage, (h.free_of_not_force hforce).2 w hw]
    rfl
  refine ⟨checkOverwrite_eq_ok_iff.mpr ⟨false, hexists, .inl rfl⟩, hscript, hpage, ?_⟩
  rw [Files.contentAt_put_of_ne (hapart w hw w hw)]
  exact h.content hapart hw

end PagesWritten

/-- What the work on a script comes to when its page can be written. -/
theorem PageWritten.documentFile {output : Path} {w : PageRecord}
    (h : PageWritten s wd output t w) :
    let done := Run.documentFile s wd t w.source (pagePath s output w.source) []
    done.result = .ok (w.writer s).count ∧ done.tree = t.put w.page (w.node s) :=
  documentFile_of_located h.script h.page h.content

/-! ## The output of a run on one script -/

theorem resolveOutput_of_directory
    (houtput : s.output = [] ∨
      Files.pathIsDirectory t wd (Path.ofText s.output).toText = .ok true) (source : Path) :
    resolveOutput s wd t source = .ok (pagePath s (Path.ofText s.output) source) := by
  by_cases hempty : s.output = []
  · have hjoin : ∀ q : Path, (Path.ofText []).join q = q := by
      intro q
      rw [Path.join]
      split
      · rename_i hroot
        cases q
        cases hroot
        rfl
      · rfl
    rw [pagePath, hempty, hjoin, resolveOutput, hempty]
    rfl
  · have hdirectory := houtput.resolve_left hempty
    rw [resolveOutput, if_neg (by simpa using hempty)]
    simp only [hdirectory]
    rfl

/-- The working directory is not made for an output, it has to be there. -/
theorem pathIsDirectory_of_makeOutput_nil
    (h : (makeOutput wd t (Path.ofText [])).result = .ok ()) :
    Files.pathIsDirectory t wd (Path.ofText []).toText = .ok true := by
  apply Files.pathIsDirectory_of_ensureDirectory_current
  rw [makeOutput] at h
  split at h
  · rename_i made hmade
    exact congrArg Prod.snd hmade
  · cases h

/-- A run that writes to a directory that is there starts from the tree as it is. -/
theorem makeOutput_eq_self
    (houtput : s.output = [] ∨
      Files.pathIsDirectory t wd (Path.ofText s.output).toText = .ok true)
    (h : (makeOutput wd t (Path.ofText s.output)).result = .ok ()) :
    makeOutput wd t (Path.ofText s.output) = ⟨.ok (), t, []⟩ := by
  refine makeOutput_of_directory ?_
  rcases houtput with hempty | hdirectory
  · rw [hempty] at h ⊢
    exact pathIsDirectory_of_makeOutput_nil h
  · exact hdirectory

/-! ## Both runs -/

/-- A script whose page can be written has it written by a run on the script alone. -/
theorem PageWritten.generate {w : PageRecord}
    (h : PageWritten s wd (Path.ofText s.output) t w) (htitle : s.title = [])
    (hout : resolveOutput s wd t w.source = .ok (pagePath s (Path.ofText s.output) w.source))
    (hsource : Path.ofText w.source.toText = w.source) :
    let o := Run.generate s wd t w.source.toText
    let file := w.file s (Path.ofText s.output)
    o.result = .ok { files := [file], blockCounts := [(file, (w.writer s).count)] } ∧
      o.tree = t.put w.page (w.node s) := by
  intro o file
  obtain ⟨hscript, hfile⟩ := Files.locateFile_eq_ok_iff.mp h.script
  have hscript' : Files.locate t wd (Path.ofText w.source.toText).toText = .ok w.script := by
    rw [hsource]
    exact hscript
  have hout' : resolveOutput s wd t (Path.ofText w.source.toText) =
      .ok (pagePath s (Path.ofText s.output) w.source) := by
    rw [hsource]
    exact hout
  obtain ⟨hresult, htree⟩ := generate_of_script hscript' hfile hout' h.checked
  rw [hsource, htitle] at hresult htree
  obtain ⟨hcount, hput⟩ := h.documentFile
  refine ⟨?_, htree.trans hput⟩
  rw [show o.result = _ from hresult, hcount]
  rfl

/-- The report has the number of sections of each page, if the pages have different paths. -/
theorem DirectoryRun.get?_blockCounts {directory : Path} {report : Report}
    (r : DirectoryRun s wd t directory report t') (hdistinct : report.files.Nodup)
    {w : PageRecord} (hw : w ∈ r.records) :
    report.blockCounts.get? (w.file s (Path.ofText s.output)) = some (w.writer s).count := by
  rw [r.files] at hdistinct
  have hcounts : report.blockCounts =
      r.records.map fun w => (w.file s (Path.ofText s.output), (w.writer s).count) :=
    r.counts.trans (blockCounts_reportPages (by exact hdistinct))
  rw [hcounts]
  refine Fields.get?_of_mem ?_ (List.mem_map.mpr ⟨w, hw, rfl⟩)
  rw [Fields.names, List.map_map]
  exact hdistinct

/-- A run without force on a directory whose output is a directory that is there gives every script
the page that the script gets in a run by itself: under the same path, with the same number of
sections and the same bytes.  The run on the script alone writes that page and nothing else. -/
theorem script_run_of_directory_run (s : Settings) (wd : Location) (t : Tree) (path : Text)
    (report : Report) (hforce : s.force = false) (htitle : s.title = [])
    (houtput : s.output = [] ∨
      Files.pathIsDirectory t wd (Path.ofText s.output).toText = .ok true)
    (ht : t.WellNamed)
    (hdirectory : Files.pathIsDirectory t wd (Path.ofText path).toText = .ok true)
    (hok : (generate s wd t path).result = .ok report) :
    let t' := (generate s wd t path).tree
    ∃ sources, discover s wd t (Path.ofText path) = .ok sources ∧
      report.files.length = sources.length ∧
      ∀ source file, (source, file) ∈ sources.zip report.files →
        let o := generate s wd t source.toText
        ∃ count page, report.blockCounts.get? file = some count ∧
          Files.readFile t' wd file = .ok page ∧
          o.result = .ok { files := [file], blockCounts := [(file, count)] } ∧
          Files.readFile o.tree wd file = .ok page ∧
          ∀ place, Files.locate o.tree wd file ≠ .ok place →
            o.tree.get? place = t.get? place := by
  intro t'
  obtain ⟨r⟩ := exists_directoryRun hdirectory hok
  have hnormal := Path.normal_ofText path
  have hfound := r.discover ht hnormal hdirectory
  have hmade := makeOutput_eq_self houtput (makeOutput_of_generate hdirectory hok)
  have hpages : PagesWritten s wd (Path.ofText s.output) t r.records r.paged := by
    have hpages := r.pages
    rwa [hmade] at hpages
  have hapart := r.pages.apart_of_not_force hforce (DirectoryRun.kept_made wd t _) ht hnormal
    hfound (List.Subset.refl _)
  have hcomplete := r.completePages hfound ht hnormal (r.free_of_not_force hforce).1 hapart
  refine ⟨_, hfound, by rw [r.files, List.length_map, List.length_map], ?_⟩
  intro source file hpair o
  rw [r.files, List.zip_map'] at hpair
  obtain ⟨w, hw, hpair⟩ := List.mem_map.mp hpair
  cases hpair
  have hmem := List.mem_map_of_mem (f := PageRecord.source) hw
  obtain ⟨bytes, hscript, hbytes⟩ := r.get?_script hfound ht hnormal hw
  have hwritten := hpages.alone hforce hapart hw
    (Files.locateFile_eq_ok_iff.mpr ⟨hscript, by simp [Tree.isDirectory, hbytes]⟩)
  obtain ⟨hresult, htree⟩ := hwritten.generate htitle (resolveOutput_of_directory houtput w.source)
    (ofText_toText_of_discover ht hnormal hfound hmem)
  have hlocate : Files.locate o.tree wd (w.file s (Path.ofText s.output)) = .ok w.page := by
    rw [show o.tree = _ from htree]
    exact Files.locate_of_locateOutput hwritten.page hwritten.kept
      (Option.isSome_of_eq_some hwritten.get?_page)
  refine ⟨(w.writer s).count, Text.encode (w.writer s).text,
    r.get?_blockCounts hcomplete.distinct hw, ?_, hresult, ?_, ?_⟩
  · rw [PageRecord.writer_eq_scriptPage (r.lines_eq hfound ht hnormal hapart hw)]
    exact hcomplete.pages _ hmem
  · refine Files.readFile_of_locate hlocate ?_
    rw [show o.tree = _ from htree]
    exact hwritten.get?_page
  · intro place hplace
    have hne : place ≠ w.page := by
      rintro rfl
      exact hplace hlocate
    rw [show o.tree = _ from htree, Tree.get?_put_of_ne t hne]

/-- The second script of a directory, by itself and with the first one. -/
theorem script_run_of_directory_run_second :
    let s : Settings := { output := "o" }
    let t : Tree := ⟨[(["d"], .directory),
      (["d", "a.sh"], .file (Text.encode "#/ A #/\nfunction f()\n")),
      (["d", "b.sh"], .file (Text.encode "#/ B #/\nfunction g()\n")), (["o"], .directory)]⟩
    let report : Report :=
      { files := ["o/a.md", "o/b.md"], blockCounts := [("o/a.md", 1), ("o/b.md", 1)] }
    s.force = false ∧ s.title = [] ∧ t.WellNamed ∧
      Files.pathIsDirectory t [] (Path.ofText s.output).toText = .ok true ∧
      Files.pathIsDirectory t [] (Path.ofText "d").toText = .ok true ∧
      (generate s [] t "d").result = .ok report ∧
      (generate s [] t "d/b.sh").result =
        .ok { files := ["o/b.md"], blockCounts := [("o/b.md", 1)] } ∧
      ∃ page, Files.readFile (generate s [] t "d").tree [] "o/b.md" = .ok page ∧
        Files.readFile (generate s [] t "d/b.sh").tree [] "o/b.md" = .ok page := by
  intro s t report
  have ht : t.WellNamed := by decide
  have houtput : Files.pathIsDirectory t [] (Path.ofText s.output).toText = .ok true := rfl
  have hdirectory : Files.pathIsDirectory t [] (Path.ofText "d").toText = .ok true := rfl
  let names : List Text := ["a.sh", "b.sh"]
  have hfound : discover s [] t (Path.ofText "d") = .ok (names.map (Path.ofText "d").child) := by
    have hplace : Files.locate t [] (Path.ofText "d").toText = .ok ["d"] := rfl
    exact discover_of_inOrder hplace rfl rfl rfl rfl
  have hok : (generate s [] t "d").result = .ok report := by
    rw [(generate_of_sources hdirectory (makeOutput_of_directory houtput) hfound).1]
    unfold s t names report
    decide +kernel
  obtain ⟨sources, hsources, -, hruns⟩ :=
    script_run_of_directory_run s [] t "d" report rfl rfl (.inr houtput) ht hdirectory hok
  rw [hfound] at hsources
  cases hsources
  obtain ⟨count, page, hcount, hpage, hresult, hsame, -⟩ :=
    hruns (Path.ofText "d/b.sh") "o/b.md" (List.mem_cons_of_mem _ List.mem_cons_self)
  cases hcount
  exact ⟨rfl, rfl, ht, houtput, hdirectory, hok, hresult, page, hpage, hsame⟩

end ShellDoc.Run
