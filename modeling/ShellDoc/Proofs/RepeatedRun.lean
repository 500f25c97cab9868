import ShellDoc.Proofs.PageNames
import ShellDoc.Proofs.RepeatedWrites
import ShellDoc.Proofs.ScriptRun

/-!
# Runs that are repeated

A run that is repeated starts from the tree that it left.  The output directory is there now, and so
are the pages and the table of contents; the scripts are what they were, as long as no output went
to the place of one.

The pages may stand beside the scripts.  Then the second run meets them when it looks for scripts,
but takes none of them for one if no extension of scripts is an extension of outputs
(`DirectoryRun.discover_again`).  From there on the run does what it did before: without force it
stops at its first file (`DirectoryRun.refused_again`), and with force it writes the same files,
also where it writes a file more than once (`DirectoryRun.forced_again`).

There is one thing in the way: a page that stands beside the scripts has a path below their
directory, and if this path is too long the second run fails when it asks about it
(`repeated_run_of_long_path`).
-/

namespace ShellDoc.Run

open Files (Location Node Tree)

variable {s : Settings} {wd : Location} {t t' : Tree} {output : Path}

theorem isName_of_mem_children_makeOutput (ht : t.WellNamed) {place : Location} {name : Text}
    (h : name ∈ (makeOutput wd t output).tree.children place) : Files.IsName name := by
  obtain ⟨made, hchildren, hmade⟩ := (makeOutput_grown wd t output).children place
  rw [hchildren] at h
  rcases List.mem_append.mp h with h | h
  · exact Files.isName_of_mem_children ht h
  · obtain ⟨-, front, -, hfor⟩ := hmade name h
    obtain ⟨parent, last, hlast, hisName⟩ := hfor.isName
    obtain ⟨-, hlast⟩ := List.append_inj' hlast rfl
    cases hlast
    exact hisName

/-! ## The pages once more -/

namespace PagesWritten

variable {ws : List PageRecord}

theorem tree_eq (h : PagesWritten s wd output t ws t') :
    t' = t.putAll (ws.map fun w => (w.page, w.node s)) := by
  induction h with
  | nil t => rfl
  | cons first rest ih => exact ih

/-- Pages that can be written one after the other are what a run over their scripts writes. -/
theorem documentAll (h : PagesWritten s wd output t ws t') (report : Report) :
    let o := Run.documentAll s wd output report t (ws.map PageRecord.source)
    o.result = .ok (reportPages s output report ws) ∧ o.tree = t' := by
  induction h generalizing report with
  | nil t => exact ⟨rfl, rfl⟩
  | @cons t t' w ws first rest ih =>
      obtain ⟨hcount, htree⟩ := first.documentFile
      obtain ⟨hresult, hrest⟩ := ih (report.add (w.file s output) (w.writer s).count)
      intro o
      rw [show o = _ from documentAll_cons first.checked report _,
        Outcome.result_andThen_of_ok hcount, Outcome.tree_andThen_of_ok hcount, htree]
      exact ⟨hresult, hrest⟩

/-- With force, pages whose scripts and places are found can be written, as long as no page goes to
the place of a script. -/
theorem of_located (hforce : s.force = true)
    (hscript : ∀ w ∈ ws, Files.locateFile t wd w.source.toText = .ok w.script)
    (hpage : ∀ w ∈ ws, Files.locateOutput t wd (w.file s output) = .ok w.page)
    (hcontent : ∀ w ∈ ws,
      Script.Content.ofBytes (Files.contentAt t w.script) = ⟨w.lines, none⟩)
    (hapart : ∀ w ∈ ws, ∀ v ∈ ws, v.script ≠ w.page) :
    PagesWritten s wd output t ws (t.putAll (ws.map fun w => (w.page, w.node s))) := by
  induction ws generalizing t with
  | nil => exact .nil t
  | cons w ws ih =>
      have hw : w ∈ w :: ws := List.mem_cons_self
      have first : PageWritten s wd output t w := by
        refine ⟨checkOverwrite_eq_ok_iff.mpr
          ⟨_, Files.pathExists_of_locateOutput (hpage w hw), .inr hforce⟩,
          hscript w hw, hpage w hw, ?_⟩
        rw [Files.contentAt_put_of_ne (hapart w hw w hw)]
        exact hcontent w hw
      have hkept := first.kept
      have hfile : ∀ place, t.isDirectory place = false →
          (t.put w.page (w.node s)).isDirectory place = false := by
        intro place hplace
        by_cases h : place = w.page
        · rw [h, Tree.isDirectory, first.get?_page]
          rfl
        · rwa [Tree.isDirectory, Tree.get?_put_of_ne t h]
      refine .cons first (ih ?_ ?_ ?_ ?_)
      · intro v hv
        obtain ⟨hplace, hv'⟩ := Files.locateFile_eq_ok_iff.mp
          (hscript v (List.mem_cons_of_mem w hv))
        exact Files.locateFile_eq_ok_iff.mpr
          ⟨Files.locate_of_kept hkept hplace, hfile _ hv'⟩
      · intro v hv
        have hplace := hpage v (List.mem_cons_of_mem w hv)
        obtain ⟨-, -, -, -, -, hv'⟩ := Files.locateOutput_eq_ok hplace
        exact Files.locateOutput_of_kept hplace hkept (hfile _ hv')
      · intro v hv
        rw [Files.contentAt_put_of_ne (hapart w hw v (List.mem_cons_of_mem w hv))]
        exact hcontent v (List.mem_cons_of_mem w hv)
      · intro v hv u hu
        exact hapart v (List.mem_cons_of_mem w hv) u (List.mem_cons_of_mem w hu)

end PagesWritten

/-- Pages and table of contents that can be written are what a run over their scripts writes. -/
theorem pagesAndContents_of_written {ws : List PageRecord} {paged : Tree} {report : Report}
    {place : Option Location} (hpages : PagesWritten s wd (Path.ofText s.output) t ws paged)
    (hcontents : ContentsWritten s wd (Path.ofText s.output) paged report place t')
    (hfiles : report.files = ws.map (PageRecord.file s (Path.ofText s.output)))
    (hcounts : report.blockCounts = (reportPages s (Path.ofText s.output) {} ws).blockCounts) :
    let o := pagesAndContents s wd t (ws.map PageRecord.source)
    o.result = .ok report ∧ o.tree = t' := by
  intro o
  obtain ⟨hresult, htree⟩ := hpages.documentAll {}
  have ho : o = (documentAll s wd (Path.ofText s.output) {} t (ws.map PageRecord.source)).andThen
      fun report t => if s.tableOfContents then writeContents s wd (Path.ofText s.output) report t
        else ⟨.ok report, t, []⟩ := rfl
  have hpagesFiles : (reportPages s (Path.ofText s.output) {} ws).files = report.files := by
    rw [files_reportPages, hfiles]
    rfl
  have hreport : ∀ contents, contents = report.contents →
      { reportPages s (Path.ofText s.output) {} ws with contents := contents } = report := by
    intro contents hsame
    obtain ⟨files, contents', counts⟩ := report
    rw [Report.mk.injEq]
    exact ⟨hpagesFiles, hsame, hcounts.symm⟩
  rw [ho, Outcome.result_andThen_of_ok hresult, Outcome.tree_andThen_of_ok hresult, htree,
    hcontents.tree]
  cases place with
  | none =>
      have hasked : ¬ s.tableOfContents = true := by
        rw [← hcontents.asked]
        exact Bool.false_ne_true
      have hnone : (reportPages s (Path.ofText s.output) {} ws).contents = report.contents :=
        contents_reportPages.trans hcontents.contents.symm
      rw [if_neg hasked]
      exact ⟨congrArg _ (hreport _ hnone), rfl⟩
  | some p =>
      have hasked : s.tableOfContents = true := hcontents.asked.symm
      obtain ⟨hcheck, hplace⟩ := hcontents.written p rfl
      obtain ⟨hwrite, hput⟩ := writeContents_of_located
        (reportPages s (Path.ofText s.output) {} ws) hcheck hplace
      rw [if_pos hasked, hwrite, hput]
      refine ⟨congrArg _ (hreport _ hcontents.contents.symm), ?_⟩
      rw [hpagesFiles]
      rfl

/-! ## What a run has put into the tree -/

namespace DirectoryRun

variable {directory : Path} {report : Report}

/-- The files of a run with their places, in the order in which they were written. -/
def puts (r : DirectoryRun s wd t directory report t') : List (Location × Node) :=
  r.records.map (fun w => (w.page, w.node s)) ++ r.contentsPlace.toList.map fun p =>
    (p, .file (Text.encode
      (Text.ofLines (contentsLines s wd (Path.ofText s.output) report.files))))

theorem map_fst_puts (r : DirectoryRun s wd t directory report t') :
    r.puts.map Prod.fst = r.places := by
  rw [puts, List.map_append, List.map_map, List.map_map, places]
  exact congrArg _ (List.map_id _)

theorem tree_eq (r : DirectoryRun s wd t directory report t') :
    t' = (makeOutput wd t (Path.ofText s.output)).tree.putAll r.puts := by
  rw [puts, Tree.putAll_append, ← r.pages.tree_eq]
  refine r.contents.tree.trans ?_
  cases r.contentsPlace <;> rfl

theorem ne_nil_of_mem_places (r : DirectoryRun s wd t directory report t') {place : Location}
    (hplace : place ∈ r.places) : place ≠ [] := by
  rcases List.mem_append.mp hplace with hpage | hcontents
  · obtain ⟨w, hw, rfl⟩ := List.mem_map.mp hpage
    exact Files.ne_nil_of_locateOutput (r.pages.locateOutput hw)
  · exact Files.ne_nil_of_locateOutput (r.contents.written place (Option.mem_toList.mp hcontents)).2

theorem exists_content_of_mem_places (r : DirectoryRun s wd t directory report t')
    {place : Location} (hplace : place ∈ r.places) :
    ∃ content, t'.get? place = some (.file content) := by
  rw [← r.map_fst_puts] at hplace
  have hroot := r.ne_nil_of_mem_places (r.map_fst_puts ▸ hplace)
  obtain ⟨node, hmem, hnode⟩ := Tree.exists_get?_putAll hroot hplace
  have hfile : ∃ content, node = .file content := by
    rw [puts, List.map_append, List.map_map, List.map_map] at hmem
    rcases List.mem_append.mp hmem with hmem | hmem
    · obtain ⟨w, -, rfl⟩ := List.mem_map.mp hmem
      exact ⟨_, rfl⟩
    · obtain ⟨p, -, rfl⟩ := List.mem_map.mp hmem
      exact ⟨_, rfl⟩
  obtain ⟨content, rfl⟩ := hfile
  refine ⟨content, ?_⟩
  rw [r.tree_eq]
  exact hnode _

/-- In the listing of a directory the files of a run come behind the entries that were there. -/
theorem children (r : DirectoryRun s wd t directory report t') (place : Location) :
    ∃ new, t'.children place =
        (makeOutput wd t (Path.ofText s.output)).tree.children place ++ new ∧
      ∀ name ∈ new, place ++ [name] ∈ r.places := by
  obtain ⟨new, hnew, hplaces⟩ := Tree.children_putAll
    (makeOutput wd t (Path.ofText s.output)).tree r.puts place
  rw [← r.tree_eq] at hnew
  rw [r.map_fst_puts] at hplaces
  exact ⟨new, hnew, hplaces⟩

/-- Every file of a run is one of its outputs, with the extension of pages or of the table of
contents. -/
theorem exists_output_of_mem_places (r : DirectoryRun s wd t directory report t')
    (hsources : ∀ w ∈ r.records, Files.IsName w.source.name)
    (hmade : (makeOutput wd t (Path.ofText s.output)).result = .ok ()) {place : Location}
    (hplace : place ∈ r.places) :
    ∃ out ∈ directoryOutputs s (r.records.map PageRecord.source), ∃ u,
      out.Normal ∧ Files.locateOutput u wd out.toText = .ok place ∧
        Files.locate t' wd out.toText = .ok place ∧
        (out.suffix = pageSuffix ∨ out.suffix = (Path.ofText s.contentsFile).suffix) := by
  have houtput := Path.normal_ofText s.output
  rcases List.mem_append.mp hplace with hpage | hcontents
  · obtain ⟨w, hw, rfl⟩ := List.mem_map.mp hpage
    have hchild : pagePath s (Path.ofText s.output) w.source =
        (Path.ofText s.output).child (outputName s w.source) := pagePath_eq_child (hsources w hw)
    refine ⟨pagePath s (Path.ofText s.output) w.source, ?_, _, ?_, r.pages.locateOutput hw,
      r.locate_file hw, .inl ?_⟩
    · exact List.mem_append_left _ (List.mem_map_of_mem (List.mem_map_of_mem hw))
    · rw [hchild]
      exact houtput.child (isName_outputName (hsources w hw))
    · rw [Path.suffix, hchild, Path.name_child, splitName_outputName (hsources w hw)]
  · have hmem := Option.mem_toList.mp hcontents
    obtain ⟨-, hwritten⟩ := r.contents.written place hmem
    refine ⟨contentsPath s (Path.ofText s.output), ?_, _, ?_, hwritten,
      r.contents.locate hmem, .inr ?_⟩
    · have hasked : s.tableOfContents = true := by
        rw [← r.contents.asked, Option.mem_def.mp hmem]
        rfl
      rw [directoryOutputs, hasked]
      exact List.mem_append_right _ (List.mem_singleton_self _)
    · exact houtput.parent.join (Path.normal_ofText s.contentsFile)
    · have hdirectory := Files.pathIsDirectory_of_kept r.pages.kept
        (pathIsDirectory_of_makeOutput hmade)
      rw [Path.suffix, name_contentsPath houtput hdirectory hwritten]
      rfl

/-! ## The run once more -/

section Again

variable (r : DirectoryRun s wd t directory report t') {again : Tree} (hagain : t'.Relisted again)

include r hagain

theorem kept_again :
    (makeOutput wd t (Path.ofText s.output)).tree.Kept (fun _ => True) again :=
  (r.kept.trans (hagain.kept (W := fun _ => False))).mono fun _ _ _ _ => trivial

theorem exists_content_again {place : Location} (hplace : place ∈ r.places) :
    ∃ content, again.get? place = some (.file content) := by
  rw [hagain.get?]
  exact r.exists_content_of_mem_places hplace

theorem isDirectory_again {place : Location} (hplace : place ∈ r.places) :
    again.isDirectory place = false := by
  obtain ⟨content, hcontent⟩ := r.exists_content_again hagain hplace
  simp [Tree.isDirectory, hcontent]

/-- The scripts are found again, if no output is taken for a script. -/
theorem discover_again (ht : t.WellNamed) (hnormal : directory.Normal)
    (hmade : (makeOutput wd t (Path.ofText s.output)).result = .ok ())
    (hsources : ∀ w ∈ r.records, Files.IsName w.source.name)
    (hextensions : ∀ extension ∈ s.sourceExtensions, Text.lower extension ≠ pageSuffix ∧
      Text.lower extension ≠ Text.lower (Path.ofText s.contentsFile).suffix)
    (hkeys : ((r.records.map PageRecord.source).map Path.sortKey).Nodup)
    (hshort : ∀ out ∈ directoryOutputs s (r.records.map PageRecord.source), ∀ place name,
      Files.locate t' wd directory.toText = .ok place →
      Files.locate t' wd out.toText = .ok (place ++ [name]) →
      (Text.encode (directory.child name).toText).length < Files.pathLimit) :
    Run.discover s wd again directory = .ok (r.records.map PageRecord.source) := by
  obtain ⟨place, hplace, hthere, -, -⟩ := discover_eq_ok_iff.mp r.found
  have hkept := r.kept_again hagain
  have hplace' := Files.locate_of_kept hkept hplace
  obtain ⟨new, hchildren, hnew⟩ := r.children place
  refine discover_of_entries hnormal hkept hplace ?_ new ?_ ?_ hkeys r.found
  · exact fun name hname => isName_of_mem_children_makeOutput ht hname
  · rw [← hchildren]
    exact hagain.children place
  · intro name hname
    obtain ⟨out, hout, u, hnormalOut, hwritten, hlocate, hsuffix⟩ :=
      r.exists_output_of_mem_places hsources hmade (hnew name hname)
    obtain ⟨rfl, hisName, hfits, hnull⟩ := Files.name_of_locateOutput hnormalOut hwritten
    obtain ⟨content, hcontent⟩ := r.exists_content_again hagain (hnew _ hname)
    have hchecked := Files.checkPath_child hnormal hisName (Files.locate_eq_ok_iff.mp hplace).1
      hnull
    rw [if_neg (Nat.not_le.mpr (hshort out hout place _ (Files.locate_of_kept r.kept hplace)
      hlocate))] at hchecked
    refine ⟨true, Files.pathIsFile_child hnormal hisName hplace' (hkept.directory hthere) hcontent
      hfits hchecked, ?_⟩
    have hnone : Text.lower (directory.child out.name).suffix ∉
        s.sourceExtensions.map Text.lower := by
      rw [Path.suffix, Path.name_child, ← Path.suffix, List.mem_map]
      rintro ⟨extension, hextension, hlower⟩
      obtain ⟨hpage, hcontents⟩ := hextensions extension hextension
      rcases hsuffix with hsuffix | hsuffix
      · rw [hsuffix] at hlower
        exact hpage hlower
      · rw [hsuffix] at hlower
        exact hcontents hlower
    simpa [hasExtension] using hnone

/-- Without force the first file of the run is in the way. -/
theorem refused_again (hforce : s.force = false)
    (hfiles : report.files ++ report.contents.toList ≠ []) :
    let o := pagesAndContents s wd again (r.records.map PageRecord.source)
    ∃ file, (report.files ++ report.contents.toList).head? = some file ∧
      o.result = .error (.outputExists file) ∧ o.tree = again := by
  have hrefused : ∀ out : Path, ∀ place, Files.locate t' wd out.toText = .ok place →
      checkOverwrite s wd again out = .error (.outputExists out.toText) := by
    intro out place hplace
    have hthere := Files.pathExists_of_locate
      (Files.locate_of_kept (hagain.kept (W := fun _ => False)) hplace)
    exact checkOverwrite_eq_outputExists_iff.mpr ⟨hthere, hforce, rfl⟩
  cases hrecords : r.records with
  | cons w ws =>
      have hw : w ∈ r.records := by
        rw [hrecords]
        exact List.mem_cons_self
      refine ⟨w.file s (Path.ofText s.output), ?_, ?_⟩
      · rw [r.files, hrecords]
        rfl
      · have hcheck := hrefused _ _ (r.locate_file hw)
        rw [pagesAndContents, List.map_cons, documentAll_cons_refused hcheck]
        exact ⟨rfl, rfl⟩
  | nil =>
      rw [r.files, hrecords, r.contents.contents] at hfiles ⊢
      cases hplace : r.contentsPlace with
      | none => simp [hplace] at hfiles
      | some place =>
          refine ⟨(contentsPath s (Path.ofText s.output)).toText, rfl, ?_⟩
          have hasked : s.tableOfContents = true := by
            rw [← r.contents.asked, hplace]
            rfl
          have hcheck := hrefused _ _ (r.contents.locate hplace)
          rw [contentsPath] at hcheck
          simp [pagesAndContents, documentAll, hasked, writeContents, hcheck, Outcome.andThen,
            Outcome.ofResult, contentsPath]

section Forced

variable (hforce : s.force = true) (ht : t.WellNamed) (hnormal : directory.Normal)
  (hfound : Run.discover s wd t directory = .ok (r.records.map PageRecord.source))
  (hapart : ∀ place ∈ r.places, ∀ v ∈ r.records, v.script ≠ place)

include ht hnormal hfound hapart

/-- A script is read as in the first run, since no file of the run stands in its place. -/
theorem script_again {w : PageRecord} (hw : w ∈ r.records) :
    Files.locateFile again wd w.source.toText = .ok w.script ∧
      Files.contentAt again w.script =
        Files.contentAt (makeOutput wd t (Path.ofText s.output)).tree w.script := by
  obtain ⟨bytes, hplace, hbytes⟩ := r.get?_script hfound ht hnormal hw
  have hmade := (kept_made wd t (Path.ofText s.output)).get?_of_not hbytes id
  have hsame : again.get? w.script = some (.file bytes) := by
    rw [hagain.get?, r.get?_of_not_mem fun h => hapart _ h w hw rfl, hmade]
  refine ⟨Files.locateFile_eq_ok_iff.mpr ⟨?_, by simp [Tree.isDirectory, hsame]⟩, ?_⟩
  · exact Files.locate_of_kept ((kept_made wd t _).trans (r.kept_again hagain)) hplace
  · rw [Files.contentAt, Files.contentAt, hsame, hmade]

include hforce

theorem pages_again :
    PagesWritten s wd (Path.ofText s.output) again r.records
      (again.putAll (r.records.map fun w => (w.page, w.node s))) := by
  have hpages : ∀ w ∈ r.records, w.page ∈ r.places := fun w hw =>
    List.mem_append_left _ (List.mem_map_of_mem hw)
  have hapart' : ∀ w ∈ r.records, ∀ v ∈ r.records, v.script ≠ w.page := fun w hw v hv =>
    hapart w.page (hpages w hw) v hv
  have hscript := fun {w : PageRecord} (hw : w ∈ r.records) =>
    r.script_again hagain ht hnormal hfound hapart hw
  apply PagesWritten.of_located hforce
  · exact fun w hw => (hscript hw).1
  · exact fun w hw => Files.locateOutput_of_kept (r.pages.locateOutput hw) (r.kept_again hagain)
      (r.isDirectory_again hagain (hpages w hw))
  · intro w hw
    rw [(hscript hw).2]
    exact r.pages.content hapart' hw
  · exact hapart'

theorem contents_again :
    ContentsWritten s wd (Path.ofText s.output)
      (again.putAll (r.records.map fun w => (w.page, w.node s))) report r.contentsPlace
      (again.putAll r.puts) := by
  have hpages := r.pages_again hagain hforce ht hnormal hfound hapart
  refine ⟨r.contents.asked, r.contents.contents, ?_, ?_⟩
  · intro place hplace
    have hmem : place ∈ r.places := List.mem_append_right _ (Option.mem_toList.mpr hplace)
    have hfile := r.isDirectory_again hagain hmem
    obtain ⟨content, hcontent⟩ := r.exists_content_again hagain hmem
    have hbefore := Files.locateOutput_of_kept (r.contents.written place hplace).2
      (r.contents.kept.trans (hagain.kept (W := fun _ => False))) hfile
    have hlocate := Files.locateOutput_of_kept hbefore hpages.kept
      ((hpages.kept.isDirectory (Option.isSome_of_eq_some hcontent)).trans hfile)
    exact ⟨checkOverwrite_eq_ok_iff.mpr
      ⟨_, Files.pathExists_of_locateOutput hlocate, .inr hforce⟩, hlocate⟩
  · rw [puts, Tree.putAll_append]
    cases r.contentsPlace <;> rfl

/-- With force the run writes the same files once more, and the tree stays what it is. -/
theorem forced_again :
    let o := pagesAndContents s wd again (r.records.map PageRecord.source)
    o.result = .ok report ∧ o.tree = again := by
  have hsame : again.putAll r.puts = again := by
    apply Tree.putAll_eq_self
    · intro p hp
      exact r.ne_nil_of_mem_places (r.map_fst_puts ▸ List.mem_map_of_mem hp)
    · intro p hp
      have hmem : p.1 ∈ r.puts.map Prod.fst := List.mem_map_of_mem hp
      have hroot := r.ne_nil_of_mem_places (r.map_fst_puts ▸ hmem)
      obtain ⟨node, -, hnode⟩ := Tree.exists_get?_putAll hroot hmem
      rw [hagain.get?, hnode, r.tree_eq, hnode]
  obtain ⟨hresult, htree⟩ := pagesAndContents_of_written
    (r.pages_again hagain hforce ht hnormal hfound hapart)
    (r.contents_again hagain hforce ht hnormal hfound hapart) r.files r.counts
  exact ⟨hresult, htree.trans hsame⟩

end Forced

end Again

end DirectoryRun

/-! ## A single script once more -/

/-- The output of a script that was written is resolved to the same path again. -/
theorem resolveOutput_again {W : Location → Prop} {source out : Path} {page : Location}
    (h : resolveOutput s wd t source = .ok out) (hkept : t.Kept W t')
    (hplace : Files.locate t' wd out.toText = .ok page) (hfile : t'.isDirectory page = false) :
    resolveOutput s wd t' source = .ok out := by
  rw [resolveOutput] at h ⊢
  split at h
  · rename_i hempty
    rw [if_pos hempty]
    exact h
  · rename_i hnonempty
    rw [if_neg hnonempty]
    obtain ⟨isDirectory, hdirectory, h⟩ := bind_eq_ok_iff.mp h
    refine bind_eq_ok_iff.mpr ⟨isDirectory, ?_, h⟩
    cases isDirectory with
    | true => exact Files.pathIsDirectory_of_kept hkept hdirectory
    | false =>
        cases h
        rw [Files.pathIsDirectory, hplace, Files.answer, hfile]

/-- What a run on a single script that succeeded has done: it found the script and its output, read
the script to its end and wrote the page. -/
structure ScriptRun (s : Settings) (wd : Location) (t : Tree) (source : Path) where
  out : Path
  script : Location
  page : Location
  writer : Page.Writer
  resolved : resolveOutput s wd t source = .ok out
  located : Files.locateFile t wd source.toText = .ok script
  output : Files.locateOutput t wd out.toText = .ok page
  written : ∃ lines,
    Script.Content.ofBytes (Files.contentAt (t.put page (.file [])) script) = ⟨lines, none⟩ ∧
      writer = Page.document s.dialects s.copyright
        (if s.title.isEmpty then fileTitle s source else s.title) lines

namespace ScriptRun

variable {source : Path}

def report (r : ScriptRun s wd t source) : Report := ({} : Report).add r.out.toText r.writer.count

def tree (r : ScriptRun s wd t source) : Tree := t.put r.page (.file (Text.encode r.writer.text))

theorem get?_page (r : ScriptRun s wd t source) :
    r.tree.get? r.page = some (.file (Text.encode r.writer.text)) :=
  Tree.get?_put_self t (Files.ne_nil_of_locateOutput r.output) _

theorem kept (r : ScriptRun s wd t source) : t.Kept (· = r.page) r.tree := by
  obtain ⟨-, -, -, -, -, hfile⟩ := Files.locateOutput_eq_ok r.output
  exact Tree.Kept.put_file (Files.ne_nil_of_locateOutput r.output) hfile _

theorem locate_page (r : ScriptRun s wd t source) :
    Files.locate r.tree wd r.out.toText = .ok r.page :=
  Files.locate_of_locateOutput r.output r.kept (Option.isSome_of_eq_some r.get?_page)

theorem locate_source (r : ScriptRun s wd t source) :
    Files.locate r.tree wd source.toText = .ok r.script :=
  Files.locate_of_kept r.kept (Files.locateFile_eq_ok_iff.mp r.located).1

end ScriptRun

theorem exists_scriptRun {path : Text} {report : Report}
    (hscript : Files.pathIsDirectory t wd (Path.ofText path).toText ≠ .ok true)
    (h : (generate s wd t path).result = .ok report) :
    ∃ r : ScriptRun s wd t (Path.ofText path), report = r.report ∧
      (generate s wd t path).tree = r.tree := by
  rcases generate_script_cases hscript with ⟨f, hfault, -⟩ | ⟨out, -, hout, -, hresult, htree⟩
  · rw [h] at hfault
    cases hfault
  · rw [h] at hresult
    rcases documentFile_cases s wd t (Path.ofText path) out s.title with
      ⟨f, hfault, -⟩ | ⟨script, page, hlocate, hpage,
        ⟨lines, hcontent, hcount, hput⟩ | ⟨lines, u, -, hfault, -⟩⟩
    · rw [hfault] at hresult
      cases hresult
    · rw [hcount] at hresult
      cases hresult
      exact ⟨⟨out, script, page, _, hout, hlocate, hpage, lines, hcontent, rfl⟩, rfl,
        htree.trans hput⟩
    · rw [hfault] at hresult
      cases hresult

namespace ScriptRun

variable {path : Text} (r : ScriptRun s wd t (Path.ofText path)) {again : Tree}
  (hagain : r.tree.Relisted again)

include hagain

theorem get?_page_again : again.get? r.page = some (.file (Text.encode r.writer.text)) :=
  (hagain.get? r.page).trans r.get?_page

theorem kept_again : t.Kept (fun _ => True) again :=
  (r.kept.trans (hagain.kept (W := fun _ => False))).mono fun _ _ _ _ => trivial

theorem locate_page_again : Files.locate again wd r.out.toText = .ok r.page :=
  Files.locate_of_kept (hagain.kept (W := fun _ => False)) r.locate_page

theorem resolved_again : resolveOutput s wd again (Path.ofText path) = .ok r.out :=
  resolveOutput_again r.resolved (r.kept_again hagain) (r.locate_page_again hagain)
    (by simp [Tree.isDirectory, r.get?_page_again hagain])

theorem located_again :
    Files.locate again wd (Path.ofText path).toText = .ok r.script ∧
      again.isDirectory r.script = false := by
  refine ⟨Files.locate_of_kept (hagain.kept (W := fun _ => False)) r.locate_source, ?_⟩
  by_cases h : r.script = r.page
  · rw [h, Tree.isDirectory, r.get?_page_again hagain]
    rfl
  · rw [Tree.isDirectory, hagain.get?, tree, Tree.get?_put_of_ne t h]
    exact (Files.locateFile_eq_ok_iff.mp r.located).2

/-- Without force the page is in the way. -/
theorem refused_again (hforce : s.force = false) :
    let o := generate s wd again path
    o.result = .error (.outputExists r.out.toText) ∧ o.tree = again := by
  obtain ⟨hplace, hfile⟩ := r.located_again hagain
  have hcheck := checkOverwrite_eq_outputExists_iff.mpr
    ⟨Files.pathExists_of_locate (r.locate_page_again hagain), hforce, rfl⟩
  exact generate_refused hplace hfile (r.resolved_again hagain) hcheck

/-- With force the same page is written once more, if it does not stand in the place of the
script. -/
theorem forced_again (hforce : s.force = true) (hapart : r.script ≠ r.page) :
    let o := generate s wd again path
    o.result = .ok r.report ∧ o.tree = again := by
  intro o
  obtain ⟨hplace, hfile⟩ := r.located_again hagain
  obtain ⟨lines, hcontent, hwriter⟩ := r.written
  have hsame : Files.contentAt (again.put r.page (.file [])) r.script =
      Files.contentAt (t.put r.page (.file [])) r.script := by
    rw [Files.contentAt_put_of_ne hapart, Files.contentAt_put_of_ne hapart, Files.contentAt,
      Files.contentAt, hagain.get?, tree, Tree.get?_put_of_ne t hapart]
  have hpage := Files.locateOutput_of_kept r.output (r.kept_again hagain)
    (by simp [Tree.isDirectory, r.get?_page_again hagain])
  have hcheck := checkOverwrite_eq_ok_iff.mpr
    ⟨_, Files.pathExists_of_locateOutput hpage, .inr hforce⟩
  obtain ⟨hresult, htree⟩ := generate_of_script hplace hfile (r.resolved_again hagain) hcheck
  rw [← hsame] at hcontent
  obtain ⟨hcount, hput⟩ := documentFile_of_located
    (Files.locateFile_eq_ok_iff.mpr ⟨hplace, hfile⟩) hpage hcontent
  rw [← hwriter] at hcount hput
  refine ⟨?_, ?_⟩
  · rw [show o.result = _ from hresult, hcount]
    rfl
  · rw [show o.tree = _ from htree, hput]
    exact Tree.put_of_get? (Files.ne_nil_of_locateOutput r.output) (r.get?_page_again hagain)

end ScriptRun

/-! ## Repeated runs -/

/-- The scripts that a run reads: those that it finds in a directory, or the one that it is
given. -/
def scripts (s : Settings) (wd : Location) (t : Tree) (path : Text) : List Path :=
  let source := Path.ofText path
  match Files.pathIsDirectory t wd source.toText with
  | .ok true =>
      match discover s wd t source with
      | .ok sources => sources
      | .error _ => []
  | _ => [source]

theorem scripts_of_sources {path : Text} {sources : List Path}
    (hdirectory : Files.pathIsDirectory t wd (Path.ofText path).toText = .ok true)
    (hfound : discover s wd t (Path.ofText path) = .ok sources) :
    scripts s wd t path = sources := by
  simp only [scripts, hdirectory, hfound]

theorem scripts_of_script {path : Text}
    (hscript : Files.pathIsDirectory t wd (Path.ofText path).toText ≠ .ok true) :
    scripts s wd t path = [Path.ofText path] := by
  rw [scripts]
  split
  · rename_i hdirectory
    exact absurd hdirectory hscript
  · rfl

/-- The scripts of a run can be told from its outputs and from each other: no output names a script,
none has an extension of scripts, and the scripts have different places in the natural order. -/
structure ScriptsApart (s : Settings) (wd : Location) (t : Tree) (path : Text) : Prop where
  outputs : ∀ out ∈ outputs s wd t path, ∀ source ∈ scripts s wd t path,
    Files.locate (generate s wd t path).tree wd out.toText ≠
      Files.locate (generate s wd t path).tree wd source.toText
  extensions : ∀ extension ∈ s.sourceExtensions, Text.lower extension ≠ pageSuffix ∧
    Text.lower extension ≠ Text.lower (Path.ofText s.contentsFile).suffix
  keys : ((scripts s wd t path).map Path.sortKey).Nodup

theorem scriptsApart_of_sources {path : Text} {sources : List Path}
    (hdirectory : Files.pathIsDirectory t wd (Path.ofText path).toText = .ok true)
    (hmade : discover s wd (makeOutput wd t (Path.ofText s.output)).tree (Path.ofText path) =
      .ok sources)
    (hfound : discover s wd t (Path.ofText path) = .ok sources) :
    ScriptsApart s wd t path ↔
      (∀ out ∈ directoryOutputs s sources, ∀ source ∈ sources,
        Files.locate (generate s wd t path).tree wd out.toText ≠
          Files.locate (generate s wd t path).tree wd source.toText) ∧
      (∀ extension ∈ s.sourceExtensions, Text.lower extension ≠ pageSuffix ∧
        Text.lower extension ≠ Text.lower (Path.ofText s.contentsFile).suffix) ∧
      (sources.map Path.sortKey).Nodup := by
  have houtputs := outputs_of_sources hdirectory hmade
  have hscripts := scripts_of_sources hdirectory hfound
  constructor
  · rintro ⟨houts, hextensions, hkeys⟩
    rw [houtputs, hscripts] at houts
    rw [hscripts] at hkeys
    exact ⟨houts, hextensions, hkeys⟩
  · rintro ⟨houts, hextensions, hkeys⟩
    rw [← houtputs, ← hscripts] at houts
    rw [← hscripts] at hkeys
    exact ⟨houts, hextensions, hkeys⟩

/-- An output that has become an entry of the directory of the scripts can be asked about: its path
below that directory is not too long. -/
def EntriesFit (s : Settings) (wd : Location) (t : Tree) (path : Text) : Prop :=
  ∀ out ∈ outputs s wd t path, ∀ place name,
    Files.locate (generate s wd t path).tree wd (Path.ofText path).toText = .ok place →
    Files.locate (generate s wd t path).tree wd out.toText = .ok (place ++ [name]) →
    (Text.encode ((Path.ofText path).child name).toText).length < Files.pathLimit

/-- A run that succeeded is repeated on the tree that it left, with the entries of directories
listed in whatever order.  Without force it is refused at its first file, if it wrote one, and with
force it succeeds with the same report.  The tree stays what it is in both cases. -/
theorem repeated_run (s : Settings) (wd : Location) (t : Tree) (path : Text) (report : Report)
    (ht : t.WellNamed) (hscripts : ScriptsApart s wd t path) (hentries : EntriesFit s wd t path)
    (hok : (generate s wd t path).result = .ok report) (again : Tree)
    (hagain : (generate s wd t path).tree.Relisted again) :
    let o := generate s wd again path
    (s.force = false → report.files ++ report.contents.toList ≠ [] →
      ∃ file, (report.files ++ report.contents.toList).head? = some file ∧
        o.result = .error (.outputExists file) ∧ o.tree = again) ∧
    (s.force = true → o.result = .ok report ∧ o.tree = again) := by
  intro o
  by_cases hdirectory : Files.pathIsDirectory t wd (Path.ofText path).toText = .ok true
  · obtain ⟨r⟩ := exists_directoryRun hdirectory hok
    have hnormal := Path.normal_ofText path
    have hfound := r.discover ht hnormal hdirectory
    have hmade := makeOutput_of_generate hdirectory hok
    obtain ⟨hapart, hextensions, hkeys⟩ :=
      (scriptsApart_of_sources hdirectory r.found hfound).mp hscripts
    have hnames : ∀ w ∈ r.records, Files.IsName w.source.name := fun w hw =>
      isName_of_discover ht hfound (List.mem_map_of_mem hw)
    rw [EntriesFit, outputs_of_sources hdirectory r.found] at hentries
    have hplaces : ∀ place ∈ r.places, ∀ v ∈ r.records, v.script ≠ place := by
      rintro place hplace v hv rfl
      obtain ⟨out, hout, -, -, -, hlocate, -⟩ := r.exists_output_of_mem_places hnames hmade hplace
      exact hapart out hout v.source (List.mem_map_of_mem hv)
        (hlocate.trans (r.locate_source hv).symm)
    have hagainFound := r.discover_again hagain ht hnormal hmade hnames hextensions hkeys hentries
    have hkept := r.kept_again hagain
    have hdirectory' := Files.pathIsDirectory_of_kept ((DirectoryRun.kept_made wd t _).trans hkept)
      hdirectory
    have hmade' := makeOutput_of_directory
      (Files.pathIsDirectory_of_kept hkept (pathIsDirectory_of_makeOutput hmade))
    obtain ⟨hresult, htree⟩ := generate_of_sources hdirectory' hmade' hagainFound
    rw [show o.result = _ from hresult, show o.tree = _ from htree]
    exact ⟨r.refused_again hagain, fun hforce =>
      r.forced_again hagain hforce ht hnormal hfound hplaces⟩
  · obtain ⟨r, rfl, htree⟩ := exists_scriptRun hdirectory hok
    have hne := hscripts.outputs
    rw [outputs_of_script hdirectory r.resolved, scripts_of_script hdirectory] at hne
    replace hne := hne r.out (List.mem_singleton_self _) _ (List.mem_singleton_self _)
    rw [htree] at hagain hne
    refine ⟨fun hforce _ => ⟨r.out.toText, rfl, r.refused_again hagain hforce⟩, fun hforce =>
      r.forced_again hagain hforce ?_⟩
    intro hsame
    rw [r.locate_page, r.locate_source, hsame] at hne
    exact hne rfl

/-- A forced run on two scripts that share a page, which stands beside them. -/
theorem repeated_run_shared_page :
    let s : Settings := { output := "d", force := true, tableOfContents := true }
    let t : Tree := ⟨[(["d"], .directory),
      (["d", "a.bash"], .file (Text.encode "#/ A #/\nfunction f()\n")),
      (["d", "a.sh"], .file (Text.encode "#/ B #/\nfunction f()\n"))]⟩
    let t' := (generate s [] t "d").tree
    let report : Report :=
      { files := ["d/a.md", "d/a.md"], blockCounts := [("d/a.md", 1)], contents := some "Home.md" }
    t.WellNamed ∧ ScriptsApart s [] t "d" ∧ EntriesFit s [] t "d" ∧
      (generate s [] t "d").result = .ok report ∧ (generate s [] t' "d").result = .ok report ∧
      (generate s [] t' "d").tree = t' := by
  intro s t t' report
  have ht : t.WellNamed := by decide
  have hdirectory : Files.pathIsDirectory t [] (Path.ofText "d").toText = .ok true := rfl
  have hmade : makeOutput [] t (Path.ofText s.output) = ⟨.ok (), t, []⟩ :=
    makeOutput_of_directory rfl
  let names : List Text := ["a.bash", "a.sh"]
  have hfound : discover s [] t (Path.ofText "d") = .ok (names.map (Path.ofText "d").child) := by
    have hplace : Files.locate t [] (Path.ofText "d").toText = .ok ["d"] := rfl
    exact discover_of_inOrder hplace rfl rfl rfl rfl
  obtain ⟨hresult, htree⟩ := generate_of_sources hdirectory hmade hfound
  have hok : (generate s [] t "d").result = .ok report := by
    rw [hresult]
    unfold s t names report
    decide +kernel
  have hmadeFound : discover s [] (makeOutput [] t (Path.ofText s.output)).tree (Path.ofText "d") =
      .ok (names.map (Path.ofText "d").child) := by
    rw [hmade]
    exact hfound
  have houtputs := outputs_of_sources hdirectory hmadeFound
  have hapart : ScriptsApart s [] t "d" := by
    refine (scriptsApart_of_sources hdirectory hmadeFound hfound).mpr ⟨?_, by decide +kernel, ?_⟩
    · rw [htree]
      unfold s t names
      decide +kernel
    · unfold names
      decide +kernel
  have hfit : EntriesFit s [] t "d" := by
    have hplace : Files.locate (generate s [] t "d").tree [] (Path.ofText "d").toText =
        .ok ["d"] := by
      rw [htree]
      unfold s t names
      decide +kernel
    have hfiles : ∀ out ∈ outputs s [] t "d",
        Files.locate (generate s [] t "d").tree [] out.toText = .ok ["d", "a.md"] ∨
          Files.locate (generate s [] t "d").tree [] out.toText = .ok ["Home.md"] := by
      rw [houtputs, htree]
      unfold s t names
      decide +kernel
    intro out hout place name hdirectoryPlace hlocate
    rw [hplace] at hdirectoryPlace
    cases hdirectoryPlace
    rcases hfiles out hout with hfile | hfile
    · rw [hlocate] at hfile
      cases hfile
      decide
    · rw [hlocate] at hfile
      cases hfile
  obtain ⟨hagain, hsame⟩ := (repeated_run s [] t "d" report ht hapart hfit hok t'
    (Tree.Relisted.refl t')).2 rfl
  exact ⟨ht, hapart, hfit, hok, hagain, hsame⟩

/-! ## Paths that are too long for a second run -/

/-- No scripts are found in a directory that has an entry with a path that is too long. -/
theorem discover_ne_ok_of_long_entry {s : Settings} {wd place : Location} {t : Tree}
    {directory : Path} {name : Text} (hdirectory : directory.Normal) (hname : Files.IsName name)
    (hnull : Files.nullChar ∉ name) (hplace : Files.locate t wd directory.toText = .ok place)
    (hentry : name ∈ t.children place)
    (hlong : Files.pathLimit ≤ (Text.encode (directory.child name).toText).length)
    (sources : List Path) : discover s wd t directory ≠ .ok sources := by
  intro h
  obtain ⟨found, hfound, -, hasked, -⟩ := discover_eq_ok_iff.mp h
  rw [hplace] at hfound
  cases hfound
  obtain ⟨isFile, hisFile⟩ := hasked name hentry
  have hchecked := Files.checkPath_child hdirectory hname (Files.locate_eq_ok_iff.mp hplace).1 hnull
  rw [if_pos hlong] at hchecked
  rw [Files.pathIsFile, Files.locate, hchecked] at hisFile
  cases hisFile

namespace LongWay

/-- A name that is nearly as long as names can be. -/
def folder : Text := List.replicate 191 'w'

/-- A way to the directory of that name that leaves it and enters it again, so often that behind it
there is room for a name of three characters and no more. -/
def directory : Path := ⟨[], (List.replicate 20 [folder, Files.upward]).flatten ++ [folder]⟩

def script : Text := "a.s"

def page : Text := "a.md"

def settings : Settings := { output := folder, sourceExtensions := [".s"] }

def tree : Tree := ⟨[([folder], .directory), ([folder, script], .file [])]⟩

/-- The one page of the first run. -/
def record : PageRecord := ⟨directory.child script, [folder, script], [folder, page], []⟩

/-- What is computed from the names and the tree. -/
structure Computed : Prop where
  normal : directory.Normal
  checkPath : Files.checkPath directory.toText = .ok ()
  length : (Text.encode directory.toText).length = 4091
  wellNamed : tree.WellNamed
  walk : Files.walk tree [] directory.parts = .ok [folder]
  hasFolder : tree.get? [folder] = some .directory
  listing : tree.children [folder] = [script]
  hasScript : tree.get? ([folder] ++ [script]) = some (.file [])
  extension : hasExtension settings (directory.child script) = true
  order : inOrder ([script].map directory.child) = true
  output : Files.pathIsDirectory tree [] (Path.ofText settings.output).toText = .ok true
  overwrite : checkOverwrite settings [] tree
    (pagePath settings (Path.ofText settings.output) record.source) = .ok ()
  pagePlace : Files.locateOutput tree [] (record.file settings (Path.ofText settings.output)) =
    .ok record.page
  entry : page ∈ (tree.put record.page (record.node settings)).children [folder]

theorem length_directory : (Text.encode directory.toText).length = 4091 := by decide +kernel

theorem computed : Computed where
  normal := ⟨.inl rfl, by decide +kernel⟩
  checkPath := by
    rw [Files.checkPath, if_neg (by decide +kernel), if_neg (by decide +kernel),
      if_neg (by rw [length_directory]; decide)]
  length := length_directory
  wellNamed := by decide +kernel
  walk := by decide +kernel
  hasFolder := by decide +kernel
  listing := by decide +kernel
  hasScript := by decide +kernel
  extension := by decide +kernel
  order := by decide +kernel
  output := by decide +kernel
  overwrite := by decide +kernel
  pagePlace := by decide +kernel
  entry := by decide +kernel

theorem script_ne_page : record.script ≠ record.page := by
  intro h
  exact absurd (List.cons.inj (List.cons.inj h).2).1 (by decide)

namespace Computed

-- The rest follows from these facts, without another look at so long a path.
variable (c : Computed)

include c

/-- The length of the path of an entry. -/
theorem length_child (name : Text) :
    (Text.encode (directory.child name).toText).length = 4092 + (Text.encode name).length := by
  have hslash : Text.encode ['/'] = ['/'.toNat.toUInt8] := rfl
  rw [Path.toText_child (by simp [directory]), Text.encode_append, Text.encode_append,
    List.length_append, List.length_append, c.length, hslash, List.length_singleton]
  omega

theorem locate_directory : Files.locate tree [] directory.toText = .ok [folder] := by
  have hnames : Files.namesOf directory.toText = directory.parts :=
    Path.namesOf_toText c.normal (by simp [directory])
  have hslash : Files.endsWithSlash directory.toText = false :=
    Path.endsWithSlash_toText_child (p := ⟨[], _⟩) (by decide : Files.IsName folder)
  refine Files.locate_eq_ok_iff.mpr ⟨c.checkPath, ?_⟩
  rw [Path.origin_toText c.normal, hnames, hslash, if_neg Bool.false_ne_true,
    List.append_nil]
  exact c.walk

theorem pathIsFile_script :
    Files.pathIsFile tree [] (directory.child script).toText = .ok true := by
  have hshort : ¬ Files.pathLimit ≤ (Text.encode (directory.child script).toText).length := by
    rw [c.length_child]
    decide
  have hchecked := Files.checkPath_child c.normal (by decide : Files.IsName script)
    c.checkPath (by decide)
  rw [if_neg hshort] at hchecked
  exact Files.pathIsFile_child c.normal (by decide) c.locate_directory c.hasFolder
    c.hasScript (by decide) hchecked

theorem ofText_directory : Path.ofText directory.toText = directory :=
  Path.ofText_toText c.normal (by simp [directory])

theorem pathIsDirectory_directory :
    Files.pathIsDirectory tree [] (Path.ofText directory.toText).toText = .ok true := by
  rw [c.ofText_directory]
  exact Files.pathIsDirectory_eq_true_iff.mpr ⟨_, c.locate_directory, c.hasFolder⟩

theorem makeOutput_tree :
    makeOutput [] tree (Path.ofText settings.output) = ⟨.ok (), tree, []⟩ :=
  makeOutput_of_directory c.output

theorem discover_tree :
    discover settings [] tree (Path.ofText directory.toText) = .ok [directory.child script] := by
  rw [c.ofText_directory]
  have hscript : isScript settings [] tree (directory.child script) = true :=
    isScript_iff.mpr ⟨c.pathIsFile_script, c.extension⟩
  refine discover_of_inOrder c.locate_directory c.hasFolder c.listing ?_ c.order
  rw [List.map_singleton, List.all_cons, hscript, List.all_nil]
  rfl

theorem pageWritten : PageWritten settings [] (Path.ofText settings.output) tree record := by
  have hscript : tree.get? record.script = some (.file []) := c.hasScript
  have hfile : tree.isDirectory record.script = false := by simp [Tree.isDirectory, hscript]
  obtain ⟨content, hlocate, -⟩ := Files.locate_child_of_pathIsFile c.normal (by decide)
    c.locate_directory c.hasFolder c.pathIsFile_script
  refine ⟨c.overwrite, Files.locateFile_eq_ok_iff.mpr ⟨hlocate, hfile⟩,
    c.pagePlace, ?_⟩
  rw [Files.contentAt_put_of_ne script_ne_page, Files.contentAt, hscript]
  rfl

theorem pagesWritten : PagesWritten settings [] (Path.ofText settings.output) tree [record]
    (tree.put record.page (record.node settings)) := .cons c.pageWritten (.nil _)

/-- The first run succeeds with the page of the script. -/
theorem generate_tree :
    let o := generate settings [] tree directory.toText
    o.result = .ok (reportPages settings (Path.ofText settings.output) {} [record]) ∧
      o.tree = tree.put record.page (record.node settings) := by
  obtain ⟨hresult, htree⟩ :=
    generate_of_sources c.pathIsDirectory_directory c.makeOutput_tree c.discover_tree
  have hcontents : ContentsWritten settings [] (Path.ofText settings.output)
      (tree.put record.page (record.node settings))
      (reportPages settings (Path.ofText settings.output) {} [record]) none
      (tree.put record.page (record.node settings)) := ⟨rfl, rfl, by simp, rfl⟩
  obtain ⟨hreport, hput⟩ := pagesAndContents_of_written c.pagesWritten hcontents
    files_reportPages rfl
  exact ⟨hresult.trans hreport, htree.trans hput⟩

theorem scriptsApart : ScriptsApart settings [] tree directory.toText := by
  have hmade : discover settings [] (makeOutput [] tree (Path.ofText settings.output)).tree
      (Path.ofText directory.toText) = .ok [record.source] := by
    rw [c.makeOutput_tree]
    exact c.discover_tree
  have houtputs : directoryOutputs settings [record.source] =
      [pagePath settings (Path.ofText settings.output) record.source] := rfl
  refine (scriptsApart_of_sources c.pathIsDirectory_directory hmade c.discover_tree).mpr
    ⟨?_, by decide, List.nodup_singleton _⟩
  intro out hout source hsource
  rw [houtputs, List.mem_singleton] at hout
  rw [List.mem_singleton] at hsource
  obtain ⟨hscript, hpage⟩ := c.pagesWritten.locate (List.mem_singleton_self record)
  rw [hout, hsource, c.generate_tree.2, hscript]
  intro h
  exact script_ne_page (Except.ok.inj (h.symm.trans hpage))

end Computed

end LongWay

/-- Without room for its pages in the listing of its directory a run fails when it is repeated, and
not because its page is in the way. -/
theorem repeated_run_of_long_path :
    let s := LongWay.settings
    let t := LongWay.tree
    let path := LongWay.directory.toText
    t.WellNamed ∧ ScriptsApart s [] t path ∧ s.force = false ∧
      (∃ report, (generate s [] t path).result = .ok report ∧ report.files ≠ []) ∧
      ∀ file, (generate s [] (generate s [] t path).tree path).result ≠
        .error (.outputExists file) := by
  intro s t path
  have c := LongWay.computed
  obtain ⟨hok, htree⟩ := c.generate_tree
  have hkept := c.pageWritten.kept
  refine ⟨c.wellNamed, c.scriptsApart, rfl, ⟨_, hok, ?_⟩, ?_⟩
  · simp [files_reportPages]
  rw [show (generate s [] t path).tree = _ from htree]
  intro file hrefused
  rw [generate_of_directory
    (Files.pathIsDirectory_of_kept hkept c.pathIsDirectory_directory)] at hrefused
  obtain ⟨-, sources, hfound, -⟩ := generateDirectory_refused hrefused
  rw [makeOutput_of_directory (Files.pathIsDirectory_of_kept hkept c.output),
    c.ofText_directory] at hfound
  -- The page is an entry now, and its path is too long.
  have hlong : Files.pathLimit ≤
      (Text.encode (LongWay.directory.child LongWay.page).toText).length := by
    rw [c.length_child]
    decide
  exact discover_ne_ok_of_long_entry c.normal (by decide) (by decide)
    (Files.locate_of_kept hkept c.locate_directory) c.entry hlong sources hfound

end ShellDoc.Run
