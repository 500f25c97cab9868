import ShellDoc.Proofs.Discovery
import ShellDoc.Proofs.Keyed
import ShellDoc.Proofs.Overwriting
import Mathlib.Algebra.GroupWithZero.Nat
import Mathlib.Data.List.Nodup

/-!
# The pages of a directory

A run on a directory writes one page after the other into a tree that it also reads from.  What it
did is told by a list of records, one for each script (`PagesWritten`): where the script and its
page stand, and which lines were read.  The tree behind the run is then the tree before it with the
pages put in one after the other.

If the pages go to different places, none of them the place of a script, and the table of contents
to yet another one, then every page stays and is that of the script as it was before the run
(`DirectoryRun.completePages`).  Without force a page only goes to a free place, so a run that
succeeds has kept all these places apart.  With force it may fail to: of two scripts with the same
page only the last one is left.
-/

namespace ShellDoc

namespace Run

open Files (Location Node Tree)

/-! ## The report of some pages -/

/-- One page of a run: the script, the places of script and page, and the lines that were read. -/
structure PageRecord where
  source : Path
  script : Location
  page : Location
  lines : List Text

namespace PageRecord

def writer (s : Settings) (w : PageRecord) : Page.Writer :=
  Page.document s.dialects s.copyright (fileTitle s w.source) w.lines

/-- What stands at the place of the page. -/
def node (s : Settings) (w : PageRecord) : Node := .file (Text.encode (w.writer s).text)

/-- The path of the page, as the report has it. -/
def file (s : Settings) (output : Path) (w : PageRecord) : Text :=
  (pagePath s output w.source).toText

end PageRecord

/-- The report with the pages of some records. -/
def reportPages (s : Settings) (output : Path) (report : Report) (ws : List PageRecord) : Report :=
  ws.foldl (fun r w => r.add (w.file s output) (w.writer s).count) report

section Report

variable {s : Settings} {output : Path} {report : Report} {ws : List PageRecord}

theorem files_reportPages :
    (reportPages s output report ws).files = report.files ++ ws.map (PageRecord.file s output) := by
  induction ws generalizing report with
  | nil => simp [reportPages]
  | cons w ws ih =>
      rw [reportPages, List.foldl_cons, ← reportPages, ih]
      simp [Report.add]

theorem contents_reportPages : (reportPages s output report ws).contents = report.contents := by
  induction ws generalizing report with
  | nil => rfl
  | cons w ws ih =>
      rw [reportPages, List.foldl_cons, ← reportPages, ih]
      rfl

/-- Pages with different paths are counted one by one. -/
theorem blockCounts_reportPages
    (hnodup : (report.blockCounts.names ++ ws.map (PageRecord.file s output)).Nodup) :
    (reportPages s output report ws).blockCounts =
      report.blockCounts ++ ws.map fun w => (w.file s output, (w.writer s).count) := by
  induction ws generalizing report with
  | nil => simp [reportPages]
  | cons w ws ih =>
      have hnew : w.file s output ∉ report.blockCounts.names := by
        intro hmem
        rw [List.nodup_append'] at hnodup
        exact hnodup.2.2 hmem (List.mem_map_of_mem List.mem_cons_self)
      have hput : (report.add (w.file s output) (w.writer s).count).blockCounts =
          report.blockCounts ++ [(w.file s output, (w.writer s).count)] :=
        Fields.put_of_not_mem hnew
      rw [reportPages, List.foldl_cons, ← reportPages, ih, hput, List.append_assoc]
      · rfl
      · rw [hput, Fields.names, List.map_append, List.append_assoc]
        exact hnodup

end Report

/-! ## The pages one after the other -/

/-- The work on one script succeeded: the output was allowed, script and page were found at their
places, and the script could be read to its end with the output already emptied. -/
structure PageWritten (s : Settings) (wd : Location) (output : Path) (t : Tree) (w : PageRecord) :
    Prop where
  checked : checkOverwrite s wd t (pagePath s output w.source) = .ok ()
  script : Files.locateFile t wd w.source.toText = .ok w.script
  page : Files.locateOutput t wd (w.file s output) = .ok w.page
  content : Script.Content.ofBytes (Files.contentAt (t.put w.page (.file [])) w.script) =
    ⟨w.lines, none⟩

/-- The pages of the records were written one after the other. -/
inductive PagesWritten (s : Settings) (wd : Location) (output : Path) :
    Tree → List PageRecord → Tree → Prop
  | nil (t : Tree) : PagesWritten s wd output t [] t
  | cons {t t' : Tree} {w : PageRecord} {ws : List PageRecord}
      (first : PageWritten s wd output t w)
      (rest : PagesWritten s wd output (t.put w.page (w.node s)) ws t') :
      PagesWritten s wd output t (w :: ws) t'

section Pages

variable {s : Settings} {wd : Location} {output : Path} {t t' : Tree} {ws : List PageRecord}

theorem documentFile_eq_ok {source : Path} {count : Nat}
    (hcheck : checkOverwrite s wd t (pagePath s output source) = .ok ())
    (h : (documentFile s wd t source (pagePath s output source) []).result = .ok count) :
    ∃ w : PageRecord, w.source = source ∧ PageWritten s wd output t w ∧
      count = (w.writer s).count ∧
      (documentFile s wd t source (pagePath s output source) []).tree =
        t.put w.page (w.node s) := by
  rcases documentFile_cases s wd t source (pagePath s output source) [] with
    ⟨f, hresult, -⟩ | ⟨script, page, hscript, hpage,
      ⟨lines, hcontent, hresult, htree⟩ | ⟨lines, u, -, hresult, -⟩⟩
  · rw [h] at hresult
    cases hresult
  · rw [h] at hresult
    cases hresult
    exact ⟨⟨source, script, page, lines⟩, rfl, ⟨hcheck, hscript, hpage, hcontent⟩, rfl, htree⟩
  · rw [h] at hresult
    cases hresult

/-- A run over scripts that succeeds has written the page of each of them. -/
theorem documentAll_eq_ok {sources : List Path} {report report' : Report}
    (h : (documentAll s wd output report t sources).result = .ok report') :
    ∃ ws : List PageRecord, ws.map PageRecord.source = sources ∧
      report' = reportPages s output report ws ∧
      PagesWritten s wd output t ws (documentAll s wd output report t sources).tree := by
  induction sources generalizing report t with
  | nil =>
      cases h
      exact ⟨[], rfl, rfl, .nil t⟩
  | cons source sources ih =>
      rw [documentAll] at h ⊢
      obtain ⟨_, hcheck, h⟩ := Outcome.result_andThen_eq_ok_iff.mp h
      obtain ⟨count, hcount, h⟩ := Outcome.result_andThen_eq_ok_iff.mp h
      rw [Outcome.tree_andThen_of_ok hcheck, Outcome.tree_andThen_of_ok hcount]
      obtain ⟨w, hw, hwritten, rfl, htree⟩ := documentFile_eq_ok hcheck hcount
      obtain ⟨ws, hws, hreport, hrest⟩ := ih h
      refine ⟨w :: ws, ?_, ?_, ?_⟩
      · rw [List.map_cons, hw, hws]
      · rw [hreport, ← hw]
        rfl
      · refine .cons hwritten ?_
        rw [← htree]
        exact hrest

namespace PageWritten

variable {w : PageRecord}

theorem kept (h : PageWritten s wd output t w) :
    t.Kept (· = w.page) (t.put w.page (w.node s)) := by
  obtain ⟨-, -, -, -, -, hfile⟩ := Files.locateOutput_eq_ok h.page
  exact Tree.Kept.put_file (Files.ne_nil_of_locateOutput h.page) hfile _

theorem get?_page (h : PageWritten s wd output t w) :
    (t.put w.page (w.node s)).get? w.page = some (w.node s) :=
  Tree.get?_put_self t (Files.ne_nil_of_locateOutput h.page) _

end PageWritten

namespace PagesWritten

theorem kept (h : PagesWritten s wd output t ws t') :
    t.Kept (· ∈ ws.map PageRecord.page) t' := by
  induction h with
  | nil t => exact Tree.Kept.refl _ t
  | cons first rest ih =>
      refine (first.kept.trans ih).mono ?_
      rintro place _ _ (rfl | hplace)
      · exact List.mem_cons_self
      · exact List.mem_cons_of_mem _ hplace

/-- Places without a page are as they were. -/
theorem get?_of_not_mem (h : PagesWritten s wd output t ws t') {place : Location}
    (hplace : place ∉ ws.map PageRecord.page) : t'.get? place = t.get? place := by
  induction h with
  | nil t => rfl
  | cons first rest ih =>
      rw [List.map_cons, List.mem_cons, not_or] at hplace
      rw [ih hplace.2, Tree.get?_put_of_ne _ hplace.1]

/-- Pages at different places are all there at the end. -/
theorem get?_page (h : PagesWritten s wd output t ws t')
    (hnodup : (ws.map PageRecord.page).Nodup) {w : PageRecord} (hw : w ∈ ws) :
    t'.get? w.page = some (w.node s) := by
  induction h with
  | nil t => cases hw
  | cons first rest ih =>
      rw [List.map_cons, List.nodup_cons] at hnodup
      rcases List.mem_cons.mp hw with rfl | hw
      · rw [rest.get?_of_not_mem hnodup.1, first.get?_page]
      · exact ih hnodup.2 hw

/-- At the end the paths name scripts and pages where they were found. -/
theorem locate (h : PagesWritten s wd output t ws t') {w : PageRecord} (hw : w ∈ ws) :
    Files.locate t' wd w.source.toText = .ok w.script ∧
      Files.locate t' wd (w.file s output) = .ok w.page := by
  induction h with
  | nil t => cases hw
  | cons first rest ih =>
      rcases List.mem_cons.mp hw with rfl | hw
      · have hkept := first.kept.trans rest.kept
        refine ⟨Files.locate_of_kept hkept (Files.locateFile_eq_ok_iff.mp first.script).1,
          Files.locate_of_locateOutput first.page hkept ?_⟩
        exact rest.kept.isSome (Option.isSome_of_eq_some first.get?_page)
      · exact ih hw

/-- If no page goes to the place of a script, the scripts are read as they were before the run. -/
theorem content (h : PagesWritten s wd output t ws t')
    (hapart : ∀ w ∈ ws, ∀ v ∈ ws, v.script ≠ w.page) {v : PageRecord} (hv : v ∈ ws) :
    Script.Content.ofBytes (Files.contentAt t v.script) = ⟨v.lines, none⟩ := by
  induction h with
  | nil t => cases hv
  | @cons t t' w ws first rest ih =>
      rcases List.mem_cons.mp hv with rfl | hv
      -- A script is read when its own page has already been emptied.
      · rw [← first.content,
          Files.contentAt_put_of_ne (hapart v List.mem_cons_self v List.mem_cons_self)]
      · have hfirst := hapart w List.mem_cons_self v (List.mem_cons_of_mem w hv)
        rw [← ih (fun w hw v hv => hapart w (List.mem_cons_of_mem _ hw) v
          (List.mem_cons_of_mem _ hv)) hv, Files.contentAt_put_of_ne hfirst]

/-- Without force every page goes to a place that is free. -/
theorem free_of_not_force (h : PagesWritten s wd output t ws t') (hforce : s.force = false) :
    (ws.map PageRecord.page).Nodup ∧ ∀ w ∈ ws, t.get? w.page = none := by
  induction h with
  | nil t => exact ⟨List.nodup_nil, fun w hw => by cases hw⟩
  | @cons t t' w ws first rest ih =>
      have hfree : t.get? w.page = none :=
        (get?_eq_none_of_checkOverwrite first.checked first.page).resolve_right (by simp [hforce])
      obtain ⟨hnodup, hrest⟩ := ih
      -- The pages behind this one went to places that were free with it already there.
      have hother : ∀ v ∈ ws, v.page ≠ w.page := by
        intro v hv heq
        have hv' := hrest v hv
        rw [heq, first.get?_page] at hv'
        cases hv'
      refine ⟨?_, ?_⟩
      · rw [List.map_cons, List.nodup_cons]
        refine ⟨?_, hnodup⟩
        intro hmem
        obtain ⟨v, hv, heq⟩ := List.mem_map.mp hmem
        exact hother v hv heq
      · intro v hv
        rcases List.mem_cons.mp hv with rfl | hv
        · exact hfree
        · rw [← hrest v hv, Tree.get?_put_of_ne t (hother v hv)]

section Found

variable {made : Tree} {directory : Path} {sources : List Path}

/-- A script that was found before the pages were written is the file that was read for its page. -/
theorem get?_script (h : PagesWritten s wd output made ws t')
    (hkept : t.Kept (fun _ => False) made) (ht : t.WellNamed) (hnormal : directory.Normal)
    (hfound : discover s wd t directory = .ok sources)
    (hsources : ws.map PageRecord.source ⊆ sources) {w : PageRecord} (hw : w ∈ ws) :
    ∃ bytes, Files.locate t wd w.source.toText = .ok w.script ∧
      t.get? w.script = some (.file bytes) := by
  obtain ⟨place, bytes, hplace, hbytes⟩ :=
    locate_of_discover ht hnormal hfound (hsources (List.mem_map_of_mem hw))
  have hscript := Files.locate_of_kept (hkept.trans h.kept) hplace
  rw [(h.locate hw).1] at hscript
  cases hscript
  exact ⟨bytes, hplace, hbytes⟩

/-- Without force a page never goes to the place of a script, which was there before. -/
theorem apart_of_not_force (h : PagesWritten s wd output made ws t') (hforce : s.force = false)
    (hkept : t.Kept (fun _ => False) made) (ht : t.WellNamed) (hnormal : directory.Normal)
    (hfound : discover s wd t directory = .ok sources)
    (hsources : ws.map PageRecord.source ⊆ sources) :
    ∀ w ∈ ws, ∀ v ∈ ws, v.script ≠ w.page := by
  intro w hw v hv heq
  obtain ⟨bytes, -, hbytes⟩ := h.get?_script hkept ht hnormal hfound hsources hv
  have hthere := hkept.get?_of_not hbytes id
  rw [heq, (h.free_of_not_force hforce).2 w hw] at hthere
  cases hthere

/-- The record of a page has the lines of the script as it was before the run. -/
theorem lines_eq (h : PagesWritten s wd output made ws t')
    (hkept : t.Kept (fun _ => False) made) (ht : t.WellNamed) (hnormal : directory.Normal)
    (hfound : discover s wd t directory = .ok sources)
    (hsources : ws.map PageRecord.source ⊆ sources)
    (hapart : ∀ w ∈ ws, ∀ v ∈ ws, v.script ≠ w.page) {w : PageRecord} (hw : w ∈ ws) :
    ∃ bytes, Files.readFile t wd w.source.toText = .ok bytes ∧
      Script.Content.ofBytes bytes = ⟨w.lines, none⟩ := by
  obtain ⟨bytes, hplace, hbytes⟩ := h.get?_script hkept ht hnormal hfound hsources hw
  have hmade := hkept.get?_of_not hbytes id
  refine ⟨bytes, Files.readFile_of_locate hplace hbytes, ?_⟩
  rw [← h.content hapart hw, Files.contentAt, hmade]

end Found

end PagesWritten

end Pages

/-! ## The table of contents behind the pages -/

/-- The table of contents was written to a place, or none was asked for. -/
structure ContentsWritten (s : Settings) (wd : Location) (output : Path) (t : Tree)
    (report : Report) (place : Option Location) (t' : Tree) : Prop where
  asked : place.isSome = s.tableOfContents
  contents : report.contents = place.map fun _ => (contentsPath s output).toText
  written : ∀ p ∈ place, checkOverwrite s wd t (contentsPath s output) = .ok () ∧
    Files.locateOutput t wd (contentsPath s output).toText = .ok p
  tree : t' = place.elim t fun p =>
    t.put p (.file (Text.encode (Text.ofLines (contentsLines s wd output report.files))))

namespace ContentsWritten

variable {s : Settings} {wd : Location} {output : Path} {t t' : Tree} {report : Report}
  {place : Option Location}

theorem kept (h : ContentsWritten s wd output t report place t') :
    t.Kept (· ∈ place) t' := by
  rw [h.tree]
  cases place with
  | none => exact Tree.Kept.refl _ t
  | some p =>
      obtain ⟨-, hp⟩ := h.written p rfl
      obtain ⟨-, -, -, -, -, hfile⟩ := Files.locateOutput_eq_ok hp
      refine (Tree.Kept.put_file (Files.ne_nil_of_locateOutput hp) hfile _).mono ?_
      rintro _ _ _ rfl
      rfl

theorem get?_of_not_mem (h : ContentsWritten s wd output t report place t') {other : Location}
    (hother : other ∉ place) : t'.get? other = t.get? other := by
  rw [h.tree]
  cases place with
  | none => rfl
  | some p =>
      have hne : other ≠ p := by
        rintro rfl
        exact hother rfl
      exact Tree.get?_put_of_ne t hne _

theorem get?_place (h : ContentsWritten s wd output t report place t') {p : Location}
    (hp : p ∈ place) :
    t'.get? p =
      some (.file (Text.encode (Text.ofLines (contentsLines s wd output report.files)))) := by
  obtain ⟨-, hlocate⟩ := h.written p hp
  cases hp
  rw [h.tree]
  exact Tree.get?_put_self t (Files.ne_nil_of_locateOutput hlocate) _

theorem locate (h : ContentsWritten s wd output t report place t') {p : Location}
    (hp : p ∈ place) : Files.locate t' wd (contentsPath s output).toText = .ok p :=
  Files.locate_of_locateOutput (h.written p hp).2 h.kept
    (Option.isSome_of_eq_some (h.get?_place hp))

/-- Without force the table of contents goes to a place that is free. -/
theorem free_of_not_force (h : ContentsWritten s wd output t report place t')
    (hforce : s.force = false) {p : Location} (hp : p ∈ place) : t.get? p = none :=
  (get?_eq_none_of_checkOverwrite (h.written p hp).1 (h.written p hp).2).resolve_right
    (by simp [hforce])

end ContentsWritten

/-- The scripts that a run finds, with the output directory made, are those that are in the tree
before it. -/
theorem discover_of_makeOutput {s : Settings} {wd : Location} {t : Tree} {directory output : Path}
    {sources : List Path} (ht : t.WellNamed) (hnormal : directory.Normal)
    (hdirectory : Files.pathIsDirectory t wd directory.toText = .ok true)
    (hfound : discover s wd (makeOutput wd t output).tree directory = .ok sources) :
    discover s wd t directory = .ok sources := by
  obtain ⟨place, hplace, hthere⟩ := Files.pathIsDirectory_eq_true_iff.mp hdirectory
  refine discover_of_grown ht hnormal (makeOutput_grown wd t _) ?_ hplace hthere hfound
  rintro made ⟨front, -, hmade⟩
  exact hmade.isName

/-- What a run on a directory that succeeded has done: it found the scripts, wrote the pages of
the records and then, if asked to, the table of contents. -/
structure DirectoryRun (s : Settings) (wd : Location) (t : Tree) (directory : Path)
    (report : Report) (t' : Tree) where
  records : List PageRecord
  contentsPlace : Option Location
  /-- The tree behind the last page. -/
  paged : Tree
  found : discover s wd (makeOutput wd t (Path.ofText s.output)).tree directory =
    .ok (records.map PageRecord.source)
  files : report.files = records.map (PageRecord.file s (Path.ofText s.output))
  counts : report.blockCounts = (reportPages s (Path.ofText s.output) {} records).blockCounts
  pages : PagesWritten s wd (Path.ofText s.output) (makeOutput wd t (Path.ofText s.output)).tree
    records paged
  contents : ContentsWritten s wd (Path.ofText s.output) paged report contentsPlace t'

theorem exists_directoryRun {s : Settings} {wd : Location} {t : Tree} {path : Text}
    {report : Report}
    (hdirectory : Files.pathIsDirectory t wd (Path.ofText path).toText = .ok true)
    (h : (generate s wd t path).result = .ok report) :
    Nonempty (DirectoryRun s wd t (Path.ofText path) report (generate s wd t path).tree) := by
  rw [generate_of_directory hdirectory] at h ⊢
  rcases generateDirectory_cases s wd t (Path.ofText path) with
    ⟨f, hresult, -⟩ | ⟨sources, hsources, hresult, htree⟩
  · rw [h] at hresult
    cases hresult
  · rw [h] at hresult
    rw [htree]
    have hwritten := hresult.symm
    rw [pagesAndContents] at hwritten ⊢
    obtain ⟨report₀, hreport₀, hcontents⟩ := Outcome.result_andThen_eq_ok_iff.mp hwritten
    obtain ⟨ws, rfl, rfl, hpages⟩ := documentAll_eq_ok hreport₀
    rw [Outcome.tree_andThen_of_ok hreport₀]
    by_cases htoc : s.tableOfContents = true
    · rw [if_pos htoc] at hcontents ⊢
      rcases writeContents_cases s wd (Path.ofText s.output)
        (reportPages s (Path.ofText s.output) {} ws) _ with
        ⟨f, hfault, -⟩ | ⟨place, hcheck, hplace, hwrite, hput⟩
      · rw [hcontents] at hfault
        cases hfault
      · rw [hcontents] at hwrite
        cases hwrite
        refine ⟨ws, some place, _, hsources, files_reportPages, rfl, hpages, htoc.symm, rfl, ?_,
          hput⟩
        intro p hp
        cases hp
        exact ⟨hcheck, hplace⟩
    · rw [if_neg htoc] at hcontents ⊢
      cases hcontents
      refine ⟨ws, none, _, hsources, files_reportPages, rfl, hpages, by simpa using htoc,
        contents_reportPages, ?_, rfl⟩
      intro p hp
      cases hp

/-! ## Complete pages -/

/-- The lines of a script, as far as it can be read. -/
def scriptLines (wd : Location) (t : Tree) (source : Path) : List Text :=
  match Files.readFile t wd source.toText with
  | .ok bytes => (Script.Content.ofBytes bytes).lines
  | .error _ => []

/-- The page that a script has in a tree. -/
def scriptPage (s : Settings) (wd : Location) (t : Tree) (source : Path) : Page.Writer :=
  Page.document s.dialects s.copyright (fileTitle s source) (scriptLines wd t source)

theorem PageRecord.writer_eq_scriptPage {s : Settings} {wd : Location} {t : Tree} {w : PageRecord}
    (h : ∃ bytes, Files.readFile t wd w.source.toText = .ok bytes ∧
      Script.Content.ofBytes bytes = ⟨w.lines, none⟩) :
    w.writer s = scriptPage s wd t w.source := by
  obtain ⟨bytes, hbytes, hcontent⟩ := h
  simp only [scriptPage, scriptLines, hbytes, hcontent]
  rfl

/-- Every script of a run has its page: the report names a page of its own for each script, in their
order and with the number of its sections, and that file holds the page of the script as it was in
the tree before the run. -/
structure CompletePages (s : Settings) (wd : Location) (t : Tree) (sources : List Path)
    (t' : Tree) (report : Report) : Prop where
  files : report.files =
    sources.map fun source => (pagePath s (Path.ofText s.output) source).toText
  distinct : report.files.Nodup
  readable : ∀ source ∈ sources, ∃ bytes, Files.readFile t wd source.toText = .ok bytes ∧
    (Script.Content.ofBytes bytes).fault = none
  pages : ∀ source ∈ sources,
    Files.readFile t' wd (pagePath s (Path.ofText s.output) source).toText =
      .ok (Text.encode (scriptPage s wd t source).text)
  counts : report.blockCounts = sources.map fun source =>
    ((pagePath s (Path.ofText s.output) source).toText, (scriptPage s wd t source).count)
  total : report.totalBlocks = (sources.map fun source => (scriptPage s wd t source).count).sum

namespace DirectoryRun

variable {s : Settings} {wd : Location} {t t' : Tree} {directory : Path} {report : Report}

theorem kept (r : DirectoryRun s wd t directory report t') :
    (makeOutput wd t (Path.ofText s.output)).tree.Kept
      (fun place => place ∈ r.records.map PageRecord.page ∨ place ∈ r.contentsPlace) t' :=
  r.pages.kept.trans r.contents.kept

theorem kept_made (wd : Location) (t : Tree) (output : Path) :
    t.Kept (fun _ => False) (makeOutput wd t output).tree :=
  (makeOutput_grown wd t output).kept

theorem locate_file (r : DirectoryRun s wd t directory report t') {w : PageRecord}
    (hw : w ∈ r.records) :
    Files.locate t' wd (w.file s (Path.ofText s.output)) = .ok w.page :=
  Files.locate_of_kept r.contents.kept (r.pages.locate hw).2

theorem locate_source (r : DirectoryRun s wd t directory report t') {w : PageRecord}
    (hw : w ∈ r.records) : Files.locate t' wd w.source.toText = .ok w.script :=
  Files.locate_of_kept r.contents.kept (r.pages.locate hw).1

theorem discover (r : DirectoryRun s wd t directory report t') (ht : t.WellNamed)
    (hnormal : directory.Normal)
    (hdirectory : Files.pathIsDirectory t wd directory.toText = .ok true) :
    Run.discover s wd t directory = .ok (r.records.map PageRecord.source) :=
  discover_of_makeOutput ht hnormal hdirectory r.found

section Found

variable (r : DirectoryRun s wd t directory report t')
  (hfound : Run.discover s wd t directory = .ok (r.records.map PageRecord.source))
  (ht : t.WellNamed) (hnormal : directory.Normal)

include hfound ht hnormal

theorem get?_script {w : PageRecord} (hw : w ∈ r.records) :
    ∃ bytes, Files.locate t wd w.source.toText = .ok w.script ∧
      t.get? w.script = some (.file bytes) :=
  r.pages.get?_script (kept_made wd t _) ht hnormal hfound (List.Subset.refl _) hw

theorem lines_eq (hapart : ∀ w ∈ r.records, ∀ v ∈ r.records, v.script ≠ w.page) {w : PageRecord}
    (hw : w ∈ r.records) :
    ∃ bytes, Files.readFile t wd w.source.toText = .ok bytes ∧
      Script.Content.ofBytes bytes = ⟨w.lines, none⟩ :=
  r.pages.lines_eq (kept_made wd t _) ht hnormal hfound (List.Subset.refl _) hapart hw

end Found

/-- The places of the files that the run has written. -/
def places (r : DirectoryRun s wd t directory report t') : List Location :=
  r.records.map PageRecord.page ++ r.contentsPlace.toList

/-- The paths in the report name the places of the files. -/
theorem map_locate (r : DirectoryRun s wd t directory report t') :
    (report.files ++ report.contents.toList).map (Files.locate t' wd) = r.places.map .ok := by
  rw [places, List.map_append, List.map_append, r.files, List.map_map, List.map_map]
  congr 1
  · exact List.map_congr_left fun w hw => r.locate_file hw
  · rw [r.contents.contents]
    cases hplace : r.contentsPlace with
    | none => rfl
    | some place => simp [r.contents.locate hplace]

theorem exists_file_of_mem_places (r : DirectoryRun s wd t directory report t') {place : Location}
    (hplace : place ∈ r.places) :
    ∃ file ∈ report.files ++ report.contents.toList, Files.locate t' wd file = .ok place := by
  have hnamed : .ok place ∈ (report.files ++ report.contents.toList).map (Files.locate t' wd) := by
    rw [r.map_locate]
    exact List.mem_map_of_mem hplace
  exact List.mem_map.mp hnamed

theorem nodup_map_locate_iff (r : DirectoryRun s wd t directory report t') :
    ((report.files ++ report.contents.toList).map (Files.locate t' wd)).Nodup ↔
      r.places.Nodup := by
  rw [r.map_locate]
  exact List.nodup_map_iff fun _ _ => Except.ok.inj

/-- Pages that are kept apart from each other, from the table of contents and from the scripts are
complete. -/
theorem completePages (r : DirectoryRun s wd t directory report t')
    (hfound : Run.discover s wd t directory = .ok (r.records.map PageRecord.source))
    (ht : t.WellNamed) (hnormal : directory.Normal) (hnodup : r.places.Nodup)
    (hapart : ∀ w ∈ r.records, ∀ v ∈ r.records, v.script ≠ w.page) :
    CompletePages s wd t (r.records.map PageRecord.source) t' report := by
  have hread : ∀ w ∈ r.records, ∃ bytes, Files.readFile t wd w.source.toText = .ok bytes ∧
      Script.Content.ofBytes bytes = ⟨w.lines, none⟩ :=
    fun w hw => r.lines_eq hfound ht hnormal hapart hw
  have hwriter : ∀ w ∈ r.records, w.writer s = scriptPage s wd t w.source :=
    fun w hw => PageRecord.writer_eq_scriptPage (hread w hw)
  have hdistinct : report.files.Nodup :=
    (List.nodup_append'.mp (List.Nodup.of_map _ (r.nodup_map_locate_iff.mpr hnodup))).1
  have hpage : ∀ w ∈ r.records, t'.get? w.page = some (w.node s) := by
    intro w hw
    obtain ⟨hpages, -, hcontents⟩ := List.nodup_append'.mp hnodup
    rw [r.contents.get?_of_not_mem, r.pages.get?_page hpages hw]
    intro hmem
    exact hcontents (List.mem_map_of_mem hw) (Option.mem_toList.mpr hmem)
  have hcounts : report.blockCounts = (r.records.map PageRecord.source).map fun source =>
      ((pagePath s (Path.ofText s.output) source).toText, (scriptPage s wd t source).count) := by
    rw [r.counts, blockCounts_reportPages (by rw [← r.files]; exact hdistinct), List.map_map]
    refine List.map_congr_left fun w hw => ?_
    rw [hwriter w hw]
    rfl
  refine ⟨?_, hdistinct, ?_, ?_, hcounts, ?_⟩
  · rw [r.files, List.map_map]
    rfl
  · rw [List.forall_mem_map]
    intro w hw
    obtain ⟨bytes, hbytes, hcontent⟩ := hread w hw
    exact ⟨bytes, hbytes, by rw [hcontent]⟩
  · rw [List.forall_mem_map]
    intro w hw
    rw [← hwriter w hw]
    exact Files.readFile_of_locate (r.locate_file hw) (hpage w hw)
  · rw [Report.totalBlocks, hcounts, List.map_map]
    rfl

/-- Without force all files of a run go to different places, which were free when the output
directory had been made. -/
theorem free_of_not_force (r : DirectoryRun s wd t directory report t') (hforce : s.force = false) :
    r.places.Nodup ∧
      ∀ place ∈ r.places, (makeOutput wd t (Path.ofText s.output)).tree.get? place = none := by
  obtain ⟨hnodup, hfree⟩ := r.pages.free_of_not_force hforce
  have hcontents : ∀ place ∈ r.contentsPlace, place ∉ r.records.map PageRecord.page := by
    intro place hplace hmem
    obtain ⟨w, hw, rfl⟩ := List.mem_map.mp hmem
    have hthere := r.contents.free_of_not_force hforce hplace
    rw [r.pages.get?_page hnodup hw] at hthere
    cases hthere
  constructor
  · refine List.nodup_append'.mpr ⟨hnodup, ?_, ?_⟩
    · cases r.contentsPlace <;> simp
    · intro place hpage hplace
      exact hcontents place (Option.mem_toList.mp hplace) hpage
  · intro place hplace
    rcases List.mem_append.mp hplace with hpage | hplace
    · obtain ⟨w, hw, rfl⟩ := List.mem_map.mp hpage
      exact hfree w hw
    · have hmem := Option.mem_toList.mp hplace
      rw [← r.pages.get?_of_not_mem (hcontents place hmem)]
      exact r.contents.free_of_not_force hforce hmem

/-- Places other than those of the files are as they were when the output directory had been
made. -/
theorem get?_of_not_mem (r : DirectoryRun s wd t directory report t') {place : Location}
    (hplace : place ∉ r.places) :
    t'.get? place = (makeOutput wd t (Path.ofText s.output)).tree.get? place := by
  rw [places, List.mem_append, not_or] at hplace
  rw [r.contents.get?_of_not_mem fun h => hplace.2 (Option.mem_toList.mpr h),
    r.pages.get?_of_not_mem hplace.1]

end DirectoryRun

/-! ## Runs with and without force -/

/-- A run without force on a directory that succeeds: every script has its page, the files of the
run are all different, the table of contents, if there is one, lists the pages in their order, and
nothing else differs from before but the directories that lead to the output. -/
theorem unforced_directory_run (s : Settings) (wd : Location) (t : Tree) (path : Text)
    (report : Report) (hforce : s.force = false) (ht : t.WellNamed)
    (hdirectory : Files.pathIsDirectory t wd (Path.ofText path).toText = .ok true)
    (hok : (generate s wd t path).result = .ok report) :
    let t' := (generate s wd t path).tree
    let output := Path.ofText s.output
    ∃ sources, discover s wd t (Path.ofText path) = .ok sources ∧
      CompletePages s wd t sources t' report ∧
      ((report.files ++ report.contents.toList).map (Files.locate t' wd)).Nodup ∧
      report.contents =
        (if s.tableOfContents then some (contentsPath s output).toText else none) ∧
      (∀ contents ∈ report.contents, Files.readFile t' wd contents =
        .ok (Text.encode (Text.ofLines (contentsLines s wd output report.files)))) ∧
      ∀ place, (∀ file ∈ report.files ++ report.contents.toList,
          Files.locate t' wd file ≠ .ok place) →
        t'.get? place = t.get? place ∨
          t.get? place = none ∧ t'.get? place = some .directory ∧
            ∃ front, front <+: output.parts ∧
              Files.locate t' wd (Path.toText ⟨output.root, front⟩) = .ok place := by
  intro t' output
  obtain ⟨r⟩ := exists_directoryRun hdirectory hok
  have hnormal := Path.normal_ofText path
  have hfound := r.discover ht hnormal hdirectory
  obtain ⟨hnodup, hfree⟩ := r.free_of_not_force hforce
  -- A script is there before the run, and its place is free for no page.
  have hapart : ∀ w ∈ r.records, ∀ v ∈ r.records, v.script ≠ w.page := by
    intro w hw v hv heq
    obtain ⟨bytes, -, hbytes⟩ := r.get?_script hfound ht hnormal hv
    have hthere := (DirectoryRun.kept_made wd t (Path.ofText s.output)).get?_of_not hbytes id
    rw [heq, hfree w.page (List.mem_append_left _ (List.mem_map_of_mem hw))] at hthere
    cases hthere
  refine ⟨_, hfound, r.completePages hfound ht hnormal hnodup hapart,
    r.nodup_map_locate_iff.mpr hnodup, ?_, ?_, ?_⟩
  · rw [r.contents.contents, ← r.contents.asked]
    cases r.contentsPlace <;> rfl
  · intro contents hcontents
    rw [r.contents.contents] at hcontents
    obtain ⟨place, hplace, rfl⟩ := Option.map_eq_some_iff.mp hcontents
    exact Files.readFile_of_locate (r.contents.locate hplace) (r.contents.get?_place hplace)
  · intro place hother
    have hplace : place ∉ r.places := by
      intro hmem
      obtain ⟨file, hfile, hlocate⟩ := r.exists_file_of_mem_places hmem
      exact hother file hfile hlocate
    have hsame := r.get?_of_not_mem hplace
    rcases (makeOutput_grown wd t (Path.ofText s.output)).get? place with
      hbefore | ⟨hnone, hmade, front, hfront, hnamed⟩
    · exact .inl (hsame.trans hbefore)
    · exact .inr ⟨hnone, hsame.trans hmade, front, hfront,
        Files.locate_of_kept r.kept hnamed.locate⟩

/-- A run on two scripts with a table of contents. -/
theorem unforced_directory_run_two_scripts :
    let s : Settings := { output := "o/p", tableOfContents := true }
    let t : Tree := ⟨[(["d"], .directory),
      (["d", "a.sh"], .file (Text.encode "#/ A #/\nfunction f()\n")), (["d", "b.sh"], .file [])]⟩
    let t' := (generate s [] t "d").tree
    let report : Report :=
      { files := ["o/p/a.md", "o/p/b.md"]
        blockCounts := [("o/p/a.md", 1), ("o/p/b.md", 0)]
        contents := some "o/Home.md" }
    s.force = false ∧ t.WellNamed ∧
      Files.pathIsDirectory t [] (Path.ofText "d").toText = .ok true ∧
      (generate s [] t "d").result = .ok report ∧
      ∃ sources, discover s [] t (Path.ofText "d") = .ok sources ∧
        CompletePages s [] t sources t' report ∧
        Files.readFile t' [] "o/Home.md" =
          .ok (Text.encode (Text.concat ["Table of contents\n=================\n\n",
            "- [a](p/a.md)\n", "- [b](p/b.md)\n"])) := by
  intro s t t' report
  have ht : t.WellNamed := by decide
  have hdirectory : Files.pathIsDirectory t [] (Path.ofText "d").toText = .ok true := rfl
  let names : List Text := ["a.sh", "b.sh"]
  let made : Tree := (t.put ["o"] .directory).put ["o", "p"] .directory
  have hmade : makeOutput [] t (Path.ofText s.output) = ⟨.ok (), made, []⟩ := by
    unfold s made t
    apply makeOutput_of_ensured
    decide +kernel
  have hfound : discover s [] made (Path.ofText "d") =
      .ok (names.map (Path.ofText "d").child) := by
    have hplace : Files.locate made [] (Path.ofText "d").toText = .ok ["d"] := rfl
    exact discover_of_inOrder hplace rfl rfl rfl rfl
  have hok : (generate s [] t "d").result = .ok report := by
    rw [(generate_of_sources hdirectory hmade hfound).1]
    unfold s made t names report
    decide +kernel
  obtain ⟨sources, hsources, hpages, -, -, hcontents, -⟩ :=
    unforced_directory_run s [] t "d" report rfl ht hdirectory hok
  have hlines : Text.ofLines (contentsLines s [] (Path.ofText s.output) report.files) =
      Text.concat ["Table of contents\n=================\n\n", "- [a](p/a.md)\n",
        "- [b](p/b.md)\n"] := by
    unfold s report
    decide +kernel
  refine ⟨rfl, ht, hdirectory, hok, sources, hsources, hpages, ?_⟩
  rw [hcontents "o/Home.md" rfl, hlines]

/-- Whether forced or not, a run on a directory that succeeds reports one page for each script in
their order, and the pages are complete if the files of the run are all different and no page is
written over a script. -/
theorem directory_run_of_distinct_files (s : Settings) (wd : Location) (t : Tree) (path : Text)
    (report : Report) (ht : t.WellNamed)
    (hdirectory : Files.pathIsDirectory t wd (Path.ofText path).toText = .ok true)
    (hok : (generate s wd t path).result = .ok report) :
    let t' := (generate s wd t path).tree
    ∃ sources, discover s wd t (Path.ofText path) = .ok sources ∧
      report.files =
        sources.map (fun source => (pagePath s (Path.ofText s.output) source).toText) ∧
      (((report.files ++ report.contents.toList).map (Files.locate t' wd)).Nodup →
        (∀ source ∈ sources, ∀ file ∈ report.files,
          Files.locate t' wd file ≠ Files.locate t' wd source.toText) →
        CompletePages s wd t sources t' report) := by
  intro t'
  obtain ⟨r⟩ := exists_directoryRun hdirectory hok
  have hnormal := Path.normal_ofText path
  have hfound := r.discover ht hnormal hdirectory
  refine ⟨_, hfound, ?_, ?_⟩
  · rw [r.files, List.map_map]
    rfl
  · intro hnodup hscripts
    refine r.completePages hfound ht hnormal (r.nodup_map_locate_iff.mp hnodup) ?_
    intro w hw v hv heq
    refine hscripts v.source (List.mem_map_of_mem hv) (w.file s (Path.ofText s.output)) ?_ ?_
    · rw [r.files]
      exact List.mem_map_of_mem hw
    · rw [r.locate_file hw, r.locate_source hv, heq]

/-- A forced run that replaces a page from before. -/
theorem directory_run_of_distinct_files_forced :
    let s : Settings := { output := "o", force := true }
    let t : Tree := ⟨[(["d"], .directory),
      (["d", "a.bash"], .file (Text.encode "#/ A #/\nfunction f()\n")),
      (["d", "b.sh"], .file (Text.encode "#/ B #/\nfunction f()\n")), (["o"], .directory),
      (["o", "a.md"], .file (Text.encode "old"))]⟩
    let report : Report :=
      { files := ["o/a.md", "o/b.md"], blockCounts := [("o/a.md", 1), ("o/b.md", 1)] }
    t.WellNamed ∧ Files.pathIsDirectory t [] (Path.ofText "d").toText = .ok true ∧
      (generate s [] t "d").result = .ok report ∧
      ∃ sources, discover s [] t (Path.ofText "d") = .ok sources ∧
        CompletePages s [] t sources (generate s [] t "d").tree report := by
  intro s t report
  have ht : t.WellNamed := by decide
  have hdirectory : Files.pathIsDirectory t [] (Path.ofText "d").toText = .ok true := rfl
  let names : List Text := ["a.bash", "b.sh"]
  have hfound : discover s [] t (Path.ofText "d") = .ok (names.map (Path.ofText "d").child) := by
    have hplace : Files.locate t [] (Path.ofText "d").toText = .ok ["d"] := rfl
    exact discover_of_inOrder hplace rfl rfl rfl rfl
  have houtput : Files.pathIsDirectory t [] (Path.ofText s.output).toText = .ok true := rfl
  obtain ⟨hresult, htree⟩ :=
    generate_of_sources hdirectory (makeOutput_of_directory houtput) hfound
  have hok : (generate s [] t "d").result = .ok report := by
    rw [hresult]
    unfold s t names report
    decide +kernel
  obtain ⟨sources, hsources, -, hpages⟩ :=
    directory_run_of_distinct_files s [] t "d" report ht hdirectory hok
  rw [hfound] at hsources
  cases hsources
  refine ⟨ht, hdirectory, hok, _, hfound, hpages ?_ ?_⟩
  · rw [htree]
    unfold s t names report
    decide +kernel
  · rw [htree]
    unfold s t names report
    decide +kernel

/-- Two scripts with the same page: a forced run reports the page twice, counts it once, and leaves
only the page of the last script. -/
theorem forced_directory_run_loses_page :
    let s : Settings := { output := "o", force := true }
    let t : Tree := ⟨[(["d"], .directory),
      (["d", "a.bash"], .file (Text.encode "#/ A #/\nfunction f()\n")),
      (["d", "a.sh"], .file (Text.encode "#/ B #/\nfunction f()\n")), (["o"], .directory)]⟩
    let sources : List Path := [Path.ofText "d/a.bash", Path.ofText "d/a.sh"]
    let report : Report := { files := ["o/a.md", "o/a.md"], blockCounts := [("o/a.md", 1)] }
    Files.pathIsDirectory t [] (Path.ofText "d").toText = .ok true ∧
      discover s [] t (Path.ofText "d") = .ok sources ∧
      (generate s [] t "d").result = .ok report ∧ ¬ report.files.Nodup ∧
      Files.readFile (generate s [] t "d").tree [] "o/a.md" ≠
        .ok (Text.encode (scriptPage s [] t (Path.ofText "d/a.bash")).text) ∧
      report.totalBlocks ≠ (sources.map fun source => (scriptPage s [] t source).count).sum := by
  intro s t sources report
  have hdirectory : Files.pathIsDirectory t [] (Path.ofText "d").toText = .ok true := rfl
  have hfound : discover s [] t (Path.ofText "d") = .ok sources := by
    let names : List Text := ["a.bash", "a.sh"]
    have hplace : Files.locate t [] (Path.ofText "d").toText = .ok ["d"] := rfl
    exact discover_of_inOrder hplace rfl rfl rfl rfl
  have houtput : Files.pathIsDirectory t [] (Path.ofText s.output).toText = .ok true := rfl
  obtain ⟨hresult, htree⟩ :=
    generate_of_sources hdirectory (makeOutput_of_directory houtput) hfound
  rw [hresult, htree]
  refine ⟨hdirectory, hfound, ?_⟩
  unfold s t sources report
  decide +kernel

end Run

end ShellDoc
