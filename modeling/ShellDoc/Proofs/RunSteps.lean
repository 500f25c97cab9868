import ShellDoc.Proofs.FileAccess
import ShellDoc.Run.Directory

/-!
# The steps of a run

What each step of a run can do, said once: the work on one script (`documentFile_cases`), the table
of contents (`writeContents_cases`), and the run on a directory as a whole
(`generateDirectory_cases`).  In each case the result and the tree that is left are given together,
also when the step fails.
-/

namespace ShellDoc.Run

open Files (Location Node Tree)

namespace Outcome

variable {α β : Type} {o : Outcome α} {next : α → Tree → Outcome β}

theorem andThen_ofAccess_ok (a : α) (t : Tree) :
    (ofAccess (.ok a) t).andThen next = next a t := rfl

theorem result_andThen_of_ok {a : α} (h : o.result = .ok a) :
    (o.andThen next).result = (next a o.tree).result := by
  rw [andThen, h]

theorem tree_andThen_of_ok {a : α} (h : o.result = .ok a) :
    (o.andThen next).tree = (next a o.tree).tree := by
  rw [andThen, h]

theorem tree_andThen_of_error {f : Fault} (h : o.result = .error f) :
    (o.andThen next).tree = o.tree := by
  rw [andThen, h]

theorem result_andThen_eq_ok_iff {b : β} :
    (o.andThen next).result = .ok b ↔
      ∃ a, o.result = .ok a ∧ (next a o.tree).result = .ok b := by
  rw [andThen]
  cases o.result with
  | error f => simp
  | ok a => simp

theorem result_andThen_eq_error_iff {f : Fault} :
    (o.andThen next).result = .error f ↔
      o.result = .error f ∨ ∃ a, o.result = .ok a ∧ (next a o.tree).result = .error f := by
  rw [andThen]
  cases o.result with
  | error f => simp
  | ok a => simp

theorem result_ofAccess_eq_ok_iff {r : Except Files.AccessFault α} {t : Tree} {a : α} :
    (ofAccess r t).result = .ok a ↔ r = .ok a := by
  cases r <;> simp [ofAccess]

theorem exists_of_result_ofAccess_eq_error {r : Except Files.AccessFault α} {t : Tree} {f : Fault}
    (h : (ofAccess r t).result = .error f) : ∃ g, f = .access g := by
  cases r with
  | error g =>
      cases h
      exact ⟨g, rfl⟩
  | ok a => cases h

/-- What holds of the tree that a first step leaves, and of the tree that a second step leaves when
there is one, holds of the tree behind both. -/
theorem tree_andThen {R : Tree → Prop} (hfirst : R o.tree)
    (hnext : ∀ a, o.result = .ok a → R (next a o.tree).tree) : R (o.andThen next).tree := by
  cases h : o.result with
  | error f => rwa [tree_andThen_of_error h]
  | ok a =>
      rw [tree_andThen_of_ok h]
      exact hnext a h

end Outcome

/-! ## Where files go -/

/-- The path of the page of a script in an output directory. -/
def pagePath (s : Settings) (output source : Path) : Path :=
  output.join (Path.ofText (outputName s source))

/-- The path of the table of contents of an output directory. -/
def contentsPath (s : Settings) (output : Path) : Path :=
  output.parent.join (Path.ofText s.contentsFile)

/-- The lines of the table of contents of the pages in a report. -/
def contentsLines (s : Settings) (wd : Location) (output : Path) (files : List Text) : List Text :=
  Page.contents (if s.title.isEmpty then s.contentsHeading else s.title)
    (files.map (contentsEntry s wd output.parent))

/-! ## The steps -/

theorem checkOverwrite_eq_ok_iff {s : Settings} {wd : Location} {t : Tree} {path : Path} :
    checkOverwrite s wd t path = .ok () ↔
      ∃ there, Files.pathExists t wd path.toText = .ok there ∧
        (there = false ∨ s.force = true) := by
  rw [checkOverwrite]
  cases Files.pathExists t wd path.toText with
  | error f => simp
  | ok there => cases there <;> cases hforce : s.force <;> simp

/-- Opening a script and its output fails and changes nothing, or the page is written. -/
theorem openAndWrite_cases (s : Settings) (wd : Location) (t : Tree) (source output : Path)
    (title : Text) :
    (∃ f, (Files.locateFile t wd source.toText = .error f ∨
        Files.locateOutput t wd output.toText = .error f) ∧
      openAndWrite s wd t source output title = ⟨.error (.access f), t, []⟩) ∨
    ∃ script page, Files.locateFile t wd source.toText = .ok script ∧
      Files.locateOutput t wd output.toText = .ok page ∧
      openAndWrite s wd t source output title = writePage s t script page title := by
  rw [openAndWrite]
  cases hscript : Files.locateFile t wd source.toText with
  | error f => exact .inl ⟨f, .inl rfl, rfl⟩
  | ok script =>
      rw [Outcome.andThen_ofAccess_ok]
      cases hpage : Files.locateOutput t wd output.toText with
      | error f => exact .inl ⟨f, .inr rfl, rfl⟩
      | ok page =>
          rw [Outcome.andThen_ofAccess_ok]
          exact .inr ⟨script, page, rfl, rfl, rfl⟩

/-- What the work on one script can do: fail and leave the tree as it is, write the page, or stop
in the middle of it at bytes that are no text. -/
theorem documentFile_cases (s : Settings) (wd : Location) (t : Tree) (source output : Path)
    (title : Text) :
    let o := documentFile s wd t source output title
    let title' := if title.isEmpty then fileTitle s source else title
    (∃ f, o.result = .error f ∧ o.tree = t) ∨
      ∃ script page, Files.locateFile t wd source.toText = .ok script ∧
        Files.locateOutput t wd output.toText = .ok page ∧
        ((∃ lines,
            Script.Content.ofBytes (Files.contentAt (t.put page (.file [])) script) =
              ⟨lines, none⟩ ∧
            o.result = .ok (Page.document s.dialects s.copyright title' lines).count ∧
            o.tree = t.put page
              (.file (Text.encode (Page.document s.dialects s.copyright title' lines).text))) ∨
          ∃ lines u,
            Script.Content.ofBytes (Files.contentAt (t.put page (.file [])) script) =
              ⟨lines, some u⟩ ∧
            o.result = .error (.undecodable u) ∧
            o.tree = t.put page
              (.file (Text.encode (Page.upTo s.dialects title' lines).text))) := by
  intro o title'
  have hresult : o.result = (openAndWrite s wd t source output title').result := rfl
  have htree : o.tree = (openAndWrite s wd t source output title').tree := rfl
  rw [hresult, htree]
  rcases openAndWrite_cases s wd t source output title' with
    ⟨f, -, hfailed⟩ | ⟨script, page, hscript, hpage, hwrite⟩
  · rw [hfailed]
    exact .inl ⟨_, rfl, rfl⟩
  · rw [hwrite, writePage]
    refine .inr ⟨script, page, hscript, hpage, ?_⟩
    obtain ⟨lines, fault⟩ :=
      Script.Content.ofBytes (Files.contentAt (t.put page (.file [])) script)
    cases fault with
    | none => exact .inl ⟨lines, rfl, rfl, Tree.put_put t page _ _⟩
    | some u => exact .inr ⟨lines, u, rfl, rfl, Tree.put_put t page _ _⟩

/-- The work on a script that was found with its output, and that can be read to its end. -/
theorem documentFile_of_located {s : Settings} {wd : Location} {t : Tree} {source output : Path}
    {title : Text} {script page : Location} {lines : List Text}
    (hscript : Files.locateFile t wd source.toText = .ok script)
    (hpage : Files.locateOutput t wd output.toText = .ok page)
    (hcontent : Script.Content.ofBytes (Files.contentAt (t.put page (.file [])) script) =
      ⟨lines, none⟩) :
    let o := documentFile s wd t source output title
    let written := Page.document s.dialects s.copyright
      (if title.isEmpty then fileTitle s source else title) lines
    o.result = .ok written.count ∧ o.tree = t.put page (.file (Text.encode written.text)) := by
  intro o written
  have hopened : openAndWrite s wd t source output
      (if title.isEmpty then fileTitle s source else title) =
      writePage s t script page (if title.isEmpty then fileTitle s source else title) := by
    rw [openAndWrite, hscript, Outcome.andThen_ofAccess_ok, hpage, Outcome.andThen_ofAccess_ok]
  have hresult : o.result = (writePage s t script page
      (if title.isEmpty then fileTitle s source else title)).result := by rw [← hopened]; rfl
  have htree : o.tree = (writePage s t script page
      (if title.isEmpty then fileTitle s source else title)).tree := by rw [← hopened]; rfl
  rw [hresult, htree, writePage, hcontent]
  exact ⟨rfl, Tree.put_put t page _ _⟩

/-- A run over scripts goes on to a script whose output is allowed. -/
theorem documentAll_cons {s : Settings} {wd : Location} {output : Path} {t : Tree} {source : Path}
    (hcheck : checkOverwrite s wd t (pagePath s output source) = .ok ()) (report : Report)
    (sources : List Path) :
    documentAll s wd output report t (source :: sources) =
      (documentFile s wd t source (pagePath s output source) []).andThen fun count t =>
        documentAll s wd output (report.add (pagePath s output source).toText count) t sources := by
  rw [pagePath] at hcheck
  rw [documentAll, hcheck]
  rfl

/-- A run over scripts stops at a script whose output is not allowed. -/
theorem documentAll_cons_refused {s : Settings} {wd : Location} {output : Path} {t : Tree}
    {source : Path} {f : Fault}
    (hcheck : checkOverwrite s wd t (pagePath s output source) = .error f) (report : Report)
    (sources : List Path) :
    documentAll s wd output report t (source :: sources) = ⟨.error f, t, []⟩ := by
  rw [pagePath] at hcheck
  rw [documentAll, hcheck]
  rfl

/-- The table of contents is written when its place is found and allowed. -/
theorem writeContents_of_located {s : Settings} {wd : Location} {output : Path} {t : Tree}
    {place : Location} (report : Report)
    (hcheck : checkOverwrite s wd t (contentsPath s output) = .ok ())
    (hplace : Files.locateOutput t wd (contentsPath s output).toText = .ok place) :
    let o := writeContents s wd output report t
    o.result = .ok { report with contents := some (contentsPath s output).toText } ∧
      o.tree = t.put place
        (.file (Text.encode (Text.ofLines (contentsLines s wd output report.files)))) := by
  intro o
  rw [contentsPath] at hcheck hplace
  simp [o, writeContents, hcheck, Outcome.andThen, Outcome.ofResult, Outcome.ofAccess,
    Files.writeFile, hplace, Except.map, contentsPath, contentsLines]

/-- The table of contents is written as a whole, or not at all. -/
theorem writeContents_cases (s : Settings) (wd : Location) (output : Path) (report : Report)
    (t : Tree) :
    let o := writeContents s wd output report t
    (∃ f, o.result = .error f ∧ o.tree = t) ∨
      ∃ place, checkOverwrite s wd t (contentsPath s output) = .ok () ∧
        Files.locateOutput t wd (contentsPath s output).toText = .ok place ∧
        o.result = .ok { report with contents := some (contentsPath s output).toText } ∧
        o.tree = t.put place
          (.file (Text.encode (Text.ofLines (contentsLines s wd output report.files)))) := by
  intro o
  cases hcheck : checkOverwrite s wd t (contentsPath s output) with
  | error f =>
      refine .inl ⟨f, ?_⟩
      rw [contentsPath] at hcheck
      simp [o, writeContents, hcheck, Outcome.andThen, Outcome.ofResult]
  | ok _ =>
      cases hplace : Files.locateOutput t wd (contentsPath s output).toText with
      | error f =>
          refine .inl ⟨.access f, ?_⟩
          rw [contentsPath] at hcheck hplace
          simp [o, writeContents, hcheck, Outcome.andThen, Outcome.ofResult, Outcome.ofAccess,
            Files.writeFile, hplace, Except.map]
      | ok place => exact .inr ⟨place, rfl, rfl, writeContents_of_located report hcheck hplace⟩

theorem makeOutput_grown (wd : Location) (t : Tree) (output : Path) :
    t.Grown
      (fun place => ∃ front, front <+: output.parts ∧
        Files.MadeFor (makeOutput wd t output).tree wd (Path.toText ⟨output.root, front⟩) place)
      (makeOutput wd t output).tree := by
  have htree : (makeOutput wd t output).tree = (Files.ensureDirectories t wd output).1 := by
    rw [makeOutput]
    split <;> (rename_i h; rw [h])
  rw [htree]
  exact Files.ensureDirectories_grown t wd output

/-- An output directory that is there already is left as it is. -/
theorem makeOutput_of_directory {wd : Location} {t : Tree} {output : Path}
    (h : Files.pathIsDirectory t wd output.toText = .ok true) :
    makeOutput wd t output = ⟨.ok (), t, []⟩ := by
  rw [makeOutput, Files.ensureDirectories_of_directory h]

theorem makeOutput_of_ensured {wd : Location} {t made : Tree} {output : Path}
    (h : Files.ensureDirectories t wd output = (made, .ok ())) :
    makeOutput wd t output = ⟨.ok (), made, []⟩ := by
  rw [makeOutput, h]

/-- The pages of scripts and, if it is asked for, their table of contents. -/
def pagesAndContents (s : Settings) (wd : Location) (t : Tree) (sources : List Path) :
    Outcome Report :=
  let output := Path.ofText s.output
  (documentAll s wd output {} t sources).andThen fun report t =>
    if s.tableOfContents then writeContents s wd output report t else ⟨.ok report, t, []⟩

theorem generateDirectory_eq (s : Settings) (wd : Location) (t : Tree) (directory : Path) :
    generateDirectory s wd t directory =
      (makeOutput wd t (Path.ofText s.output)).andThen fun _ t =>
        (Outcome.ofResult (discover s wd t directory) t).andThen fun sources t =>
          if sources.isEmpty then
            (pagesAndContents s wd t sources).after (.event (.noScripts directory.toText))
          else pagesAndContents s wd t sources := rfl

/-- With the output directory and the scripts at hand, a run writes the pages and the table of
contents. -/
theorem generateDirectory_of_discover {s : Settings} {wd : Location} {t : Tree} {directory : Path}
    {sources : List Path}
    (hmade : (makeOutput wd t (Path.ofText s.output)).result = .ok ())
    (hsources : discover s wd (makeOutput wd t (Path.ofText s.output)).tree directory =
      .ok sources) :
    (generateDirectory s wd t directory).result =
        (pagesAndContents s wd (makeOutput wd t (Path.ofText s.output)).tree sources).result ∧
      (generateDirectory s wd t directory).tree =
        (pagesAndContents s wd (makeOutput wd t (Path.ofText s.output)).tree sources).tree := by
  rw [generateDirectory_eq]
  cases hempty : sources.isEmpty with
  | true => simp [Outcome.andThen, Outcome.ofResult, Outcome.after, hmade, hsources, hempty]
  | false => simp [Outcome.andThen, Outcome.ofResult, hmade, hsources, hempty]

/-- A run on a directory makes the output directory, looks for scripts, and writes the files. -/
theorem generateDirectory_cases (s : Settings) (wd : Location) (t : Tree) (directory : Path) :
    let o := generateDirectory s wd t directory
    let made := makeOutput wd t (Path.ofText s.output)
    (∃ f, o.result = .error f ∧ o.tree = made.tree) ∨
      ∃ sources, discover s wd made.tree directory = .ok sources ∧
        o.result = (pagesAndContents s wd made.tree sources).result ∧
        o.tree = (pagesAndContents s wd made.tree sources).tree := by
  intro o made
  cases hmade : made.result with
  | error f =>
      refine .inl ⟨f, ?_⟩
      rw [show o = _ from generateDirectory_eq s wd t directory]
      simp [Outcome.andThen, made, hmade]
  | ok _ =>
      cases hsources : discover s wd made.tree directory with
      | error f =>
          refine .inl ⟨f, ?_⟩
          rw [show o = _ from generateDirectory_eq s wd t directory]
          simp [Outcome.andThen, Outcome.ofResult, made, hmade, hsources]
      | ok sources => exact .inr ⟨sources, rfl, generateDirectory_of_discover hmade hsources⟩

/-- A run on the path of a directory is the run on that directory. -/
theorem generate_of_directory {s : Settings} {wd : Location} {t : Tree} {path : Text}
    (h : Files.pathIsDirectory t wd (Path.ofText path).toText = .ok true) :
    generate s wd t path = generateDirectory s wd t (Path.ofText path) := by
  simp [generate, Outcome.andThen, Outcome.ofAccess, h]

/-- A run on a directory that succeeds has made the output directory. -/
theorem makeOutput_of_generate {s : Settings} {wd : Location} {t : Tree} {path : Text}
    {report : Report} (h : Files.pathIsDirectory t wd (Path.ofText path).toText = .ok true)
    (hok : (generate s wd t path).result = .ok report) :
    (makeOutput wd t (Path.ofText s.output)).result = .ok () := by
  rw [generate_of_directory h, generateDirectory_eq] at hok
  obtain ⟨_, hmade, -⟩ := Outcome.result_andThen_eq_ok_iff.mp hok
  exact hmade

/-- A run on a directory, from the tree with the output directory and the scripts in it. -/
theorem generate_of_sources {s : Settings} {wd : Location} {t made : Tree} {path : Text}
    {sources : List Path}
    (hdirectory : Files.pathIsDirectory t wd (Path.ofText path).toText = .ok true)
    (hmade : makeOutput wd t (Path.ofText s.output) = ⟨.ok (), made, []⟩)
    (hsources : discover s wd made (Path.ofText path) = .ok sources) :
    (generate s wd t path).result = (pagesAndContents s wd made sources).result ∧
      (generate s wd t path).tree = (pagesAndContents s wd made sources).tree := by
  have hresult : (makeOutput wd t (Path.ofText s.output)).result = .ok () := by rw [hmade]
  rw [← show (makeOutput wd t (Path.ofText s.output)).tree = made by rw [hmade]] at hsources ⊢
  rw [generate_of_directory hdirectory]
  exact generateDirectory_of_discover hresult hsources

/-- A run on a path that is no directory stops before anything is written, or it is the work on one
script with an output that is allowed. -/
theorem generate_script_cases {s : Settings} {wd : Location} {t : Tree} {path : Text}
    (h : Files.pathIsDirectory t wd (Path.ofText path).toText ≠ .ok true) :
    let o := generate s wd t path
    let source := Path.ofText path
    (∃ f, o.result = .error f ∧ o.tree = t) ∨
      ∃ out, Files.pathIsFile t wd source.toText = .ok true ∧
        resolveOutput s wd t source = .ok out ∧ checkOverwrite s wd t out = .ok () ∧
        o.result = (documentFile s wd t source out s.title).result.map
          (({} : Report).add out.toText) ∧
        o.tree = (documentFile s wd t source out s.title).tree := by
  intro o source
  rw [show o = generate s wd t path from rfl, generate]
  cases hdirectory : Files.pathIsDirectory t wd source.toText with
  | error f => exact .inl ⟨.access f, rfl, rfl⟩
  | ok isDirectory =>
      cases isDirectory with
      | true => exact absurd hdirectory h
      | false =>
          rw [Outcome.andThen_ofAccess_ok, if_neg Bool.false_ne_true]
          cases hfile : Files.pathIsFile t wd source.toText with
          | error f => exact .inl ⟨.access f, rfl, rfl⟩
          | ok isFile =>
              cases isFile with
              | false => exact .inl ⟨.sourceNotFound source.toText, rfl, rfl⟩
              | true =>
                  rw [Outcome.andThen_ofAccess_ok, if_neg (by simp)]
                  cases hout : resolveOutput s wd t source with
                  | error f => exact .inl ⟨.access f, rfl, rfl⟩
                  | ok out =>
                      rw [Outcome.andThen_ofAccess_ok]
                      cases hcheck : checkOverwrite s wd t out with
                      | error f => exact .inl ⟨f, rfl, rfl⟩
                      | ok _ => exact .inr ⟨out, rfl, rfl, hcheck, rfl, rfl⟩

section Script

variable {s : Settings} {wd place : Location} {t : Tree} {path : Text} {out : Path}

/-- A run on a script goes on to the check of its output. -/
theorem generate_of_located (hplace : Files.locate t wd (Path.ofText path).toText = .ok place)
    (hfile : t.isDirectory place = false)
    (hout : resolveOutput s wd t (Path.ofText path) = .ok out) :
    generate s wd t path =
      (Outcome.ofResult (checkOverwrite s wd t out) t).andThen fun _ t =>
        (documentFile s wd t (Path.ofText path) out s.title).map
          (({} : Report).add out.toText) := by
  have hdirectory : Files.pathIsDirectory t wd (Path.ofText path).toText = .ok false := by
    simp [Files.pathIsDirectory, hplace, Files.answer, hfile]
  have hisFile : Files.pathIsFile t wd (Path.ofText path).toText = .ok true :=
    Files.pathIsFile_eq_true_iff.mpr ⟨place, hplace, hfile⟩
  rw [generate, hdirectory, Outcome.andThen_ofAccess_ok, if_neg Bool.false_ne_true, hisFile,
    Outcome.andThen_ofAccess_ok, if_neg (by simp), hout, Outcome.andThen_ofAccess_ok]

/-- A run on a script whose output is found and allowed is the work on that script. -/
theorem generate_of_script (hplace : Files.locate t wd (Path.ofText path).toText = .ok place)
    (hfile : t.isDirectory place = false)
    (hout : resolveOutput s wd t (Path.ofText path) = .ok out)
    (hcheck : checkOverwrite s wd t out = .ok ()) :
    let done := documentFile s wd t (Path.ofText path) out s.title
    (generate s wd t path).result = done.result.map (({} : Report).add out.toText) ∧
      (generate s wd t path).tree = done.tree := by
  rw [generate_of_located hplace hfile hout, hcheck]
  exact ⟨rfl, rfl⟩

/-- A run on a script whose output is not allowed leaves the tree as it is. -/
theorem generate_refused {f : Fault}
    (hplace : Files.locate t wd (Path.ofText path).toText = .ok place)
    (hfile : t.isDirectory place = false)
    (hout : resolveOutput s wd t (Path.ofText path) = .ok out)
    (hcheck : checkOverwrite s wd t out = .error f) :
    (generate s wd t path).result = .error f ∧ (generate s wd t path).tree = t := by
  rw [generate_of_located hplace hfile hout, hcheck]
  exact ⟨rfl, rfl⟩

end Script

end ShellDoc.Run
