import ShellDoc.Path.NaturalOrder
import ShellDoc.Path.Relative
import ShellDoc.Run.PageFile
import ShellDoc.Run.Report

/-!
# The scripts of a directory

The scripts of a directory are its files with one of the extensions of the settings, in natural
order.  Their pages go to one output directory; the table of contents stands in the directory around
that one, and its links lead from there.
-/

namespace ShellDoc.Run

open Files (Location Tree)

/-- The names in a directory. -/
def listDirectory (wd : Location) (t : Tree) (path : Text) :
    Except Files.AccessFault (List Text) := do
  let place ← Files.locate t wd path
  if t.isDirectory place then pure (t.children place)
  else .error (.system .notDirectory path)

/-- Whether a file name has one of the extensions, in whatever case. -/
def hasExtension (s : Settings) (p : Path) : Bool :=
  (s.sourceExtensions.map Text.lower).contains (Text.lower p.suffix)

/-- The paths that are scripts, which asks the tree about each. -/
def selectScripts (s : Settings) (wd : Location) (t : Tree) :
    List Path → Except Files.AccessFault (List Path)
  | [] => .ok []
  | p :: ps => do
      let isFile ← Files.pathIsFile t wd p.toText
      let rest ← selectScripts s wd t ps
      pure (if isFile && hasExtension s p then p :: rest else rest)

/-- The scripts directly in a directory, in natural order. -/
def discover (s : Settings) (wd : Location) (t : Tree) (directory : Path) :
    Except Fault (List Path) := do
  let found : Except Files.AccessFault (List Path) := do
    let names ← listDirectory wd t directory.toText
    selectScripts s wd t (names.map fun n => ⟨directory.root, directory.parts ++ [n]⟩)
  match found with
  | .error f => .error (.access f)
  | .ok paths =>
      match Path.naturalSort paths with
      | .error f => .error (.numeral f)
      | .ok sorted => .ok sorted

/-- Writes the pages of scripts one after the other. -/
def documentAll (s : Settings) (wd : Location) (output : Path) (report : Report) (t : Tree) :
    List Path → Outcome Report
  | [] => ⟨.ok report, t, []⟩
  | source :: sources =>
      let target := output.join (Path.ofText (outputName s source))
      (Outcome.ofResult (checkOverwrite s wd t target) t).andThen fun _ t =>
        (documentFile s wd t source target []).andThen fun count t =>
          documentAll s wd output (report.add target.toText count) t sources

/-- The title and the link of a page, seen from the directory of the table of contents. -/
def contentsEntry (s : Settings) (wd : Location) (root : Path) (file : Text) : Text × Text :=
  let p := Path.ofText file
  (nameTitle s p.name, (Path.relativeTo wd p root).toText)

/-- Writes the table of contents. -/
def writeContents (s : Settings) (wd : Location) (output : Path) (report : Report) (t : Tree) :
    Outcome Report :=
  let root := output.parent
  let target := root.join (Path.ofText s.contentsFile)
  (Outcome.ofResult (checkOverwrite s wd t target) t).andThen fun _ t =>
    let heading := if s.title.isEmpty then s.contentsHeading else s.title
    let lines := Page.contents heading (report.files.map (contentsEntry s wd root))
    (Outcome.ofAccess (Files.writeFile t wd target.toText (Text.encode (Text.ofLines lines)))
        t).andThen fun t' _ =>
      { result := .ok { report with contents := some target.toText }
        tree := t'
        activities := [.event (.contentsCompleted target.toText)] }

/-- Makes the output directory. -/
def makeOutput (wd : Location) (t : Tree) (output : Path) : Outcome Unit :=
  match Files.ensureDirectories t wd output with
  | (t, .ok ()) => ⟨.ok (), t, []⟩
  | (t, .error f) => ⟨.error (.access f), t, []⟩

/-- Writes the pages of all scripts of a directory, and the table of contents if it is asked for. -/
def generateDirectory (s : Settings) (wd : Location) (t : Tree) (directory : Path) :
    Outcome Report :=
  let output := Path.ofText s.output
  (makeOutput wd t output).andThen fun _ t =>
    (Outcome.ofResult (discover s wd t directory) t).andThen fun sources t =>
      let written := (documentAll s wd output {} t sources).andThen fun report t =>
        if s.tableOfContents then writeContents s wd output report t else ⟨.ok report, t, []⟩
      if sources.isEmpty then written.after (.event (.noScripts directory.toText)) else written

/-- Writes the page of a script, or those of a directory of scripts. -/
def generate (s : Settings) (wd : Location) (t : Tree) (path : Text) : Outcome Report :=
  let source := Path.ofText path
  (Outcome.ofAccess (Files.pathIsDirectory t wd source.toText) t).andThen fun isDirectory t =>
    if isDirectory then generateDirectory s wd t source
    else
      (Outcome.ofAccess (Files.pathIsFile t wd source.toText) t).andThen fun isFile t =>
        if !isFile then ⟨.error (.sourceNotFound source.toText), t, []⟩
        else
          (Outcome.ofAccess (resolveOutput s wd t source) t).andThen fun output t =>
            (Outcome.ofResult (checkOverwrite s wd t output) t).andThen fun _ t =>
              (documentFile s wd t source output s.title).map fun count =>
                ({} : Report).add output.toText count

end ShellDoc.Run
