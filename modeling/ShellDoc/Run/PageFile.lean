import ShellDoc.Run.Naming
import ShellDoc.Run.Outcome
import ShellDoc.Script.Content

/-!
# The page of one script

The page of a script goes to the output file of the settings, or to a file named after the script in
the output directory or in the working directory.  An existing file is replaced only by force.

The script is located and the output emptied before anything is read, so a script that is its own
output is read as empty.  When the reading stops at bytes that are no text, the page stays as far as
it was written.
-/

namespace ShellDoc.Run

open Files (Location Tree)

/-- The file for the page of a script. -/
def resolveOutput (s : Settings) (wd : Location) (t : Tree) (source : Path) :
    Except Files.AccessFault Path := do
  if s.output.isEmpty then pure (Path.ofText (outputName s source))
  else
    let output := Path.ofText s.output
    if ← Files.pathIsDirectory t wd output.toText then
      pure (output.join (Path.ofText (outputName s source)))
    else pure output

/-- Refuses a file that is there already, unless force is set. -/
def checkOverwrite (s : Settings) (wd : Location) (t : Tree) (path : Path) : Except Fault Unit :=
  match Files.pathExists t wd path.toText with
  | .error f => .error (.access f)
  | .ok there => if there && !s.force then .error (.outputExists path.toText) else .ok ()

/-- Reads a script that has been located and writes its page over the emptied output. -/
def writePage (s : Settings) (t : Tree) (place target : Location) (title : Text) : Outcome Nat :=
  let emptied := t.put target (.file [])
  let content := Script.Content.ofBytes (Files.contentAt emptied place)
  let page := match content.fault with
    | none => Page.document s.dialects s.copyright title content.lines
    | some _ => Page.upTo s.dialects title content.lines
  { result := match content.fault with
      | none => .ok page.count
      | some u => .error (.undecodable u)
    tree := emptied.put target (.file (Text.encode page.text))
    activities := page.events.map Activity.ofPage }

/-- Opens a script and its output, and writes the page. -/
def openAndWrite (s : Settings) (wd : Location) (t : Tree) (source output : Path) (title : Text) :
    Outcome Nat :=
  (Outcome.ofAccess (Files.locateFile t wd source.toText) t).andThen fun place t =>
    (Outcome.ofAccess (Files.locateOutput t wd output.toText) t).andThen fun target t =>
      writePage s t place target title

/-- Writes the page of one script and gives the number of its sections.  An empty title stands for
the one that the file name gives. -/
def documentFile (s : Settings) (wd : Location) (t : Tree) (source output : Path) (title : Text) :
    Outcome Nat :=
  let src := source.toText
  let out := output.toText
  let done := openAndWrite s wd t source output
    (if title.isEmpty then fileTitle s source else title)
  { result := done.result
    tree := done.tree
    activities := [.entered src, .event (.fileStarted src out)] ++ done.activities ++ [.left] ++
      (match done.result with
        | .ok count => [.event (.fileCompleted src out count)]
        | .error _ => []) }

end ShellDoc.Run
