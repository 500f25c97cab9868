import ShellDoc.Path.Basic
import ShellDoc.Settings.Basic
import ShellDoc.Text.Case

/-!
# Titles and output names

The title of a page and the name of its file are taken from the name of the script.
-/

namespace ShellDoc.Run

/-- A capital letter at the beginning, if the settings ask for it. -/
def capitalized (s : Settings) (name : Text) : Text :=
  if s.capitalize then Text.capitalizeFirst name else name

/-- The title that a file name gives. -/
def nameTitle (s : Settings) (name : Text) : Text :=
  if s.keepExtension then name else Path.withoutExtension name

/-- The heading of the page of a script. -/
def fileTitle (s : Settings) (source : Path) : Text := capitalized s (nameTitle s source.name)

/-- The name of the page of a script. -/
def outputName (s : Settings) (source : Path) : Text :=
  capitalized s (Text.concat [source.stem, ".md"])

end ShellDoc.Run
