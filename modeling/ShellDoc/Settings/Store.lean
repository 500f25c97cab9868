import ShellDoc.Files.Access
import ShellDoc.Json.Reader
import ShellDoc.Json.Writer
import ShellDoc.Settings.Reader
import ShellDoc.Text.Lines
import ShellDoc.Text.Utf8
import ShellDoc.Yaml.Reader
import ShellDoc.Yaml.Writer

/-!
# Settings in files and in the environment

A file whose name ends in `.json` holds JSON, any other file YAML.  A file holds one mapping; an
empty one stands for the defaults.  Variables of the environment name such a file and replace single
settings.
-/

namespace ShellDoc.Settings

open Files (AccessFault Location Tree)
open Text (Undecodable)

/-- Why a file gave no settings. -/
inductive LoadFault where
  | access (fault : AccessFault)
  | undecodable (path : Text) (fault : Undecodable)
  | json (path content : Text) (cause : Json.Cause) (position : Nat)
  | yaml (path : Text)
  | noMapping (path : Text)
  /-- A number of the file is out of bounds. -/
  | numeral (fault : Decimal.NumeralFault)
  /-- A scalar of the file has the form of a value that does not exist. -/
  | scalar (fault : Yaml.Fault)
  | refused (refusal : Refusal)
  deriving Repr

namespace LoadFault

def message : LoadFault → Text
  | access fault => fault.message
  | undecodable path fault => Text.concat ["Invalid JSON in ", path, ": ", fault.message]
  | json path content cause position =>
      Text.concat ["Invalid JSON in ", path, ": ",
        (Json.Fault.malformed cause position).message content]
  | yaml path => Text.concat ["Invalid YAML in ", path, ": ", Yaml.Fault.malformed.message]
  | noMapping path => Text.concat ["Configuration in ", path, " must be a mapping"]
  | numeral fault => fault.message
  | scalar fault => fault.message
  | refused refusal => refusal.message

end LoadFault

/-- The variables of the environment. -/
abbrev Environment := Fields Text

/-- A path whose first name is a tilde begins in the home directory. -/
def expandHome (env : Environment) (path : Text) : Text :=
  let name := path.takeWhile (· ≠ '/')
  match env.get? "HOME" with
  | some home =>
      if name = ['~'] then
        let home := (home.reverse.dropWhile (· = '/')).reverse
        let expanded := home ++ path.drop 1
        if expanded.isEmpty then ['/'] else expanded
      else path
  | none => path

def isJsonPath (path : Text) : Bool := (".json".toList).isSuffixOf path

/-- The value that a file holds. -/
def parseContent (path : Text) (bytes : Text.Bytes) : Except LoadFault Value :=
  if isJsonPath path then
    match Text.decode bytes with
    | .error u => .error (.undecodable path u)
    | .ok content =>
        let content := Text.unifyLineEnds content
        match Json.read content with
        | .ok v => .ok v
        | .error (.malformed cause position) => .error (.json path content cause position)
        | .error (.numeral fault) => .error (.numeral fault)
  else
    match Text.decode bytes with
    | .error _ => .error (.yaml path)
    | .ok content =>
        match Yaml.read (Text.unifyLineEnds content) with
        | .ok v => .ok v
        | .error .malformed => .error (.yaml path)
        | .error (.numeral fault) => .error (.numeral fault)
        | .error fault => .error (.scalar fault)

/-- The settings that the content of a file gives. -/
def ofContent (path : Text) (bytes : Text.Bytes) : Except LoadFault Settings := do
  let v ← parseContent path bytes
  let entries ← match v with
    | .null => pure []
    | .mapping entries => pure entries
    | _ => .error (.noMapping path)
  match ofValue (.mapping entries) with
  | .ok s => pure s
  | .error refusal => .error (.refused refusal)

/-- The settings of a file. -/
def load (t : Tree) (wd : Location) (env : Environment) (path : Text) :
    Except LoadFault Settings := do
  let path := expandHome env path
  match Files.readFile t wd path with
  | .error fault => .error (.access fault)
  | .ok bytes => ofContent path bytes

/-- A variable that is set to something. -/
def environmentText? (env : Environment) (name : Text) : Option Text :=
  match env.get? name with
  | some s => if s.isEmpty then none else some s
  | none => none

/-- Whether a path names anything that can be reached. -/
def isReachable (t : Tree) (wd : Location) (path : Text) : Bool :=
  match Files.locate t wd path with
  | .ok _ => true
  | .error _ => false

/-- The file that the environment names, if it is there. -/
def environmentFile? (t : Tree) (wd : Location) (env : Environment) : Option Text :=
  match environmentText? env "SHOCKER_CONFIG_FILE" with
  | some path => if isReachable t wd path then some path else none
  | none => none

/-- The single settings of the environment over some settings. -/
def withVariables (s : Settings) (env : Environment) : Settings :=
  { s with
    copyright := ((environmentText? env "SHOCKER_COPYRIGHT").map Text.strip).getD s.copyright
    defaultDialect :=
      ((environmentText? env "SHOCKER_DEFAULT_DIALECT").map Text.strip).getD s.defaultDialect
    allowedDialects :=
      ((environmentText? env "SHOCKER_ALLOWED_DIALECTS").map Text.items).getD s.allowedDialects
    sourceExtensions :=
      ((environmentText? env "SHOCKER_SOURCE_EXTENSIONS").map Text.items).getD s.sourceExtensions }

/-- The settings of the environment. -/
def ofEnvironment (t : Tree) (wd : Location) (env : Environment) : Except LoadFault Settings := do
  let base ← match environmentFile? t wd env with
    | some path => load t wd env path
    | none => pure {}
  pure (base.withVariables env)

/-- The settings as JSON, one line for each setting and for each item of a list. -/
def toJson (s : Settings) : Text := Json.writeIndented s.toValue

def yamlEntry (name : Text) : Setting → Text
  | .text s => Yaml.entry name (Yaml.scalar s)
  | .flag b => Yaml.entry name (Yaml.flag b)
  | .list items => Yaml.listEntry name items

/-- The settings as YAML, sorted by their keys. -/
def toYaml (s : Settings) : Text :=
  (s.toFields.mergeSort fun f g => Text.le f.1 g.1).flatMap fun f => yamlEntry f.1 f.2

/-- Writes the settings to a file and makes the directories that lead to it. -/
def save (t : Tree) (wd : Location) (env : Environment) (path : Text) (s : Settings) :
    Tree × Except AccessFault Unit :=
  let path := expandHome env path
  match Files.ensureDirectories t wd (Path.ofText path).parent with
  | (t, .error fault) => (t, .error fault)
  | (t, .ok ()) =>
      let content := if isJsonPath path then s.toJson else s.toYaml
      match Files.writeFile t wd path (Text.encode content) with
      | .ok t => (t, .ok ())
      | .error fault => (t, .error fault)

end ShellDoc.Settings
