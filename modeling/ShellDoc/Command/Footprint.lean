import ShellDoc.Command.Execute

/-!
# The footprint of a command line

Which paths a command line looks at, so that a session can be given just the part of the file system
that matters: first those that hold settings, and, once the settings are known, those that a run
reads and writes.  A directory in the list counts with the files directly in it.
-/

namespace ShellDoc.Command

/-- The variables of the environment that have a meaning. -/
def variableNames : List Text :=
  ["HOME", "SHOCKER_CONFIG_FILE", "SHOCKER_COPYRIGHT", "SHOCKER_DEFAULT_DIALECT",
    "SHOCKER_ALLOWED_DIALECTS", "SHOCKER_SOURCE_EXTENSIONS", "SHOCKER_LOG_LEVEL",
    "SHOCKER_LOG_FORMAT"]

/-- The files that may hold settings. -/
def settingsPaths (env : Settings.Environment) : Invocation → List Text
  | .run g (some _) =>
      let named := [g.settingsFile] ++ (Settings.environmentText? env "SHOCKER_CONFIG_FILE").toList
      (named ++ named.map (Settings.expandHome env)).filter fun p => !p.isEmpty
  | _ => []

/-- The paths of a run with some settings. -/
def runPaths (settings : Settings) (path : Text) : List Text :=
  let output := Path.ofText settings.output
  let name := Path.ofText (Run.outputName settings (Path.ofText path))
  [path, output.toText, (output.join name).toText,
    (output.parent.join (Path.ofText settings.contentsFile)).toText]

/-- The paths that the command itself looks at. -/
def requestPaths (s : Session) : Invocation → List Text
  | .run g (some (.generate path o _)) =>
      match effectiveSettings s g.settingsFile o with
      | .ok settings => runPaths settings path
      | .error _ => []
  | .run _ (some (.inspect file _)) => [file]
  | _ => []

end ShellDoc.Command
