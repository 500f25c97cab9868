import ShellDoc.Command.Invocation
import ShellDoc.Command.Table
import ShellDoc.DocBlock.Inspection
import ShellDoc.Json.Writer
import ShellDoc.Run.Directory
import ShellDoc.Session

/-!
# Executing command lines

A command line is read, the journal is set up, and the command is run on a session.  Faults of the
settings, of the policy on existing files and of the file system are reported with exit status 1; a
run that fails in the file system is logged too.  Other faults end the program.
-/

namespace ShellDoc.Command

/-- What is done about a fault: it is reported, it comes from outside and is reported as well, or it
ends the program. -/
inductive Handling where
  | reported
  | external
  | fatal
  deriving DecidableEq, Repr

def accessHandling : Files.AccessFault → Handling
  | .system _ _ => .external
  | .nullCharacter => .fatal

def refusalHandling : Settings.Refusal → Handling
  | .unknownKeys _ => .reported
  | .notText _ _ => .reported
  | .notFlag _ _ => .reported
  | .notList _ _ => .reported
  | _ => .fatal

def loadHandling : Settings.LoadFault → Handling
  | .access f => accessHandling f
  | .undecodable _ _ => .reported
  | .json _ _ _ _ => .reported
  | .yaml _ => .reported
  | .noMapping _ => .reported
  | .numeral _ => .fatal
  | .scalar _ => .fatal
  | .refused r => refusalHandling r

def runHandling : Run.Fault → Handling
  | .sourceNotFound _ => .reported
  | .outputExists _ => .reported
  | .access f => accessHandling f
  | .undecodable _ => .external
  | .numeral _ => .fatal

/-- A fault that ends the program. -/
inductive FatalFault where
  | level (fault : Log.Level.Fault)
  | settings (fault : Settings.LoadFault)
  | run (fault : Run.Fault)
  deriving Repr

namespace FatalFault

def message : FatalFault → Text
  | level fault => fault.message
  | settings fault => fault.message
  | run fault => fault.message

end FatalFault

/-- What a command comes to: an exit status, or a fault that ends the program. -/
abbrev Status := Except FatalFault Nat

/-- The settings of a run: a named file or the environment, with the options of the command over
them. -/
def effectiveSettings (s : Session) (file : Text) (o : Overrides) :
    Except Settings.LoadFault Settings := do
  let base ← if file.isEmpty then
      Settings.ofEnvironment s.tree s.workingDirectory s.environment
    else Settings.load s.tree s.workingDirectory s.environment file
  pure (base.override o)

/-- Gives up with a message. -/
def abort (s : Session) (message : Text) : Session × Status :=
  (s.printError (Text.concat [message, "\n", "Aborting...\n"]), .ok 1)

/-- The logger of the commands. -/
def commandLogger : Log.Logger := Log.Logger.ofPart "cli"

/-- Gives up a run on a fault from outside, which is logged. -/
def abortRun (s : Session) (path message : Text) : Session × Status :=
  abort (s.logError commandLogger (Text.concat ["Documentation run failed: ", message])
    [("path", .text path)]) message

/-- The lines that tell which files were written. -/
def reportLines (r : Run.Report) : List Text :=
  (r.files.map fun path =>
    Text.concat [path, " (", Text.ofNat ((r.blockCounts.get? path).getD 0), " blocks)"]) ++
  (match r.contents with
    | some path => if path.isEmpty then [] else [Text.concat [path, " (table of contents)"]]
    | none => [])

def generateCommand (s : Session) (g : GlobalOptions) (path : Text) (o : Overrides)
    (json : Bool) : Session × Status :=
  match effectiveSettings s g.settingsFile o with
  | .error f =>
      match loadHandling f with
      | .reported => abort s f.message
      | .external => abortRun s path f.message
      | .fatal => (s, .error (.settings f))
  | .ok settings =>
      match s.perform (Run.generate settings s.workingDirectory s.tree path) with
      | (s, .error f) =>
          match runHandling f with
          | .reported => abort s f.message
          | .external => abortRun s path f.message
          | .fatal => (s, .error (.run f))
      | (s, .ok report) =>
          (if json then s.printLine (Json.writeIndented report.toValue)
            else if g.quiet then s
            else s.print (Text.ofLines (reportLines report)), .ok 0)

/-- A text, or a hyphen in place of an empty one. -/
def orHyphen (s : Text) : Text := if s.isEmpty then ['-'] else s

/-- The row of a block in the table of an inspection. -/
def blockRow (b : DocBlock) : Fields Value :=
  [("name", .text (orHyphen b.name)), ("summary", .text b.summary),
   ("params", .int b.parameters.length),
   ("properties", .text (orHyphen (Text.join ", " (b.properties.map Prod.fst))))]

/-- What an inspection prints. -/
def inspectionText (file : Text) (i : Inspection) : Text :=
  Text.ofLines
    ([Text.concat [file, " (", i.dialect, "): ", Text.ofNat i.blocks.length, " blocks"]] ++
    (if i.discarded = 0 then []
      else [Text.concat [Text.ofNat i.discarded, " unterminated block(s) ignored"]]) ++
    (if i.blocks.isEmpty then [] else [[], table (i.blocks.map blockRow)]))

def inspectionValue (file : Text) (i : Inspection) : Value :=
  Value.ofFields
    [("file", .text file), ("dialect", .text i.dialect),
     ("blocks", .list (i.blocks.map DocBlock.toValue))]

/-- Tells the notices of a recognizer to the journal. -/
def tellNotices (s : Session) (notices : List Notice) : Session :=
  { s with console := notices.foldl (fun c n => Run.tellNotice s.journal n c) s.console }

def inspectCommand (s : Session) (g : GlobalOptions) (file : Text) (json : Bool) :
    Session × Status :=
  match effectiveSettings s g.settingsFile {} with
  | .error f =>
      if loadHandling f = .fatal then (s, .error (.settings f)) else abort s f.message
  | .ok settings =>
      match Files.readFile s.tree s.workingDirectory file with
      | .error f =>
          if accessHandling f = .fatal then (s, .error (.run (.access f)))
          else abort s f.message
      | .ok bytes =>
          let content := Script.Content.ofBytes bytes
          match content.fault with
          | some u =>
              abort (tellNotices s (Inspection.noticesUpTo settings.dialects content.lines))
                u.message
          | none =>
              let i := Inspection.ofLines settings.dialects content.lines
              let s := tellNotices s i.notices
              (if json then s.printLine (Json.writeIndented (inspectionValue file i))
                else s.print (inspectionText file i), .ok 0)

/-- The text of a setting in the list of all settings. -/
def settingText : Setting → Text
  | .text s => s
  | .flag b => (Value.bool b).display
  | .list items => Text.join ", " items

/-- The settings one on a line, their keys in a column. -/
def settingsText (settings : Settings) : Text :=
  let fields := settings.toFields
  let width := (fields.map fun f => f.1.length).foldl max 0
  Text.ofLines (fields.map fun f =>
    Text.concat [Text.padRight width f.1, "  ", settingText f.2])

def configCommand (s : Session) (g : GlobalOptions) (json : Bool) : Session × Status :=
  match effectiveSettings s g.settingsFile {} with
  | .error f =>
      if loadHandling f = .fatal then (s, .error (.settings f)) else abort s f.message
  | .ok settings =>
      (if json then s.printLine settings.toJson else s.print (settingsText settings), .ok 0)

/-- How the journal is set up for a command line: options win over the environment. -/
def setupOf (g : GlobalOptions) (env : Settings.Environment) : Log.Setup :=
  { level :=
      if g.verbosity > 1 then "DEBUG"
      else if g.verbosity = 1 then "INFO"
      else if g.quiet then "ERROR"
      else (env.get? "SHOCKER_LOG_LEVEL").getD "WARNING"
    format := g.logFormat.getD ((env.get? "SHOCKER_LOG_FORMAT").getD "human") }

def runRequest (s : Session) (g : GlobalOptions) : Option Request → Session × Status
  | none => (s.print Topic.program.help, .ok 0)
  | some (.generate path o json) => generateCommand s g path o json
  | some (.inspect file json) => inspectCommand s g file json
  | some (.config json) => configCommand s g json

/-- Runs a command line on a session. -/
def execute (s : Session) (arguments : List Text) : Session × Status :=
  match invocation arguments with
  | .help topic => (s.print topic.help, .ok 0)
  | .version => (s.printLine versionLine, .ok 0)
  | .misuse topic fault =>
      (s.printError (Text.concat [topic.usage, topic.call, ": error: ", fault.message, "\n"]),
        .ok 2)
  | .run g request =>
      match s.configure (setupOf g s.environment) with
      | .error f => (s, .error (.level f))
      | .ok s => runRequest s g request

end ShellDoc.Command
