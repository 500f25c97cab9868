import ShellDoc.Command.Footprint
import ShellDoc.Files.Changes
import Std.Time.DateTime

/-!
# The program

The outer layer: it gives a session the part of the file system that the command line looks at, runs
the command line on it, prints what was printed and writes back what has changed.
-/

namespace ShellDoc.Main

open Files (Location Node Tree)

/-- The path of a place from the top. -/
def placeName (place : Location) : String :=
  String.ofList ('/' :: Text.join "/" place)

/-- What stands at a place, with its content. -/
def readNode (place : Location) : IO (Option Node) := do
  let p := (← IO.currentDir) / placeName place
  if ← p.isDir then pure (some .directory)
  else if ← p.pathExists then
    try
      pure (some (.file (← IO.FS.readBinFile p).toList))
    catch _ => pure (some (.file []))
  else pure none

/-- Adds a place to a tree if it is there. -/
def addNode (t : Tree) (place : Location) : IO Tree := do
  if (t.get? place).isSome then pure t
  else
    match ← readNode place with
    | some node => pure (t.put place node)
    | none => pure t

/-- Adds a place with all that lead to it, and with what lies directly in it. -/
def addPlace (t : Tree) (place : Location) : IO Tree := do
  let mut t := t
  for i in [0:place.length + 1] do
    t ← addNode t (place.take i)
  if t.isDirectory place then
    let p := (← IO.currentDir) / placeName place
    for entry in ← p.readDir do
      t ← addNode t (place ++ [entry.fileName.toList])
  pure t

def addPaths (wd : Location) (t : Tree) (paths : List Text) : IO Tree :=
  paths.foldlM (fun t path => addPlace t ((Path.ofText path).absolute wd)) t

def readEnvironment : IO Settings.Environment := do
  let mut env : Settings.Environment := []
  for name in Command.variableNames do
    match ← IO.getEnv (String.ofList name) with
    | some value => env := env.put name value.toList
    | none => pure ()
  pure env

/-- The present moment of universal time. -/
def readClock : IO Moment := do
  let now := (← Std.Time.Timestamp.now).toWallTime Std.Time.TimeZone.Offset.zero
  let d := Std.Time.PlainDateTime.ofWallTime now
  pure
    { date := ⟨d.date.year.toInt.toNat, d.date.month.val.toNat, d.date.day.val.toNat⟩
      hour := d.time.hour.val.toNat
      minute := d.time.minute.val.toNat
      second := d.time.second.val.toNat
      microsecond := d.time.nanosecond.val.toNat / 1000
      offset := none }

/-- A session in the working directory with what a command line needs. -/
def openSession (invocation : Command.Invocation) : IO Session := do
  let wd := ((← IO.currentDir).components.map String.toList).filter (· ≠ [])
  let environment ← readEnvironment
  let terminal ← (← IO.getStderr).isTty
  let journal := Log.Journal.initial terminal (← readClock)
  let tree ← addPlace {} wd
  let tree ← addPaths wd tree (Command.settingsPaths environment invocation)
  let session : Session := { tree, workingDirectory := wd, environment, journal }
  let tree ← addPaths wd tree (Command.requestPaths session invocation)
  pure { session with tree }

/-- Writes back one change. -/
def storeChange (change : Files.Change) : IO Unit := do
  let p := (← IO.currentDir) / String.ofList ('/' :: change.path)
  match change.now with
  | some .directory => IO.FS.createDirAll p
  | some (.file content) => IO.FS.writeBinFile p ⟨content.toArray⟩
  | none => pure ()

/-- Prints what was printed, and gives the exit status. -/
def finish (s : Session) (status : Command.Status) : IO UInt32 := do
  let out ← IO.getStdout
  let err ← IO.getStderr
  out.putStr (String.ofList s.console.output)
  out.flush
  err.putStr (String.ofList s.console.error)
  match status with
  | .ok n => pure n.toUInt32
  | .error fault =>
      err.putStr (String.ofList (fault.message ++ ['\n']))
      pure 1

end ShellDoc.Main

/-- Runs the command line. -/
def main (arguments : List String) : IO UInt32 := do
  let arguments := arguments.map String.toList
  let before ← ShellDoc.Main.openSession (ShellDoc.Command.invocation arguments)
  let (after, status) := ShellDoc.Command.execute before arguments
  for change in ShellDoc.Files.changes [] before.tree after.tree do
    ShellDoc.Main.storeChange change
  ShellDoc.Main.finish after status
