import ShellDoc.Files.Tree
import ShellDoc.Path.Basic
import ShellDoc.Text.Quoted

/-!
# Access to files by path

A path is followed from the working directory name by name, each of which must be found in a
directory.  The rules are those of a file system without links: a name has at most 255 bytes and a
path fewer than 4096, a slash at the end asks for a directory, and a path with a null character
names nothing.

Reading, writing and the making of directories fail with the fault that stopped them; the questions
whether something exists answer no where nothing is found, and fail only on a name that is too long.
-/

namespace ShellDoc.Files

open Text (Bytes)

/-- The errors of the file system. -/
inductive SystemError where
  | notFound
  | occupied
  | notDirectory
  | isDirectory
  | nameTooLong
  deriving DecidableEq, Repr

namespace SystemError

def code : SystemError → Nat
  | notFound => 2
  | occupied => 17
  | notDirectory => 20
  | isDirectory => 21
  | nameTooLong => 36

def text : SystemError → Text
  | notFound => "No such file or directory"
  | occupied => "File exists"
  | notDirectory => "Not a directory"
  | isDirectory => "Is a directory"
  | nameTooLong => "File name too long"

end SystemError

/-- Why an access by path failed. -/
inductive AccessFault where
  | system (error : SystemError) (path : Text)
  | nullCharacter
  deriving DecidableEq, Repr

namespace AccessFault

def message : AccessFault → Text
  | system e path =>
      Text.concat ["[Errno ", Text.ofNat e.code, "] ", e.text, ": ", Text.quoted path]
  | nullCharacter => "embedded null byte"

end AccessFault

def nameLimit : Nat := 255

def pathLimit : Nat := 4096

def nullChar : Char := Char.ofNat 0

/-- The names of a path between its slashes. -/
def namesOf (path : Text) : List Text := (Text.pieces '/' path).filter (· ≠ [])

def endsWithSlash (path : Text) : Bool := path.getLast? = some '/'

/-- A name that fits into a directory. -/
def nameFits (name : Text) : Bool := (Text.encode name).length ≤ nameLimit

def current : Text := ['.']

def upward : Text := ['.', '.']

/-- Follows names from a place on. -/
def walk (t : Tree) (place : Location) : List Text → Except SystemError Location
  | [] => .ok place
  | name :: names =>
      match t.get? place with
      | some .directory =>
          if name = current then walk t place names
          else if name = upward then walk t place.dropLast names
          else if !nameFits name then .error .nameTooLong
          else if (t.get? (place ++ [name])).isNone then .error .notFound
          else walk t (place ++ [name]) names
      | _ => .error .notDirectory

/-- Where a path begins. -/
def origin (workingDirectory : Location) (path : Text) : Location :=
  if ['/'].isPrefixOf path then [] else workingDirectory

/-- The faults of a path that show before it is followed. -/
def checkPath (path : Text) : Except AccessFault Unit :=
  if path.contains nullChar then .error .nullCharacter
  else if path = [] then .error (.system .notFound path)
  else if pathLimit ≤ (Text.encode path).length then .error (.system .nameTooLong path)
  else .ok ()

def located {α : Type} (path : Text) : Except SystemError α → Except AccessFault α
  | .ok a => .ok a
  | .error e => .error (.system e path)

/-- The existing place that a path names. -/
def locate (t : Tree) (wd : Location) (path : Text) : Except AccessFault Location := do
  checkPath path
  located path (walk t (origin wd path)
    (namesOf path ++ if endsWithSlash path then [current] else []))

/-- What a question about a path answers when the path cannot be followed. -/
def answer (test : Location → Bool) : Except AccessFault Location → Except AccessFault Bool
  | .ok place => .ok (test place)
  | .error (.system .nameTooLong path) => .error (.system .nameTooLong path)
  | .error _ => .ok false

def pathExists (t : Tree) (wd : Location) (path : Text) : Except AccessFault Bool :=
  answer (fun _ => true) (locate t wd path)

def pathIsDirectory (t : Tree) (wd : Location) (path : Text) : Except AccessFault Bool :=
  answer t.isDirectory (locate t wd path)

def pathIsFile (t : Tree) (wd : Location) (path : Text) : Except AccessFault Bool :=
  answer (fun place => !t.isDirectory place) (locate t wd path)

/-- The place of the regular file that a path names. -/
def locateFile (t : Tree) (wd : Location) (path : Text) : Except AccessFault Location := do
  let place ← locate t wd path
  if t.isDirectory place then .error (.system .isDirectory path) else pure place

/-- The bytes at a place, none at a directory. -/
def contentAt (t : Tree) (place : Location) : Bytes :=
  match t.get? place with
  | some (.file content) => content
  | _ => []

def readFile (t : Tree) (wd : Location) (path : Text) : Except AccessFault Bytes :=
  (locateFile t wd path).map (contentAt t)

/-- The directory that a path leads to, and the last name of the path. -/
def lastStep (t : Tree) (wd : Location) (path : Text) : Except AccessFault (Location × Text) := do
  checkPath path
  let names := namesOf path
  let place ← located path (walk t (origin wd path) (names.dropLast ++ [current]))
  pure (place, names.getLast?.getD current)

/-- The place where a file is made or replaced. -/
def locateOutput (t : Tree) (wd : Location) (path : Text) : Except AccessFault Location := do
  let (place, name) ← lastStep t wd path
  if name = current || name = upward || endsWithSlash path then
    .error (.system .isDirectory path)
  else if !nameFits name then .error (.system .nameTooLong path)
  else if t.isDirectory (place ++ [name]) then .error (.system .isDirectory path)
  else pure (place ++ [name])

/-- Makes or replaces a file. -/
def writeFile (t : Tree) (wd : Location) (path : Text) (content : Bytes) :
    Except AccessFault Tree :=
  (locateOutput t wd path).map fun place => t.put place (.file content)

/-- Makes a directory in an existing one. -/
def makeDirectory (t : Tree) (wd : Location) (path : Text) : Except AccessFault Tree := do
  let (place, name) ← lastStep t wd path
  if name = current || name = upward then .error (.system .occupied path)
  else if !nameFits name then .error (.system .nameTooLong path)
  else if (t.get? (place ++ [name])).isSome then .error (.system .occupied path)
  else pure (t.put (place ++ [name]) .directory)

/-- A directory that could not be made is there anyway, or the fault stands. -/
def unlessDirectory (t : Tree) (wd : Location) (path : Text) (f : AccessFault) :
    Except AccessFault Unit :=
  match f with
  | .nullCharacter => .error f
  | _ =>
      match pathIsDirectory t wd path with
      | .error g => .error g
      | .ok true => .ok ()
      | .ok false => .error f

/-- Makes one directory; one that is already there is fine. -/
def ensureDirectory (t : Tree) (wd : Location) (path : Text) : Tree × Except AccessFault Unit :=
  match makeDirectory t wd path with
  | .ok t' => (t', .ok ())
  | .error (.system .notFound p) => (t, .error (.system .notFound p))
  | .error f => (t, unlessDirectory t wd path f)

/-- Makes the directory of a path with all that lead to it; the parts are given in reverse.  What
was made before a fault stays. -/
def ensureDirectoriesFor (t : Tree) (wd : Location) (root : Text) :
    List Text → Tree × Except AccessFault Unit
  | [] => ensureDirectory t wd (Path.toText ⟨root, []⟩)
  | last :: front =>
      let path := Path.toText ⟨root, (last :: front).reverse⟩
      match ensureDirectory t wd path with
      | (t, .error (.system .notFound _)) =>
          match ensureDirectoriesFor t wd root front with
          | (t, .error f) => (t, .error f)
          | (t, .ok ()) => ensureDirectory t wd path
      | done => done

def ensureDirectories (t : Tree) (wd : Location) (p : Path) : Tree × Except AccessFault Unit :=
  ensureDirectoriesFor t wd p.root p.parts.reverse

end ShellDoc.Files
