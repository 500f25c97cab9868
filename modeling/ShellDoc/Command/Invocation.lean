import ShellDoc.Command.Arguments
import ShellDoc.Command.Usage
import ShellDoc.Settings.Override

/-!
# Invocations

What a command line asks for: a command with its options, help, the version, or a report of what is
wrong with it.
-/

namespace ShellDoc.Command

/-- The options in front of the command. -/
structure GlobalOptions where
  verbosity : Nat := 0
  quiet : Bool := false
  logFormat : Option Text := none
  settingsFile : Text := []
  deriving DecidableEq, Repr

/-- A command with its options. -/
inductive Request where
  | generate (path : Text) (overrides : Overrides) (json : Bool)
  | inspect (file : Text) (json : Bool)
  | config (json : Bool)
  deriving DecidableEq, Repr

inductive Invocation where
  | help (topic : Topic)
  | version
  | misuse (topic : Topic) (fault : UsageFault)
  | run (options : GlobalOptions) (request : Option Request)
  deriving DecidableEq, Repr

inductive GlobalKey where
  | help
  | version
  | verbose
  | quiet
  | logFormat
  | config
  deriving DecidableEq, Repr

def helpNames : List Text := ["-h", "--help"]

def globalOptions : List (Opt GlobalKey) :=
  [{ key := .help, names := helpNames },
   { key := .version, names := ["--version"] },
   { key := .verbose, names := ["-v", "--verbose"] },
   { key := .quiet, names := ["-q", "--quiet"] },
   { key := .logFormat, names := ["--log-format"], takesValue := true,
     choices := ["human", "json"] },
   { key := .config, names := ["--config"], takesValue := true }]

inductive GenerateKey where
  | help
  | title
  | force
  | output
  | keepExtension
  | copyright
  | capitalize
  | tableOfContents
  | json
  deriving DecidableEq, Repr

def generateOptions : List (Opt GenerateKey) :=
  [{ key := .help, names := helpNames },
   { key := .title, names := ["-t", "--title"], takesValue := true },
   { key := .force, names := ["-f", "--force"] },
   { key := .output, names := ["-o", "--output"], takesValue := true },
   { key := .keepExtension, names := ["-x", "--keep-extension"] },
   { key := .copyright, names := ["-c", "--copyright"], takesValue := true },
   { key := .capitalize, names := ["-C", "--capitalize"] },
   { key := .tableOfContents, names := ["-T", "--toc"] },
   { key := .json, names := ["--json"] }]

/-- The options of the commands that only print. -/
inductive PrintKey where
  | help
  | json
  deriving DecidableEq, Repr

def printOptions : List (Opt PrintKey) :=
  [{ key := .help, names := helpNames }, { key := .json, names := ["--json"] }]

/-- What a command line asks for so far: options of type `α`, the operand, and what is left over. -/
structure Progress (α : Type) where
  options : α
  operand : Option (List Text) := none
  extras : List Text := []

/-- Takes steps until one of them ends the reading: `apply` gives the options behind an option, or
the invocation that it asks for at once. -/
def followSteps {κ α : Type} (topic : Topic) (apply : α → κ → Text → Except Invocation α)
    (p : Progress α) : List (Step κ) → Except Invocation (Progress α)
  | [] => .ok p
  | .option key value :: steps => do
      let options ← apply p.options key (value.getD [])
      followSteps topic apply { p with options } steps
  | .operand arguments :: steps =>
      followSteps topic apply { p with operand := some arguments } steps
  | .extra arguments :: steps =>
      followSteps topic apply { p with extras := p.extras ++ arguments } steps
  | .fault f :: _ => .error (.misuse topic f)

/-- The only operand of a command, which has to be there. -/
def requiredOperand {α : Type} (topic : Topic) (name : Text) (p : Progress α) :
    Except Invocation Text :=
  match p.operand with
  | some (s :: _) => .ok s
  | _ => .error (.misuse topic (.required name))

def applyGenerate (s : Overrides × Bool) (key : GenerateKey) (value : Text) :
    Except Invocation (Overrides × Bool) :=
  let (o, json) := s
  match key with
  | .help => .error (.help .generate)
  | .title => .ok ({ o with title := value }, json)
  | .force => .ok ({ o with force := true }, json)
  | .output => .ok ({ o with output := value }, json)
  | .keepExtension => .ok ({ o with keepExtension := true }, json)
  | .copyright => .ok ({ o with copyright := value }, json)
  | .capitalize => .ok ({ o with capitalize := true }, json)
  | .tableOfContents => .ok ({ o with tableOfContents := true }, json)
  | .json => .ok (o, true)

def applyPrint (topic : Topic) (_ : Bool) (key : PrintKey) (_ : Text) : Except Invocation Bool :=
  match key with
  | .help => .error (.help topic)
  | .json => .ok true

/-- The title and the footer are given without white space around them. -/
def trimmed (o : Overrides) : Overrides :=
  { o with title := Text.strip o.title, copyright := Text.strip o.copyright }

def generateRequest (arguments : List Text) : Except Invocation (Request × List Text) := do
  let p ← followSteps .generate applyGenerate ⟨({}, false), none, []⟩
    (readArguments generateOptions .single arguments)
  let path ← requiredOperand .generate "path" p
  pure (.generate path (trimmed p.options.1) p.options.2, p.extras)

def inspectRequest (arguments : List Text) : Except Invocation (Request × List Text) := do
  let p ← followSteps .inspect (applyPrint .inspect) ⟨false, none, []⟩
    (readArguments printOptions .single arguments)
  let file ← requiredOperand .inspect "file" p
  pure (.inspect file p.options, p.extras)

def configRequest (arguments : List Text) : Except Invocation (Request × List Text) := do
  let p ← followSteps .config (applyPrint .config) ⟨false, none, []⟩
    (readArguments printOptions .nothing arguments)
  pure (.config p.options, p.extras)

/-- The commands and how their arguments are read. -/
def commands : List (Text × (List Text → Except Invocation (Request × List Text))) :=
  [("generate", generateRequest), ("inspect", inspectRequest), ("config", configRequest)]

/-- The command with its arguments. -/
def requestOf (arguments : List Text) : Except Invocation (Request × List Text) :=
  let name := arguments.headD []
  match commands.lookup name with
  | some read => read arguments.tail
  | none =>
      .error (.misuse .program (.invalidChoice "command" name (commands.map Prod.fst)))

def applyGlobal (g : GlobalOptions) (key : GlobalKey) (value : Text) :
    Except Invocation GlobalOptions :=
  match key with
  | .help => .error (.help .program)
  | .version => .error .version
  | .verbose => .ok { g with verbosity := g.verbosity + 1 }
  | .quiet => .ok { g with quiet := true }
  | .logFormat => .ok { g with logFormat := some value }
  | .config => .ok { g with settingsFile := value }

/-- Reads a whole command line. -/
def readInvocation (arguments : List Text) : Except Invocation Invocation := do
  let p ← followSteps .program applyGlobal ⟨{}, none, []⟩
    (readArguments globalOptions .rest arguments)
  let (request, extras) ← match p.operand with
    | none => pure (none, [])
    | some arguments => do
        let (r, extras) ← requestOf arguments
        pure (some r, extras)
  let left := p.extras ++ extras
  if left.isEmpty then pure (.run p.options request)
  else .error (.misuse .program (.unrecognized left))

/-- What a command line asks for. -/
def invocation (arguments : List Text) : Invocation :=
  match readInvocation arguments with
  | .ok i => i
  | .error i => i

end ShellDoc.Command
