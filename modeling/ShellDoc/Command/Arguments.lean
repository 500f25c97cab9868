import ShellDoc.Text.Digit
import ShellDoc.Text.Quoted

/-!
# Arguments of a command line

A list of arguments is read against the options of a command and what it takes besides them.  Long
options may be shortened as far as they stay unique, short options without a value may be joined,
and a value may follow in the same argument or in the next one.  Behind `--` nothing is an option.

The reading gives a list of steps in the order in which they take effect, so that an option that
ends the reading does so before a fault that comes later.
-/

namespace ShellDoc.Command

/-- An option of a command; `κ` names what it stands for. -/
structure Opt (κ : Type) where
  key : κ
  names : List Text
  takesValue : Bool := false
  /-- The values that may be given; any when empty. -/
  choices : List Text := []

/-- What a command takes besides its options. -/
inductive Operand where
  | nothing
  | single
  /-- One argument and everything behind it. -/
  | rest
  deriving DecidableEq, Repr

inductive UsageFault where
  | ambiguous (argument : Text) (candidates : List Text)
  | expectedValue (names : List Text)
  | ignoredValue (names : List Text) (value : Text)
  | invalidChoice (name value : Text) (choices : List Text)
  | required (name : Text)
  | unrecognized (arguments : List Text)
  deriving DecidableEq, Repr

namespace UsageFault

def message : UsageFault → Text
  | ambiguous argument candidates =>
      Text.concat ["ambiguous option: ", argument, " could match ", Text.join ", " candidates]
  | expectedValue names =>
      Text.concat ["argument ", Text.join "/" names, ": expected one argument"]
  | ignoredValue names value =>
      Text.concat ["argument ", Text.join "/" names, ": ignored explicit argument ",
        Text.quoted value]
  | invalidChoice name value choices =>
      Text.concat ["argument ", name, ": invalid choice: ", Text.quoted value, " (choose from ",
        Text.join ", " (choices.map Text.quoted), ")"]
  | required name => Text.concat ["the following arguments are required: ", name]
  | unrecognized arguments => Text.concat ["unrecognized arguments: ", Text.join " " arguments]

end UsageFault

/-- An option as an argument names it, and the value in the same argument if there is one. -/
structure Mention (κ : Type) where
  option : Opt κ
  name : Text
  /-- The value stands behind an equals sign. -/
  assigned : Bool
  value : Option Text

/-- What an argument is before the options take their values. -/
inductive Word (κ : Type) where
  | separator
  | plain (s : Text)
  /-- An option, or something that looks like one and is not known. -/
  | option (s : Text) (mention : Option (Mention κ))

namespace Word

variable {κ : Type}

def text : Word κ → Text
  | separator => ['-', '-']
  | plain s => s
  | option s _ => s

def isOption : Word κ → Bool
  | option _ _ => true
  | _ => false

end Word

section Classification

variable {κ : Type}

/-- The names of all options in order, each with its option. -/
def optionNames (options : List (Opt κ)) : List (Text × Opt κ) :=
  options.flatMap fun o => o.names.map (·, o)

def named? (options : List (Opt κ)) (name : Text) : Option (Opt κ) :=
  (optionNames options).lookup name

/-- A minus sign in front of digits, which a point may divide; a line feed may follow. -/
def isNegativeNumber (s : Text) : Bool :=
  match s with
  | '-' :: number =>
      let number := if number.getLast? = some '\n' then number.dropLast else number
      let whole := number.takeWhile Text.isDecimal
      match number.dropWhile Text.isDecimal with
      | [] => !whole.isEmpty
      | c :: fraction => c = '.' && !fraction.isEmpty && fraction.all Text.isDecimal
  | _ => false

/-- The options that a shortened or joined argument may mean. -/
def candidates (options : List (Opt κ)) (s : Text) : List (Mention κ) :=
  if ['-', '-'].isPrefixOf s then
    let (front, value) := Text.cut '=' s
    let assigned := s.contains '='
    ((optionNames options).filter fun n => front.isPrefixOf n.1).map fun n =>
      ⟨n.2, n.1, assigned, if assigned then some value else none⟩
  else
    ((optionNames options).filter fun n => n.1 = s.take 2).map fun n =>
      ⟨n.2, n.1, false, some (s.drop 2)⟩

/-- What an argument is that begins with a minus sign and is no full name of an option. -/
def classifyPartial (options : List (Opt κ)) (s : Text) : Except UsageFault (Word κ) :=
  match candidates options s with
  | [m] => .ok (.option s (some m))
  | [] => .ok (if isNegativeNumber s || s.contains ' ' then .plain s else .option s none)
  | ms => .error (.ambiguous s (ms.map fun m => m.name))

def classify (options : List (Opt κ)) (s : Text) : Except UsageFault (Word κ) :=
  if s.head? ≠ some '-' then .ok (.plain s)
  else
    match named? options s with
    | some o => .ok (.option s (some ⟨o, s, false, none⟩))
    | none =>
        if s.length = 1 then .ok (.plain s)
        else
          let (front, value) := Text.cut '=' s
          match s.contains '=', named? options front with
          | true, some o => .ok (.option s (some ⟨o, front, true, some value⟩))
          | _, _ => classifyPartial options s

/-- The words of a list of arguments: behind the first separator all are plain. -/
def words (options : List (Opt κ)) : List Text → Except UsageFault (List (Word κ))
  | [] => .ok []
  | s :: rest =>
      if s = ['-', '-'] then .ok (.separator :: rest.map .plain)
      else do
        let w ← classify options s
        let ws ← words options rest
        pure (w :: ws)

end Classification

/-- What takes effect when a list of arguments is read. -/
inductive Step (κ : Type) where
  | option (key : κ) (value : Option Text)
  | operand (arguments : List Text)
  | extra (arguments : List Text)
  | fault (fault : UsageFault)

section Reading

variable {κ : Type}

/-- The options that one argument names: those that are complete, the last one if its value is to
follow in the next argument, and what is left over. -/
structure Joined (κ : Type) where
  complete : List (Opt κ × Option Text) := []
  awaiting : Option (Opt κ) := none
  extra : List Text := []

/-- Whether an option takes its value from the next argument, or needs none. -/
def Joined.close (o : Opt κ) : Joined κ :=
  if o.takesValue then { awaiting := some o } else { complete := [(o, none)] }

/-- An option in front of others. -/
def Joined.push (o : Opt κ) (j : Joined κ) : Joined κ :=
  { j with complete := (o, none) :: j.complete }

/-- Whether the second character of a name is another one than a minus sign. -/
def isShort (name : Text) : Bool := (name.drop 1).head? ≠ some '-'

/-- An option with text behind its name in the same argument: its value, or further short
options. -/
def joined (options : List (Opt κ)) (o : Opt κ) (short assigned : Bool) :
    Text → Except UsageFault (Joined κ)
  | [] =>
      if o.takesValue then .ok { complete := [(o, some [])] }
      else .error (.ignoredValue o.names [])
  | c :: s =>
      if o.takesValue then .ok { complete := [(o, some (c :: s))] }
      else if !short || assigned || c = '-' then .error (.ignoredValue o.names (c :: s))
      else
        match named? options ['-', c] with
        | none => .ok { complete := [(o, none)], extra := ['-' :: c :: s] }
        | some next =>
            match s with
            | [] => .ok ((Joined.close next).push o)
            | d :: more =>
                if d = '=' then (joined options next true true more).map (Joined.push o)
                else (joined options next true false (d :: more)).map (Joined.push o)

/-- The options that a mention brings. -/
def Mention.joined (options : List (Opt κ)) (m : Mention κ) : Except UsageFault (Joined κ) :=
  match m.value with
  | none => .ok (Joined.close m.option)
  | some value => Command.joined options m.option (isShort m.name) m.assigned value

/-- The step of an option with its value, which has to be one of the choices. -/
def optionStep (o : Opt κ) (value : Option Text) : Step κ :=
  match value with
  | some v =>
      if o.choices.isEmpty || o.choices.contains v then .option o.key value
      else .fault (.invalidChoice (Text.join "/" o.names) v o.choices)
  | none => .option o.key none

def Joined.steps (j : Joined κ) : List (Step κ) :=
  j.extra.map (fun s => Step.extra [s]) ++ j.complete.map fun c => optionStep c.1 c.2

/-- The operand at the front of the words, and the words behind it.  A separator beside it belongs
to it. -/
def takeOperand (operand : Operand) (ws : List (Word κ)) : Option (List Text × List (Word κ)) :=
  match operand, ws with
  | .nothing, _ => none
  | .single, .separator :: .plain s :: rest => some ([s], rest)
  | .single, .plain s :: .separator :: rest => some ([s], rest)
  | .single, .plain s :: rest => some ([s], rest)
  | .single, _ => none
  | .rest, .separator :: .plain s :: rest => some (['-', '-'] :: s :: rest.map Word.text, [])
  | .rest, .plain s :: rest => some (s :: rest.map Word.text, [])
  | .rest, _ => none

/-- Reads words one after the other.  `fuel` bounds the number of words. -/
def readWords (options : List (Opt κ)) (operand : Operand) :
    Nat → List (Word κ) → List (Step κ)
  | 0, _ => []
  | _, [] => []
  | fuel + 1, .option s mention :: rest =>
      match mention with
      | none => .extra [s] :: readWords options operand fuel rest
      | some m =>
          match m.joined options with
          | .error f => [.fault f]
          | .ok j =>
              match j.awaiting, rest with
              | none, _ => j.steps ++ readWords options operand fuel rest
              | some o, .plain v :: rest =>
                  j.steps ++ optionStep o (some v) :: readWords options operand fuel rest
              | some o, _ => [.fault (.expectedValue o.names)]
  | fuel + 1, w :: rest =>
      match takeOperand operand (w :: rest) with
      | some (arguments, behind) => .operand arguments :: readWords options .nothing fuel behind
      | none =>
          let skipped := (w :: rest).takeWhile fun w => !w.isOption
          .extra (skipped.map Word.text) ::
            readWords options operand fuel ((w :: rest).dropWhile fun w => !w.isOption)

/-- The steps of a list of arguments. -/
def readArguments (options : List (Opt κ)) (operand : Operand) (arguments : List Text) :
    List (Step κ) :=
  match words options arguments with
  | .error f => [.fault f]
  | .ok ws => readWords options operand (ws.length + 1) ws

end Reading

end ShellDoc.Command
