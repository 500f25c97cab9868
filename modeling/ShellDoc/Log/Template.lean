import ShellDoc.Value.Literal

/-!
# Message templates

A message may be a template with arguments: `%s` shows an argument, `%r` quotes it, `%d` writes it
as an integer, and `%%` is a percent sign.  Without arguments the text is the message as it stands.
All arguments have to be used; a single mapping is exempt from that.
-/

namespace ShellDoc.Log

inductive TemplateFault where
  | unusedArguments
  | missingArgument
  | notNumber (directive : Char) (kind : Text)
  | incomplete
  | unknownDirective (directive : Char) (index : Nat)
  deriving DecidableEq, Repr

namespace TemplateFault

def message : TemplateFault → Text
  | unusedArguments => "not all arguments converted during string formatting"
  | missingArgument => "not enough arguments for format string"
  | notNumber d kind =>
      Text.concat ["%", [d], " format: a real number is required, not ", kind]
  | incomplete => "incomplete format"
  | unknownDirective d index =>
      Text.concat ["unsupported format character '", [d], "' (0x", Text.hex 1 d.toNat,
        ") at index ", Text.ofNat index]

end TemplateFault

/-- An argument as an integer, the fraction of a real number being dropped. -/
def integerText (directive : Char) (v : Value) : Except TemplateFault Text :=
  match v with
  | .bool b => .ok (if b then ['1'] else ['0'])
  | .int n => .ok (Text.ofInt n)
  | .real x =>
      match x.truncated? with
      | some n => .ok (Text.ofInt n)
      | none => .error (.notNumber directive v.kind)
  | _ => .error (.notNumber directive v.kind)

/-- The text of an argument under a directive. -/
def directiveText (directive : Char) (index : Nat) (v : Value) : Except TemplateFault Text :=
  if directive = 's' then .ok v.display
  else if directive = 'r' then .ok v.literal
  else if directive = 'd' || directive = 'i' || directive = 'u' then integerText directive v
  else .error (.unknownDirective directive index)

/-- The filled template and the arguments that are left.  `afterPercent` tells that the character
before was a percent sign that opens a directive, and `index` counts the characters. -/
def fillFrom (index : Nat) (afterPercent : Bool) (args : List Value) :
    Text → Except TemplateFault (Text × List Value)
  | [] => if afterPercent then .error .incomplete else .ok ([], args)
  | c :: s =>
      if afterPercent then
        if c = '%' then (fillFrom (index + 1) false args s).map fun r => (c :: r.1, r.2)
        else
          match args with
          | [] => .error .missingArgument
          | v :: args => do
              let shown ← directiveText c index v
              let rest ← fillFrom (index + 1) false args s
              pure (shown ++ rest.1, rest.2)
      else if c = '%' then fillFrom (index + 1) true args s
      else (fillFrom (index + 1) false args s).map fun r => (c :: r.1, r.2)

/-- Whether the arguments are one mapping with entries, which need not be used. -/
def areOneMapping : List Value → Bool
  | [.mapping es] => !es.isEmpty
  | _ => false

/-- The message of a template with its arguments. -/
def fill (template : Text) (args : List Value) : Except TemplateFault Text :=
  if args.isEmpty then .ok template
  else do
    let (message, unused) ← fillFrom 0 false args template
    if unused.isEmpty || areOneMapping args then pure message else .error .unusedArguments

@[simp] theorem fill_nil (template : Text) : fill template [] = .ok template := rfl

end ShellDoc.Log
