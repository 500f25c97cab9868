import ShellDoc.Settings.Reader

/-!
# Overriding settings

A value that is given replaces a setting; a value that is empty, false or null counts as not given,
so that a flag can turn a setting on and never off.
-/

namespace ShellDoc

/-- Settings that are given for one run. -/
structure Overrides where
  title : Text := []
  output : Text := []
  force : Bool := false
  keepExtension : Bool := false
  copyright : Text := []
  tableOfContents : Bool := false
  capitalize : Bool := false
  deriving DecidableEq, Repr

/-- A text that is given, or the one before. -/
def Text.orElse (given base : Text) : Text := if given.isEmpty then base else given

namespace Settings

def override (s : Settings) (o : Overrides) : Settings :=
  { s with
    title := o.title.orElse s.title
    output := o.output.orElse s.output
    force := o.force || s.force
    keepExtension := o.keepExtension || s.keepExtension
    copyright := o.copyright.orElse s.copyright
    tableOfContents := o.tableOfContents || s.tableOfContents
    capitalize := o.capitalize || s.capitalize }

/-- Whether a value counts as not given: null, false, an empty text or list, and zero, which equals
false. -/
def isAbsent (v : Value) : Bool :=
  match v with
  | .null => true
  | .text s => s.isEmpty
  | .list vs => vs.isEmpty
  | v => v.integer? = some 0

/-- The members of a value as a list. -/
def listed : Value → Except Refusal Value
  | .list vs => .ok (.list vs)
  | .text s => .ok (.list (s.map fun c => .text [c]))
  | .mapping es => .ok (.list (es.map Prod.fst))
  | v => .error (.noMembers v.kind)

/-- The value of a key after unchecked values are put over the settings. -/
def overriddenValue (s : Settings) (given : Fields Value) (key : Key) : Value :=
  match given.get? key.name with
  | some v => if isAbsent v then (s.get key).toValue else v
  | none => (s.get key).toValue

/-- The settings with unchecked values over them, of which the two lists are made lists again. -/
def overrideValues (s : Settings) (given : Fields Value) : Except Refusal (Fields Value) :=
  Key.all.mapM fun key => do
    let v := s.overriddenValue given key
    let v ← match key with
      | .allowedDialects => listed v
      | .sourceExtensions => listed v
      | _ => pure v
    pure (key.name, v)

end Settings

end ShellDoc
