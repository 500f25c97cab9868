import ShellDoc.Settings.Basic
import ShellDoc.Text.Blank
import ShellDoc.Value.Literal

/-!
# Settings from a value

A mapping from keys to values gives settings.  Unknown keys are refused first, then the values are
looked at in the order of the keys.  A missing or null value leaves the default; a list may also be
given as a text with commas.  A value that is no mapping is refused too, by the way in which it
fails to be one.
-/

namespace ShellDoc.Settings

/-- Why a value holds no settings. -/
inductive Refusal where
  | unknownKeys (names : List Text)
  | notText (key : Key) (value : Value)
  | notFlag (key : Key) (value : Value)
  | notList (key : Key) (value : Value)
  /-- A value of the wrong kind holds an integer that is too long for a message. -/
  | unwritable
  /-- The value has no members at all. -/
  | noMembers (kind : Text)
  /-- A member cannot be a key. -/
  | collectionKey (kind : Text)
  /-- The first of the unknown keys in their order is no text. -/
  | keyNotText (kind : Text)
  /-- The unknown keys have no order. -/
  | incomparable (kind other : Text)
  /-- The members are all known, but have no values. -/
  | noMapping (kind : Text)
  deriving Repr

namespace Refusal

def typed (key : Key) (expected : Text) (value : Value) : Text :=
  Text.concat ["\"", key.name, "\" must be ", expected, ", got ", value.literal]

def message : Refusal → Text
  | unknownKeys names => Text.concat ["Unknown configuration keys: ", Text.join ", " names]
  | notText key value => typed key "a string" value
  | notFlag key value => typed key "true or false" value
  | notList key value => typed key "a list of strings" value
  | unwritable =>
      Text.concat ["Exceeds the limit (", Text.ofNat Decimal.digitLimit,
        " digits) for integer string conversion; use sys.set_int_max_str_digits() to ",
        "increase the limit"]
  | noMembers kind => Text.concat ["'", kind, "' object is not iterable"]
  | collectionKey kind => Text.concat ["unhashable type: '", kind, "'"]
  | keyNotText kind =>
      Text.concat ["sequence item 0: expected str instance, ", kind, " found"]
  | incomparable kind other =>
      Text.concat ["'<' not supported between instances of '", kind, "' and '", other, "'"]
  | noMapping kind => Text.concat ["'", kind, "' object has no attribute 'get'"]

end Refusal

/-- Collections cannot be keys. -/
def checkScalars : List Value → Except Refusal Unit
  | [] => .ok ()
  | .list vs :: _ => .error (.collectionKey (Value.list vs).kind)
  | .mapping es :: _ => .error (.collectionKey (Value.mapping es).kind)
  | _ :: vs => checkScalars vs

/-- The members of a value among which its keys are. -/
def members : Value → Except Refusal (List Value)
  | .mapping entries => .ok (entries.map Prod.fst)
  | .list items => do
      checkScalars items
      pure items
  | .text s => .ok (s.map fun c => .text [c])
  | v => .error (.noMembers v.kind)

def textOf? : Value → Option Text
  | .text s => some s
  | _ => none

def isKnown (v : Value) : Bool :=
  match v with
  | .text s => Key.names.contains s
  | _ => false

/-- Each key once. -/
def withoutRepeats : List Value → List Value
  | [] => []
  | v :: vs => v :: (withoutRepeats vs).filter fun w => !Value.sameKey v w

/-- Whether the first number is not greater than the second. -/
def numberLe (x y : Decimal.Binary64) : Bool :=
  match x, y with
  | .nan, _ => false
  | _, .nan => false
  | .infinite true, _ => true
  | _, .infinite false => true
  | .infinite false, _ => false
  | _, .infinite true => false
  | .finite s m e, .finite s' m' e' =>
      let r := Decimal.Binary64.ratio m e
      let r' := Decimal.Binary64.ratio m' e'
      let a : Int := (if s then -1 else 1) * (r.1 * r'.2)
      let b : Int := (if s' then -1 else 1) * (r'.1 * r.2)
      a ≤ b

/-- The refusal for unknown keys of which one is no text. -/
def refuseKeys (unknown : List Value) : Refusal :=
  match unknown with
  | [] => .unknownKeys []
  | v :: vs =>
      if vs.isEmpty then .keyNotText v.kind
      else if unknown.all fun w => w.number?.isSome then
        let least := vs.foldl (fun least w =>
          match least.number?, w.number? with
          | some x, some y => if numberLe x y then least else w
          | _, _ => least) v
        .keyNotText least.kind
      else
        match vs.find? fun w => w.kind ≠ v.kind with
        | some w => .incomparable w.kind v.kind
        | none => .keyNotText v.kind

/-- No member is unknown. -/
def checkKeys (v : Value) : Except Refusal Unit := do
  let unknown := withoutRepeats ((← members v).filter fun k => !isKnown k)
  match unknown.mapM textOf? with
  | some [] => pure ()
  | some names => .error (.unknownKeys (Text.sort names))
  | none => .error (refuseKeys unknown)

/-- The value of a key, nothing where it is missing or null. -/
def given? (entries : List (Value × Value)) (key : Key) : Option Value :=
  match Value.entry? entries key.name with
  | some .null => none
  | other => other

/-- The refusal of a value, whose message has to quote it. -/
def refuse (refusal : Value → Refusal) (v : Value) : Refusal :=
  if v.isWritable then refusal v else .unwritable

def readText (entries : List (Value × Value)) (key : Key) (default : Text) :
    Except Refusal Text :=
  match given? entries key with
  | none => .ok default
  | some (.text s) => .ok s
  | some v => .error (refuse (.notText key) v)

def readFlag (entries : List (Value × Value)) (key : Key) (default : Bool) :
    Except Refusal Bool :=
  match given? entries key with
  | none => .ok default
  | some (.bool b) => .ok b
  | some v => .error (refuse (.notFlag key) v)

def readList (entries : List (Value × Value)) (key : Key) (default : List Text) :
    Except Refusal (List Text) :=
  match given? entries key with
  | none => .ok default
  | some (.text s) => .ok (Text.items s)
  | some (.list vs) =>
      match vs.mapM textOf? with
      | some ts => .ok ts
      | none => .error (refuse (.notList key) (.list vs))
  | some v => .error (refuse (.notList key) v)

/-- The settings of the entries of a mapping. -/
def ofEntries (entries : List (Value × Value)) : Except Refusal Settings := do
  let d : Settings := {}
  let title ← readText entries .title d.title
  let output ← readText entries .output d.output
  let force ← readFlag entries .force d.force
  let keepExtension ← readFlag entries .keepExtension d.keepExtension
  let copyright ← readText entries .copyright d.copyright
  let tableOfContents ← readFlag entries .tableOfContents d.tableOfContents
  let capitalize ← readFlag entries .capitalize d.capitalize
  let defaultDialect ← readText entries .defaultDialect d.defaultDialect
  let allowedDialects ← readList entries .allowedDialects d.allowedDialects
  let sourceExtensions ← readList entries .sourceExtensions d.sourceExtensions
  let contentsFile ← readText entries .contentsFile d.contentsFile
  let contentsHeading ← readText entries .contentsHeading d.contentsHeading
  pure
    { title := Text.strip title, output, force, keepExtension,
      copyright := Text.strip copyright, tableOfContents, capitalize, defaultDialect,
      allowedDialects, sourceExtensions, contentsFile, contentsHeading }

/-- The settings that a value holds. -/
def ofValue (v : Value) : Except Refusal Settings := do
  checkKeys v
  match v with
  | .mapping entries => ofEntries entries
  | v => .error (.noMapping v.kind)

end ShellDoc.Settings
