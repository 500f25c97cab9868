import ShellDoc.Yaml.Node
import ShellDoc.Yaml.Token.Lexer

/-!
# Values of a YAML text

A document stands for a value: a mapping takes the entries of the mappings that its merge keys name,
in front of its own, and of two entries with the same key the later one counts.
-/

namespace ShellDoc.Yaml

/-- Collections cannot be keys. -/
def checkKey : Value → Except Fault Value
  | .list _ => .error .malformed
  | .mapping _ => .error .malformed
  | v => .ok v

def Node.isMergeKey : Node → Bool
  | .scalar tag _ => tag = .mergeKey
  | .sequence tag _ => tag = .mergeKey
  | .mapping tag _ => tag = .mergeKey

mutual

def Node.value : Node → Except Fault Value
  | .scalar tag s => scalarValue tag s
  | .sequence tag items => do
      if tag = .list then
        let vs ← values items
        pure (.list vs)
      else .error .malformed
  | .mapping tag entries => do
      if tag = .mapping then
        let (merged, own) ← entryValues entries
        pure (.mapping ((merged ++ own).foldl (fun es e => Value.putEntry es e.1 e.2) []))
      else .error .malformed

def values : List Node → Except Fault (List Value)
  | [] => .ok []
  | n :: ns => do
      let v ← n.value
      let vs ← values ns
      pure (v :: vs)

/-- The entries that the merge keys of a mapping add, and its own entries. -/
def entryValues : List (Node × Node) →
    Except Fault (List (Value × Value) × List (Value × Value))
  | [] => .ok ([], [])
  | (k, v) :: es => do
      if k.isMergeKey then
        let added ← v.mergedEntries
        let (merged, own) ← entryValues es
        pure (added ++ merged, own)
      else
        let key ← match k with
          | .scalar .defaultKey s => .ok (Value.text s)
          | k => do checkKey (← k.value)
        let value ← v.value
        let (merged, own) ← entryValues es
        pure (merged, (key, value) :: own)

/-- The entries that a node adds to the mapping that names it behind a merge key. -/
def Node.mergedEntries : Node → Except Fault (List (Value × Value))
  | .mapping _ entries => do
      let (merged, own) ← entryValues entries
      pure (merged ++ own)
  | .sequence _ items => mergedLists items
  | .scalar _ _ => .error .malformed

/-- The entries of the mappings in a list, those of the last mapping first. -/
def mergedLists : List Node → Except Fault (List (Value × Value))
  | [] => .ok []
  | n :: ns => do
      let es ← match n with
        | .mapping _ entries => do
            let (merged, own) ← entryValues entries
            pure (merged ++ own)
        | _ => .error .malformed
      let more ← mergedLists ns
      pure (more ++ es)

end

/-- The value of a text; a text without a document stands for nothing. -/
def read (s : Text) : Except Fault Value := do
  match ← document (← tokens s) with
  | none => pure .null
  | some n => n.value

end ShellDoc.Yaml
