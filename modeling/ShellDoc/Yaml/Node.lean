import ShellDoc.Fields
import ShellDoc.Yaml.Plain
import ShellDoc.Yaml.Token

/-!
# Nodes of a YAML document

A text holds at most one document, and a document is one node: a scalar, a sequence or a mapping.
An alias stands for the node with the anchor of its name, so the nodes here hold none.

The functions of the grammar are bounded by the number of tokens: between two of them that call each
other a token is taken.
-/

namespace ShellDoc.Yaml

inductive Node where
  | scalar (tag : Tag) (text : Text)
  | sequence (tag : Tag) (items : List Node)
  | mapping (tag : Tag) (entries : List (Node × Node))
  deriving Repr

/-- The node where nothing is written. -/
def Node.empty : Node := .scalar .null []

/-- How far a document has been read: the tokens that are left, the nodes with anchors, of which
those that are not finished have no value, and what the handles of tags stand for. -/
structure Reading where
  tokens : List Token
  anchors : Fields (Option Node)
  handles : Fields Text

/-- The handles that need no directive. -/
def defaultHandles : Fields Text := [(['!'], ['!']), (['!', '!'], Tag.commonFront)]

namespace Reading

def next? (r : Reading) : Option Token := r.tokens.head?

def skip (r : Reading) : Reading := { r with tokens := r.tokens.tail }

/-- Whether the next token is one of some tokens. -/
def isAt (r : Reading) (ts : List Token) : Bool :=
  match r.next? with
  | some t => ts.contains t
  | none => false

def takeAnchor (r : Reading) : Option Text × Reading :=
  match r.next? with
  | some (.anchor name) => (some name, r.skip)
  | _ => (none, r)

def takeTag (r : Reading) : Option TagName × Reading :=
  match r.next? with
  | some (.tag name) => (some name, r.skip)
  | _ => (none, r)

/-- The anchor and the tag of a node, in either order. -/
def takeProperties (r : Reading) : Option Text × Option TagName × Reading :=
  match r.takeAnchor with
  | (some name, r) =>
      let (tag, r) := r.takeTag
      (some name, tag, r)
  | (none, r) =>
      match r.takeTag with
      | (some tag, r) =>
          let (name, r) := r.takeAnchor
          (name, some tag, r)
      | (none, r) => (none, none, r)

/-- The full name of a tag; `none` where the form of the node decides, which an exclamation mark
alone asks for too. -/
def fullName (r : Reading) : Option TagName → Except Fault (Option Text)
  | none => .ok none
  | some ⟨none, suffix⟩ => .ok (if suffix = ['!'] then none else some suffix)
  | some ⟨some handle, suffix⟩ =>
      match r.handles.get? handle with
      | none => .error .malformed
      | some front => .ok (if front ++ suffix = ['!'] then none else some (front ++ suffix))

/-- Declares an anchor, whose node is not finished. -/
def declare (r : Reading) : Option Text → Except Fault Reading
  | none => .ok r
  | some name =>
      match r.anchors.get? name with
      | some _ => .error .malformed
      | none => .ok { r with anchors := r.anchors.put name none }

/-- The node of an anchor is finished. -/
def define (r : Reading) (anchor : Option Text) (n : Node) : Reading :=
  match anchor with
  | none => r
  | some name => { r with anchors := r.anchors.put name (some n) }

end Reading

/-- Where nodes may stand: among the lines of a block, there also as a sequence that is not deeper
than the mapping around it, or in a flow collection. -/
inductive Place where
  | block
  | blockValue
  | flow
  deriving DecidableEq, Repr

mutual

/-- The next node. -/
def node : Nat → Place → Reading → Except Fault (Node × Reading)
  | 0, _, _ => .error .malformed
  | fuel + 1, place, r =>
      match r.next? with
      | some (.alias name) =>
          match r.anchors.get? name with
          | some (some n) => .ok (n, r.skip)
          | _ => .error .malformed
      | _ => do
          let (anchor, written, r) := r.takeProperties
          let full ← r.fullName written
          let r ← r.declare anchor
          let tagOr (t : Tag) : Tag := (full.map Tag.ofName).getD t
          let (n, r) ← match r.next? with
            | some .blockEntry =>
                if place = .blockValue then do
                  let (items, r) ← indentlessItems fuel r
                  pure (Node.sequence (tagOr .list) items, r)
                else if anchor.isSome || written.isSome then
                  pure (Node.scalar (tagOr (Plain.tag [])) [], r)
                else .error .malformed
            | some (.scalar s plain) =>
                let form := if plain || written.isSome then Plain.tag s else .text
                pure (Node.scalar (tagOr form) s, r.skip)
            | some .flowSequenceStart => do
                let (items, r) ← flowItems fuel true r.skip
                pure (Node.sequence (tagOr .list) items, r)
            | some .flowMappingStart => do
                let (entries, r) ← flowEntries fuel true r.skip
                pure (Node.mapping (tagOr .mapping) entries, r)
            | other =>
                if other = some .blockSequenceStart && place ≠ .flow then do
                  let (items, r) ← blockItems fuel r.skip
                  pure (Node.sequence (tagOr .list) items, r)
                else if other = some .blockMappingStart && place ≠ .flow then do
                  let (entries, r) ← blockEntries fuel r.skip
                  pure (Node.mapping (tagOr .mapping) entries, r)
                else if anchor.isSome || written.isSome then
                  pure (Node.scalar (tagOr (Plain.tag [])) [], r)
                else .error .malformed
          pure (n, r.define anchor n)

/-- The next node, or the empty one in front of one of some tokens. -/
def nodeUnless : Nat → List Token → Place → Reading → Except Fault (Node × Reading)
  | 0, _, _, _ => .error .malformed
  | fuel + 1, stops, place, r => if r.isAt stops then .ok (.empty, r) else node fuel place r

/-- The items of a block up to its end. -/
def blockItems : Nat → Reading → Except Fault (List Node × Reading)
  | 0, _ => .error .malformed
  | fuel + 1, r =>
      match r.next? with
      | some .blockEntry => do
          let (n, r) ← nodeUnless fuel [.blockEntry, .blockEnd] .block r.skip
          let (ns, r) ← blockItems fuel r
          pure (n :: ns, r)
      | some .blockEnd => .ok ([], r.skip)
      | _ => .error .malformed

/-- The items of a sequence that has no block of its own. -/
def indentlessItems : Nat → Reading → Except Fault (List Node × Reading)
  | 0, _ => .error .malformed
  | fuel + 1, r =>
      match r.next? with
      | some .blockEntry => do
          let (n, r) ← nodeUnless fuel [.blockEntry, .key, .value, .blockEnd] .block r.skip
          let (ns, r) ← indentlessItems fuel r
          pure (n :: ns, r)
      | _ => .ok ([], r)

/-- The entries of a block up to its end. -/
def blockEntries : Nat → Reading → Except Fault (List (Node × Node) × Reading)
  | 0, _ => .error .malformed
  | fuel + 1, r =>
      let stops := [.key, .value, .blockEnd]
      let valueAndMore (k : Node) (r : Reading) : Except Fault (List (Node × Node) × Reading) := do
        let (v, r) ← if r.isAt [.value] then nodeUnless fuel stops .blockValue r.skip
          else .ok (.empty, r)
        let (es, r) ← blockEntries fuel r
        pure ((k, v) :: es, r)
      match r.next? with
      | some .key => do
          let (k, r) ← nodeUnless fuel stops .blockValue r.skip
          valueAndMore k r
      | some .blockEnd => .ok ([], r.skip)
      | _ => .error .malformed

/-- The items of a flow sequence up to its end; an item may be a single entry of a mapping. -/
def flowItems : Nat → Bool → Reading → Except Fault (List Node × Reading)
  | 0, _, _ => .error .malformed
  | fuel + 1, first, r =>
      if r.isAt [.flowSequenceEnd] then .ok ([], r.skip)
      else if !first && !r.isAt [.flowEntry] then .error .malformed
      else
        let r := if first then r else r.skip
        if r.isAt [.key] then do
          let (k, r) ← nodeUnless fuel [.value, .flowEntry, .flowSequenceEnd] .flow r.skip
          let (v, r) ← if r.isAt [.value] then
              nodeUnless fuel [.flowEntry, .flowSequenceEnd] .flow r.skip
            else .ok (.empty, r)
          let (ns, r) ← flowItems fuel false r
          pure (.mapping .mapping [(k, v)] :: ns, r)
        else if r.isAt [.flowSequenceEnd] then .ok ([], r.skip)
        else do
          let (n, r) ← node fuel .flow r
          let (ns, r) ← flowItems fuel false r
          pure (n :: ns, r)

/-- The entries of a flow mapping up to its end; an entry may be a key alone. -/
def flowEntries : Nat → Bool → Reading → Except Fault (List (Node × Node) × Reading)
  | 0, _, _ => .error .malformed
  | fuel + 1, first, r =>
      if r.isAt [.flowMappingEnd] then .ok ([], r.skip)
      else if !first && !r.isAt [.flowEntry] then .error .malformed
      else
        let r := if first then r else r.skip
        if r.isAt [.key] then do
          let (k, r) ← nodeUnless fuel [.value, .flowEntry, .flowMappingEnd] .flow r.skip
          let (v, r) ← if r.isAt [.value] then
              nodeUnless fuel [.flowEntry, .flowMappingEnd] .flow r.skip
            else .ok (.empty, r)
          let (es, r) ← flowEntries fuel false r
          pure ((k, v) :: es, r)
        else if r.isAt [.flowMappingEnd] then .ok ([], r.skip)
        else do
          let (k, r) ← node fuel .flow r
          let (es, r) ← flowEntries fuel false r
          pure ((k, .empty) :: es, r)

end

/-- The directives in front of a document: a version at most once, which has to be a first one, and
handles, each at most once. -/
def takeDirectives (version : Bool) (handles : Fields Text) :
    List Token → Except Fault (Fields Text × List Token)
  | .directive d :: ts =>
      match d with
      | .version major =>
          if version || major ≠ 1 then .error .malformed else takeDirectives true handles ts
      | .tag handle expansion =>
          if (handles.get? handle).isSome then .error .malformed
          else takeDirectives version (handles.put handle expansion) ts
      | .other => takeDirectives version handles ts
  | ts => .ok (handles, ts)

/-- Whether a document ends here before it has a node. -/
def endsDocument : Option Token → Bool
  | none => true
  | some (.directive _) => true
  | some .documentStart => true
  | some .documentEnd => true
  | _ => false

/-- The node of the only document; `none` when there is no document. -/
def document (ts : List Token) : Except Fault (Option Node) := do
  let fuel := 4 * ts.length + 4
  let begins := match ts.head? with
    | some (.directive _) => true
    | some .documentStart => true
    | _ => false
  if ts.isEmpty then .ok none
  else
    let (n, r) ← if begins then do
        let (declared, rest) ← takeDirectives false [] ts
        if rest.head? ≠ some .documentStart then .error .malformed
        else
          let handles := defaultHandles.putAll declared
          let r : Reading := ⟨rest.tail, [], handles⟩
          if endsDocument r.next? then pure (Node.empty, r) else node fuel .block r
      else node fuel .block ⟨ts, [], defaultHandles⟩
    if (r.tokens.dropWhile (· = .documentEnd)).isEmpty then pure (some n) else .error .malformed

end ShellDoc.Yaml
