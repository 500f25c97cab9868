import ShellDoc.Text.Utf8

/-!
# File trees

A file tree is a list of places with what stands there: a regular file with its bytes, or a
directory.  A place is the list of names that leads to it from the top; the top itself is always a
directory.  Putting something at a place changes that place and no other.
-/

namespace ShellDoc.Files

open Text (Bytes)

abbrev Location := List Text

inductive Node where
  | file (content : Bytes)
  | directory
  deriving DecidableEq, Repr

structure Tree where
  nodes : List (Location × Node) := []
  deriving DecidableEq, Repr

namespace Tree

def lookup (place : Location) : List (Location × Node) → Option Node
  | [] => none
  | n :: ns => if n.1 = place then some n.2 else lookup place ns

/-- What stands at a place. -/
def get? (t : Tree) (place : Location) : Option Node :=
  if place = [] then some .directory else lookup place t.nodes

def replace (place : Location) (node : Node) : List (Location × Node) → List (Location × Node)
  | [] => [(place, node)]
  | n :: ns => if n.1 = place then (place, node) :: ns else n :: replace place node ns

/-- The tree with a node at a place. -/
def put (t : Tree) (place : Location) (node : Node) : Tree := ⟨replace place node t.nodes⟩

/-- The tree without a place and all that lies below it. -/
def remove (t : Tree) (place : Location) : Tree :=
  ⟨t.nodes.filter fun n => !place.isPrefixOf n.1⟩

/-- The names directly in a directory. -/
def children (t : Tree) (place : Location) : List Text :=
  (t.nodes.filter fun n => n.1 ≠ [] ∧ n.1.dropLast = place).filterMap fun n => n.1.getLast?

def isDirectory (t : Tree) (place : Location) : Bool := t.get? place = some .directory

theorem lookup_replace_self (place : Location) (node : Node) (ns : List (Location × Node)) :
    lookup place (replace place node ns) = some node := by
  induction ns with
  | nil => simp [replace, lookup]
  | cons n ns ih => by_cases h : n.1 = place <;> simp [replace, lookup, h, ih]

theorem lookup_replace_of_ne {place other : Location} (h : other ≠ place) (node : Node)
    (ns : List (Location × Node)) : lookup other (replace place node ns) = lookup other ns := by
  have h' : ¬ place = other := fun e => h e.symm
  induction ns with
  | nil => simp [replace, lookup, h']
  | cons n ns ih =>
      by_cases hn : n.1 = place
      · simp [replace, lookup, hn, h']
      · simp [replace, lookup, hn, ih]

theorem get?_put_self (t : Tree) {place : Location} (h : place ≠ []) (node : Node) :
    (t.put place node).get? place = some node := by
  simp [get?, put, h, lookup_replace_self]

theorem get?_put_of_ne (t : Tree) {place other : Location} (h : other ≠ place) (node : Node) :
    (t.put place node).get? other = t.get? other := by
  simp [get?, put, lookup_replace_of_ne h]

end Tree

end ShellDoc.Files
