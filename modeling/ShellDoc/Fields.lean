import ShellDoc.Text.Basic

/-!
# Fields

A record of named values in order of first appearance.  Putting a name that is already there
replaces its value in place; a new name goes to the end.
-/

namespace ShellDoc

abbrev Fields (α : Type) := List (Text × α)

namespace Fields

variable {α : Type}

def put (fs : Fields α) (name : Text) (value : α) : Fields α :=
  match fs with
  | [] => [(name, value)]
  | f :: fs => if f.1 = name then (name, value) :: fs else f :: put fs name value

def get? (fs : Fields α) (name : Text) : Option α :=
  match fs with
  | [] => none
  | f :: fs => if f.1 = name then some f.2 else get? fs name

/-- Puts the fields of the second record one after the other into the first. -/
def putAll (fs gs : Fields α) : Fields α := gs.foldl (fun acc g => put acc g.1 g.2) fs

/-- A list of pairs as a record, in which each name stands once. -/
def ofPairs (ps : List (Text × α)) : Fields α := putAll [] ps

def names (fs : Fields α) : List Text := fs.map Prod.fst

@[simp] theorem put_nil (name : Text) (value : α) : put [] name value = [(name, value)] := rfl

theorem put_cons (f : Text × α) (fs : Fields α) (name : Text) (value : α) :
    put (f :: fs) name value =
      if f.1 = name then (name, value) :: fs else f :: put fs name value := rfl

theorem get?_cons (f : Text × α) (fs : Fields α) (name : Text) :
    get? (f :: fs) name = if f.1 = name then some f.2 else get? fs name := rfl

@[simp] theorem putAll_nil (fs : Fields α) : putAll fs [] = fs := rfl

@[simp] theorem putAll_cons (fs gs : Fields α) (g : Text × α) :
    putAll fs (g :: gs) = putAll (put fs g.1 g.2) gs := rfl

/-- The names after a `put`: the same ones, or the new one at the end. -/
theorem names_put (fs : Fields α) (name : Text) (value : α) :
    names (put fs name value) =
      if name ∈ names fs then names fs else names fs ++ [name] := by
  induction fs with
  | nil => simp [names]
  | cons f fs ih =>
      by_cases h : f.1 = name
      · simp [put_cons, names, h]
      · have h' : ¬ name = f.1 := fun e => h e.symm
        by_cases hm : name ∈ names fs
        · simp only [names] at ih hm ⊢
          simp [put_cons, h, h', ih, hm]
        · simp only [names] at ih hm ⊢
          simp [put_cons, h, h', ih, hm]

theorem get?_put_self (fs : Fields α) (name : Text) (value : α) :
    get? (put fs name value) name = some value := by
  induction fs with
  | nil => exact if_pos rfl
  | cons f fs ih =>
      by_cases h : f.1 = name
      · simp [put_cons, get?_cons, h]
      · simp [put_cons, get?_cons, h, ih]

theorem get?_put_of_ne (fs : Fields α) {name other : Text} (value : α) (h : other ≠ name) :
    get? (put fs name value) other = get? fs other := by
  have h' : ¬ name = other := fun e => h e.symm
  induction fs with
  | nil => exact if_neg h'
  | cons f fs ih =>
      by_cases hf : f.1 = name
      · simp [put_cons, get?_cons, hf, h']
      · simp [put_cons, get?_cons, hf, ih]

end Fields

end ShellDoc
