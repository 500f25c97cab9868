import ShellDoc.Files.Access
import Mathlib.Data.List.Basic
import Mathlib.Tactic.ByContra

/-!
# What a change of the tree keeps

`Tree.Kept W t t'` says that everything in `t` is still there in `t'`: directories as they are, and
files with the same content except at the places in `W`, where a file may have another one.  Putting
a node at a free place keeps all there is, and putting a file over a file keeps all but that file.

A path is followed name by name (`walk_cons_eq_ok_iff`), and a name stays, goes up, or goes down to
something that is there (`walk_name_eq_ok_iff`).  A path that could be followed in `t` leads to the
same place in `t'` (`walk_of_kept`), so what a path names survives every such change.  A file that
is written stands at the place that its path names from then on (`locate_of_locateOutput`), and it
stands at a free place if its path named nothing before.
-/

namespace ShellDoc

theorem Text.not_mem_of_mem_pieces {sep : Char} {s piece : Text} (h : piece ∈ pieces sep s) :
    sep ∉ piece := by
  induction s generalizing piece with
  | nil =>
      rw [pieces, List.mem_singleton] at h
      simp [h]
  | cons c s ih =>
      rw [pieces] at h
      split at h
      · rcases List.mem_cons.mp h with rfl | h
        · exact List.not_mem_nil
        · exact ih h
      · rename_i hc
        split at h
        · rw [List.mem_singleton.mp h, List.mem_singleton]
          exact fun e => hc e.symm
        · rename_i first rest hpieces
          rw [hpieces] at ih
          rcases List.mem_cons.mp h with rfl | h
          · rw [List.mem_cons, not_or]
            exact ⟨fun e => hc e.symm, ih List.mem_cons_self⟩
          · exact ih (List.mem_cons_of_mem first h)

/-- Two steps succeed together when the second one succeeds on what the first one gives. -/
theorem bind_eq_ok_iff {ε α β : Type} {x : Except ε α} {f : α → Except ε β} {b : β} :
    x >>= f = .ok b ↔ ∃ a, x = .ok a ∧ f a = .ok b := by
  cases x with
  | error e => simp [bind, Except.bind]
  | ok a => simp [bind, Except.bind]

/-- Two steps fail together with the fault of the first one, or of the second one on what the first
one gives. -/
theorem bind_eq_error_iff {ε α β : Type} {x : Except ε α} {f : α → Except ε β} {e : ε} :
    x >>= f = .error e ↔ x = .error e ∨ ∃ a, x = .ok a ∧ f a = .error e := by
  cases x with
  | error e => simp [bind, Except.bind]
  | ok a => simp [bind, Except.bind]

theorem map_eq_ok_iff {ε α β : Type} {x : Except ε α} {f : α → β} {b : β} :
    x.map f = .ok b ↔ ∃ a, x = .ok a ∧ f a = b := by
  cases x <;> simp [Except.map]

theorem eq_ok_of_check {ε α : Type} [DecidableEq α] {x : Except ε α} {a : α}
    (h : (match x with
      | .ok b => decide (b = a)
      | .error _ => false) = true) : x = .ok a := by
  cases x with
  | ok b => rw [of_decide_eq_true h]
  | error e => cases h

theorem exists_error_of_check {ε α : Type} {x : Except ε α} {P : ε → Prop} [DecidablePred P]
    (h : (match x with
      | .ok _ => false
      | .error e => decide (P e)) = true) : ∃ e, x = .error e ∧ P e := by
  cases x with
  | ok a => cases h
  | error e => exact ⟨e, rfl, of_decide_eq_true h⟩

/-! ## Traversals that may fail -/

section

variable {ε α β : Type} {f : α → Except ε β}

theorem mapM_eq_ok_map_iff {g : α → β} {as : List α} :
    as.mapM f = .ok (as.map g) ↔ ∀ a ∈ as, f a = .ok (g a) := by
  induction as with
  | nil => simp [pure, Except.pure]
  | cons a as ih =>
      rw [List.mapM_cons, List.map_cons, List.forall_mem_cons, ← ih]
      cases f a with
      | error e => simp [bind, Except.bind]
      | ok b => cases as.mapM f <;> simp [bind, Except.bind, pure, Except.pure]

/-- A traversal succeeds when every element does. -/
theorem exists_mapM_eq_ok_iff {as : List α} :
    (∃ bs, as.mapM f = .ok bs) ↔ ∀ a ∈ as, ∃ b, f a = .ok b := by
  induction as with
  | nil => simp [pure, Except.pure]
  | cons a as ih =>
      rw [List.mapM_cons, List.forall_mem_cons, ← ih]
      simp only [bind_eq_ok_iff]
      constructor
      · rintro ⟨_, b, hb, bs, hbs, -⟩
        exact ⟨⟨b, hb⟩, bs, hbs⟩
      · rintro ⟨⟨b, hb⟩, bs, hbs⟩
        exact ⟨b :: bs, b, hb, bs, hbs, rfl⟩

theorem mapM_cons_eq_error_iff {e : ε} {a : α} {as : List α} :
    (a :: as).mapM f = .error e ↔
      f a = .error e ∨ (∃ b, f a = .ok b) ∧ as.mapM f = .error e := by
  rw [List.mapM_cons]
  cases f a with
  | error e' => simp [bind, Except.bind]
  | ok b => cases as.mapM f <;> simp [bind, Except.bind, pure, Except.pure]

/-- A traversal fails with the fault of the first element that has one. -/
theorem mapM_eq_error_iff {e : ε} {as : List α} :
    as.mapM f = .error e ↔ ∃ front a back, as = front ++ a :: back ∧
      (∀ b ∈ front, ∃ y, f b = .ok y) ∧ f a = .error e := by
  induction as with
  | nil => simp [pure, Except.pure]
  | cons a as ih =>
      rw [mapM_cons_eq_error_iff, ih]
      constructor
      · rintro (ha | ⟨ha, front, b, back, rfl, hfront, hb⟩)
        · exact ⟨[], a, as, rfl, by simp, ha⟩
        · exact ⟨a :: front, b, back, rfl, List.forall_mem_cons.mpr ⟨ha, hfront⟩, hb⟩
      · rintro ⟨front, b, back, happend, hfront, hb⟩
        cases front with
        | nil =>
            obtain ⟨rfl, -⟩ := List.cons.inj happend
            exact .inl hb
        | cons c front =>
            obtain ⟨rfl, rfl⟩ := List.cons.inj happend
            obtain ⟨ha, hfront⟩ := List.forall_mem_cons.mp hfront
            exact .inr ⟨ha, front, b, back, rfl, hfront, hb⟩

end

/-! ## What stays in a tree -/

namespace Files

namespace Tree

variable {t t' t'' : Tree} {place : Location} {W V : Location → Prop}

theorem replace_replace (place : Location) (a b : Node) (ns : List (Location × Node)) :
    replace place b (replace place a ns) = replace place b ns := by
  induction ns with
  | nil => simp [replace]
  | cons n ns ih => by_cases h : n.1 = place <;> simp [replace, h, ih]

/-- Of two nodes put at the same place, the second one stays. -/
theorem put_put (t : Tree) (place : Location) (a b : Node) :
    (t.put place a).put place b = t.put place b := by
  simp [put, replace_replace]

theorem ne_nil_of_get?_eq_none (h : t.get? place = none) : place ≠ [] := by
  rintro rfl
  simp [get?] at h

theorem replace_of_lookup_eq_none {node : Node} {ns : List (Location × Node)}
    (h : lookup place ns = none) : replace place node ns = ns ++ [(place, node)] := by
  induction ns with
  | nil => rfl
  | cons n ns ih =>
      by_cases hn : n.1 = place
      · simp [lookup, hn] at h
      · rw [lookup, if_neg hn] at h
        rw [replace, if_neg hn, ih h, List.cons_append]

/-- A node at a free place is the last one of the list. -/
theorem nodes_put_of_none {node : Node} (h : t.get? place = none) :
    (t.put place node).nodes = t.nodes ++ [(place, node)] := by
  have hne := ne_nil_of_get?_eq_none h
  rw [get?, if_neg hne] at h
  exact replace_of_lookup_eq_none h

/-- All that is in the first tree is in the second, save that files at the places in `W` may have
another content. -/
def Kept (W : Location → Prop) (t t' : Tree) : Prop :=
  ∀ place node, t.get? place = some node →
    t'.get? place = some node ∨
      W place ∧ node ≠ .directory ∧ ∃ content, t'.get? place = some (.file content)

namespace Kept

theorem refl (W : Location → Prop) (t : Tree) : Kept W t t := fun _ _ h => .inl h

theorem mono (h : Kept W t t') (hW : ∀ place node, t.get? place = some node → W place → V place) :
    Kept V t t' := by
  intro place node hnode
  rcases h place node hnode with hsame | ⟨hplace, hother⟩
  · exact .inl hsame
  · exact .inr ⟨hW place node hnode hplace, hother⟩

theorem trans (h : Kept W t t') (h' : Kept V t' t'') :
    Kept (fun place => W place ∨ V place) t t'' := by
  intro place node hnode
  rcases h place node hnode with hsame | ⟨hplace, hfile, content, hcontent⟩
  · rcases h' place node hsame with hsame' | ⟨hplace', hother⟩
    · exact .inl hsame'
    · exact .inr ⟨.inr hplace', hother⟩
  · rcases h' place _ hcontent with hsame' | ⟨-, -, hother⟩
    · exact .inr ⟨.inl hplace, hfile, content, hsame'⟩
    · exact .inr ⟨.inl hplace, hfile, hother⟩

theorem get?_of_not (h : Kept W t t') {node : Node} (hnode : t.get? place = some node)
    (hplace : ¬ W place) : t'.get? place = some node :=
  (h place node hnode).resolve_right fun hother => hplace hother.1

theorem directory (h : Kept W t t') (hplace : t.get? place = some .directory) :
    t'.get? place = some .directory :=
  (h place _ hplace).resolve_right fun hother => hother.2.1 rfl

theorem isSome (h : Kept W t t') (hplace : (t.get? place).isSome) : (t'.get? place).isSome := by
  obtain ⟨node, hnode⟩ := Option.isSome_iff_exists.mp hplace
  rcases h place node hnode with hsame | ⟨-, -, content, hcontent⟩
  · rw [hsame]
    rfl
  · rw [hcontent]
    rfl

/-- What is there stays a directory, or something that is none. -/
theorem isDirectory (h : Kept W t t') (hplace : (t.get? place).isSome) :
    t'.isDirectory place = t.isDirectory place := by
  obtain ⟨node, hnode⟩ := Option.isSome_iff_exists.mp hplace
  rcases h place node hnode with hsame | ⟨-, hfile, content, hcontent⟩
  · rw [Tree.isDirectory, Tree.isDirectory, hsame, hnode]
  · simp [Tree.isDirectory, hnode, hcontent, hfile]

theorem put_of_none (hplace : t.get? place = none) (node : Node) :
    Kept W t (t.put place node) := by
  intro other old hold
  have hne : other ≠ place := by
    rintro rfl
    rw [hplace] at hold
    cases hold
  rw [get?_put_of_ne t hne]
  exact .inl hold

/-- A file over something that is no directory. -/
theorem put_file (hne : place ≠ []) (hplace : t.isDirectory place = false) (content : Text.Bytes) :
    Kept (· = place) t (t.put place (.file content)) := by
  intro other old hold
  by_cases h : other = place
  · subst h
    have hfile : old ≠ .directory := by
      rintro rfl
      simp [Tree.isDirectory, hold] at hplace
    exact .inr ⟨rfl, hfile, content, get?_put_self t hne _⟩
  · rw [get?_put_of_ne t h]
    exact .inl hold

end Kept

end Tree

/-! ## Following a path -/

section Access

variable {t t' : Tree} {wd place origin₀ : Location} {path : Text} {W : Location → Prop}

theorem walk_nil (t : Tree) (start : Location) : walk t start [] = .ok start := rfl

theorem walk_cons (t : Tree) (start : Location) (name : Text) (names : List Text) :
    walk t start (name :: names) =
      match t.get? start with
      | some .directory =>
          if name = current then walk t start names
          else if name = upward then walk t start.dropLast names
          else if !nameFits name then .error .nameTooLong
          else if (t.get? (start ++ [name])).isNone then .error .notFound
          else walk t (start ++ [name]) names
      | _ => .error .notDirectory := rfl

theorem walk_append (t : Tree) (start : Location) (xs ys : List Text) :
    walk t start (xs ++ ys) = (walk t start xs).bind fun place => walk t place ys := by
  induction xs generalizing start with
  | nil => rfl
  | cons name xs ih =>
      rw [List.cons_append, walk_cons, walk_cons]
      split
      · split
        · exact ih start
        · split
          · exact ih start.dropLast
          · split
            · rfl
            · split
              · rfl
              · exact ih _
      · rfl

theorem walk_append_eq_ok_iff {start : Location} {xs ys : List Text} :
    walk t start (xs ++ ys) = .ok place ↔
      ∃ middle, walk t start xs = .ok middle ∧ walk t middle ys = .ok place := by
  rw [walk_append]
  exact bind_eq_ok_iff

theorem walk_cons_eq_ok_iff {start : Location} {name : Text} {names : List Text} :
    walk t start (name :: names) = .ok place ↔
      ∃ middle, walk t start [name] = .ok middle ∧ walk t middle names = .ok place := by
  rw [← List.singleton_append, walk_append_eq_ok_iff]

theorem walk_name {start : Location} {name : Text} (hdirectory : t.get? start = some .directory)
    (hcurrent : name ≠ current) (hupward : name ≠ upward) :
    walk t start [name] =
      if !nameFits name then .error .nameTooLong
      else if (t.get? (start ++ [name])).isNone then .error .notFound
      else .ok (start ++ [name]) := by
  rw [walk_cons, hdirectory]
  simp only [if_neg hcurrent, if_neg hupward, walk_nil]

/-- All that a single name can do: stay, go up, or go down to something that is there. -/
theorem walk_name_eq_ok_iff {start : Location} {name : Text} :
    walk t start [name] = .ok place ↔
      t.get? start = some .directory ∧
        (name = current ∧ place = start ∨ name = upward ∧ place = start.dropLast ∨
          (name ≠ current ∧ name ≠ upward) ∧ nameFits name = true ∧
            (t.get? (start ++ [name])).isSome = true ∧ place = start ++ [name]) := by
  have hdots : current ≠ upward := by decide
  by_cases hdirectory : t.get? start = some .directory
  · by_cases hcurrent : name = current
    · have hstay : walk t start [current] = .ok start := by
        rw [walk_cons, hdirectory]
        rfl
      simp [hcurrent, hstay, hdirectory, hdots, @eq_comm _ place]
    by_cases hupward : name = upward
    · have hup : walk t start [upward] = .ok start.dropLast := by
        rw [walk_cons, hdirectory]
        rfl
      simp [hupward, hup, hdirectory, hdots.symm, @eq_comm _ place]
    rw [walk_name hdirectory hcurrent hupward]
    by_cases hfits : nameFits name = true
    · cases hthere : t.get? (start ++ [name]) <;>
        simp [hcurrent, hupward, hfits, hdirectory, @eq_comm _ place]
    · simp [hcurrent, hupward, hfits]
  · have hstop : walk t start [name] = .error .notDirectory := by
      rw [walk_cons]
      split
      · contradiction
      · rfl
    simp [hstop, hdirectory]

/-- A single dot stays where it is, in a directory. -/
theorem walk_current_eq_ok_iff {start : Location} :
    walk t start [current] = .ok place ↔ place = start ∧ t.get? start = some .directory := by
  have hdots : current ≠ upward := by decide
  rw [walk_name_eq_ok_iff]
  simp [hdots, and_comm]

/-- Names are followed in directories only. -/
theorem directory_of_walk_cons {start : Location} {name : Text} {names : List Text}
    (h : walk t start (name :: names) = .ok place) : t.get? start = some .directory := by
  obtain ⟨middle, hname, -⟩ := walk_cons_eq_ok_iff.mp h
  exact (walk_name_eq_ok_iff.mp hname).1

/-- Names that could be followed lead to the same place when everything on the way is kept. -/
theorem walk_of_kept (h : t.Kept W t') {start : Location} {names : List Text}
    (hwalk : walk t start names = .ok place) : walk t' start names = .ok place := by
  induction names generalizing start with
  | nil => exact hwalk
  | cons name names ih =>
      obtain ⟨middle, hname, hrest⟩ := walk_cons_eq_ok_iff.mp hwalk
      refine walk_cons_eq_ok_iff.mpr ⟨middle, ?_, ih hrest⟩
      rw [walk_name_eq_ok_iff] at hname ⊢
      obtain ⟨hdirectory, hstay | hup | ⟨hordinary, hfits, hthere, hmiddle⟩⟩ := hname
      · exact ⟨h.directory hdirectory, .inl hstay⟩
      · exact ⟨h.directory hdirectory, .inr (.inl hup)⟩
      · exact ⟨h.directory hdirectory, .inr (.inr ⟨hordinary, hfits, h.isSome hthere, hmiddle⟩)⟩

/-- Names that lead to a directory lead there already in a tree that has all the directories. -/
theorem walk_of_directories
    (h : ∀ place, t'.get? place = some .directory → t.get? place = some .directory)
    {start : Location} {names : List Text} (hwalk : walk t' start names = .ok place)
    (hplace : t'.get? place = some .directory) : walk t start names = .ok place := by
  induction names generalizing start with
  | nil => exact hwalk
  | cons name names ih =>
      obtain ⟨middle, hname, hrest⟩ := walk_cons_eq_ok_iff.mp hwalk
      refine walk_cons_eq_ok_iff.mpr ⟨middle, ?_, ih hrest⟩
      -- The walk goes on from the middle, or ends there: a directory in either case.
      have hmiddle : t.get? middle = some .directory := by
        cases names with
        | nil =>
            cases hrest
            exact h _ hplace
        | cons next names => exact h _ (directory_of_walk_cons hrest)
      rw [walk_name_eq_ok_iff] at hname ⊢
      obtain ⟨hdirectory, hstay | hup | ⟨hordinary, hfits, -, rfl⟩⟩ := hname
      · exact ⟨h _ hdirectory, .inl hstay⟩
      · exact ⟨h _ hdirectory, .inr (.inl hup)⟩
      · exact ⟨h _ hdirectory, .inr (.inr ⟨hordinary, hfits, by simp [hmiddle], rfl⟩)⟩

theorem located_eq_ok_iff {α : Type} {r : Except SystemError α} {a : α} :
    located path r = .ok a ↔ r = .ok a := by
  cases r <;> simp [located]

theorem locate_eq_ok_iff :
    locate t wd path = .ok place ↔
      checkPath path = .ok () ∧
        walk t (origin wd path) (namesOf path ++ if endsWithSlash path then [current] else []) =
          .ok place := by
  rw [locate, bind_eq_ok_iff]
  constructor
  · rintro ⟨⟨⟩, hchecked, hwalk⟩
    exact ⟨hchecked, located_eq_ok_iff.mp hwalk⟩
  · rintro ⟨hchecked, hwalk⟩
    exact ⟨(), hchecked, located_eq_ok_iff.mpr hwalk⟩

/-- What a path names survives. -/
theorem locate_of_kept (h : t.Kept W t') (hlocate : locate t wd path = .ok place) :
    locate t' wd path = .ok place := by
  rw [locate_eq_ok_iff] at hlocate ⊢
  exact ⟨hlocate.1, walk_of_kept h hlocate.2⟩

theorem locateFile_eq_ok_iff :
    locateFile t wd path = .ok place ↔
      locate t wd path = .ok place ∧ t.isDirectory place = false := by
  rw [locateFile, bind_eq_ok_iff]
  constructor
  · rintro ⟨p, hlocate, hp⟩
    split at hp
    · cases hp
    · rename_i hfile
      cases hp
      exact ⟨hlocate, by simpa using hfile⟩
  · rintro ⟨hlocate, hfile⟩
    refine ⟨place, hlocate, ?_⟩
    rw [hfile]
    rfl

theorem pathIsDirectory_eq_true_iff :
    pathIsDirectory t wd path = .ok true ↔
      ∃ place, locate t wd path = .ok place ∧ t.get? place = some .directory := by
  rw [pathIsDirectory]
  cases hlocate : locate t wd path with
  | ok place => simp [answer, Tree.isDirectory]
  | error f =>
      cases f with
      | nullCharacter => simp [answer]
      | system e p => cases e <;> simp [answer]

theorem pathIsFile_eq_true_iff :
    pathIsFile t wd path = .ok true ↔
      ∃ place, locate t wd path = .ok place ∧ t.isDirectory place = false := by
  rw [pathIsFile]
  cases hlocate : locate t wd path with
  | ok place => simp [answer]
  | error f =>
      cases f with
      | nullCharacter => simp [answer]
      | system e p => cases e <;> simp [answer]

theorem pathExists_of_locate (hlocate : locate t wd path = .ok place) :
    pathExists t wd path = .ok true := by
  rw [pathExists, hlocate]
  rfl

theorem readFile_of_locate {content : Text.Bytes} (hlocate : locate t wd path = .ok place)
    (hfile : t.get? place = some (.file content)) : readFile t wd path = .ok content := by
  have hplace : locateFile t wd path = .ok place := by
    rw [locateFile_eq_ok_iff]
    exact ⟨hlocate, by simp [Tree.isDirectory, hfile]⟩
  rw [readFile, hplace]
  simp [Except.map, contentAt, hfile]

theorem contentAt_put_of_ne {other : Location} (hne : other ≠ place) (node : Node) :
    contentAt (t.put place node) other = contentAt t other := by
  rw [contentAt, contentAt, Tree.get?_put_of_ne t hne]

/-! ## Where files and directories are made -/

theorem lastStep_eq_ok_iff {name : Text} :
    lastStep t wd path = .ok (place, name) ↔
      checkPath path = .ok () ∧ name = (namesOf path).getLast?.getD current ∧
        walk t (origin wd path) ((namesOf path).dropLast ++ [current]) = .ok place := by
  rw [lastStep, bind_eq_ok_iff]
  simp only [bind_eq_ok_iff, located_eq_ok_iff]
  constructor
  · rintro ⟨⟨⟩, hchecked, p, hwalk, hstep⟩
    cases hstep
    exact ⟨hchecked, rfl, hwalk⟩
  · rintro ⟨hchecked, rfl, hwalk⟩
    exact ⟨(), hchecked, place, hwalk, rfl⟩

/-- A path ends in an ordinary name, in a directory that the names before it lead to. -/
structure EndsIn (t : Tree) (wd : Location) (path : Text) (parent : Location) (name : Text) :
    Prop where
  checked : checkPath path = .ok ()
  names : namesOf path = (namesOf path).dropLast ++ [name]
  walk : walk t (origin wd path) (namesOf path).dropLast = .ok parent
  directory : t.get? parent = some .directory
  ordinary : name ≠ current ∧ name ≠ upward
  fits : nameFits name = true

theorem endsIn_of_lastStep {parent : Location} {name : Text}
    (h : lastStep t wd path = .ok (parent, name)) (hordinary : name ≠ current ∧ name ≠ upward)
    (hfits : nameFits name = true) : EndsIn t wd path parent name := by
  obtain ⟨hchecked, hname, hwalk⟩ := lastStep_eq_ok_iff.mp h
  obtain ⟨middle, hfront, hcurrent⟩ := walk_append_eq_ok_iff.mp hwalk
  obtain ⟨rfl, hdirectory⟩ := walk_current_eq_ok_iff.mp hcurrent
  have hlast : (namesOf path).getLast? = some name := by
    cases hnames : (namesOf path).getLast? with
    | none =>
        rw [hnames] at hname
        exact absurd hname hordinary.1
    | some last =>
        rw [hnames] at hname
        rw [hname]
        rfl
  exact ⟨hchecked, (List.dropLast_append_getLast? name hlast).symm, hfront, hdirectory, hordinary,
    hfits⟩

namespace EndsIn

variable {parent : Location} {name : Text}

/-- The path names the place below its directory as soon as something stands there. -/
theorem locate (h : EndsIn t wd path parent name) (hkept : t.Kept W t')
    (hslash : endsWithSlash path = true → t'.get? (parent ++ [name]) = some .directory)
    (hthere : (t'.get? (parent ++ [name])).isSome) :
    locate t' wd path = .ok (parent ++ [name]) := by
  have hlast : Files.walk t' parent [name] = .ok (parent ++ [name]) := by
    have hthere' : ¬ (t'.get? (parent ++ [name])).isNone = true := by
      rwa [Bool.not_eq_true, Option.isNone_eq_false_iff]
    rw [walk_name (hkept.directory h.directory) h.ordinary.1 h.ordinary.2, h.fits,
      if_neg hthere']
    rfl
  have hnames : Files.walk t' (origin wd path) (namesOf path) = .ok (parent ++ [name]) := by
    rw [h.names, walk_append_eq_ok_iff]
    exact ⟨parent, walk_of_kept hkept h.walk, hlast⟩
  rw [locate_eq_ok_iff]
  refine ⟨h.checked, ?_⟩
  rw [walk_append_eq_ok_iff]
  refine ⟨_, hnames, ?_⟩
  split
  · rename_i hends
    exact walk_current_eq_ok_iff.mpr ⟨rfl, hslash hends⟩
  · rfl

/-- A path that ends in an ordinary name has its last step there. -/
theorem lastStep (h : EndsIn t wd path parent name) :
    Files.lastStep t wd path = .ok (parent, name) := by
  refine lastStep_eq_ok_iff.mpr ⟨h.checked, ?_, ?_⟩
  · rw [h.names, List.getLast?_append]
    rfl
  · exact walk_append_eq_ok_iff.mpr ⟨parent, h.walk, walk_current_eq_ok_iff.mpr ⟨rfl, h.directory⟩⟩

theorem locateOutput (h : EndsIn t wd path parent name)
    (hslash : endsWithSlash path = false) (hfile : t.isDirectory (parent ++ [name]) = false) :
    Files.locateOutput t wd path = .ok (parent ++ [name]) := by
  refine bind_eq_ok_iff.mpr ⟨(parent, name), h.lastStep, ?_⟩
  simp [h.ordinary.1, h.ordinary.2, hslash, h.fits, hfile, pure, Except.pure]

theorem of_kept (h : EndsIn t wd path parent name) (hkept : t.Kept W t') :
    EndsIn t' wd path parent name :=
  ⟨h.checked, h.names, walk_of_kept hkept h.walk, hkept.directory h.directory, h.ordinary, h.fits⟩

theorem of_directories (hends : EndsIn t' wd path parent name)
    (h : ∀ place, t'.get? place = some .directory → t.get? place = some .directory) :
    EndsIn t wd path parent name :=
  ⟨hends.checked, hends.names, walk_of_directories h hends.walk hends.directory,
    h parent hends.directory, hends.ordinary, hends.fits⟩

/-- Whether an output exists is whether something stands at its place. -/
theorem pathExists (h : EndsIn t wd path parent name)
    (hslash : endsWithSlash path = false) :
    Files.pathExists t wd path = .ok (t.get? (parent ++ [name])).isSome := by
  have hlast : Files.walk t parent [name] =
      if (t.get? (parent ++ [name])).isNone then .error .notFound else .ok (parent ++ [name]) := by
    rw [walk_name h.directory h.ordinary.1 h.ordinary.2, h.fits]
    rfl
  have hwalk : Files.walk t (origin wd path) (namesOf path) =
      if (t.get? (parent ++ [name])).isNone then .error .notFound else .ok (parent ++ [name]) := by
    rw [h.names, walk_append, h.walk, ← hlast]
    rfl
  rw [Files.pathExists, Files.locate, h.checked, hslash]
  simp only [Bool.false_eq_true, if_false, List.append_nil, hwalk]
  cases t.get? (parent ++ [name]) with
  | none => rfl
  | some node => rfl

end EndsIn

theorem locateOutput_eq_ok (h : locateOutput t wd path = .ok place) :
    ∃ parent name, place = parent ++ [name] ∧ EndsIn t wd path parent name ∧
      endsWithSlash path = false ∧ t.isDirectory place = false := by
  obtain ⟨⟨parent, name⟩, hlast, h⟩ := bind_eq_ok_iff.mp h
  dsimp only at h
  split at h
  · cases h
  · rename_i hname
    simp only [Bool.or_eq_true, decide_eq_true_eq, not_or, Bool.not_eq_true] at hname
    split at h
    · cases h
    · rename_i hfits
      split at h
      · cases h
      · rename_i hdirectory
        cases h
        exact ⟨parent, name, rfl, endsIn_of_lastStep hlast hname.1 (by simpa using hfits),
          hname.2, by simpa using hdirectory⟩

theorem ne_nil_of_locateOutput (h : locateOutput t wd path = .ok place) : place ≠ [] := by
  obtain ⟨parent, name, rfl, -⟩ := locateOutput_eq_ok h
  simp

/-- The place for a file is the one that the path names once the file is there. -/
theorem locate_of_locateOutput (h : locateOutput t wd path = .ok place) (hkept : t.Kept W t')
    (hthere : (t'.get? place).isSome) : locate t' wd path = .ok place := by
  obtain ⟨parent, name, rfl, hends, hslash, -⟩ := locateOutput_eq_ok h
  refine hends.locate hkept ?_ hthere
  intro hends'
  rw [hslash] at hends'
  cases hends'

/-- What is written to a path is read from it. -/
theorem readFile_of_writeFile {content : Text.Bytes} (h : writeFile t wd path content = .ok t') :
    readFile t' wd path = .ok content := by
  cases hplace : locateOutput t wd path with
  | error f =>
      rw [writeFile, hplace] at h
      cases h
  | ok place =>
      rw [writeFile, hplace] at h
      obtain rfl : t.put place (.file content) = t' := Except.ok.inj h
      obtain ⟨-, -, -, -, -, hdirectory⟩ := locateOutput_eq_ok hplace
      have hne := ne_nil_of_locateOutput hplace
      have hthere := t.get?_put_self hne (.file content)
      have hkept := Tree.Kept.put_file hne hdirectory content
      exact readFile_of_locate (locate_of_locateOutput hplace hkept (by rw [hthere]; rfl)) hthere

/-- The place for a file stays where it is as long as nothing but files comes there. -/
theorem locateOutput_of_kept (h : locateOutput t wd path = .ok place) (hkept : t.Kept W t')
    (hfile : t'.isDirectory place = false) : locateOutput t' wd path = .ok place := by
  obtain ⟨parent, name, rfl, hends, hslash, -⟩ := locateOutput_eq_ok h
  exact (hends.of_kept hkept).locateOutput hslash hfile

theorem pathExists_of_locateOutput (h : locateOutput t wd path = .ok place) :
    pathExists t wd path = .ok (t.get? place).isSome := by
  obtain ⟨parent, name, rfl, hends, hslash, -⟩ := locateOutput_eq_ok h
  exact hends.pathExists hslash

/-- A path that names nothing leads to a free place. -/
theorem get?_eq_none_of_locateOutput (h : locateOutput t wd path = .ok place)
    (hfree : pathExists t wd path = .ok false) : t.get? place = none := by
  by_contra hthere
  have hlocate := locate_of_locateOutput h (Tree.Kept.refl (fun _ => False) t)
    (Option.isSome_iff_ne_none.mpr hthere)
  rw [pathExists_of_locate hlocate] at hfree
  cases hfree

end Access

/-! ## Names -/

/-- A text that can stand in a path as the name of a file or directory. -/
structure IsName (name : Text) : Prop where
  ne_nil : name ≠ []
  ne_current : name ≠ current
  ne_upward : name ≠ upward
  not_mem_slash : '/' ∉ name

instance (name : Text) : Decidable (IsName name) :=
  decidable_of_iff (name ≠ [] ∧ name ≠ current ∧ name ≠ upward ∧ '/' ∉ name)
    ⟨fun h => ⟨h.1, h.2.1, h.2.2.1, h.2.2.2⟩,
      fun h => ⟨h.ne_nil, h.ne_current, h.ne_upward, h.not_mem_slash⟩⟩

/-- Every name in the tree can stand in a path, as the names of files and directories do. -/
def Tree.WellNamed (t : Tree) : Prop := ∀ n ∈ t.nodes, ∀ name ∈ n.1, IsName name

instance (t : Tree) : Decidable t.WellNamed :=
  inferInstanceAs (Decidable (∀ n ∈ t.nodes, ∀ name ∈ n.1, IsName name))

theorem not_mem_slash_of_mem_namesOf {path name : Text} (h : name ∈ namesOf path) : '/' ∉ name :=
  Text.not_mem_of_mem_pieces (List.mem_filter.mp h).1

theorem ne_nil_of_mem_namesOf {path name : Text} (h : name ∈ namesOf path) : name ≠ [] := by
  simpa using (List.mem_filter.mp h).2

theorem EndsIn.isName {t : Tree} {wd parent : Location} {path name : Text}
    (h : EndsIn t wd path parent name) : IsName name := by
  have hmem : name ∈ namesOf path := by
    rw [h.names]
    exact List.mem_append_right _ (List.mem_singleton_self name)
  exact ⟨ne_nil_of_mem_namesOf hmem, h.ordinary.1, h.ordinary.2,
    not_mem_slash_of_mem_namesOf hmem⟩

/-! ## Directories on the way to an output -/

/-- The second tree is the first one with directories at places that were free, all of them in
`N`. -/
def Tree.Grown (N : Location → Prop) (t t' : Tree) : Prop :=
  ∃ places : List Location, t'.nodes = t.nodes ++ places.map (·, .directory) ∧
    ∀ place ∈ places, t.get? place = none ∧ N place

namespace Tree

variable {t t' t'' : Tree} {place : Location} {N M W : Location → Prop}

theorem lookup_append (place : Location) (ns ms : List (Location × Node)) :
    lookup place (ns ++ ms) = (lookup place ns).or (lookup place ms) := by
  induction ns with
  | nil => rfl
  | cons n ns ih =>
      rw [List.cons_append, lookup, lookup, ih]
      split <;> rfl

theorem lookup_directories (place : Location) (places : List Location) :
    lookup place (places.map (·, .directory)) =
      if place ∈ places then some .directory else none := by
  induction places with
  | nil => rfl
  | cons p places ih =>
      rw [List.map_cons, lookup, ih]
      by_cases h : p = place
      · simp [h]
      · have h' : ¬ place = p := fun e => h e.symm
        simp [h, h']

namespace Grown

theorem refl (N : Location → Prop) (t : Tree) : Grown N t t := ⟨[], by simp⟩

/-- At each place there is what was there, or a directory where nothing was. -/
theorem get? (h : Grown N t t') (place : Location) :
    t'.get? place = t.get? place ∨
      t.get? place = none ∧ t'.get? place = some .directory ∧ N place := by
  obtain ⟨places, hnodes, hplaces⟩ := h
  by_cases hroot : place = []
  · exact .inl (by simp [Tree.get?, hroot])
  · have hget : t'.get? place =
        (t.get? place).or (if place ∈ places then some .directory else none) := by
      rw [Tree.get?, Tree.get?, if_neg hroot, if_neg hroot, hnodes, lookup_append,
        lookup_directories]
    by_cases hmem : place ∈ places
    · obtain ⟨hfree, hplace⟩ := hplaces place hmem
      refine .inr ⟨hfree, ?_, hplace⟩
      rw [hget, hfree, if_pos hmem]
      rfl
    · refine .inl ?_
      rw [hget, if_neg hmem, Option.or_none]

theorem kept (h : Grown N t t') : Kept W t t' := by
  intro place node hnode
  rcases h.get? place with hsame | ⟨hfree, -⟩
  · exact .inl (hsame.trans hnode)
  · rw [hfree] at hnode
    cases hnode

theorem mono (h : Grown N t t') (hN : ∀ place, N place → M place) : Grown M t t' := by
  obtain ⟨places, hnodes, hplaces⟩ := h
  refine ⟨places, hnodes, ?_⟩
  intro place hmem
  exact ⟨(hplaces place hmem).1, hN place (hplaces place hmem).2⟩

theorem trans (h : Grown N t t') (h' : Grown N t' t'') : Grown N t t'' := by
  obtain ⟨places, hnodes, hplaces⟩ := h
  obtain ⟨places', hnodes', hplaces'⟩ := h'
  refine ⟨places ++ places', ?_, ?_⟩
  · rw [hnodes', hnodes, List.map_append, List.append_assoc]
  · intro place hmem
    rcases List.mem_append.mp hmem with hmem | hmem
    · exact hplaces place hmem
    · obtain ⟨hfree, hplace⟩ := hplaces' place hmem
      refine ⟨?_, hplace⟩
      -- What is free in the larger tree was free in the smaller one.
      rcases Grown.get? ⟨places, hnodes, hplaces⟩ place with hsame | ⟨hfree', -⟩
      · rw [← hsame, hfree]
      · exact hfree'

theorem put_directory (hfree : t.get? place = none) (hplace : N place) :
    Grown N t (t.put place .directory) := by
  refine ⟨[place], nodes_put_of_none hfree, ?_⟩
  intro p hp
  rw [List.mem_singleton.mp hp]
  exact ⟨hfree, hplace⟩

end Grown

end Tree

section Directories

variable {t t' : Tree} {wd place : Location} {path root : Text}

/-- A directory made for a path: the path names it, and its last name is a proper one. -/
structure MadeFor (t : Tree) (wd : Location) (path : Text) (place : Location) : Prop where
  locate : locate t wd path = .ok place
  isName : ∃ parent name, place = parent ++ [name] ∧ IsName name

theorem MadeFor.of_kept {W : Location → Prop} (h : MadeFor t wd path place) (hkept : t.Kept W t') :
    MadeFor t' wd path place :=
  ⟨locate_of_kept hkept h.locate, h.isName⟩

theorem makeDirectory_eq_ok (h : makeDirectory t wd path = .ok t') :
    ∃ place, t' = t.put place .directory ∧ t.get? place = none ∧ MadeFor t' wd path place := by
  obtain ⟨⟨parent, name⟩, hlast, h⟩ := bind_eq_ok_iff.mp h
  dsimp only at h
  split at h
  · cases h
  · rename_i hname
    simp only [Bool.or_eq_true, decide_eq_true_eq, not_or] at hname
    split at h
    · cases h
    · rename_i hfits
      split at h
      · cases h
      · rename_i hthere
        cases h
        have hfree : t.get? (parent ++ [name]) = none := by simpa using hthere
        have hends := endsIn_of_lastStep hlast hname (by simpa using hfits)
        have hmade : (t.put (parent ++ [name]) .directory).get? (parent ++ [name]) =
            some .directory := Tree.get?_put_self t (by simp) _
        have hkept : t.Kept (fun _ => False) (t.put (parent ++ [name]) .directory) :=
          Tree.Kept.put_of_none hfree _
        refine ⟨parent ++ [name], rfl, hfree, ?_, parent, name, rfl, hends.isName⟩
        exact hends.locate hkept (fun _ => hmade) (by rw [hmade]; rfl)

theorem ensureDirectory_grown (t : Tree) (wd : Location) (path : Text) :
    t.Grown (MadeFor (ensureDirectory t wd path).1 wd path) (ensureDirectory t wd path).1 := by
  rw [ensureDirectory]
  split
  · rename_i t' hmake
    obtain ⟨place, rfl, hfree, hmade⟩ := makeDirectory_eq_ok hmake
    exact Tree.Grown.put_directory hfree hmade
  · exact Tree.Grown.refl _ t
  · exact Tree.Grown.refl _ t

/-- A directory made on the way to a path whose parts are given in reverse. -/
def MadeOnWay (t : Tree) (wd : Location) (root : Text) (parts : List Text) (place : Location) :
    Prop :=
  ∃ front, front <:+ parts ∧ MadeFor t wd (Path.toText ⟨root, front.reverse⟩) place

theorem MadeOnWay.of_kept {W : Location → Prop} {parts : List Text}
    (h : MadeOnWay t wd root parts place) (hkept : t.Kept W t') :
    MadeOnWay t' wd root parts place := by
  obtain ⟨front, hfront, hmade⟩ := h
  exact ⟨front, hfront, hmade.of_kept hkept⟩

theorem ensureDirectoriesFor_grown (t : Tree) (wd : Location) (root : Text) (parts : List Text) :
    t.Grown (MadeOnWay (ensureDirectoriesFor t wd root parts).1 wd root parts)
      (ensureDirectoriesFor t wd root parts).1 := by
  induction parts generalizing t with
  | nil =>
      exact (ensureDirectory_grown t wd _).mono fun place hmade => ⟨[], List.suffix_refl _, hmade⟩
  | cons last front ih =>
      -- The whole path is tried first, and once more when the directories before it are there.
      have hwhole : ∀ t : Tree, t.Grown
          (MadeOnWay (ensureDirectory t wd (Path.toText ⟨root, (last :: front).reverse⟩)).1 wd root
            (last :: front))
          (ensureDirectory t wd (Path.toText ⟨root, (last :: front).reverse⟩)).1 := fun t =>
        (ensureDirectory_grown t wd _).mono fun place hmade =>
          ⟨last :: front, List.suffix_refl _, hmade⟩
      have hfront : ∀ t : Tree, t.Grown
          (MadeOnWay (ensureDirectoriesFor t wd root front).1 wd root (last :: front))
          (ensureDirectoriesFor t wd root front).1 := fun t =>
        (ih t).mono fun place ⟨rest, hrest, hmade⟩ =>
          ⟨rest, hrest.trans (List.suffix_cons last front), hmade⟩
      have hfirst := hwhole t
      rw [ensureDirectoriesFor]
      split
      · rename_i t₁ p htried
        rw [htried] at hfirst
        have hbefore := hfront t₁
        split
        · rename_i t₂ f hmade
          rw [hmade] at hbefore
          exact (hfirst.mono fun _ h => h.of_kept (W := fun _ => False) hbefore.kept).trans hbefore
        · rename_i t₂ hmade
          rw [hmade] at hbefore
          have hlast := hwhole t₂
          have hbefore' := (hfirst.mono fun _ h =>
            h.of_kept (W := fun _ => False) hbefore.kept).trans hbefore
          exact (hbefore'.mono fun _ h => h.of_kept (W := fun _ => False) hlast.kept).trans hlast
      · rename_i done htried
        exact hfirst

/-- Making the directory of a path adds directories at free places, each named by a beginning of
the path. -/
theorem ensureDirectories_grown (t : Tree) (wd : Location) (p : Path) :
    t.Grown
      (fun place => ∃ front, front <+: p.parts ∧
        MadeFor (ensureDirectories t wd p).1 wd (Path.toText ⟨p.root, front⟩) place)
      (ensureDirectories t wd p).1 := by
  refine (ensureDirectoriesFor_grown t wd p.root p.parts.reverse).mono ?_
  rintro place ⟨front, hfront, hmade⟩
  exact ⟨front.reverse, List.reverse_suffix.mp (by rwa [List.reverse_reverse]), hmade⟩

/-! ## Directories that are there in the end -/

theorem pathIsDirectory_of_kept {W : Location → Prop} (h : t.Kept W t')
    (hdirectory : pathIsDirectory t wd path = .ok true) :
    pathIsDirectory t' wd path = .ok true := by
  rw [pathIsDirectory_eq_true_iff] at hdirectory ⊢
  obtain ⟨place, hplace, hthere⟩ := hdirectory
  exact ⟨place, locate_of_kept h hplace, h.directory hthere⟩

theorem pathIsDirectory_of_ensureDirectory (h : (ensureDirectory t wd path).2 = .ok ()) :
    pathIsDirectory (ensureDirectory t wd path).1 wd path = .ok true := by
  rw [ensureDirectory] at h ⊢
  split at h
  · rename_i t' hmake
    obtain ⟨place, rfl, hfree, hmade⟩ := makeDirectory_eq_ok hmake
    have hne := Tree.ne_nil_of_get?_eq_none hfree
    exact pathIsDirectory_eq_true_iff.mpr ⟨place, hmade.locate, Tree.get?_put_self t hne _⟩
  · cases h
  · simp only [unlessDirectory] at h
    split at h
    · cases h
    · split at h
      · cases h
      · assumption
      · cases h

theorem pathIsDirectory_of_ensureDirectoriesFor {parts : List Text}
    (h : (ensureDirectoriesFor t wd root parts).2 = .ok ()) :
    pathIsDirectory (ensureDirectoriesFor t wd root parts).1 wd
      (Path.toText ⟨root, parts.reverse⟩) = .ok true := by
  cases parts with
  | nil => exact pathIsDirectory_of_ensureDirectory h
  | cons last front =>
      rw [ensureDirectoriesFor] at h ⊢
      split at h
      · split at h
        · cases h
        · exact pathIsDirectory_of_ensureDirectory h
      · exact pathIsDirectory_of_ensureDirectory h

theorem pathIsDirectory_of_ensureDirectories {p : Path}
    (h : (ensureDirectories t wd p).2 = .ok ()) :
    pathIsDirectory (ensureDirectories t wd p).1 wd p.toText = .ok true := by
  have hdirectory := pathIsDirectory_of_ensureDirectoriesFor h
  rwa [List.reverse_reverse] at hdirectory

/-! ## Directories that are there already -/

/-- The last step of a path that names something is there, or its directory is a file. -/
theorem lastStep_of_locate (h : locate t wd path = .ok place) :
    (∃ last, lastStep t wd path = .ok last) ∨
      lastStep t wd path = .error (.system .notDirectory path) := by
  obtain ⟨hchecked, hwalk⟩ := locate_eq_ok_iff.mp h
  obtain ⟨last, hnames, -⟩ := walk_append_eq_ok_iff.mp hwalk
  obtain ⟨parent, hparent⟩ : ∃ parent, walk t (origin wd path) (namesOf path).dropLast =
      .ok parent := by
    cases hlast : (namesOf path).getLast? with
    | none => exact ⟨_, by rw [List.getLast?_eq_none_iff.mp hlast]; rfl⟩
    | some name =>
        rw [← List.dropLast_append_getLast? name hlast] at hnames
        obtain ⟨parent, hparent, -⟩ := walk_append_eq_ok_iff.mp hnames
        exact ⟨parent, hparent⟩
  have hstep : walk t (origin wd path) ((namesOf path).dropLast ++ [current]) =
      walk t parent [current] := by
    rw [walk_append, hparent]
    rfl
  rw [lastStep, hchecked]
  simp only [hstep, walk, if_true]
  split
  · exact .inl ⟨_, rfl⟩
  · exact .inr rfl

/-- Making a directory that is there fails, and not for want of one that leads to it. -/
theorem makeDirectory_of_directory (h : locate t wd path = .ok place)
    (hthere : t.get? place = some .directory) :
    ∃ e, makeDirectory t wd path = .error (.system e path) ∧ e ≠ .notFound := by
  cases hmake : makeDirectory t wd path with
  | ok made =>
      obtain ⟨free, rfl, hfree, hmade⟩ := makeDirectory_eq_ok hmake
      have hplace := locate_of_kept (Tree.Kept.put_of_none (W := fun _ => False) hfree .directory) h
      rw [hmade.locate] at hplace
      cases hplace
      rw [hfree] at hthere
      cases hthere
  | error f =>
      rw [makeDirectory] at hmake
      rcases lastStep_of_locate h with ⟨⟨parent, name⟩, hlast⟩ | hlast
      · rw [hlast] at hmake
        simp only [bind, Except.bind] at hmake
        split at hmake
        · cases hmake
          exact ⟨_, rfl, by simp⟩
        · split at hmake
          · cases hmake
            exact ⟨_, rfl, by simp⟩
          · split at hmake
            · cases hmake
              exact ⟨_, rfl, by simp⟩
            · cases hmake
      · rw [hlast] at hmake
        cases hmake
        exact ⟨_, rfl, by simp⟩

theorem ensureDirectory_of_directory (h : pathIsDirectory t wd path = .ok true) :
    ensureDirectory t wd path = (t, .ok ()) := by
  obtain ⟨place, hplace, hthere⟩ := pathIsDirectory_eq_true_iff.mp h
  obtain ⟨e, hmake, he⟩ := makeDirectory_of_directory hplace hthere
  rw [ensureDirectory, hmake]
  cases e with
  | notFound => exact absurd rfl he
  | occupied => simp [unlessDirectory, h]
  | notDirectory => simp [unlessDirectory, h]
  | isDirectory => simp [unlessDirectory, h]
  | nameTooLong => simp [unlessDirectory, h]

/-- The directory of a path that is there already is left as it is. -/
theorem ensureDirectories_of_directory {p : Path} (h : pathIsDirectory t wd p.toText = .ok true) :
    ensureDirectories t wd p = (t, .ok ()) := by
  have hensured := ensureDirectory_of_directory h
  rw [ensureDirectories]
  cases hparts : p.parts.reverse with
  | nil =>
      have hp : p = ⟨p.root, []⟩ := by rw [← List.reverse_eq_nil_iff.mp hparts]
      rw [ensureDirectoriesFor, ← hp]
      exact hensured
  | cons last front =>
      have hp : (⟨p.root, (last :: front).reverse⟩ : Path) = p := by
        rw [← hparts, List.reverse_reverse]
      simp only [ensureDirectoriesFor, hp, hensured]

/-- A single dot is never made, only found. -/
theorem pathIsDirectory_of_ensureDirectory_current
    (h : (ensureDirectory t wd current).2 = .ok ()) :
    pathIsDirectory t wd current = .ok true := by
  have hmake : ∀ made, makeDirectory t wd current ≠ .ok made := by
    intro made hmake
    obtain ⟨⟨parent, name⟩, hlast, hmake⟩ := bind_eq_ok_iff.mp hmake
    obtain ⟨-, hname, -⟩ := lastStep_eq_ok_iff.mp hlast
    have hcurrent : name = current := hname
    simp [hcurrent] at hmake
  have htree : (ensureDirectory t wd current).1 = t := by
    rw [ensureDirectory]
    split
    · rename_i made hmade
      exact absurd hmade (hmake made)
    · rfl
    · rfl
  have hthere := pathIsDirectory_of_ensureDirectory h
  rwa [htree] at hthere

end Directories

end Files

end ShellDoc
