import ShellDoc.Proofs.FileAccess
import ShellDoc.Proofs.NaturalOrder
import ShellDoc.Run.Directory

/-!
# The scripts that a directory holds

The scripts of a directory are the entries of its listing that are files with one of the
extensions, in natural order (`discover_eq_ok_iff`).  The path of an entry is the path of the
directory with one name more, and it leads one step further (`locate_child`).  So directories that
are made anywhere in the tree, also in the directory itself, add nothing to its scripts
(`discover_of_grown`).
-/

namespace ShellDoc

open Files (Location Node Tree)

theorem Text.pieces_eq_splitOn (sep : Char) (s : Text) : pieces sep s = s.splitOn sep := by
  induction s with
  | nil => rfl
  | cons c s ih =>
      rw [pieces, List.splitOn_cons_eq_if_modifyHead, ← ih]
      by_cases h : c = sep
      · simp [h]
      · have h' : (c == sep) = false := by simpa using h
        rw [if_neg h, h']
        cases hpieces : pieces sep s with
        | nil => exact absurd hpieces (pieces_ne_nil sep s)
        | cons p ps => rfl

/-- Texts without the separator are the pieces of their join. -/
theorem Text.pieces_join {sep : Char} {parts : List Text} (hne : parts ≠ [])
    (h : ∀ part ∈ parts, sep ∉ part) : pieces sep (join [sep] parts) = parts := by
  rw [pieces_eq_splitOn, join]
  exact List.splitOn_intercalate sep h hne

/-! ## The text of a path -/

namespace Path

/-- The form of a path that was read from a text. -/
structure Normal (p : Path) : Prop where
  root : p.root = [] ∨ p.root = ['/'] ∨ p.root = ['/', '/']
  parts : ∀ part ∈ p.parts, part ≠ [] ∧ part ≠ Files.current ∧ '/' ∉ part

theorem normal_ofText (s : Text) : (ofText s).Normal := by
  constructor
  · show rootOf _ = [] ∨ rootOf _ = _ ∨ rootOf _ = _
    unfold rootOf
    split
    · exact .inl rfl
    · split
      · exact .inr (.inr rfl)
      · exact .inr (.inl rfl)
  · intro part hpart
    obtain ⟨hpiece, hordinary⟩ := List.mem_filter.mp hpart
    simp only [decide_eq_true_eq] at hordinary
    exact ⟨hordinary.1, hordinary.2, Text.not_mem_of_mem_pieces hpiece⟩

/-- The path of an entry of a directory. -/
def child (p : Path) (name : Text) : Path := ⟨p.root, p.parts ++ [name]⟩

@[simp] theorem name_child (p : Path) (name : Text) : (p.child name).name = name := by
  simp [child, Path.name]

theorem Normal.child {p : Path} (h : p.Normal) {name : Text} (hname : Files.IsName name) :
    (p.child name).Normal := by
  refine ⟨h.root, ?_⟩
  intro part hpart
  rcases List.mem_append.mp hpart with hpart | hpart
  · exact h.parts part hpart
  · rw [List.mem_singleton.mp hpart]
    exact ⟨hname.ne_nil, hname.ne_current, hname.not_mem_slash⟩

theorem toText_of_parts_ne {p : Path} (hne : p.parts ≠ []) :
    p.toText = p.root ++ Text.join ['/'] p.parts := by
  rw [toText, if_neg fun h => hne h.2]
  rfl

/-- The place where the following of a path begins. -/
def start (wd : Location) (p : Path) : Location := if p.root = [] then wd else []

theorem pieces_root_append {root : Text} (h : root = [] ∨ root = ['/'] ∨ root = ['/', '/'])
    (s : Text) :
    (Text.pieces '/' (root ++ s)).filter (· ≠ []) = (Text.pieces '/' s).filter (· ≠ []) := by
  rcases h with rfl | rfl | rfl <;> simp [Text.pieces]

theorem namesOf_toText {p : Path} (h : p.Normal) (hne : p.parts ≠ []) :
    Files.namesOf p.toText = p.parts := by
  rw [toText_of_parts_ne hne, Files.namesOf, pieces_root_append h.root,
    Text.pieces_join hne fun part hpart => (h.parts part hpart).2.2, List.filter_eq_self]
  intro part hpart
  simpa using (h.parts part hpart).1

theorem head?_join {parts : List Text} (h : ∀ part ∈ parts, part ≠ []) :
    (Text.join ['/'] parts).head? = parts.head?.bind List.head? := by
  cases parts with
  | nil => rfl
  | cons part parts =>
      obtain ⟨c, cs, rfl⟩ := List.exists_cons_of_ne_nil (h part List.mem_cons_self)
      cases parts with
      | nil => rfl
      | cons q qs => rfl

theorem origin_toText {p : Path} (h : p.Normal) (wd : Location) :
    Files.origin wd p.toText = p.start wd := by
  by_cases hne : p.parts = []
  · rcases h.root with hroot | hroot | hroot <;> simp [toText, start, Files.origin, hne, hroot]
  · rw [toText_of_parts_ne hne, Files.origin, start]
    rcases h.root with hroot | hroot | hroot
    · obtain ⟨part, parts, hparts⟩ := List.exists_cons_of_ne_nil hne
      have hpart := h.parts part (hparts ▸ List.mem_cons_self)
      obtain ⟨c, cs, rfl⟩ := List.exists_cons_of_ne_nil hpart.1
      have hc : '/' ≠ c := fun e => hpart.2.2 (e ▸ List.mem_cons_self)
      have hhead : (Text.join ['/'] p.parts).head? = some c := by
        rw [head?_join fun part hpart => (h.parts part hpart).1, hparts]
        rfl
      obtain ⟨rest, hrest⟩ := List.head?_eq_some_iff.mp hhead
      simp [hroot, hrest, hc]
    · simp [hroot]
    · simp [hroot]

theorem rootOf_takeWhile {root s : Text} (h : root = [] ∨ root = ['/'] ∨ root = ['/', '/'])
    (hs : s.head? ≠ some '/') : rootOf ((root ++ s).takeWhile (· = '/')).length = root := by
  have hstop : s.takeWhile (· = '/') = [] := by
    cases s with
    | nil => rfl
    | cons c s =>
        have hc : c ≠ '/' := fun e => hs (by rw [e]; rfl)
        simp [hc]
  rcases h with rfl | rfl | rfl <;> simp [hstop, rootOf]

/-- A path in normal form is read back from its text. -/
theorem ofText_toText {p : Path} (h : p.Normal) (hne : p.parts ≠ []) : ofText p.toText = p := by
  have hhead : (Text.join ['/'] p.parts).head? ≠ some '/' := by
    rw [head?_join fun part hpart => (h.parts part hpart).1]
    obtain ⟨part, parts, hparts⟩ := List.exists_cons_of_ne_nil hne
    intro hslash
    rw [hparts] at hslash
    exact (h.parts part (hparts ▸ List.mem_cons_self)).2.2 (List.mem_of_head? hslash)
  have hpieces : ((Text.pieces '/' p.toText).filter fun q => q ≠ [] ∧ q ≠ ['.']) = p.parts := by
    have hfilter : ((Text.pieces '/' p.toText).filter fun q => q ≠ [] ∧ q ≠ ['.']) =
        (Files.namesOf p.toText).filter (· ≠ ['.']) := by
      rw [Files.namesOf, List.filter_filter]
      exact List.filter_congr fun q _ => by simp [Bool.and_comm]
    rw [hfilter, namesOf_toText h hne, List.filter_eq_self]
    intro part hpart
    exact decide_eq_true (h.parts part hpart).2.1
  rw [ofText, hpieces, toText_of_parts_ne hne, rootOf_takeWhile h.root hhead]

theorem getLast?_join_append {parts : List Text} {last : Text} (hlast : last ≠ []) :
    (Text.join ['/'] (parts ++ [last])).getLast? = last.getLast? := by
  induction parts with
  | nil => simp
  | cons part parts ih =>
      have hcons : Text.join ['/'] ((part :: parts) ++ [last]) =
          part ++ '/' :: Text.join ['/'] (parts ++ [last]) := by
        cases parts with
        | nil => simp [Text.join, List.intercalate]
        | cons q qs => simp [Text.join, List.intercalate]
      rw [hcons, List.getLast?_append, List.getLast?_cons, ih,
        List.getLast?_eq_some_getLast hlast]
      rfl

theorem endsWithSlash_toText_child {p : Path} {name : Text} (hname : Files.IsName name) :
    Files.endsWithSlash (p.child name).toText = false := by
  have hne : (p.child name).parts ≠ [] := by simp [child]
  have hlast := List.getLast?_eq_some_getLast hname.ne_nil
  have hslash : name.getLast hname.ne_nil ≠ '/' := fun e =>
    hname.not_mem_slash (e ▸ List.getLast_mem hname.ne_nil)
  rw [Files.endsWithSlash, toText_of_parts_ne hne, List.getLast?_append, child,
    getLast?_join_append hname.ne_nil, hlast]
  simpa using hslash

end Path

/-! ## The entries of a directory -/

namespace Files

variable {t t' : Tree} {wd place : Location} {directory : Path} {name : Text}

theorem walk_parts_of_locate (h : directory.Normal)
    (hlocate : locate t wd directory.toText = .ok place) :
    walk t (directory.start wd) directory.parts = .ok place := by
  obtain ⟨-, hwalk⟩ := locate_eq_ok_iff.mp hlocate
  rw [Path.origin_toText h] at hwalk
  obtain ⟨middle, hnames, hend⟩ := walk_append_eq_ok_iff.mp hwalk
  by_cases hne : directory.parts = []
  · -- The path of a root, or a single dot: both ask for a directory and stay there.
    have hsteps : namesOf directory.toText ++
        (if endsWithSlash directory.toText then [current] else []) = [current] := by
      rcases h.root with hroot | hroot | hroot <;> rw [Path.toText, hne, hroot] <;> rfl
    rw [hsteps, walk_current_eq_ok_iff] at hwalk
    rw [hne, hwalk.1]
    rfl
  · rw [Path.namesOf_toText h hne] at hnames
    have hplace : place = middle := by
      split at hend
      · exact (walk_current_eq_ok_iff.mp hend).1
      · cases hend
        rfl
    rw [hplace]
    exact hnames

/-- The path of an entry leads one step further than the path of its directory. -/
theorem locate_child (h : directory.Normal) (hname : IsName name)
    (hlocate : locate t wd directory.toText = .ok place) :
    locate t wd (directory.child name).toText =
      checkPath (directory.child name).toText >>= fun _ =>
        located (directory.child name).toText (walk t place [name]) := by
  have hnames : namesOf (directory.child name).toText = directory.parts ++ [name] :=
    Path.namesOf_toText (h.child hname) (by simp [Path.child])
  have hstart : origin wd (directory.child name).toText = directory.start wd :=
    Path.origin_toText (h.child hname) wd
  have hwalk := walk_parts_of_locate h hlocate
  rw [locate, hnames, hstart, Path.endsWithSlash_toText_child hname]
  simp only [Bool.false_eq_true, if_false, List.append_nil, walk_append, hwalk]
  rfl

theorem mem_children_iff : name ∈ t.children place ↔ ∃ node, (place ++ [name], node) ∈ t.nodes := by
  rw [Tree.children, List.mem_filterMap]
  constructor
  · rintro ⟨⟨p, node⟩, hmem, hlast⟩
    obtain ⟨hmem, hparent⟩ := List.mem_filter.mp hmem
    simp only [decide_eq_true_eq] at hparent
    have hp : place ++ [name] = p := by
      rw [← hparent.2]
      exact List.dropLast_append_getLast? name hlast
    exact ⟨node, hp ▸ hmem⟩
  · rintro ⟨node, hmem⟩
    exact ⟨_, List.mem_filter.mpr ⟨hmem, by simp⟩, by simp⟩

theorem lookup_isSome_of_mem {node : Node} {ns : List (Location × Node)}
    (h : (place, node) ∈ ns) : (Tree.lookup place ns).isSome := by
  induction ns with
  | nil => cases h
  | cons n ns ih =>
      rw [Tree.lookup]
      split
      · rfl
      · rename_i hne
        rcases List.mem_cons.mp h with rfl | h
        · exact absurd rfl hne
        · exact ih h

theorem get?_isSome_of_mem_children (h : name ∈ t.children place) :
    (t.get? (place ++ [name])).isSome := by
  obtain ⟨node, hmem⟩ := mem_children_iff.mp h
  rw [Tree.get?, if_neg (by simp)]
  exact lookup_isSome_of_mem hmem

/-- The listing of a directory has the old entries first, and behind them the new directories. -/
theorem Tree.Grown.children {N : Location → Prop} (h : t.Grown N t') (place : Location) :
    ∃ new, t'.children place = t.children place ++ new ∧
      ∀ name ∈ new, t'.get? (place ++ [name]) = some .directory ∧ N (place ++ [name]) := by
  obtain ⟨places, hnodes, hplaces⟩ := h
  refine ⟨(⟨places.map (·, .directory)⟩ : Tree).children place, ?_, ?_⟩
  · simp only [Tree.children, hnodes, List.filter_append, List.filterMap_append]
  · intro name hname
    obtain ⟨node, hmem⟩ := mem_children_iff.mp hname
    obtain ⟨made, hmade, heq⟩ := List.mem_map.mp hmem
    cases heq
    obtain ⟨hfree, hN⟩ := hplaces _ hmade
    refine ⟨?_, hN⟩
    rw [Tree.get?, if_neg (by simp)] at hfree ⊢
    rw [hnodes, lookup_append, lookup_directories, if_pos hmade, hfree]
    rfl

theorem isName_of_mem_children (ht : t.WellNamed) (h : name ∈ t.children place) : IsName name := by
  obtain ⟨node, hmem⟩ := mem_children_iff.mp h
  exact ht _ hmem name (List.mem_append_right _ (List.mem_singleton_self name))

theorem answer_error (test test' : Location → Bool) (f : AccessFault) :
    answer test (.error f) = answer test' (.error f) := by
  cases f with
  | nullCharacter => rfl
  | system e p => cases e <;> rfl

/-- An entry that the tree has is a file in a tree that keeps it exactly if it is one in this
tree. -/
theorem pathIsFile_child_of_kept {W : Location → Prop} (h : directory.Normal)
    (hname : IsName name) (hlocate : locate t wd directory.toText = .ok place)
    (hdirectory : t.get? place = some .directory)
    (hthere : (t.get? (place ++ [name])).isSome) (hkept : t.Kept W t') :
    pathIsFile t' wd (directory.child name).toText =
      pathIsFile t wd (directory.child name).toText := by
  have hstep : ∀ u : Tree, u.get? place = some .directory → (u.get? (place ++ [name])).isSome →
      walk u place [name] =
        if !nameFits name then .error .nameTooLong else .ok (place ++ [name]) := by
    intro u hu hentry
    have hentry' : (u.get? (place ++ [name])).isNone = false := by simpa using hentry
    rw [walk_name hu hname.ne_current hname.ne_upward, hentry']
    rfl
  rw [pathIsFile, pathIsFile, locate_child h hname hlocate,
    locate_child h hname (locate_of_kept hkept hlocate), hstep t hdirectory hthere,
    hstep t' (hkept.directory hdirectory) (hkept.isSome hthere)]
  cases checkPath (directory.child name).toText with
  | error f => exact answer_error _ _ f
  | ok _ =>
      cases nameFits name with
      | false => rfl
      | true => simp [bind, Except.bind, located, answer, hkept.isDirectory hthere]

/-- The place of an entry that is a file. -/
theorem locate_child_of_pathIsFile (h : directory.Normal) (hname : IsName name)
    (hlocate : locate t wd directory.toText = .ok place)
    (hdirectory : t.get? place = some .directory)
    (hfile : pathIsFile t wd (directory.child name).toText = .ok true) :
    ∃ content, locate t wd (directory.child name).toText = .ok (place ++ [name]) ∧
      t.get? (place ++ [name]) = some (.file content) := by
  obtain ⟨entry, hentry, hfile⟩ := pathIsFile_eq_true_iff.mp hfile
  have hlocated := hentry
  rw [locate_child h hname hlocate, bind_eq_ok_iff] at hlocated
  obtain ⟨-, -, hstep⟩ := hlocated
  rw [located_eq_ok_iff, walk_name hdirectory hname.ne_current hname.ne_upward] at hstep
  split at hstep
  · cases hstep
  · split at hstep
    · cases hstep
    · rename_i hthere
      cases hstep
      cases hnode : t.get? (place ++ [name]) with
      | none => simp [hnode] at hthere
      | some node =>
          cases node with
          | file content => exact ⟨content, hentry, rfl⟩
          | directory => simp [Tree.isDirectory, hnode] at hfile

end Files

/-! ## Scripts -/

namespace Run

variable {s : Settings} {t t' : Tree} {wd : Location} {directory : Path}

/-- Whether a path is a script: a file with one of the extensions. -/
def isScript (s : Settings) (wd : Location) (t : Tree) (p : Path) : Bool :=
  (Files.pathIsFile t wd p.toText).toOption.getD false && hasExtension s p

theorem isScript_iff {p : Path} :
    isScript s wd t p = true ↔
      Files.pathIsFile t wd p.toText = .ok true ∧ hasExtension s p = true := by
  rw [isScript, Bool.and_eq_true]
  cases Files.pathIsFile t wd p.toText with
  | error f => simp [Except.toOption]
  | ok isFile => simp [Except.toOption]

/-- Scripts are selected when every path can be asked about. -/
theorem selectScripts_eq_ok_iff {ps scripts : List Path} :
    selectScripts s wd t ps = .ok scripts ↔
      (∀ p ∈ ps, ∃ isFile, Files.pathIsFile t wd p.toText = .ok isFile) ∧
        scripts = ps.filter (isScript s wd t) := by
  induction ps generalizing scripts with
  | nil => simp [selectScripts, eq_comm]
  | cons p ps ih =>
      rw [selectScripts, bind_eq_ok_iff]
      simp only [bind_eq_ok_iff, ih, List.forall_mem_cons]
      constructor
      · rintro ⟨isFile, hisFile, rest, ⟨hasked, rfl⟩, hscripts⟩
        cases hscripts
        refine ⟨⟨⟨isFile, hisFile⟩, hasked⟩, ?_⟩
        rw [List.filter_cons, isScript, hisFile]
        rfl
      · rintro ⟨⟨⟨isFile, hisFile⟩, hasked⟩, rfl⟩
        refine ⟨isFile, hisFile, _, ⟨hasked, rfl⟩, ?_⟩
        rw [List.filter_cons, isScript, hisFile]
        rfl

theorem listDirectory_eq_ok_iff {path : Text} {names : List Text} :
    listDirectory wd t path = .ok names ↔
      ∃ place, Files.locate t wd path = .ok place ∧ t.get? place = some .directory ∧
        names = t.children place := by
  rw [listDirectory, bind_eq_ok_iff]
  refine exists_congr fun place => and_congr_right fun _ => ?_
  by_cases h : t.get? place = some .directory
  · simp [Tree.isDirectory, h, pure, Except.pure, eq_comm]
  · simp [Tree.isDirectory, h]

/-- The scripts that are found are the files with an extension among the entries of the directory,
in natural order. -/
theorem discover_eq_ok_iff {sources : List Path} :
    discover s wd t directory = .ok sources ↔
      ∃ place, Files.locate t wd directory.toText = .ok place ∧
        t.get? place = some .directory ∧
        (∀ name ∈ t.children place,
          ∃ isFile, Files.pathIsFile t wd (directory.child name).toText = .ok isFile) ∧
        Path.naturalSort (((t.children place).map directory.child).filter (isScript s wd t)) =
          .ok sources := by
  have hfound : ∀ scripts,
      (do let names ← listDirectory wd t directory.toText
          selectScripts s wd t (names.map directory.child)) = .ok scripts ↔
        ∃ place, Files.locate t wd directory.toText = .ok place ∧
          t.get? place = some .directory ∧
          (∀ name ∈ t.children place,
            ∃ isFile, Files.pathIsFile t wd (directory.child name).toText = .ok isFile) ∧
          scripts = ((t.children place).map directory.child).filter (isScript s wd t) := by
    intro scripts
    simp only [bind_eq_ok_iff, listDirectory_eq_ok_iff, selectScripts_eq_ok_iff,
      List.forall_mem_map]
    constructor
    · rintro ⟨_, ⟨place, hplace, hdirectory, rfl⟩, hasked⟩
      exact ⟨place, hplace, hdirectory, hasked⟩
    · rintro ⟨place, hplace, hdirectory, hasked⟩
      exact ⟨_, ⟨place, hplace, hdirectory, rfl⟩, hasked⟩
  constructor
  · intro h
    simp only [discover] at h
    split at h
    · cases h
    · rename_i paths hpaths
      obtain ⟨place, hplace, hdirectory, hasked, rfl⟩ := (hfound paths).mp hpaths
      split at h
      · cases h
      · rename_i sorted hsorted
        cases h
        exact ⟨place, hplace, hdirectory, hasked, hsorted⟩
  · rintro ⟨place, hplace, hdirectory, hasked, hsorted⟩
    have hpaths := (hfound _).mpr ⟨place, hplace, hdirectory, hasked, rfl⟩
    unfold Path.child at hpaths hsorted
    simp only [discover, hpaths, hsorted]

/-- Whether paths have keys that are in natural order. -/
def inOrder (ps : List Path) : Bool :=
  match ps.mapM fun p => do
    let k ← p.sortKey
    pure (k, p) with
  | .ok keyed => decide (keyed.Pairwise fun a b => Path.SortKey.le a.1 b.1 = true)
  | .error _ => false

/-- Paths that are in order stay as they are. -/
theorem naturalSort_of_inOrder {ps : List Path} (h : inOrder ps = true) :
    Path.naturalSort ps = .ok ps := by
  rw [inOrder] at h
  split at h
  · rename_i keyed hkeyed
    have hsort : Path.naturalSort ps =
        .ok ((keyed.mergeSort fun a b => Path.SortKey.le a.1 b.1).map Prod.snd) :=
      bind_eq_ok_iff.mpr ⟨keyed, hkeyed, rfl⟩
    rw [hsort, List.mergeSort_of_pairwise (of_decide_eq_true h),
      (Path.keyed_eq_ok_iff.mp hkeyed).2, List.map_map]
    exact congrArg _ (List.map_id ps)
  · cases h

/-- In a directory of scripts only, whose names are in order, all entries are found. -/
theorem discover_of_inOrder {place : Location} {names : List Text}
    (hplace : Files.locate t wd directory.toText = .ok place)
    (hthere : t.get? place = some .directory) (hnames : t.children place = names)
    (hscripts : (names.map directory.child).all (isScript s wd t) = true)
    (horder : inOrder (names.map directory.child) = true) :
    discover s wd t directory = .ok (names.map directory.child) := by
  rw [List.all_eq_true] at hscripts
  refine discover_eq_ok_iff.mpr ⟨place, hplace, hthere, ?_, ?_⟩
  · intro name hname
    have hscript := hscripts _ (List.mem_map_of_mem (hnames ▸ hname))
    exact ⟨true, (isScript_iff.mp hscript).1⟩
  · rw [hnames, List.filter_eq_self.mpr hscripts]
    exact naturalSort_of_inOrder horder

/-- Every script that is found is an entry of the directory. -/
theorem exists_child_of_discover (ht : t.WellNamed) {sources : List Path}
    (h : discover s wd t directory = .ok sources) {source : Path} (hsource : source ∈ sources) :
    ∃ place name, Files.locate t wd directory.toText = .ok place ∧
      t.get? place = some .directory ∧ Files.IsName name ∧ source = directory.child name ∧
      Files.pathIsFile t wd source.toText = .ok true := by
  obtain ⟨place, hplace, hthere, -, hsorted⟩ := discover_eq_ok_iff.mp h
  have hmem := (Path.naturalSort_perm hsorted).mem_iff.mp hsource
  obtain ⟨hentry, hscript⟩ := List.mem_filter.mp hmem
  obtain ⟨name, hname, rfl⟩ := List.mem_map.mp hentry
  exact ⟨place, name, hplace, hthere, Files.isName_of_mem_children ht hname, rfl,
    (isScript_iff.mp hscript).1⟩

theorem isName_of_discover (ht : t.WellNamed) {sources : List Path}
    (h : discover s wd t directory = .ok sources) {source : Path} (hsource : source ∈ sources) :
    Files.IsName source.name := by
  obtain ⟨-, name, -, -, hname, rfl, -⟩ := exists_child_of_discover ht h hsource
  rwa [Path.name_child]

/-- Every script that is found is named by its path: a file of the directory. -/
theorem locate_of_discover (ht : t.WellNamed) (hdirectory : directory.Normal)
    {sources : List Path} (h : discover s wd t directory = .ok sources) {source : Path}
    (hsource : source ∈ sources) :
    ∃ place content, Files.locate t wd source.toText = .ok place ∧
      t.get? place = some (.file content) := by
  obtain ⟨place, name, hplace, hthere, hname, rfl, hfile⟩ := exists_child_of_discover ht h hsource
  obtain ⟨content, hlocate, hcontent⟩ :=
    Files.locate_child_of_pathIsFile hdirectory hname hplace hthere hfile
  exact ⟨_, content, hlocate, hcontent⟩

/-- The path of a script that is found is read back from its text. -/
theorem ofText_toText_of_discover (ht : t.WellNamed) (hdirectory : directory.Normal)
    {sources : List Path} (h : discover s wd t directory = .ok sources) {source : Path}
    (hsource : source ∈ sources) : Path.ofText source.toText = source := by
  obtain ⟨-, name, -, -, hname, rfl, -⟩ := exists_child_of_discover ht h hsource
  exact Path.ofText_toText (hdirectory.child hname) (by simp [Path.child])

/-- New entries that are no scripts leave the scripts among the others. -/
theorem filter_isScript_append {names new : List Text}
    (hold : ∀ name ∈ names, Files.pathIsFile t' wd (directory.child name).toText =
      Files.pathIsFile t wd (directory.child name).toText)
    (hnew : ∀ name ∈ new, ¬ isScript s wd t' (directory.child name) = true) :
    ((names ++ new).map directory.child).filter (isScript s wd t') =
      (names.map directory.child).filter (isScript s wd t) := by
  have hnone : (new.map directory.child).filter (isScript s wd t') = [] := by
    rw [List.filter_eq_nil_iff, List.forall_mem_map]
    exact hnew
  rw [List.map_append, List.filter_append, hnone, List.append_nil]
  apply List.filter_congr
  rw [List.forall_mem_map]
  intro name hname
  rw [isScript, isScript, hold name hname]

/-- Directories that are made in the meantime do not change which scripts are found. -/
theorem discover_of_grown (ht : t.WellNamed) (hdirectory : directory.Normal)
    {N : Location → Prop} (hgrown : t.Grown N t')
    (hnamed : ∀ place, N place → ∃ parent name, place = parent ++ [name] ∧ Files.IsName name)
    {place : Location} (hplace : Files.locate t wd directory.toText = .ok place)
    (hthere : t.get? place = some .directory) {sources : List Path}
    (h : discover s wd t' directory = .ok sources) : discover s wd t directory = .ok sources := by
  have hkept : t.Kept (fun _ => False) t' := hgrown.kept
  have hplace' := Files.locate_of_kept hkept hplace
  obtain ⟨found, hfound, -, hasked, hsorted⟩ := discover_eq_ok_iff.mp h
  obtain rfl : found = place := by
    rw [hplace'] at hfound
    cases hfound
    rfl
  obtain ⟨new, hchildren, hnew⟩ := hgrown.children found
  have hold : ∀ name ∈ t.children found,
      Files.pathIsFile t' wd (directory.child name).toText =
        Files.pathIsFile t wd (directory.child name).toText := by
    intro name hname
    exact Files.pathIsFile_child_of_kept hdirectory (Files.isName_of_mem_children ht hname)
      hplace hthere (Files.get?_isSome_of_mem_children hname) hkept
  -- The new entries are directories, and a script is a file.
  have hnone : ∀ name ∈ new, ¬ isScript s wd t' (directory.child name) = true := by
    intro name hname hscript
    obtain ⟨hmade, hN⟩ := hnew name hname
    have hisName : Files.IsName name := by
      obtain ⟨parent, last, hlast, hisName⟩ := hnamed _ hN
      obtain ⟨-, hlast⟩ := List.append_inj' hlast rfl
      cases hlast
      exact hisName
    obtain ⟨content, -, hcontent⟩ := Files.locate_child_of_pathIsFile hdirectory hisName hplace'
      (hkept.directory hthere) (isScript_iff.mp hscript).1
    rw [hmade] at hcontent
    cases hcontent
  rw [hchildren, filter_isScript_append hold hnone] at hsorted
  refine discover_eq_ok_iff.mpr ⟨found, hplace, hthere, ?_, hsorted⟩
  intro name hname
  rw [← hold name hname]
  exact hasked name (by rw [hchildren]; exact List.mem_append_left _ hname)

end Run

end ShellDoc
