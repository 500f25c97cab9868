import ShellDoc.Command.Execute
import ShellDoc.Proofs.NaturalKeys
import ShellDoc.Proofs.RepeatedRun

/-!
# The listing of a directory

The scripts of a directory are found through its listing, in which the entries may come in any
order.  In a tree as a file system holds it, an entry can be asked about unless its path is too long
(`Files.pathIsFile_entry`), so the scripts are the files of the directory that have one of the
extensions (`Listable.mem_listedScripts_iff`).

Scripts with different keys are then found in one order, whatever that of the listing is
(`discover_of_listing`).  A listing is no use when a path is too long
(`discover_of_long_entry`), and neither is one with a script whose name has no key: its stray digits
end the run (`discover_of_names`).
-/

namespace ShellDoc

theorem Text.length_le_length_encode (s : Text) : s.length ≤ (encode s).length := by
  have hchar : ∀ c, 1 ≤ (encodeChar c).length := by
    intro c
    simp only [encodeChar]
    split_ifs <;> simp
  induction s with
  | nil => simp
  | cons c s ih =>
      have hcons : encode (c :: s) = encodeChar c ++ encode s := rfl
      rw [hcons, List.length_append, List.length_cons]
      have hc := hchar c
      omega

namespace Files

/-- A text that a directory can hold as the name of an entry. -/
structure IsEntryName (name : Text) : Prop where
  isName : IsName name
  fits : nameFits name = true
  not_mem_null : nullChar ∉ name

instance (name : Text) : Decidable (IsEntryName name) :=
  decidable_of_iff (IsName name ∧ nameFits name = true ∧ nullChar ∉ name)
    ⟨fun h => ⟨h.1, h.2.1, h.2.2⟩, fun h => ⟨h.isName, h.fits, h.not_mem_null⟩⟩

/-- A tree as a file system holds it: each place stands in it once, under names that directories can
hold. -/
structure Tree.Proper (t : Tree) : Prop where
  names : ∀ n ∈ t.nodes, ∀ name ∈ n.1, IsEntryName name
  places : (t.nodes.map Prod.fst).Nodup

instance (t : Tree) : Decidable t.Proper :=
  decidable_of_iff
    ((∀ n ∈ t.nodes, ∀ name ∈ n.1, IsEntryName name) ∧ (t.nodes.map Prod.fst).Nodup)
    ⟨fun h => ⟨h.1, h.2⟩, fun h => ⟨h.names, h.places⟩⟩

variable {t t' : Tree} {wd place : Location} {directory : Path} {name : Text}

theorem isEntryName_of_mem_children (ht : t.Proper) (h : name ∈ t.children place) :
    IsEntryName name := by
  obtain ⟨node, hmem⟩ := mem_children_iff.mp h
  exact ht.names _ hmem name (List.mem_append_right _ (List.mem_singleton_self name))

theorem mem_of_lookup {node : Node} {ns : List (Location × Node)}
    (h : Tree.lookup place ns = some node) : (place, node) ∈ ns := by
  induction ns with
  | nil => cases h
  | cons n ns ih =>
      rw [Tree.lookup] at h
      split at h
      · rename_i hplace
        cases h
        rw [← hplace]
        exact List.mem_cons_self
      · exact List.mem_cons_of_mem _ (ih h)

theorem mem_children_of_get? {node : Node} (h : t.get? (place ++ [name]) = some node) :
    name ∈ t.children place := by
  rw [Tree.get?, if_neg (by simp)] at h
  exact mem_children_iff.mpr ⟨node, mem_of_lookup h⟩

/-- A directory lists each of its entries once. -/
theorem nodup_children (ht : t.Proper) (place : Location) : (t.children place).Nodup := by
  have hplaces : (t.children place).map (fun name => place ++ [name]) =
      (t.nodes.map Prod.fst).filter fun p => p ≠ [] ∧ p.dropLast = place := by
    rw [Tree.children_eq, List.map_filterMap]
    have hsame : ∀ p ∈ (t.nodes.map Prod.fst).filter fun p => p ≠ [] ∧ p.dropLast = place,
        p.getLast?.map (fun name => place ++ [name]) = some p := by
      intro p hp
      obtain ⟨hne, hparent⟩ := of_decide_eq_true (List.mem_filter.mp hp).2
      rw [List.getLast?_eq_some_getLast hne, Option.map_some, ← hparent,
        List.dropLast_append_getLast hne]
    rw [List.filterMap_congr hsame, List.filterMap_some]
  refine List.Nodup.of_map (fun name => place ++ [name]) ?_
  rw [hplaces]
  exact ht.places.filter _

theorem lookup_eq_some_iff {node : Node} {ns : List (Location × Node)}
    (h : (ns.map Prod.fst).Nodup) : Tree.lookup place ns = some node ↔ (place, node) ∈ ns := by
  refine ⟨mem_of_lookup, fun hmem => ?_⟩
  obtain ⟨other, hother⟩ := Option.isSome_iff_exists.mp (lookup_isSome_of_mem hmem)
  have hsame := List.inj_on_of_nodup_map h (mem_of_lookup hother) hmem rfl
  rw [hother, (Prod.mk.inj hsame).2]

/-- The nodes of a tree in another order are the same tree with its directories listed in another
order. -/
theorem Tree.Proper.relisted (ht : t.Proper) (h : t'.nodes.Perm t.nodes) : t.Relisted t' := by
  refine ⟨fun place => ?_, fun place => (h.filter _).filterMap _⟩
  rw [Tree.get?, Tree.get?]
  split
  · rfl
  · have hplaces : (t'.nodes.map Prod.fst).Nodup := (h.map Prod.fst).nodup_iff.mpr ht.places
    ext node
    rw [lookup_eq_some_iff hplaces, lookup_eq_some_iff ht.places, h.mem_iff]

/-- An entry can be asked about unless its path is too long. -/
theorem pathIsFile_entry (ht : t.Proper) (hdirectory : directory.Normal)
    (hplace : locate t wd directory.toText = .ok place) (hthere : t.get? place = some .directory)
    (hname : name ∈ t.children place) :
    pathIsFile t wd (directory.child name).toText =
      if pathLimit ≤ (Text.encode (directory.child name).toText).length then
        .error (.system .nameTooLong (directory.child name).toText)
      else .ok !t.isDirectory (place ++ [name]) := by
  have hentry := isEntryName_of_mem_children ht hname
  have hsome : (t.get? (place ++ [name])).isNone = false := by
    simpa using get?_isSome_of_mem_children hname
  rw [pathIsFile, locate_child hdirectory hentry.isName hplace,
    checkPath_child hdirectory hentry.isName (locate_eq_ok_iff.mp hplace).1 hentry.not_mem_null,
    walk_name hthere hentry.isName.ne_current hentry.isName.ne_upward, hentry.fits, hsome]
  split <;> rfl

end Files

/-! ## The scripts of a listing -/

namespace Run

open Files (Location Node Tree)

/-- A script that stands directly in the directory at a place: a file with one of the extensions, in
whatever case. -/
def ScriptIn (s : Settings) (t : Tree) (directory : Path) (place : Location) (p : Path) : Prop :=
  ∃ name content, p = directory.child name ∧ t.get? (place ++ [name]) = some (.file content) ∧
    Text.lower p.suffix ∈ s.sourceExtensions.map Text.lower

/-- A directory that can be listed, with entries whose paths are not too long. -/
structure Listable (wd : Location) (t : Tree) (directory : Path) (place : Location) : Prop where
  located : Files.locate t wd directory.toText = .ok place
  isDirectory : t.get? place = some .directory
  short : ∀ name ∈ t.children place,
    (Text.encode (directory.child name).toText).length < Files.pathLimit

variable {s : Settings} {wd place : Location} {t t' : Tree} {directory : Path}

/-- The scripts in the order of the listing. -/
def listedScripts (s : Settings) (wd : Location) (t : Tree) (directory : Path) (place : Location) :
    List Path :=
  ((t.children place).map directory.child).filter (isScript s wd t)

theorem nodup_listedScripts (ht : t.Proper) : (listedScripts s wd t directory place).Nodup := by
  refine List.Nodup.filter _ ((Files.nodup_children ht place).map ?_)
  intro name name' h
  simpa [Path.child] using h

namespace Listable

variable (hlist : Listable wd t directory place) (ht : t.Proper) (hnormal : directory.Normal)

include hlist ht hnormal

theorem pathIsFile {name : Text} (hname : name ∈ t.children place) :
    Files.pathIsFile t wd (directory.child name).toText =
      .ok !t.isDirectory (place ++ [name]) := by
  rw [Files.pathIsFile_entry ht hnormal hlist.located hlist.isDirectory hname,
    if_neg (Nat.not_le.mpr (hlist.short name hname))]

theorem mem_listedScripts_iff {p : Path} :
    p ∈ listedScripts s wd t directory place ↔ ScriptIn s t directory place p := by
  rw [listedScripts, List.mem_filter, List.mem_map, isScript_iff]
  constructor
  · rintro ⟨⟨name, hname, rfl⟩, hfile, hextension⟩
    obtain ⟨content, -, hcontent⟩ := Files.locate_child_of_pathIsFile hnormal
      (Files.isEntryName_of_mem_children ht hname).isName hlist.located hlist.isDirectory hfile
    exact ⟨name, content, rfl, hcontent, by simpa [hasExtension] using hextension⟩
  · rintro ⟨name, content, rfl, hcontent, hextension⟩
    have hname := Files.mem_children_of_get? hcontent
    refine ⟨⟨name, hname, rfl⟩, ?_, by simpa [hasExtension] using hextension⟩
    rw [hlist.pathIsFile ht hnormal hname]
    simp [Tree.isDirectory, hcontent]

/-- The scripts are found when they can be sorted. -/
theorem discover_eq :
    discover s wd t directory =
      (Path.naturalSort (listedScripts s wd t directory place)).mapError .numeral := by
  have hnames : listDirectory wd t directory.toText = .ok (t.children place) :=
    listDirectory_eq_ok_iff.mpr ⟨place, hlist.located, hlist.isDirectory, rfl⟩
  have hselected : selectScripts s wd t ((t.children place).map directory.child) =
      .ok (listedScripts s wd t directory place) := by
    refine selectScripts_eq_ok_iff.mpr ⟨?_, rfl⟩
    rw [List.forall_mem_map]
    exact fun name hname => ⟨_, hlist.pathIsFile ht hnormal hname⟩
  have hfound : (do let names ← listDirectory wd t directory.toText
                    selectScripts s wd t (names.map directory.child)) =
      .ok (listedScripts s wd t directory place) := by
    rw [hnames]
    exact hselected
  unfold Path.child at hfound
  simp only [discover, hfound]
  cases Path.naturalSort (listedScripts s wd t directory place) <;> rfl

/-- Scripts that all have keys are found, in the order of their keys. -/
theorem exists_discover_eq_ok
    (hkeys : ∀ p, ScriptIn s t directory place p → ∃ k, p.sortKey = .ok k) :
    ∃ sources, discover s wd t directory = .ok sources ∧ sources.Nodup ∧
      (∀ p, p ∈ sources ↔ ScriptIn s t directory place p) ∧
      sources.Pairwise fun p q => ∃ k l, p.sortKey = .ok k ∧ q.sortKey = .ok l ∧
        Path.SortKey.le k l = true := by
  have hlisted : ∀ p ∈ listedScripts s wd t directory place, ∃ k, p.sortKey = .ok k :=
    fun p hp => hkeys p ((hlist.mem_listedScripts_iff ht hnormal).mp hp)
  have hsorted := Path.naturalSort_eq_ok_iff.mpr ⟨hlisted, rfl⟩
  have hperm := Path.naturalSort_perm hsorted
  refine ⟨_, ?_, hperm.nodup_iff.mpr (nodup_listedScripts ht), ?_, ?_⟩
  · rw [hlist.discover_eq ht hnormal, hsorted]
    rfl
  · exact fun p => hperm.mem_iff.trans (hlist.mem_listedScripts_iff ht hnormal)
  · refine (Path.naturalSort_pairwise hsorted).imp_of_mem ?_
    intro p q hp hq hle
    exact ⟨_, _, Path.sortKey_eq_ok (hlisted p (hperm.mem_iff.mp hp)),
      Path.sortKey_eq_ok (hlisted q (hperm.mem_iff.mp hq)), hle⟩

end Listable

/-! ## Listings in different orders -/

/-- In whatever order a directory is listed, the same scripts are found in the same order, if their
keys are all different: each file of the directory with one of the extensions once, and nothing
else, with keys that increase. -/
theorem discover_of_listing (s : Settings) (wd place : Location) (t t' : Tree) (path : Text)
    (ht : t.Proper) (hlist : Listable wd t (Path.ofText path) place) (hrelisted : t.Relisted t')
    (hkeys : ∀ p, ScriptIn s t (Path.ofText path) place p → ∃ k, p.sortKey = .ok k)
    (hdistinct : ∀ p q, ScriptIn s t (Path.ofText path) place p →
      ScriptIn s t (Path.ofText path) place q → p.sortKey = q.sortKey → p = q) :
    ∃ sources, discover s wd t (Path.ofText path) = .ok sources ∧
      discover s wd t' (Path.ofText path) = .ok sources ∧ sources.Nodup ∧
      (∀ p, p ∈ sources ↔ ScriptIn s t (Path.ofText path) place p) ∧
      sources.Pairwise fun p q => ∃ k l, p.sortKey = .ok k ∧ q.sortKey = .ok l ∧
        Path.SortKey.le k l = true ∧ Path.SortKey.le l k = false := by
  have hnormal := Path.normal_ofText path
  obtain ⟨sources, hfound, hnodup, hmem, hordered⟩ :=
    hlist.exists_discover_eq_ok ht hnormal hkeys
  have hsame : ∀ p ∈ sources, ∀ q ∈ sources, p.sortKey = q.sortKey → p = q :=
    fun p hp q hq => hdistinct p q ((hmem p).mp hp) ((hmem q).mp hq)
  refine ⟨sources, hfound, ?_, hnodup, hmem, ?_⟩
  · refine discover_of_entries hnormal (hrelisted.kept (W := fun _ => False)) hlist.located ?_ []
      ?_ (by simp) (hnodup.map_on hsame) hfound
    · exact fun name hname => (Files.isEntryName_of_mem_children ht hname).isName
    · rw [List.append_nil]
      exact hrelisted.children place
  · refine (hordered.and hnodup).imp_of_mem ?_
    rintro p q hp hq ⟨⟨k, l, hk, hl, hle⟩, hne⟩
    refine ⟨k, l, hk, hl, hle, ?_⟩
    -- With the keys in both orders the two scripts would be one.
    by_contra hnot
    have hkl := Path.SortKey.le_antisymm hle (Bool.not_eq_false _ ▸ hnot)
    exact hne (hsame p hp q hq (by rw [hk, hl, hkl]))

/-- A directory with two scripts, another file and a directory with the name of a script, listed
from either end. -/
theorem discover_of_listing_from_both_ends :
    let t : Tree := ⟨[(["d"], .directory), (["d", "b10.SH"], .file []), (["d", "b9.sh"], .file []),
      (["d", "b1.txt"], .file []), (["d", "c.sh"], .directory)]⟩
    let t' : Tree := ⟨t.nodes.reverse⟩
    let directory := Path.ofText "d"
    t.Proper ∧ Listable [] t directory ["d"] ∧ t.Relisted t' ∧
      (∀ p, ScriptIn {} t directory ["d"] p → ∃ k, p.sortKey = .ok k) ∧
      (∀ p q, ScriptIn {} t directory ["d"] p → ScriptIn {} t directory ["d"] q →
        p.sortKey = q.sortKey → p = q) ∧
      discover {} [] t directory = .ok [directory.child "b9.sh", directory.child "b10.SH"] ∧
      discover {} [] t' directory = .ok [directory.child "b9.sh", directory.child "b10.SH"] := by
  intro t t' directory
  have hnormal : directory.Normal := Path.normal_ofText "d"
  have ht : t.Proper := by decide
  have ht' : t'.Proper := by decide
  have hlist : Listable [] t directory ["d"] := ⟨rfl, rfl, by decide⟩
  have hlist' : Listable [] t' directory ["d"] := ⟨rfl, rfl, by decide⟩
  have hrelisted : t.Relisted t' := ht.relisted (List.reverse_perm _)
  have hlisted : listedScripts {} [] t directory ["d"] =
      [directory.child "b10.SH", directory.child "b9.sh"] := by
    unfold t directory
    decide +kernel
  have hscripts : ∀ p, ScriptIn {} t directory ["d"] p →
      p ∈ [directory.child "b10.SH", directory.child "b9.sh"] := by
    intro p hp
    rw [← hlisted]
    exact (hlist.mem_listedScripts_iff ht hnormal).mpr hp
  have hkeys : ∀ p, ScriptIn {} t directory ["d"] p → ∃ k, p.sortKey = .ok k := by
    intro p hp
    have hcases := hscripts p hp
    simp only [List.mem_cons, List.not_mem_nil, or_false] at hcases
    rcases hcases with rfl | rfl
    · exact ⟨_, rfl⟩
    · exact ⟨_, rfl⟩
  have hdistinct : ∀ p q, ScriptIn {} t directory ["d"] p → ScriptIn {} t directory ["d"] q →
      p.sortKey = q.sortKey → p = q := by
    intro p q hp hq
    have hall : ∀ p ∈ [directory.child "b10.SH", directory.child "b9.sh"],
        ∀ q ∈ [directory.child "b10.SH", directory.child "b9.sh"],
          p.sortKey = q.sortKey → p = q := by decide +kernel
    exact hall p (hscripts p hp) q (hscripts q hq)
  have hfound' : discover {} [] t' directory =
      .ok [directory.child "b9.sh", directory.child "b10.SH"] := by
    have hlisted' : listedScripts {} [] t' directory ["d"] =
        [directory.child "b9.sh", directory.child "b10.SH"] := by
      unfold t' t directory
      decide +kernel
    rw [hlist'.discover_eq ht' hnormal, hlisted', naturalSort_of_inOrder rfl]
    rfl
  obtain ⟨sources, hfound, hfound'', -⟩ :=
    discover_of_listing {} [] ["d"] t t' "d" ht hlist hrelisted hkeys hdistinct
  cases hfound'.symm.trans hfound''
  exact ⟨ht, hlist, hrelisted, hkeys, hdistinct, hfound, hfound'⟩

/-- An entry with a path that is too long is in the way of the scripts beside it, also when it is
none itself. -/
theorem discover_of_long_entry :
    let s := LongWay.settings
    let t := LongWay.tree.put LongWay.record.page (.file [])
    let directory := Path.ofText LongWay.directory.toText
    t.Proper ∧ Files.locate t [] directory.toText = .ok [LongWay.folder] ∧
      t.get? [LongWay.folder] = some .directory ∧
      (∀ p, ScriptIn s t directory [LongWay.folder] p ↔ p = directory.child LongWay.script) ∧
      (∃ k, (directory.child LongWay.script).sortKey = .ok k) ∧
      ∀ sources, discover s [] t directory ≠ .ok sources := by
  intro s t directory
  have c := LongWay.computed
  have hdirectory : directory = LongWay.directory := c.ofText_directory
  have hkept : LongWay.tree.Kept (· = LongWay.record.page) t :=
    Tree.Kept.put_file (by simp [LongWay.record]) (by decide +kernel) []
  have hplace := Files.locate_of_kept hkept c.locate_directory
  rw [hdirectory]
  refine ⟨by decide +kernel, hplace, hkept.directory c.hasFolder, ?_, ?_, ?_⟩
  · intro p
    constructor
    · rintro ⟨name, content, rfl, hcontent, hextension⟩
      have hname : name ∈ t.children [LongWay.folder] := Files.mem_children_of_get? hcontent
      have hlisting : t.children [LongWay.folder] = [LongWay.script, LongWay.page] := by
        decide +kernel
      rw [hlisting, List.mem_cons, List.mem_singleton] at hname
      rcases hname with rfl | rfl
      · rfl
      · rw [Path.suffix, Path.name_child] at hextension
        exact absurd hextension (by decide +kernel)
    · rintro rfl
      refine ⟨LongWay.script, [], rfl, ?_, ?_⟩
      · exact hkept.get?_of_not c.hasScript LongWay.script_ne_page
      · rw [Path.suffix, Path.name_child]
        decide +kernel
  · exact ⟨_, by rw [Path.sortKey, Path.name_child]; rfl⟩
  · intro sources
    have hlong : Files.pathLimit ≤
        (Text.encode (LongWay.directory.child LongWay.page).toText).length := by
      rw [c.length_child]
      decide
    exact discover_ne_ok_of_long_entry c.normal (by decide) (by decide) hplace
      (by decide +kernel) hlong sources

/-! ## Names that end a run -/

theorem length_name_of_scriptIn (ht : t.Proper) {p : Path} (h : ScriptIn s t directory place p) :
    p.name.length ≤ Decimal.digitLimit := by
  obtain ⟨name, content, rfl, hcontent, -⟩ := h
  have hentry := Files.isEntryName_of_mem_children ht (Files.mem_children_of_get? hcontent)
  have hbytes : (Text.encode name).length ≤ Files.nameLimit := of_decide_eq_true hentry.fits
  rw [Path.name_child]
  exact ((Text.length_le_length_encode name).trans hbytes).trans (by decide)

/-- A run that finds no scripts because of a fault ends with it, once its output directory is
there. -/
theorem generate_of_discover_error {path : Text} {f : Fault}
    (hplace : Files.locate t wd (Path.ofText path).toText = .ok place)
    (hthere : t.get? place = some .directory)
    (houtput : Files.pathIsDirectory t wd (Path.ofText s.output).toText = .ok true)
    (h : discover s wd t (Path.ofText path) = .error f) :
    (generate s wd t path).result = .error f ∧ (generate s wd t path).tree = t := by
  have hdirectory := Files.pathIsDirectory_eq_true_iff.mpr ⟨place, hplace, hthere⟩
  rw [generate_of_directory hdirectory, generateDirectory_eq, makeOutput_of_directory houtput,
    Outcome.andThen_ok, h]
  exact ⟨rfl, rfl⟩

/-- A run that ends with a bad numeral ends the program, whatever the options are that it was asked
for with. -/
theorem generateCommand_of_numeral {session : Session} {g : Command.GlobalOptions} {path : Text}
    {o : Overrides} {f : Decimal.NumeralFault}
    (hsettings : Command.effectiveSettings session g.settingsFile o = .ok s)
    (hrun : (generate s session.workingDirectory session.tree path).result =
      .error (.numeral f)) (json : Bool) :
    (Command.generateCommand session g path o json).2 = .error (.run (.numeral f)) := by
  simp only [Command.generateCommand, hsettings, Session.perform, hrun, Command.runHandling]

/-- The scripts of a directory are found in the order of their keys, unless one of them has stray
digits in its name.  Then none is found: the digits are reported as a bad numeral, which ends the
run before anything is written, and the program with it. -/
theorem discover_of_names (s : Settings) (wd place : Location) (t : Tree) (path : Text)
    (ht : t.Proper) (hlist : Listable wd t (Path.ofText path) place) :
    (∀ name : Text, name.length ≤ Files.nameLimit →
      ((∃ k, Path.SortKey.ofName name = .ok k) ↔
        ∀ digits, ¬ Path.SortKey.StrayDigits name digits)) ∧
    ((∀ p digits, ScriptIn s t (Path.ofText path) place p →
        ¬ Path.SortKey.StrayDigits p.name digits) →
      ∃ sources, discover s wd t (Path.ofText path) = .ok sources ∧ sources.Nodup ∧
        (∀ p, p ∈ sources ↔ ScriptIn s t (Path.ofText path) place p) ∧
        sources.Pairwise fun p q => ∃ k l, p.sortKey = .ok k ∧ q.sortKey = .ok l ∧
          Path.SortKey.le k l = true) ∧
    ((∃ p digits, ScriptIn s t (Path.ofText path) place p ∧
        Path.SortKey.StrayDigits p.name digits) →
      ∃ p digits, ScriptIn s t (Path.ofText path) place p ∧
        Path.SortKey.StrayDigits p.name digits ∧
        let f : Fault := .numeral (.notNumeral 10 digits)
        discover s wd t (Path.ofText path) = .error f ∧
          (Files.pathIsDirectory t wd (Path.ofText s.output).toText = .ok true →
            (generate s wd t path).result = .error f ∧ (generate s wd t path).tree = t ∧
            ∀ (session : Session) (g : Command.GlobalOptions) (o : Overrides) (json : Bool),
              session.tree = t → session.workingDirectory = wd →
              Command.effectiveSettings session g.settingsFile o = .ok s →
              (Command.generateCommand session g path o json).2 = .error (.run f))) := by
  have hnormal := Path.normal_ofText path
  refine ⟨?_, ?_, ?_⟩
  · intro name hshort
    exact Path.SortKey.exists_ofName_iff (hshort.trans (by decide))
  · intro hnames
    apply hlist.exists_discover_eq_ok ht hnormal
    intro p hp
    exact (Path.SortKey.exists_ofName_iff (length_name_of_scriptIn ht hp)).mpr
      fun digits => hnames p digits hp
  · rintro ⟨stray, digits, hstray, hdigits⟩
    cases hsorted : Path.naturalSort (listedScripts s wd t (Path.ofText path) place) with
    | ok sorted =>
        obtain ⟨k, hk⟩ := (Path.naturalSort_eq_ok_iff.mp hsorted).1 stray
          ((hlist.mem_listedScripts_iff ht hnormal).mpr hstray)
        exact absurd hk (Path.SortKey.ofName_ne_ok_of_strayDigits hdigits k)
    | error f =>
        obtain ⟨p, hp, hkey⟩ := Path.naturalSort_eq_error hsorted
        have hscript := (hlist.mem_listedScripts_iff ht hnormal).mp hp
        obtain ⟨digits, hdigits, rfl⟩ :=
          Path.SortKey.ofName_eq_error (length_name_of_scriptIn ht hscript) hkey
        have hfound : discover s wd t (Path.ofText path) =
            .error (.numeral (.notNumeral 10 digits)) := by
          rw [hlist.discover_eq ht hnormal, hsorted]
          rfl
        refine ⟨p, digits, hscript, hdigits, hfound, ?_⟩
        intro houtput
        obtain ⟨hresult, htree⟩ :=
          generate_of_discover_error hlist.located hlist.isDirectory houtput hfound
        refine ⟨hresult, htree, ?_⟩
        rintro session g o json rfl rfl hsettings
        exact generateCommand_of_numeral hsettings hresult json

/-- A digit without a place value is no harm in a text with other characters. -/
theorem discover_of_names_superscript :
    let t : Tree := ⟨[(["d"], .directory), (["d", "x²1.sh"], .file []), (["d", "b.sh"], .file [])]⟩
    let directory := Path.ofText "d"
    t.Proper ∧ Listable [] t directory ["d"] ∧
      (∀ p digits, ScriptIn {} t directory ["d"] p → ¬ Path.SortKey.StrayDigits p.name digits) ∧
      ∃ sources, discover {} [] t directory = .ok sources ∧
        ∀ p, p ∈ sources ↔ ScriptIn {} t directory ["d"] p := by
  intro t directory
  have ht : t.Proper := by decide
  have hlist : Listable [] t directory ["d"] := ⟨rfl, rfl, by decide⟩
  have hnames : ∀ p digits, ScriptIn {} t directory ["d"] p →
      ¬ Path.SortKey.StrayDigits p.name digits := by
    intro p digits hp
    have hcases : p ∈ [directory.child "x²1.sh", directory.child "b.sh"] :=
      (hlist.mem_listedScripts_iff ht (Path.normal_ofText "d")).mpr hp
    have hkey : ∃ k, Path.SortKey.ofName p.name = .ok k := by
      simp only [List.mem_cons, List.not_mem_nil, or_false] at hcases
      rcases hcases with rfl | rfl
      · exact ⟨_, rfl⟩
      · exact ⟨_, rfl⟩
    exact (Path.SortKey.exists_ofName_iff (length_name_of_scriptIn ht hp)).mp hkey digits
  obtain ⟨-, hfound, -⟩ := discover_of_names {} [] ["d"] t "d" ht hlist
  obtain ⟨sources, hsources, -, hmem, -⟩ := hfound hnames
  exact ⟨ht, hlist, hnames, sources, hsources, hmem⟩

/-- A digit without a place value between two numbers, in the name of one script, ends the run on
the directory and the program. -/
theorem stray_digit_ends_run :
    let t : Tree := ⟨[(["d"], .directory), (["d", "x1²2.sh"], .file []), (["d", "b.sh"], .file [])]⟩
    let session : Session :=
      { tree := t, workingDirectory := [], environment := [],
        journal := Log.Journal.initial false ⟨⟨2026, 1, 1⟩, 0, 0, 0, 0, none⟩ }
    let f : Fault := .numeral (.notNumeral 10 "²")
    t.Proper ∧ Listable [] t (Path.ofText "d") ["d"] ∧
      (∀ name ∈ t.children ["d"], name.length ≤ Files.nameLimit) ∧
      Path.SortKey.ofName "x1²2.sh" = .error (.notNumeral 10 "²") ∧
      discover {} [] t (Path.ofText "d") = .error f ∧
      f.message = "invalid literal for int() with base 10: '²'".toList ∧
      (Command.generateCommand session {} "d" {} false).2 = .error (.run f) := by
  intro t session f
  have hlist : Listable [] t (Path.ofText "d") ["d"] := ⟨rfl, rfl, by decide⟩
  have hfound : discover {} [] t (Path.ofText "d") = .error f := rfl
  obtain ⟨hresult, -⟩ :=
    generate_of_discover_error hlist.located hlist.isDirectory rfl hfound
  have hsettings : Command.effectiveSettings session [] {} = .ok {} := rfl
  exact ⟨by decide, hlist, by decide, rfl, hfound, by decide,
    generateCommand_of_numeral (g := {}) hsettings hresult false⟩

end Run

end ShellDoc
