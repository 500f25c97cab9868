import ShellDoc.Proofs.Discovery

/-!
# Writing what is there already

Files that are put where they stand already change nothing, and this also holds for a whole list of
them in which a place occurs more than once: only what stands there in the end counts
(`Tree.putAll_eq_self`).  In the listing of a directory the files that are put come behind the
entries that were there (`Tree.children_putAll`).

So a directory in which files were put still has the scripts that it had, as long as the new files
are no scripts.  If the scripts have different keys, this does not depend on the order in which the
entries are listed (`discover_of_entries`).
-/

namespace ShellDoc

open Files (Location Node Tree)

/-! ## Writing the same again -/

namespace Files.Tree

variable {t : Tree} {place other : Location} {node : Node} {puts : List (Location × Node)}

/-- The tree with nodes put at their places one after the other. -/
def putAll (t : Tree) (puts : List (Location × Node)) : Tree :=
  puts.foldl (fun t p => t.put p.1 p.2) t

@[simp] theorem putAll_nil (t : Tree) : t.putAll [] = t := rfl

@[simp] theorem putAll_cons (t : Tree) (p : Location × Node) (puts : List (Location × Node)) :
    t.putAll (p :: puts) = (t.put p.1 p.2).putAll puts := rfl

theorem putAll_append (t : Tree) (puts puts' : List (Location × Node)) :
    t.putAll (puts ++ puts') = (t.putAll puts).putAll puts' := List.foldl_append

theorem replace_of_lookup {ns : List (Location × Node)} (h : lookup place ns = some node) :
    replace place node ns = ns := by
  induction ns with
  | nil => cases h
  | cons n ns ih =>
      rw [lookup] at h
      rw [replace]
      split at h
      · rename_i hn
        cases h
        rw [if_pos hn, ← hn]
      · rename_i hn
        rw [if_neg hn, ih h]

theorem put_of_get? (hroot : place ≠ []) (h : t.get? place = some node) :
    t.put place node = t := by
  rw [get?, if_neg hroot] at h
  rw [put, replace_of_lookup h]

theorem replace_comm {ns : List (Location × Node)} {a b : Node}
    (hthere : (lookup place ns).isSome) (hne : other ≠ place) :
    replace other b (replace place a ns) = replace place a (replace other b ns) := by
  induction ns with
  | nil => cases hthere
  | cons n ns ih =>
      have hne' : ¬ place = other := fun e => hne e.symm
      rw [lookup] at hthere
      by_cases hplace : n.1 = place
      · have hother : ¬ n.1 = other := fun e => hne' (hplace.symm.trans e)
        simp [replace, hplace, hne']
      · rw [if_neg hplace] at hthere
        by_cases hother : n.1 = other
        · simp [replace, hother, hne]
        · simp [replace, hplace, hother, ih hthere]

/-- What is put at a place that is there already can as well be put later. -/
theorem put_comm (hroot : place ≠ []) (hthere : (t.get? place).isSome) (hne : other ≠ place)
    (a b : Node) : (t.put place a).put other b = (t.put other b).put place a := by
  rw [get?, if_neg hroot] at hthere
  simp only [put, replace_comm hthere hne]

theorem get?_putAll_of_not_mem (h : place ∉ puts.map Prod.fst) :
    (t.putAll puts).get? place = t.get? place := by
  induction puts generalizing t with
  | nil => rfl
  | cons p puts ih =>
      rw [List.map_cons, List.mem_cons, not_or] at h
      rw [putAll_cons, ih h.2, get?_put_of_ne t h.1]

/-- What stands in the end at a place that was put does not depend on the tree before. -/
theorem exists_get?_putAll (hroot : place ≠ []) (h : place ∈ puts.map Prod.fst) :
    ∃ node ∈ puts.map Prod.snd, ∀ t : Tree, (t.putAll puts).get? place = some node := by
  induction puts with
  | nil => cases h
  | cons p puts ih =>
      by_cases hlater : place ∈ puts.map Prod.fst
      · obtain ⟨node, hmem, hnode⟩ := ih hlater
        exact ⟨node, List.mem_cons_of_mem _ hmem, fun t => hnode (t.put p.1 p.2)⟩
      · have hplace : p.1 = place := by
          rw [List.map_cons, List.mem_cons] at h
          exact (h.resolve_right hlater).symm
        refine ⟨p.2, List.mem_cons_self, fun t => ?_⟩
        rw [putAll_cons, get?_putAll_of_not_mem hlater, hplace, get?_put_self t hroot]

/-- A node that is replaced later on leaves no trace. -/
theorem putAll_put (hroot : place ≠ []) (hthere : (t.get? place).isSome)
    (hlater : place ∈ puts.map Prod.fst) : (t.put place node).putAll puts = t.putAll puts := by
  induction puts generalizing t with
  | nil => cases hlater
  | cons p puts ih =>
      rw [putAll_cons, putAll_cons]
      by_cases hp : p.1 = place
      · rw [hp, put_put]
      · rw [List.map_cons, List.mem_cons] at hlater
        have hrest := hlater.resolve_left fun e => hp e.symm
        rw [put_comm hroot hthere hp]
        refine ih ?_ hrest
        rwa [get?_put_of_ne t fun e => hp e.symm]

/-- Nodes that stand where they are put change nothing, also when some of them stand there only in
the end. -/
theorem putAll_eq_self (hroot : ∀ p ∈ puts, p.1 ≠ [])
    (h : ∀ p ∈ puts, t.get? p.1 = (t.putAll puts).get? p.1) : t.putAll puts = t := by
  induction puts generalizing t with
  | nil => rfl
  | cons p puts ih =>
      have hp := hroot p List.mem_cons_self
      have hfirst := h p List.mem_cons_self
      have hrest := fun q hq => h q (List.mem_cons_of_mem p hq)
      rw [putAll_cons] at hfirst hrest ⊢
      by_cases hlater : p.1 ∈ puts.map Prod.fst
      · have hthere : (t.get? p.1).isSome := by
          obtain ⟨node, -, hnode⟩ := exists_get?_putAll hp hlater
          rw [hfirst, hnode]
          rfl
        rw [putAll_put hp hthere hlater] at hrest ⊢
        exact ih (fun q hq => hroot q (List.mem_cons_of_mem p hq)) hrest
      · have hsame : t.put p.1 p.2 = t := by
          apply put_of_get? hp
          rw [hfirst, get?_putAll_of_not_mem hlater, get?_put_self t hp]
        rw [hsame] at hrest ⊢
        exact ih (fun q hq => hroot q (List.mem_cons_of_mem p hq)) hrest

theorem map_fst_replace {ns : List (Location × Node)} (h : (lookup place ns).isSome) :
    (replace place node ns).map Prod.fst = ns.map Prod.fst := by
  induction ns with
  | nil => cases h
  | cons n ns ih =>
      rw [lookup] at h
      rw [replace]
      split at h
      · rename_i hn
        rw [if_pos hn, List.map_cons, List.map_cons, hn]
      · rename_i hn
        rw [if_neg hn, List.map_cons, List.map_cons, ih h]

theorem children_eq (t : Tree) (directory : Location) :
    t.children directory =
      ((t.nodes.map Prod.fst).filter fun p => p ≠ [] ∧ p.dropLast = directory).filterMap
        List.getLast? := by
  rw [children, List.filter_map, List.filterMap_map]
  rfl

/-- A node that is put is listed behind the entries that were there, if it is a new one. -/
theorem children_put (t : Tree) (place : Location) (node : Node) (directory : Location) :
    ∃ new, (t.put place node).children directory = t.children directory ++ new ∧
      ∀ name ∈ new, directory ++ [name] = place := by
  cases hthere : lookup place t.nodes with
  | some old =>
      refine ⟨[], ?_, by simp⟩
      rw [children_eq, children_eq, put, map_fst_replace (by rw [hthere]; rfl), List.append_nil]
  | none =>
      refine ⟨(⟨[(place, node)]⟩ : Tree).children directory, ?_, ?_⟩
      · simp only [children, put, replace_of_lookup_eq_none hthere, List.filter_append,
          List.filterMap_append]
      · intro name hname
        obtain ⟨_, hmem⟩ := mem_children_iff.mp hname
        exact congrArg Prod.fst (List.mem_singleton.mp hmem)

theorem children_putAll (t : Tree) (puts : List (Location × Node)) (directory : Location) :
    ∃ new, (t.putAll puts).children directory = t.children directory ++ new ∧
      ∀ name ∈ new, directory ++ [name] ∈ puts.map Prod.fst := by
  induction puts generalizing t with
  | nil => exact ⟨[], by simp⟩
  | cons p puts ih =>
      obtain ⟨first, hfirst, hplace⟩ := children_put t p.1 p.2 directory
      obtain ⟨rest, hrest, hplaces⟩ := ih (t.put p.1 p.2)
      refine ⟨first ++ rest, ?_, ?_⟩
      · rw [putAll_cons, hrest, hfirst, List.append_assoc]
      · intro name hname
        rw [List.map_cons, List.mem_cons]
        rcases List.mem_append.mp hname with hname | hname
        · exact .inl (hplace name hname)
        · exact .inr (hplaces name hname)

/-- The second tree is the first one, with the entries of each directory listed in whatever
order. -/
structure Relisted (t t' : Tree) : Prop where
  get? : ∀ place, t'.get? place = t.get? place
  children : ∀ place, (t'.children place).Perm (t.children place)

theorem Relisted.refl (t : Tree) : Relisted t t := ⟨fun _ => rfl, fun _ => List.Perm.refl _⟩

theorem Relisted.kept {W : Location → Prop} {t t' : Tree} (h : Relisted t t') : Kept W t t' :=
  fun place _ hnode => .inl ((h.get? place).trans hnode)

end Files.Tree

/-! ## Looking for scripts again -/

namespace Run

variable {s : Settings} {t t' : Tree} {wd place : Location} {directory : Path}
  {sources : List Path} {W : Location → Prop}

/-- The scripts of a directory are found again, in whatever order its entries are listed, when its
entries are kept and the new ones are no scripts. -/
theorem discover_of_entries (hdirectory : directory.Normal) (hkept : t.Kept W t')
    (hplace : Files.locate t wd directory.toText = .ok place)
    (hnames : ∀ name ∈ t.children place, Files.IsName name) (new : List Text)
    (hchildren : (t'.children place).Perm (t.children place ++ new))
    (hnew : ∀ name ∈ new,
      ∃ isFile, Files.pathIsFile t' wd (directory.child name).toText = .ok isFile ∧
        (isFile && hasExtension s (directory.child name)) = false)
    (hkeys : (sources.map Path.sortKey).Nodup) (h : discover s wd t directory = .ok sources) :
    discover s wd t' directory = .ok sources := by
  obtain ⟨found, hfound, hthere, hasked, hsorted⟩ := discover_eq_ok_iff.mp h
  obtain rfl : found = place := by
    rw [hplace] at hfound
    cases hfound
    rfl
  have hold : ∀ name ∈ t.children found,
      Files.pathIsFile t' wd (directory.child name).toText =
        Files.pathIsFile t wd (directory.child name).toText := by
    intro name hname
    exact Files.pathIsFile_child_of_kept hdirectory (hnames name hname) hplace hthere
      (Files.get?_isSome_of_mem_children hname) hkept
  refine discover_eq_ok_iff.mpr
    ⟨found, Files.locate_of_kept hkept hplace, hkept.directory hthere, ?_, ?_⟩
  · intro name hname
    rcases List.mem_append.mp (hchildren.mem_iff.mp hname) with hname | hname
    · rw [hold name hname]
      exact hasked name hname
    · obtain ⟨isFile, hisFile, -⟩ := hnew name hname
      exact ⟨isFile, hisFile⟩
  · have hnone : ∀ name ∈ new, ¬ isScript s wd t' (directory.child name) = true := by
      intro name hname hscript
      obtain ⟨isFile, hisFile, hextension⟩ := hnew name hname
      rw [isScript, hisFile] at hscript
      exact Bool.false_ne_true (hextension.symm.trans hscript)
    have hperm := (hchildren.map directory.child).filter (isScript s wd t')
    rw [filter_isScript_append hold hnone] at hperm
    refine Path.naturalSort_of_perm hperm.symm ?_ hsorted
    exact ((Path.naturalSort_perm hsorted).map Path.sortKey).nodup_iff.mp hkeys

end Run

end ShellDoc
