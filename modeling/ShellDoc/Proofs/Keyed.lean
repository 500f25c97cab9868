import ShellDoc.DocBlock.Basic
import Mathlib.Data.List.Induction
import Mathlib.Data.List.Nodup

/-!
# Entries under keys

The parameters of a block and its properties are lists of entries in which a
new entry takes the place of the one under the same key, or stands at the end.
`Keyed.put key` is the common form of the two, for any way to read a key off an
entry.  Putting the entries of a list one after the other into an empty table
leaves one entry for each key, in the order in which the keys first appear, and
of the entries under a key the last one.

Fields are put in the same way; their names and values are at the end.
-/

namespace ShellDoc

namespace Keyed

section EraseDups

variable {κ : Type*} [BEq κ] [LawfulBEq κ]

theorem eraseDups_append_singleton (ks : List κ) (k : κ) :
    (ks ++ [k]).eraseDups = if k ∈ ks then ks.eraseDups else ks.eraseDups ++ [k] := by
  rw [List.eraseDups_append]
  by_cases h : k ∈ ks
  · have hgone : [k].removeAll ks = [] := by simp [List.removeAll, h]
    rw [hgone, if_pos h, List.eraseDups_nil, List.append_nil]
  · have hkept : [k].removeAll ks = [k] := by simp [List.removeAll, h]
    rw [hkept, if_neg h]
    rfl

theorem nodup_eraseDups (ks : List κ) : ks.eraseDups.Nodup := by
  induction ks using List.reverseRecOn with
  | nil => exact List.nodup_nil
  | append_singleton ks k ih =>
      rw [eraseDups_append_singleton]
      split
      · exact ih
      · rename_i h
        rw [← List.concat_eq_append]
        exact ih.concat (fun hk => h (List.mem_eraseDups.mp hk))

end EraseDups

variable {α κ : Type*} [DecidableEq κ] (key : α → κ)

/-- The entries with `a` in the place of the first one under the same key, or at
the end. -/
def put (a : α) : List α → List α
  | [] => [a]
  | b :: bs => if key b = key a then a :: bs else b :: put a bs

@[simp] theorem put_nil (a : α) : put key a [] = [a] := rfl

theorem put_cons (a b : α) (bs : List α) :
    put key a (b :: bs) = if key b = key a then a :: bs else b :: put key a bs := rfl

/-- The entries of a list put into a table one after the other. -/
def putAll (table as : List α) : List α := as.foldl (fun table a => put key a table) table

/-- For each key in the order of first appearance, the last entry under it. -/
def lastOfEach (as : List α) : List α :=
  (as.map key).eraseDups.filterMap fun k => as.reverse.find? fun a => key a = k

theorem find?_reverse_append_singleton (as : List α) (a : α) (k : κ) :
    ((as ++ [a]).reverse.find? fun b => key b = k) =
      if k = key a then some a else as.reverse.find? fun b => key b = k := by
  rw [List.reverse_append, List.reverse_singleton, List.singleton_append, List.find?_cons]
  by_cases h : key a = k
  · simp [h]
  · have h' : ¬ k = key a := fun e => h e.symm
    simp [h, h']

/-- Putting an entry into a table that a look-up fills key by key replaces the
look-up at one key, which joins the keys if it was not among them. -/
theorem put_filterMap (look : κ → Option α) (a : α) (ks : List κ) (hks : ks.Nodup)
    (hlook : ∀ k ∈ ks, ∃ b, look k = some b ∧ key b = k) :
    put key a (ks.filterMap look) =
      (if key a ∈ ks then ks else ks ++ [key a]).filterMap
        fun k => if k = key a then some a else look k := by
  induction ks with
  | nil => simp
  | cons k ks ih =>
      obtain ⟨b, hb, hbk⟩ := hlook k List.mem_cons_self
      have hk : k ∉ ks := (List.nodup_cons.mp hks).1
      rw [List.filterMap_cons_some hb, put_cons, hbk]
      by_cases h : k = key a
      · have hsame : ks.filterMap look =
            ks.filterMap fun k => if k = key a then some a else look k := by
          apply List.filterMap_congr
          intro k' hk'
          have hne : k' ≠ key a := fun e => hk (h ▸ e ▸ hk')
          rw [if_neg hne]
        rw [if_pos h, hsame, if_pos (h ▸ List.mem_cons_self)]
        simp only [List.filterMap_cons, if_pos h]
      · have ih' := ih (List.nodup_cons.mp hks).2
          fun k' hk' => hlook k' (List.mem_cons_of_mem k hk')
        have hmem : key a ∈ k :: ks ↔ key a ∈ ks := by
          rw [List.mem_cons]
          exact ⟨fun e => e.resolve_left fun e => h e.symm, .inr⟩
        have hhead : (if k = key a then some a else look k) = some b := by
          rw [if_neg h, hb]
        rw [if_neg h, ih']
        by_cases hm : key a ∈ ks
        · rw [if_pos hm, if_pos (hmem.mpr hm)]
          simp only [List.filterMap_cons, hhead]
        · rw [if_neg hm, if_neg (fun e => hm (hmem.mp e)), List.cons_append]
          simp only [List.filterMap_cons, hhead]

theorem exists_find?_reverse (as : List α) (k : κ) (hk : k ∈ (as.map key).eraseDups) :
    ∃ b, (as.reverse.find? fun a => key a = k) = some b ∧ key b = k := by
  obtain ⟨a, ha, hak⟩ := List.mem_map.mp (List.mem_eraseDups.mp hk)
  have hsome : (as.reverse.find? fun a => key a = k).isSome :=
    List.find?_isSome.mpr ⟨a, List.mem_reverse.mpr ha, by simpa using hak⟩
  obtain ⟨b, hb⟩ := Option.isSome_iff_exists.mp hsome
  exact ⟨b, hb, by simpa using List.find?_some hb⟩

theorem putAll_append (table as bs : List α) :
    putAll key table (as ++ bs) = putAll key (putAll key table as) bs := by
  simp [putAll]

/-- A table that starts empty holds the last entry under each key, in the order of
first appearance. -/
theorem putAll_nil_eq_lastOfEach (as : List α) : putAll key [] as = lastOfEach key as := by
  induction as using List.reverseRecOn with
  | nil => rfl
  | append_singleton as a ih =>
      have hput := put_filterMap key (fun k => as.reverse.find? fun a => key a = k) a
        (as.map key).eraseDups (nodup_eraseDups _) (exists_find?_reverse key as)
      calc putAll key [] (as ++ [a])
          = put key a (lastOfEach key as) := by rw [putAll_append, ih]; rfl
        _ = lastOfEach key (as ++ [a]) := by
            rw [lastOfEach, hput, lastOfEach, List.map_append, List.map_singleton,
              eraseDups_append_singleton]
            simp only [List.mem_eraseDups, find?_reverse_append_singleton]

theorem mem_put_self (a : α) (table : List α) : a ∈ put key a table := by
  induction table with
  | nil => exact List.mem_singleton_self a
  | cons b table ih =>
      rw [put_cons]
      split
      · exact List.mem_cons_self
      · exact List.mem_cons_of_mem b ih

theorem forall_mem_put {P : α → Prop} {a : α} (ha : P a) {table : List α}
    (h : ∀ b ∈ table, P b) : ∀ b ∈ put key a table, P b := by
  induction table with
  | nil => exact List.forall_mem_singleton.mpr ha
  | cons b table ih =>
      rw [List.forall_mem_cons] at h
      rw [put_cons]
      split
      · exact List.forall_mem_cons.mpr ⟨ha, h.2⟩
      · exact List.forall_mem_cons.mpr ⟨h.1, ih h.2⟩

/-- Of two entries that are put under the same key, the second one stays. -/
theorem put_put {a b : α} (h : key a = key b) (table : List α) :
    put key b (put key a table) = put key b table := by
  induction table with
  | nil => simp [put_cons, h]
  | cons c table ih =>
      by_cases hc : key c = key a
      · rw [put_cons, if_pos hc, put_cons, if_pos h, put_cons, if_pos (hc.trans h)]
      · have hc' : ¬ key c = key b := fun e => hc (e.trans h.symm)
        rw [put_cons, if_neg hc, put_cons, if_neg hc', put_cons, if_neg hc', ih]

/-- Changing the entries under the key of one that was just put is putting the
changed entry, as long as no key stands twice. -/
theorem map_put (change : α → α) {a : α} (hchange : key (change a) = key a) (table : List α)
    (hnodup : (table.map key).Nodup) :
    ((put key a table).map fun b => if key b = key a then change b else b) =
      put key (change a) table := by
  -- Behind the place of the entry nothing changes: its key stands nowhere else.
  have hrest : ∀ bs : List α, key a ∉ bs.map key →
      (bs.map fun b => if key b = key a then change b else b) = bs := by
    intro bs hbs
    rw [List.map_congr_left (g := id), List.map_id]
    intro b hb
    exact if_neg fun e => hbs (List.mem_map.mpr ⟨b, hb, e⟩)
  induction table with
  | nil => simp
  | cons c table ih =>
      rw [List.map_cons, List.nodup_cons] at hnodup
      by_cases hc : key c = key a
      · rw [put_cons, if_pos hc, put_cons, if_pos (hc.trans hchange.symm), List.map_cons,
          if_pos rfl, hrest table (hc ▸ hnodup.1)]
      · have hc' : ¬ key c = key (change a) := fun e => hc (e.trans hchange)
        rw [put_cons, if_neg hc, put_cons, if_neg hc', List.map_cons, if_neg hc, ih hnodup.2]

/-! ## Keys written beside the entries -/

theorem put_map_pair (a : α) (table : List α) :
    put Prod.fst (key a, a) (table.map fun b => (key b, b)) =
      (put key a table).map fun b => (key b, b) := by
  induction table with
  | nil => rfl
  | cons b table ih =>
      rw [List.map_cons, put_cons, put_cons]
      split
      · rfl
      · rw [ih, List.map_cons]

theorem lookup_map_pair [BEq κ] [LawfulBEq κ] (k : κ) (table : List α) :
    (table.map fun b => (key b, b)).lookup k = table.find? fun b => key b = k := by
  induction table with
  | nil => rfl
  | cons b table ih =>
      rw [List.map_cons, List.lookup_cons, List.find?_cons, ih, beq_eq_decide]
      by_cases hb : key b = k
      · simp [hb]
      · have hb' : ¬ k = key b := fun e => hb e.symm
        simp [hb, hb']

/-- Putting an entry that stands under its key already changes nothing. -/
theorem put_of_find? {k : κ} {a : α} {table : List α}
    (h : (table.find? fun b => key b = k) = some a) : put key a table = table := by
  have hka : key a = k := by simpa using List.find?_some h
  induction table with
  | nil => cases h
  | cons b table ih =>
      rw [List.find?_cons] at h
      by_cases hb : key b = k
      · rw [decide_eq_true hb] at h
        rw [put_cons, if_pos (hb.trans hka.symm), Option.some.inj h]
      · rw [decide_eq_false hb] at h
        rw [put_cons, if_neg (fun e => hb (e.trans hka)), ih h]

end Keyed

theorem DocBlock.putParameter_eq_put (p : Parameter) (ps : List Parameter) :
    putParameter p ps = Keyed.put Parameter.key p ps := by
  induction ps with
  | nil => rfl
  | cons q ps ih => rw [putParameter, Keyed.put_cons, ih]

theorem DocBlock.nodup_map_key_put (p : Parameter) {ps : List Parameter}
    (h : (ps.map Parameter.key).Nodup) :
    ((Keyed.put Parameter.key p ps).map Parameter.key).Nodup := by
  rw [← putParameter_eq_put, map_key_putParameter]
  split
  · exact h
  · rename_i hnew
    rw [← List.concat_eq_append]
    exact h.concat hnew

/-! ## Fields -/

namespace Fields

variable {α : Type}

theorem put_eq_put (fs : Fields α) (name : Text) (value : α) :
    fs.put name value = Keyed.put Prod.fst (name, value) fs := by
  induction fs with
  | nil => rfl
  | cons f fs ih => rw [put, Keyed.put_cons, ih]

theorem isSome_get?_iff (fs : Fields α) (name : Text) :
    (fs.get? name).isSome = true ↔ name ∈ fs.names := by
  induction fs with
  | nil => simp [get?, names]
  | cons f fs ih =>
      rw [names, List.map_cons, List.mem_cons, get?]
      by_cases h : f.1 = name
      · simp [h]
      · rw [if_neg h, ih]
        exact ⟨.inr, fun e => e.resolve_left fun e => h e.symm⟩

theorem names_append (fs gs : Fields α) : names (fs ++ gs) = names fs ++ names gs :=
  List.map_append

theorem get?_append (fs gs : Fields α) (name : Text) :
    get? (fs ++ gs) name = (get? fs name).or (get? gs name) := by
  induction fs with
  | nil => rfl
  | cons f fs ih =>
      rw [List.cons_append, get?, get?]
      split
      · rfl
      · exact ih

theorem nodup_names_put {fs : Fields α} (h : fs.names.Nodup) (name : Text) (value : α) :
    (fs.put name value).names.Nodup := by
  rw [names_put]
  split
  · exact h
  · rename_i hnew
    rw [← List.concat_eq_append]
    exact h.concat hnew

theorem forall_mem_put {P : Text × α → Prop} {fs : Fields α} {name : Text} {value : α}
    (hput : P (name, value)) (h : ∀ f ∈ fs, P f) : ∀ f ∈ fs.put name value, P f := by
  rw [put_eq_put]
  exact Keyed.forall_mem_put _ hput h

theorem get?_of_mem {fs : Fields α} {name : Text} {value : α}
    (hnodup : fs.names.Nodup) (h : (name, value) ∈ fs) : fs.get? name = some value := by
  induction fs with
  | nil => cases h
  | cons f fs ih =>
      rw [names, List.map_cons, List.nodup_cons] at hnodup
      rcases List.mem_cons.mp h with rfl | h
      · simp [get?]
      · have hne : f.1 ≠ name := by
          rintro rfl
          exact hnodup.1 (List.mem_map.mpr ⟨_, h, rfl⟩)
        rw [get?, if_neg hne]
        exact ih hnodup.2 h

/-- Of several fields with one name that are put, the last one counts. -/
theorem get?_putAll (fs gs : Fields α) (name : Text) :
    (fs.putAll gs).get? name = (get? gs.reverse name).or (fs.get? name) := by
  induction gs using List.reverseRecOn with
  | nil => rfl
  | append_singleton gs g ih =>
      have hlast : fs.putAll (gs ++ [g]) = (fs.putAll gs).put g.1 g.2 := by
        simp [putAll, List.foldl_append]
      rw [hlast, List.reverse_append, List.reverse_singleton, List.singleton_append, get?]
      by_cases hname : g.1 = name
      · rw [if_pos hname, ← hname, get?_put_self]
        rfl
      · rw [if_neg hname, get?_put_of_ne _ _ (Ne.symm hname), ih]

theorem get?_filter {p : Text → Bool} {name : Text} (h : p name = true) (fs : Fields α) :
    get? (fs.filter fun f => p f.1) name = fs.get? name := by
  induction fs with
  | nil => rfl
  | cons f fs ih =>
      by_cases hname : f.1 = name
      · rw [List.filter_cons_of_pos (by rw [hname, h]), get?, get?, if_pos hname, if_pos hname]
      · rw [get?, if_neg hname, ← ih, List.filter_cons]
        split
        · rw [get?, if_neg hname]
        · rfl

theorem get?_eq_none {fs : Fields α} {name : Text} (h : ∀ f ∈ fs, f.1 ≠ name) :
    fs.get? name = none := by
  rw [← Option.not_isSome_iff_eq_none, isSome_get?_iff, names, List.mem_map]
  rintro ⟨f, hf, hname⟩
  exact h f hf hname

theorem forall_mem_putAll {P : Text × α → Prop} {fs gs : Fields α} (hfs : ∀ f ∈ fs, P f)
    (hgs : ∀ g ∈ gs, P g) : ∀ f ∈ fs.putAll gs, P f := by
  induction gs generalizing fs with
  | nil => exact hfs
  | cons g gs ih =>
      rw [List.forall_mem_cons] at hgs
      exact ih (forall_mem_put hgs.1 hfs) hgs.2

theorem putAll_append (fs gs hs : Fields α) : fs.putAll (gs ++ hs) = (fs.putAll gs).putAll hs :=
  List.foldl_append

theorem ofPairs_append (fs gs : Fields α) : ofPairs (fs ++ gs) = (ofPairs fs).putAll gs :=
  putAll_append [] fs gs

theorem forall_mem_ofPairs {P : Text × α → Prop} {fs : Fields α} (h : ∀ f ∈ fs, P f) :
    ∀ f ∈ ofPairs fs, P f :=
  forall_mem_putAll (List.forall_mem_nil P) h

theorem get?_ofPairs (fs : Fields α) (name : Text) :
    (ofPairs fs).get? name = get? fs.reverse name := by
  rw [ofPairs, get?_putAll, get?, Option.or_none]

/-- The names of fields that are put into an empty record, in the order of first appearance. -/
theorem names_ofPairs (fs : Fields α) : names (ofPairs fs) = fs.names.eraseDups := by
  induction fs using List.reverseRecOn with
  | nil => rfl
  | append_singleton fs f ih =>
      have hnames : names (fs ++ [f]) = names fs ++ [f.1] := names_append fs [f]
      rw [ofPairs] at ih ⊢
      rw [putAll_append, putAll_cons, putAll_nil, names_put, ih, hnames,
        Keyed.eraseDups_append_singleton]
      simp only [List.mem_eraseDups]

theorem nodup_names_ofPairs (fs : Fields α) : (names (ofPairs fs)).Nodup := by
  rw [names_ofPairs]
  exact Keyed.nodup_eraseDups fs.names

theorem put_of_not_mem {fs : Fields α} {name : Text} {value : α} (h : name ∉ fs.names) :
    fs.put name value = fs ++ [(name, value)] := by
  induction fs with
  | nil => rfl
  | cons f fs ih =>
      rw [names, List.map_cons, List.mem_cons, not_or] at h
      rw [put, if_neg (Ne.symm h.1), ih h.2, List.cons_append]

/-- Fields with different names stand in a record as they were put. -/
theorem ofPairs_of_nodup {fs : Fields α} (h : fs.names.Nodup) : ofPairs fs = fs := by
  induction fs using List.reverseRecOn with
  | nil => rfl
  | append_singleton fs f ih =>
      have hnames : names (fs ++ [f]) = names fs ++ [f.1] := names_append fs [f]
      rw [hnames, List.nodup_append] at h
      have hnew : f.1 ∉ names fs := fun hmem => h.2.2 _ hmem _ (List.mem_singleton_self _) rfl
      rw [ofPairs] at ih ⊢
      rw [putAll_append, ih h.1, putAll_cons, putAll_nil, put_of_not_mem hnew]

end Fields

end ShellDoc
