import Mathlib.Data.List.Sort
import ShellDoc.Proofs.NaturalOrder
import ShellDoc.Proofs.SettingsFaults

/-!
# Settings from JSON objects

An object gives settings if and only if it has no unknown names and every value is null or of the
kind of its key (`settings_of_object`).  Otherwise it is refused, for all of its unknown names
(`ofValue_of_unknown`), or else for the first value of the wrong kind (`IsFirstMisfit`).

The names of an object are texts and different from each other, so that its unknown names are the
names of the refusal, up to their order (`checkKeys_entriesOf`); and every value of JSON can be
quoted, so that no refusal ends the program.
-/

namespace ShellDoc

open Command (refusalHandling)

namespace Text

theorem sort_perm (ts : List Text) : (sort ts).Perm ts := List.mergeSort_perm ts le

theorem pairwise_sort (ts : List Text) : (sort ts).Pairwise (· ≤ ·) := by
  have hle : (sort ts).Pairwise fun s u => le s u = true := by
    refine List.pairwise_mergeSort (fun s u v hsu huv => ?_) (fun s u => ?_) ts
    · rw [le_iff] at hsu huv ⊢
      exact hsu.trans huv
    · rw [Bool.or_eq_true, le_iff, le_iff]
      exact le_total s u
  exact hle.imp le_iff.mp

/-- Different texts are sorted strictly. -/
theorem pairwise_lt_sort {ts : List Text} (h : ts.Nodup) : (sort ts).Pairwise (· < ·) := by
  have hnodup : (sort ts).Nodup := (sort_perm ts).nodup_iff.mpr h
  exact (pairwise_sort ts).imp₂ (fun _ _ hle hne => lt_of_le_of_ne hle hne) hnodup

end Text

namespace Settings

variable {fs : Fields Value} {key : Key} {v : Value} {r : Refusal} {s : Settings}

/-- The entries of an object with some fields. -/
def entriesOf (fs : Fields Value) : List (Value × Value) := fs.map fun f => (.text f.1, f.2)

/-! ## The names of an object -/

/-- The names of an object that are no keys. -/
def unknownNames (fs : Fields Value) : List Text := fs.names.filter fun n => !Key.names.contains n

theorem unknownNames_eq_nil_iff : unknownNames fs = [] ↔ ∀ name ∈ fs.names, name ∈ Key.names := by
  simp [unknownNames, List.filter_eq_nil_iff]

theorem mem_unknownNames {name : Text} :
    name ∈ unknownNames fs ↔ name ∈ fs.names ∧ name ∉ Key.names := by
  simp [unknownNames]

theorem unknownKeys_entriesOf (fs : Fields Value) :
    unknownKeys (entriesOf fs) = (unknownNames fs).map .text := by
  rw [unknownKeys, entriesOf, unknownNames, Fields.names, List.map_map, List.filter_map,
    List.filter_map, List.map_map]
  rfl

theorem withoutRepeats_map_text {names : List Text} (h : names.Nodup) :
    withoutRepeats (names.map .text) = names.map .text := by
  induction names with
  | nil => rfl
  | cons name names ih =>
      obtain ⟨hname, hnames⟩ := List.nodup_cons.mp h
      rw [List.map_cons, withoutRepeats, ih hnames, List.filter_eq_self.mpr]
      intro w hw
      obtain ⟨other, hother, rfl⟩ := List.mem_map.mp hw
      have hne : name ≠ other := fun e => hname (e ▸ hother)
      simpa [Value.sameKey] using hne

/-- An object is refused for all of its unknown names at once. -/
theorem checkKeys_entriesOf (h : fs.names.Nodup) :
    checkKeys (.mapping (entriesOf fs)) =
      if unknownNames fs = [] then .ok ()
      else .error (.unknownKeys (Text.sort (unknownNames fs))) := by
  have hnodup : (unknownNames fs).Nodup := h.filter _
  rw [checkKeys_mapping, unknownKeys_entriesOf, withoutRepeats_map_text hnodup,
    mapM_textOf?_map_text]
  cases unknownNames fs <;> rfl

/-! ## The values of an object -/

theorem entry?_entriesOf (fs : Fields Value) (name : Text) :
    Value.entry? (entriesOf fs) name = fs.get? name := by
  induction fs with
  | nil => rfl
  | cons f fs ih =>
      have hsame : Value.sameKey (.text f.1) (.text name) = decide (f.1 = name) := rfl
      rw [Fields.get?, Value.entry?, entriesOf, List.map_cons, List.find?_cons, hsame]
      by_cases h : f.1 = name
      · rw [if_pos h, decide_eq_true h]
        rfl
      · rw [if_neg h, decide_eq_false h]
        exact ih

theorem given?_entriesOf_iff : given? (entriesOf fs) key = some v ↔
    fs.get? key.name = some v ∧ v ≠ .null := by
  rw [given?, entry?_entriesOf]
  split
  · rename_i hnull
    rw [hnull]
    constructor
    · intro h
      cases h
    · rintro ⟨h, hv⟩
      exact absurd (Option.some.inj h).symm hv
  · rename_i other hother
    exact ⟨fun h => ⟨h, fun hv => hother (hv ▸ h)⟩, And.left⟩

/-- The setting that an object gives for a key: the default where the value is missing or null. -/
def objectSetting (fs : Fields Value) (key : Key) : Setting :=
  match fs.get? key.name with
  | none => ({} : Settings).get key
  | some .null => ({} : Settings).get key
  | some v => taken key v

/-- The value under a key is null or of the right kind, if there is one. -/
def Suits (fs : Fields Value) (key : Key) : Prop :=
  ∀ v, fs.get? key.name = some v → v = .null ∨ Fits key v

/-- The value `v` under `key` is of the wrong kind, and no key in front of this one has a value of
the wrong kind. -/
structure IsFirstMisfit (fs : Fields Value) (key : Key) (v : Value) : Prop where
  value : fs.get? key.name = some v
  notNull : v ≠ .null
  notFits : ¬ Fits key v
  first : ∃ front back, Key.all = front ++ key :: back ∧ ∀ j ∈ front, Suits fs j

theorem objectSetting_of_given (hv : fs.get? key.name = some v) (hnull : v ≠ .null) :
    objectSetting fs key = taken key v := by
  rw [objectSetting, hv]
  cases v <;> first | rfl | exact absurd rfl hnull

theorem objectSetting_of_not_given (h : given? (entriesOf fs) key = none) :
    objectSetting fs key = ({} : Settings).get key := by
  rw [given?, entry?_entriesOf] at h
  rw [objectSetting]
  split at h <;> simp [*]

theorem suits_iff : Suits fs key ↔ ∀ v, given? (entriesOf fs) key = some v → Fits key v := by
  simp only [Suits, given?_entriesOf_iff]
  refine forall_congr' fun v => ?_
  by_cases hv : v = .null <;> simp [hv]

theorem settingAt_eq_ok_iff {x : Setting} :
    settingAt (entriesOf fs) key = .ok x ↔ Suits fs key ∧ objectSetting fs key = x := by
  rw [suits_iff]
  cases hv : given? (entriesOf fs) key with
  | none =>
      rw [settingAt_of_missing hv, objectSetting_of_not_given hv, Except.ok.injEq]
      exact (and_iff_right nofun).symm
  | some v =>
      obtain ⟨hget, hnull⟩ := given?_entriesOf_iff.mp hv
      rw [settingAt_of_given hv, objectSetting_of_given hget hnull]
      simp only [Option.some.injEq, forall_eq']
      obtain ⟨hfits, hok⟩ | ⟨hfits, herror⟩ := settingOf_cases key v
      · rw [hok, Except.ok.injEq]
        exact (and_iff_right hfits).symm
      · rw [herror]
        exact iff_of_false nofun fun h => hfits h.1

/-! ## Reading an object -/

theorem ofEntries_entriesOf_eq_ok_iff : ofEntries (entriesOf fs) = .ok s ↔
    (∀ key, Suits fs key) ∧ ∀ key, objectSetting fs key = s.get key := by
  simp only [ofEntries_eq_ok_iff, settingAt_eq_ok_iff, forall_and]

theorem settingAt_eq_error_iff (h : Json.IsRecord (entriesOf fs)) :
    settingAt (entriesOf fs) key = .error r ↔
      ∃ v, fs.get? key.name = some v ∧ v ≠ .null ∧ ¬ Fits key v ∧ r = misfit key v := by
  simp only [← and_assoc, ← given?_entriesOf_iff]
  cases hv : given? (entriesOf fs) key with
  | none =>
      rw [settingAt_of_missing hv]
      simp
  | some v =>
      have hwritable : v.isWritable = true := isWritable_of_given h hv
      rw [settingAt_of_given hv]
      simp only [Option.some.injEq, and_assoc, exists_eq_left']
      obtain ⟨hfits, hok⟩ | ⟨hfits, herror⟩ := settingOf_cases key v
      · rw [hok]
        exact iff_of_false nofun fun h => h.1 hfits
      · rw [herror, refuse, if_pos hwritable, Except.error.injEq, and_iff_right hfits, eq_comm]

theorem ofEntries_entriesOf_eq_error_iff (h : Json.IsRecord (entriesOf fs)) :
    ofEntries (entriesOf fs) = .error r ↔
      ∃ key v, IsFirstMisfit fs key v ∧ r = misfit key v := by
  have hsuits (j : Key) : (∃ x, settingAt (entriesOf fs) j = .ok x) ↔ Suits fs j := by
    simp [settingAt_eq_ok_iff]
  simp only [ofEntries_eq_error_iff, hsuits, settingAt_eq_error_iff h]
  constructor
  · rintro ⟨front, key, back, hall, hfront, v, hv, hnull, hfits, rfl⟩
    exact ⟨key, v, ⟨hv, hnull, hfits, front, back, hall, hfront⟩, rfl⟩
  · rintro ⟨key, v, ⟨hv, hnull, hfits, front, back, hall, hfront⟩, rfl⟩
    exact ⟨front, key, back, hall, hfront, v, hv, hnull, hfits, rfl⟩

/-- An object either has a key whose value is of the wrong kind, or gives settings. -/
theorem exists_ofEntries_eq_ok (h : ∀ key, Suits fs key) :
    ∃ s, ofEntries (entriesOf fs) = .ok s := by
  cases hread : ofEntries (entriesOf fs) with
  | ok s => exact ⟨s, rfl⟩
  | error r =>
      obtain ⟨front, key, back, -, -, hkey⟩ := ofEntries_eq_error_iff.mp hread
      rw [settingAt_eq_ok_iff.mpr ⟨h key, rfl⟩] at hkey
      cases hkey

theorem ofValue_entriesOf (fs : Fields Value) : ofValue (.mapping (entriesOf fs)) =
    (checkKeys (.mapping (entriesOf fs)) >>= fun _ => ofEntries (entriesOf fs)) := rfl

theorem ofValue_of_known (hnames : fs.names.Nodup) (h : ∀ name ∈ fs.names, name ∈ Key.names) :
    ofValue (.mapping (entriesOf fs)) = ofEntries (entriesOf fs) := by
  rw [ofValue_entriesOf, checkKeys_entriesOf hnames, if_pos (unknownNames_eq_nil_iff.mpr h)]
  rfl

theorem ofValue_of_unknown (hnames : fs.names.Nodup)
    (h : ¬ ∀ name ∈ fs.names, name ∈ Key.names) :
    ofValue (.mapping (entriesOf fs)) = .error (.unknownKeys (Text.sort (unknownNames fs))) := by
  rw [ofValue_entriesOf, checkKeys_entriesOf hnames, if_neg (unknownNames_eq_nil_iff.not.mpr h)]
  rfl

/-- Why an object is refused: for its unknown names, sorted, or else for its first value of the
wrong kind. -/
def IsRefusal (fs : Fields Value) (r : Refusal) : Prop :=
  (∃ names, names ≠ [] ∧ names.Pairwise (· < ·) ∧
    (∀ name, name ∈ names ↔ name ∈ fs.names ∧ name ∉ Key.names) ∧ r = .unknownKeys names) ∨
  (∀ name ∈ fs.names, name ∈ Key.names) ∧ ∃ key v, IsFirstMisfit fs key v ∧ r = misfit key v

theorem ofValue_entriesOf_eq_error_iff (h : Json.IsRecord (entriesOf fs))
    (hnames : fs.names.Nodup) :
    ofValue (.mapping (entriesOf fs)) = .error r ↔ IsRefusal fs r := by
  rw [IsRefusal]
  by_cases hknown : ∀ name ∈ fs.names, name ∈ Key.names
  · rw [ofValue_of_known hnames hknown, ofEntries_entriesOf_eq_error_iff h, and_iff_right hknown]
    refine (or_iff_right ?_).symm
    rintro ⟨names, hne, -, hmem, -⟩
    obtain ⟨name, hname⟩ := List.exists_mem_of_ne_nil names hne
    obtain ⟨hfield, hnot⟩ := (hmem name).mp hname
    exact hnot (hknown name hfield)
  · rw [ofValue_of_unknown hnames hknown, or_iff_left fun h => hknown h.1, Except.error.injEq]
    have hperm := Text.sort_perm (unknownNames fs)
    have hsorted : (Text.sort (unknownNames fs)).Pairwise (· < ·) :=
      Text.pairwise_lt_sort (hnames.filter _)
    constructor
    · rintro rfl
      refine ⟨_, ?_, hsorted, fun name => hperm.mem_iff.trans mem_unknownNames, rfl⟩
      rwa [ne_eq, ← List.length_eq_zero_iff, hperm.length_eq, List.length_eq_zero_iff,
        unknownNames_eq_nil_iff]
    · rintro ⟨names, -, hstrict, hmem, rfl⟩
      have hsame : Text.sort (unknownNames fs) = names :=
        hsorted.eq_of_mem_iff hstrict fun name =>
          (hperm.mem_iff.trans mem_unknownNames).trans (hmem name).symm
      rw [hsame]

theorem exists_ofValue_eq_ok_iff (hnames : fs.names.Nodup) :
    (∃ s, ofValue (.mapping (entriesOf fs)) = .ok s) ↔
      (∀ name ∈ fs.names, name ∈ Key.names) ∧ ∀ key, Suits fs key := by
  by_cases hknown : ∀ name ∈ fs.names, name ∈ Key.names
  · rw [ofValue_of_known hnames hknown, and_iff_right hknown]
    exact ⟨fun ⟨_, h⟩ => (ofEntries_entriesOf_eq_ok_iff.mp h).1, exists_ofEntries_eq_ok⟩
  · rw [ofValue_of_unknown hnames hknown]
    exact iff_of_false nofun fun h => hknown h.1

theorem get_of_ofValue (h : ofValue (.mapping (entriesOf fs)) = .ok s) (key : Key) :
    s.get key = objectSetting fs key := by
  obtain ⟨-, -, hentries⟩ := bind_eq_ok_iff.mp h
  exact ((ofEntries_entriesOf_eq_ok_iff.mp hentries).2 key).symm

theorem IsRefusal.isReported (h : IsRefusal fs r) : refusalHandling r = .reported := by
  obtain ⟨names, -, -, -, rfl⟩ | ⟨-, key, v, -, rfl⟩ := h
  · rfl
  · exact refusalHandling_misfit key v

/-- The message on a value of the wrong kind names its key. -/
theorem message_misfit (key : Key) (v : Value) : ∃ expected : Text, (misfit key v).message =
    Text.concat ["\"", key.name, "\" must be ", expected, ", got ", v.literal] := by
  rw [misfit]
  cases ({} : Settings).get key
  · exact ⟨"a string", rfl⟩
  · exact ⟨"true or false", rfl⟩
  · exact ⟨"a list of strings", rfl⟩

/-- An object gives settings if and only if all of its names are keys and every value is null or of
the kind of its key, and then a key has the setting that its value gives, or else the default.  Any
other object is refused with a report: for its unknown names, sorted, if it has any, and else for
the first key in the order of the keys whose value is of the wrong kind.  The message names them. -/
theorem settings_of_object (text : Text) (entries : List (Value × Value))
    (h : Json.read text = .ok (.mapping entries)) :
    ∃ fs : Fields Value, entries = entriesOf fs ∧ fs.names.Nodup ∧
      ((∃ s, ofValue (.mapping entries) = .ok s) ↔
        (∀ name ∈ fs.names, name ∈ Key.names) ∧ ∀ key, Suits fs key) ∧
      (∀ s, ofValue (.mapping entries) = .ok s → ∀ key, s.get key = objectSetting fs key) ∧
      (∀ r, ofValue (.mapping entries) = .error r ↔ IsRefusal fs r) ∧
      (∀ r, IsRefusal fs r → refusalHandling r = .reported) ∧
      (∀ names, (Refusal.unknownKeys names).message =
        Text.concat ["Unknown configuration keys: ", Text.join ", " names]) ∧
      (∀ key v, ∃ expected, (misfit key v).message =
        Text.concat ["\"", key.name, "\" must be ", expected, ", got ", v.literal]) ∧
      Key.names = ["title".toList, "output".toList, "force".toList, "keep_extension".toList,
        "copyright".toList, "table_of_contents".toList, "capitalize".toList,
        "default_dialect".toList, "allowed_dialects".toList, "source_extensions".toList,
        "toc_filename".toList, "toc_heading".toList] := by
  have hrecord := Json.isJson_mapping_iff.mp (Json.isJson_of_read h)
  obtain ⟨fs, hentries, hnames, -⟩ := id hrecord
  obtain rfl : entries = entriesOf fs := hentries
  exact ⟨fs, rfl, hnames, exists_ofValue_eq_ok_iff hnames, fun s hs => get_of_ofValue hs,
    fun r => ofValue_entriesOf_eq_error_iff hrecord hnames, fun r hr => hr.isReported,
    fun _ => rfl, message_misfit, rfl⟩

/-- An object with a list that is given as a text, and one with two values of the wrong kind. -/
theorem settings_of_object_two :
    let entries : List (Value × Value) :=
      [(.text "force", .null), (.text "title", .text " T "),
        (.text "allowed_dialects", .text "sh,, bash")]
    let wrong : List (Value × Value) := [(.text "force", .text "yes"), (.text "title", .bool true)]
    let s : Settings := { title := "T", allowedDialects := ["sh", "bash"] }
    (Json.read (Json.write (.mapping entries)) = .ok (.mapping entries) ∧
      ofValue (.mapping entries) = .ok s ∧
      ∃ fs, entries = entriesOf fs ∧ (∀ name ∈ fs.names, name ∈ Key.names) ∧
        (∀ key, Suits fs key) ∧ ∀ key, s.get key = objectSetting fs key) ∧
    (Json.read (Json.write (.mapping wrong)) = .ok (.mapping wrong) ∧
      ofValue (.mapping wrong) = .error (.notText .title (.bool true)) ∧
      ∃ fs, wrong = entriesOf fs ∧ IsRefusal fs (.notText .title (.bool true))) := by
  intro entries wrong s
  have hjson : Json.IsJson (.mapping entries) := by
    refine Json.isJson_mapping_iff.mpr ⟨[("force", .null), ("title", .text " T "),
      ("allowed_dialects", .text "sh,, bash")], rfl, by decide, ?_⟩
    simp only [List.forall_mem_cons]
    exact ⟨.null, .text _, .text _, List.forall_mem_nil _⟩
  have hjsonWrong : Json.IsJson (.mapping wrong) := by
    refine Json.isJson_mapping_iff.mpr
      ⟨[("force", .text "yes"), ("title", .bool true)], rfl, by decide, ?_⟩
    simp only [List.forall_mem_cons]
    exact ⟨.text _, .bool true, List.forall_mem_nil _⟩
  have hread := hjson.read_write
  have hreadWrong := hjsonWrong.read_write
  have hok : ofValue (.mapping entries) = .ok s := by
    unfold entries s
    apply eq_ok_of_check
    decide +kernel
  have hrefused : ofValue (.mapping wrong) = .error (.notText .title (.bool true)) := by rfl
  obtain ⟨fs, hfs, -, haccepted, hgiven, -⟩ := settings_of_object _ _ hread
  obtain ⟨fs', hfs', -, -, -, hwhy, -⟩ := settings_of_object _ _ hreadWrong
  obtain ⟨hknown, hsuits⟩ := haccepted.mp ⟨s, hok⟩
  exact ⟨⟨hread, hok, fs, hfs, hknown, hsuits, hgiven s hok⟩, hreadWrong, hrefused, fs', hfs',
    (hwhy _).mp hrefused⟩

end Settings

end ShellDoc
