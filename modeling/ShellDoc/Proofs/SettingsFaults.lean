import ShellDoc.Command.Execute
import ShellDoc.Proofs.JsonValues
import ShellDoc.Proofs.SettingsFields

/-!
# Faults of settings files

A file that holds no settings is reported, with some exceptions: a number or a date that cannot be
made, a key that is no text, and, under the first key whose value is of the wrong kind, a value that
no message can quote.  `Escaping` says when a content is one of these, and the faults that end the
program are those of the escaping contents (`exists_fatal_ofContent_iff`).

JSON has texts for keys and bounds the digits of its integers, so that nothing in a JSON file
escapes but an integer that is too long (`escaping_of_json_iff`).
-/

namespace ShellDoc

open Command (Handling loadHandling refusalHandling)
open Files (Location Tree)

namespace Settings

variable {entries : List (Value × Value)} {key : Key} {r : Refusal}

/-! ## Keys that are no texts -/

theorem mapM_textOf?_eq_none_iff {vs : List Value} :
    vs.mapM textOf? = none ↔ ∃ v ∈ vs, textOf? v = none := by
  induction vs with
  | nil => simp
  | cons v vs ih =>
      rw [List.mapM_cons, List.exists_mem_cons_iff, ← ih]
      cases textOf? v <;> cases vs.mapM textOf? <;> simp

theorem sameKey_text_of_textOf?_eq_none {s : Text} {w : Value} (h : textOf? w = none) :
    Value.sameKey (.text s) w = false := by
  cases w <;> first | rfl | cases h

theorem mem_of_mem_withoutRepeats {v : Value} {vs : List Value} (h : v ∈ withoutRepeats vs) :
    v ∈ vs := by
  induction vs with
  | nil => exact h
  | cons w vs ih =>
      rcases List.mem_cons.mp h with rfl | h
      · exact List.mem_cons_self
      · exact List.mem_cons_of_mem w (ih (List.mem_of_mem_filter h))

/-- A key that is no text may stand for others, but never for texts only. -/
theorem exists_mem_withoutRepeats_iff {vs : List Value} :
    (∃ v ∈ withoutRepeats vs, textOf? v = none) ↔ ∃ v ∈ vs, textOf? v = none := by
  constructor
  · rintro ⟨v, hv, hnone⟩
    exact ⟨v, mem_of_mem_withoutRepeats hv, hnone⟩
  · induction vs with
    | nil => exact id
    | cons w vs ih =>
        intro h
        rw [withoutRepeats, List.exists_mem_cons_iff]
        cases hw : textOf? w with
        | none => exact .inl rfl
        | some s =>
            rw [List.exists_mem_cons_iff, hw] at h
            obtain ⟨v, hv, hnone⟩ := ih (h.resolve_left (Option.some_ne_none s))
            obtain rfl : w = .text s := by cases w <;> cases hw; rfl
            refine .inr ⟨v, List.mem_filter.mpr ⟨hv, ?_⟩, hnone⟩
            rw [sameKey_text_of_textOf?_eq_none hnone]
            rfl

theorem refusalHandling_refuseKeys {unknown : List Value} (h : unknown ≠ []) :
    refusalHandling (refuseKeys unknown) = .fatal := by
  unfold refuseKeys
  split
  · exact absurd rfl h
  · split_ifs
    · rfl
    · rfl
    · split <;> rfl

theorem isKnown_of_textOf?_eq_none {v : Value} (h : textOf? v = none) : isKnown v = false := by
  cases v <;> first | rfl | cases h

/-- The keys of a mapping that no setting has. -/
def unknownKeys (entries : List (Value × Value)) : List Value :=
  (entries.map Prod.fst).filter fun k => !isKnown k

theorem exists_mem_unknownKeys_iff :
    (∃ v ∈ unknownKeys entries, textOf? v = none) ↔ ∃ e ∈ entries, textOf? e.1 = none := by
  simp only [unknownKeys, List.mem_filter, List.mem_map]
  constructor
  · rintro ⟨_, ⟨⟨e, he, rfl⟩, -⟩, hnone⟩
    exact ⟨e, he, hnone⟩
  · rintro ⟨e, he, hnone⟩
    exact ⟨e.1, ⟨⟨e, he, rfl⟩, by rw [isKnown_of_textOf?_eq_none hnone]; rfl⟩, hnone⟩

theorem checkKeys_mapping (entries : List (Value × Value)) :
    checkKeys (.mapping entries) =
      match (withoutRepeats (unknownKeys entries)).mapM textOf? with
      | some [] => .ok ()
      | some names => .error (.unknownKeys (Text.sort names))
      | none => .error (refuseKeys (withoutRepeats (unknownKeys entries))) := rfl

theorem checkKeys_of_keyNotText (h : ∃ e ∈ entries, textOf? e.1 = none) :
    ∃ r, checkKeys (.mapping entries) = .error r ∧ refusalHandling r = .fatal := by
  have hnone := mapM_textOf?_eq_none_iff.mpr
    (exists_mem_withoutRepeats_iff.mpr (exists_mem_unknownKeys_iff.mpr h))
  have hne : withoutRepeats (unknownKeys entries) ≠ [] := by
    intro hnil
    rw [hnil] at hnone
    cases hnone
  exact ⟨_, by rw [checkKeys_mapping, hnone], refusalHandling_refuseKeys hne⟩

theorem isKnown_of_withoutRepeats_eq_nil (h : withoutRepeats (unknownKeys entries) = []) :
    ∀ e ∈ entries, isKnown e.1 = true := by
  have hnil : unknownKeys entries = [] := by
    cases hunknown : unknownKeys entries with
    | nil => rfl
    | cons v vs =>
        rw [hunknown, withoutRepeats] at h
        cases h
  simpa [unknownKeys, List.filter_eq_nil_iff] using hnil

theorem checkKeys_of_texts (h : ¬ ∃ e ∈ entries, textOf? e.1 = none) :
    (∀ e ∈ entries, isKnown e.1 = true) ∧ checkKeys (.mapping entries) = .ok () ∨
      ∃ r, checkKeys (.mapping entries) = .error r ∧ refusalHandling r = .reported := by
  cases hnames : (withoutRepeats (unknownKeys entries)).mapM textOf? with
  | none =>
      rw [mapM_textOf?_eq_none_iff, exists_mem_withoutRepeats_iff,
        exists_mem_unknownKeys_iff] at hnames
      exact absurd hnames h
  | some names =>
      cases names with
      | nil =>
          have hnil : withoutRepeats (unknownKeys entries) = [] := by
            cases hunknown : withoutRepeats (unknownKeys entries) with
            | nil => rfl
            | cons v vs =>
                rw [hunknown, List.mapM_cons] at hnames
                cases hv : textOf? v <;> cases hvs : vs.mapM textOf? <;> simp [hv, hvs] at hnames
          have hknown := isKnown_of_withoutRepeats_eq_nil hnil
          exact .inl ⟨hknown, checkKeys_of_known hknown⟩
      | cons name names => exact .inr ⟨_, by rw [checkKeys_mapping, hnames], rfl⟩

/-! ## Values of the wrong kind -/

/-- The value is of the kind of the setting under a key. -/
def Fits (key : Key) (v : Value) : Prop :=
  match ({} : Settings).get key, v with
  | .text _, .text _ => True
  | .flag _, .bool _ => True
  | .list _, .text _ => True
  | .list _, .list vs => ∀ w ∈ vs, ∃ s, w = .text s
  | _, _ => False

theorem areWritable_of_texts {vs : List Value} (h : ∀ w ∈ vs, ∃ s, w = .text s) :
    Value.areWritable vs = true := by
  induction vs with
  | nil => rfl
  | cons v vs ih =>
      obtain ⟨⟨s, rfl⟩, hvs⟩ := List.forall_mem_cons.mp h
      rw [Value.areWritable, ih hvs]
      rfl

/-- A value that no message can quote is of no setting's kind. -/
theorem isWritable_of_fits {v : Value} (h : Fits key v) : v.isWritable = true := by
  unfold Fits at h
  split at h
  · rfl
  · rfl
  · rfl
  · rw [Value.isWritable]
    exact areWritable_of_texts h
  · exact h.elim

theorem texts_iff_mapM_textOf?_ne_none {vs : List Value} :
    (∀ w ∈ vs, ∃ s, w = .text s) ↔ vs.mapM textOf? ≠ none := by
  rw [ne_eq, mapM_textOf?_eq_none_iff]
  push Not
  refine forall₂_congr fun w _ => ?_
  cases w <;> simp [textOf?]

theorem filterMap_textOf?_of_mapM {vs : List Value} {items : List Text}
    (h : vs.mapM textOf? = some items) : vs.filterMap textOf? = items := by
  induction vs generalizing items with
  | nil =>
      cases h
      rfl
  | cons v vs ih =>
      rw [List.mapM_cons] at h
      obtain ⟨item, hv, h⟩ := Option.bind_eq_some_iff.mp h
      obtain ⟨rest, hvs, h⟩ := Option.bind_eq_some_iff.mp h
      cases h
      rw [List.filterMap_cons_some hv, ih hvs]

/-- The setting that a value gives under a key, the default for a value of the wrong kind. -/
def taken (key : Key) (v : Value) : Setting :=
  match ({} : Settings).get key, v with
  | .text _, .text s => kept key (.text s)
  | .flag _, .bool b => .flag b
  | .list _, .text s => .list (Text.items s)
  | .list _, .list vs => .list (vs.filterMap textOf?)
  | default, _ => default

/-- The refusal of a value of the wrong kind. -/
def misfit (key : Key) : Value → Refusal :=
  match ({} : Settings).get key with
  | .text _ => .notText key
  | .flag _ => .notFlag key
  | .list _ => .notList key

theorem refusalHandling_misfit (key : Key) (v : Value) :
    refusalHandling (misfit key v) = .reported := by
  cases key <;> rfl

/-- A value is taken, or it is refused in words that quote it. -/
theorem settingOf_cases (key : Key) (v : Value) :
    Fits key v ∧ settingOf key (({} : Settings).get key) v = .ok (taken key v) ∨
      ¬ Fits key v ∧
        settingOf key (({} : Settings).get key) v = .error (refuse (misfit key) v) := by
  unfold Fits taken misfit
  cases ({} : Settings).get key with
  | text d =>
      cases v with
      | text s => exact .inl ⟨trivial, rfl⟩
      | _ => exact .inr ⟨id, rfl⟩
  | flag d =>
      cases v with
      | bool b => exact .inl ⟨trivial, rfl⟩
      | _ => exact .inr ⟨id, rfl⟩
  | list d =>
      cases v with
      | text s => exact .inl ⟨trivial, rfl⟩
      | list vs =>
          dsimp only
          rw [texts_iff_mapM_textOf?_ne_none, settingOf]
          cases hvs : vs.mapM textOf? with
          | none => exact .inr ⟨fun h => h rfl, rfl⟩
          | some items =>
              rw [filterMap_textOf?_of_mapM hvs]
              exact .inl ⟨Option.some_ne_none items, rfl⟩
      | _ => exact .inr ⟨id, rfl⟩

theorem exists_settingAt_eq_ok_iff :
    (∃ x, settingAt entries key = .ok x) ↔ ∀ v, given? entries key = some v → Fits key v := by
  cases hv : given? entries key with
  | none => exact iff_of_true ⟨_, settingAt_of_missing hv⟩ nofun
  | some v =>
      simp only [settingAt_of_given hv, Option.some.injEq, forall_eq']
      obtain ⟨hfits, hok⟩ | ⟨hfits, herror⟩ := settingOf_cases key v
      · exact iff_of_true ⟨_, hok⟩ hfits
      · rw [herror]
        exact iff_of_false nofun hfits

/-- A value that no message can quote stands under a key, and the values of the keys in front of it
are of the kinds that they should be. -/
def Unquotable (entries : List (Value × Value)) : Prop :=
  ∃ front key back v, Key.all = front ++ key :: back ∧
    (∀ j ∈ front, ∀ w, given? entries j = some w → Fits j w) ∧
    given? entries key = some v ∧ v.isWritable = false

theorem ofEntries_of_unquotable (h : Unquotable entries) :
    ofEntries entries = .error .unwritable := by
  obtain ⟨front, key, back, v, hall, hfront, hv, hwritable⟩ := h
  refine ofEntries_eq_error_iff.mpr ⟨front, key, back, hall, ?_, ?_⟩
  · intro j hj
    exact exists_settingAt_eq_ok_iff.mpr (hfront j hj)
  · rw [settingAt_of_given hv]
    obtain ⟨hfits, -⟩ | ⟨-, herror⟩ := settingOf_cases key v
    · rw [isWritable_of_fits hfits] at hwritable
      cases hwritable
    · rw [herror, refuse, hwritable]
      rfl

theorem unquotable_of_ofEntries (h : ofEntries entries = .error r)
    (hfatal : refusalHandling r = .fatal) : Unquotable entries := by
  obtain ⟨front, key, back, hall, hfront, hkey⟩ := ofEntries_eq_error_iff.mp h
  cases hv : given? entries key with
  | none =>
      rw [settingAt_of_missing hv] at hkey
      cases hkey
  | some v =>
      rw [settingAt_of_given hv] at hkey
      refine ⟨front, key, back, v, hall,
        fun j hj => exists_settingAt_eq_ok_iff.mp (hfront j hj), hv, ?_⟩
      obtain ⟨-, hok⟩ | ⟨-, herror⟩ := settingOf_cases key v
      · rw [hok] at hkey
        cases hkey
      · rw [herror, Except.error.injEq] at hkey
        by_contra hwritable
        rw [refuse, if_pos (by simpa using hwritable)] at hkey
        rw [← hkey, refusalHandling_misfit] at hfatal
        cases hfatal

/-- The entries are refused, and the refusal ends the program. -/
def EscapingEntries (entries : List (Value × Value)) : Prop :=
  (∃ e ∈ entries, textOf? e.1 = none) ∨
    (∀ e ∈ entries, isKnown e.1 = true) ∧ Unquotable entries

theorem ofValue_eq_error_iff : ofValue (.mapping entries) = .error r ↔
    checkKeys (.mapping entries) = .error r ∨
      checkKeys (.mapping entries) = .ok () ∧ ofEntries entries = .error r := by
  rw [ofValue, bind_eq_error_iff]
  refine or_congr_right ⟨?_, fun h => ⟨(), h⟩⟩
  rintro ⟨_, h⟩
  exact h

theorem exists_fatal_ofValue_iff :
    (∃ r, ofValue (.mapping entries) = .error r ∧ refusalHandling r = .fatal) ↔
      EscapingEntries entries := by
  simp only [ofValue_eq_error_iff]
  by_cases hkeys : ∃ e ∈ entries, textOf? e.1 = none
  · obtain ⟨r, hcheck, hfatal⟩ := checkKeys_of_keyNotText hkeys
    exact iff_of_true ⟨r, .inl hcheck, hfatal⟩ (.inl hkeys)
  · constructor
    · rintro ⟨r, hrefused, hfatal⟩
      obtain ⟨hknown, hcheck⟩ | ⟨r', hcheck, hreported⟩ := checkKeys_of_texts hkeys
      · obtain hcheck' | ⟨-, hentries⟩ := hrefused
        · rw [hcheck] at hcheck'
          cases hcheck'
        · exact .inr ⟨hknown, unquotable_of_ofEntries hentries hfatal⟩
      · obtain hcheck' | ⟨hcheck', -⟩ := hrefused
        · rw [hcheck, Except.error.injEq] at hcheck'
          rw [← hcheck', hreported] at hfatal
          cases hfatal
        · rw [hcheck] at hcheck'
          cases hcheck'
    · rintro (hkeys' | ⟨hknown, hunquotable⟩)
      · exact absurd hkeys' hkeys
      · exact ⟨.unwritable, .inr ⟨checkKeys_of_known hknown,
          ofEntries_of_unquotable hunquotable⟩, rfl⟩

/-! ## The content of a file -/

variable {path : Text} {bytes : Text.Bytes} {f : LoadFault}

/-- The content of a file gives no settings, and the fault ends the program. -/
def Escaping (path : Text) (bytes : Text.Bytes) : Prop :=
  (∃ n, parseContent path bytes = .error (.numeral n)) ∨
  (∃ y, parseContent path bytes = .error (.scalar y)) ∨
  ∃ v entries, parseContent path bytes = .ok v ∧ fileEntries? v = some entries ∧
    EscapingEntries entries

theorem parseContent_error_cases (h : parseContent path bytes = .error f) :
    (∃ n, f = .numeral n) ∨ (∃ y, f = .scalar y) ∨ loadHandling f = .reported := by
  unfold parseContent at h
  split_ifs at h
  · split at h
    · cases h
      exact .inr (.inr rfl)
    · dsimp only at h
      split at h
      · cases h
      · cases h
        exact .inr (.inr rfl)
      · cases h
        exact .inl ⟨_, rfl⟩
  · split at h
    · cases h
      exact .inr (.inr rfl)
    · split at h
      · cases h
      · cases h
        exact .inr (.inr rfl)
      · cases h
        exact .inl ⟨_, rfl⟩
      · cases h
        exact .inr (.inl ⟨_, rfl⟩)

theorem ofContent_eq_error_iff : ofContent path bytes = .error f ↔
    parseContent path bytes = .error f ∨ ∃ v, parseContent path bytes = .ok v ∧
      (fileEntries? v = none ∧ f = .noMapping path ∨ ∃ entries, fileEntries? v = some entries ∧
        ∃ r, ofValue (.mapping entries) = .error r ∧ f = .refused r) := by
  rw [ofContent_eq]
  cases parseContent path bytes with
  | error f' => simp
  | ok v =>
      cases hentries : fileEntries? v with
      | none => simp [hentries, eq_comm]
      | some entries =>
          cases hread : ofValue (.mapping entries) <;> simp [hentries, hread, eq_comm]

/-- The faults that end the program are those of the escaping contents. -/
theorem exists_fatal_ofContent_iff :
    (∃ f, ofContent path bytes = .error f ∧ loadHandling f = .fatal) ↔ Escaping path bytes := by
  simp only [ofContent_eq_error_iff]
  constructor
  · rintro ⟨f, hparse | ⟨v, hparse, ⟨-, rfl⟩ | ⟨entries, hentries, r, hread, rfl⟩⟩, hfatal⟩
    · obtain ⟨n, rfl⟩ | ⟨y, rfl⟩ | hreported := parseContent_error_cases hparse
      · exact .inl ⟨n, hparse⟩
      · exact .inr (.inl ⟨y, hparse⟩)
      · rw [hreported] at hfatal
        cases hfatal
    · cases hfatal
    · exact .inr (.inr ⟨v, entries, hparse, hentries,
        exists_fatal_ofValue_iff.mp ⟨r, hread, hfatal⟩⟩)
  · rintro (⟨n, hparse⟩ | ⟨y, hparse⟩ | ⟨v, entries, hparse, hentries, hescaping⟩)
    · exact ⟨_, .inl hparse, rfl⟩
    · exact ⟨_, .inl hparse, rfl⟩
    · obtain ⟨r, hread, hfatal⟩ := exists_fatal_ofValue_iff.mpr hescaping
      exact ⟨.refused r, .inr ⟨v, hparse, .inr ⟨entries, hentries, r, hread, rfl⟩⟩, hfatal⟩

theorem handling_of_ofContent (h : ofContent path bytes = .error f) :
    loadHandling f = .reported ∨ loadHandling f = .fatal := by
  rw [ofContent_eq_error_iff] at h
  obtain hparse | ⟨v, hparse, ⟨-, rfl⟩ | ⟨entries, hentries, r, hread, rfl⟩⟩ := h
  · obtain ⟨n, rfl⟩ | ⟨y, rfl⟩ | hreported := parseContent_error_cases hparse
    · exact .inr rfl
    · exact .inr rfl
    · exact .inl hreported
  · exact .inl rfl
  · cases r <;> first | exact .inl rfl | exact .inr rfl

end Settings

/-! ## JSON files -/

theorem Value.areWritable_iff {vs : List Value} :
    Value.areWritable vs = true ↔ ∀ v ∈ vs, v.isWritable = true := by
  induction vs with
  | nil => simp [Value.areWritable]
  | cons v vs ih => simp [Value.areWritable, ih]

theorem Value.entriesAreWritable_iff {es : List (Value × Value)} :
    Value.entriesAreWritable es = true ↔
      ∀ e ∈ es, e.1.isWritable = true ∧ e.2.isWritable = true := by
  induction es with
  | nil => simp [Value.entriesAreWritable]
  | cons e es ih =>
      obtain ⟨k, v⟩ := e
      simp [Value.entriesAreWritable, ih, and_assoc]

theorem Json.IsJson.isWritable {v : Value} (h : IsJson v) : v.isWritable = true := by
  induction h with
  | null => rfl
  | bool b => rfl
  | int h => rw [Value.isWritable, decide_eq_true_eq]; exact h
  | real _ => rfl
  | text s => rfl
  | list _ ih => rw [Value.isWritable, Value.areWritable_iff]; exact ih
  | mapping _ _ ih =>
      rw [Value.isWritable, Value.entriesAreWritable_iff]
      exact List.forall_mem_map.mpr fun f hf => ⟨rfl, ih f hf⟩

namespace Settings

variable {path : Text} {bytes : Text.Bytes}

theorem isWritable_of_given {entries : List (Value × Value)} (h : Json.IsRecord entries)
    {key : Key} {v : Value} (hv : given? entries key = some v) : v.isWritable = true := by
  have hentry : Value.entry? entries key.name = some v := by
    rw [given?] at hv
    split at hv
    · cases hv
    · exact hv
  obtain ⟨e, he, rfl⟩ := Option.map_eq_some_iff.mp hentry
  obtain ⟨fs, rfl, -, hvalues⟩ := h
  obtain ⟨f, hf, rfl⟩ := List.mem_map.mp (List.mem_of_find?_eq_some he)
  exact (hvalues f hf).isWritable

theorem not_escapingEntries_of_isRecord {entries : List (Value × Value)}
    (h : Json.IsRecord entries) : ¬ EscapingEntries entries := by
  rintro (⟨e, he, hnone⟩ | ⟨-, front, key, back, v, -, -, hv, hwritable⟩)
  · obtain ⟨fs, rfl, -⟩ := h
    obtain ⟨f, -, rfl⟩ := List.mem_map.mp he
    cases hnone
  · rw [isWritable_of_given h hv] at hwritable
    cases hwritable

theorem isJson_of_parseContent {v : Value} (hjson : isJsonPath path = true)
    (h : parseContent path bytes = .ok v) : Json.IsJson v := by
  rw [parseContent, if_pos hjson] at h
  split at h
  · cases h
  · dsimp only at h
    split at h
    · rename_i hread
      cases h
      exact Json.isJson_of_read hread
    · cases h
    · cases h

/-- Of a JSON file, only an integer that is too long escapes. -/
theorem escaping_of_json_iff (hjson : isJsonPath path = true) :
    Escaping path bytes ↔ ∃ n, parseContent path bytes = .error (.numeral n) := by
  refine ⟨?_, .inl⟩
  rintro (hnumeral | ⟨y, hscalar⟩ | ⟨v, entries, hparse, hentries, hescaping⟩)
  · exact hnumeral
  · rw [parseContent, if_pos hjson] at hscalar
    split at hscalar
    · cases hscalar
    · dsimp only at hscalar
      split at hscalar <;> cases hscalar
  · have hrecord : Json.IsRecord entries := by
      cases v <;> cases hentries
      · exact ⟨[], rfl, List.nodup_nil, nofun⟩
      · exact Json.isJson_mapping_iff.mp (isJson_of_parseContent hjson hparse)
    exact absurd hescaping (not_escapingEntries_of_isRecord hrecord)

end Settings

/-! ## What the commands do -/

namespace Command

open Settings (load expandHome isJsonPath environmentFile? parseContent Escaping)

/-- The file that holds the settings of a command: the one that its options name, or else the one
that the environment names. -/
def SettingsFrom (s : Session) (g : GlobalOptions) (file : Text) : Prop :=
  g.settingsFile = file ∧ file ≠ [] ∨
    g.settingsFile = [] ∧ environmentFile? s.tree s.workingDirectory s.environment = some file

theorem effectiveSettings_of_load {s : Session} {g : GlobalOptions} {file : Text}
    (hfrom : SettingsFrom s g file) {f : Settings.LoadFault}
    (h : load s.tree s.workingDirectory s.environment file = .error f) (o : Overrides) :
    effectiveSettings s g.settingsFile o = .error f := by
  rw [effectiveSettings]
  obtain ⟨hfile, hne⟩ | ⟨hfile, henvironment⟩ := hfrom
  · have hempty : ¬ g.settingsFile.isEmpty = true := by simpa [hfile] using hne
    rw [if_neg hempty, hfile, h]
    rfl
  · rw [if_pos (by rw [hfile]; rfl), Settings.ofEnvironment, henvironment]
    dsimp only
    rw [h]
    rfl

section

variable {s : Session} {g : GlobalOptions} {f : Settings.LoadFault}

theorem commands_of_reported (h : ∀ o, effectiveSettings s g.settingsFile o = .error f)
    (hf : loadHandling f = .reported) (path : Text) (o : Overrides) (json : Bool) :
    generateCommand s g path o json = abort s f.message ∧
      inspectCommand s g path json = abort s f.message ∧
      configCommand s g json = abort s f.message := by
  rw [generateCommand, inspectCommand, configCommand, h, h]
  simp [hf]

theorem commands_of_fatal (h : ∀ o, effectiveSettings s g.settingsFile o = .error f)
    (hf : loadHandling f = .fatal) (path : Text) (o : Overrides) (json : Bool) :
    generateCommand s g path o json = (s, .error (.settings f)) ∧
      inspectCommand s g path json = (s, .error (.settings f)) ∧
      configCommand s g json = (s, .error (.settings f)) := by
  rw [generateCommand, inspectCommand, configCommand, h, h]
  simp [hf]

end

/-- A session with one file. -/
def sessionWithFile (name content : Text) : Session :=
  { tree := ⟨[([name], .file (Text.encode content))]⟩, workingDirectory := [], environment := [],
    journal := Log.Journal.initial false ⟨⟨2026, 1, 1⟩, 0, 0, 0, 0, none⟩ }

end Command

end ShellDoc
