import ShellDoc.Proofs.FileAccess
import ShellDoc.Proofs.TextParts
import ShellDoc.Settings.Store
import Mathlib.Data.List.Nodup

/-!
# Settings key by key

The settings of a mapping are read one key after the other, and the first key whose value is of the
wrong kind stops the reading.  `settingAt entries key` is what the entries give for one key, and
`map_get_ofEntries` says that reading all of them is the traversal of the keys by it.  From this
come the two halves of what a reading gives: the setting of every key (`ofEntries_eq_ok_iff`), or
the refusal of the first key that has one (`ofEntries_eq_error_iff`).

The title and the footer are kept without the blanks around them, and stripping a text twice is
stripping it once (`Text.strip_strip`).
-/

namespace ShellDoc

namespace Key

theorem nodup_names : names.Nodup := by decide +kernel

theorem name_injective : Function.Injective name := fun j k h =>
  List.inj_on_of_nodup_map nodup_names j.mem_all k.mem_all h

/-- A key is found under its name. -/
theorem named?_name (key : Key) : named? key.name = some key := by
  cases hnamed : named? key.name with
  | none => exact absurd (List.find?_eq_none.mp hnamed key key.mem_all) (by simp)
  | some k =>
      have hname : k.name = key.name := by simpa using List.find?_some hnamed
      rw [name_injective hname]

end Key

namespace Settings

variable {entries : List (Value × Value)} {key : Key} {s : Settings}

/-! ## One key -/

/-- The form in which a setting is kept: the title and the footer without the blanks around
them. -/
def kept (key : Key) : Setting → Setting
  | .text s => .text (if key = .title ∨ key = .copyright then Text.strip s else s)
  | setting => setting

theorem kept_kept (key : Key) (x : Setting) : kept key (kept key x) = kept key x := by
  cases x with
  | text s =>
      by_cases h : key = .title ∨ key = .copyright
      · simp [kept, h, Text.strip_strip]
      · simp [kept, h]
  | flag b => rfl
  | list items => rfl

/-- A value as a setting of the same kind as another one. -/
def settingOf (key : Key) : Setting → Value → Except Refusal Setting
  | .text _, .text s => .ok (kept key (.text s))
  | .text _, v => .error (refuse (.notText key) v)
  | .flag _, .bool b => .ok (.flag b)
  | .flag _, v => .error (refuse (.notFlag key) v)
  | .list _, .text s => .ok (.list (Text.items s))
  | .list _, .list vs =>
      match vs.mapM textOf? with
      | some items => .ok (.list items)
      | none => .error (refuse (.notList key) (.list vs))
  | .list _, v => .error (refuse (.notList key) v)

/-- What the entries of a mapping give for a key. -/
def settingAt (entries : List (Value × Value)) (key : Key) : Except Refusal Setting :=
  match given? entries key with
  | none => .ok (({} : Settings).get key)
  | some v => settingOf key (({} : Settings).get key) v

theorem settingAt_of_missing (h : given? entries key = none) :
    settingAt entries key = .ok (({} : Settings).get key) := by
  rw [settingAt, h]

theorem settingAt_of_given {v : Value} (h : given? entries key = some v) :
    settingAt entries key = settingOf key (({} : Settings).get key) v := by
  rw [settingAt, h]

theorem kept_default (key : Key) :
    kept key (({} : Settings).get key) = ({} : Settings).get key := by
  cases key <;> rfl

theorem settingAt_of_text (key : Key) {d : Text} (h : ({} : Settings).get key = .text d) :
    settingAt entries key = (fun t => kept key (.text t)) <$> readText entries key d := by
  have hd := kept_default key
  rw [h] at hd
  rw [settingAt, readText, h]
  cases given? entries key with
  | none => exact congrArg Except.ok hd.symm
  | some v => cases v <;> rfl

theorem settingAt_of_flag (key : Key) {d : Bool} (h : ({} : Settings).get key = .flag d) :
    settingAt entries key = Setting.flag <$> readFlag entries key d := by
  rw [settingAt, readFlag, h]
  cases given? entries key with
  | none => rfl
  | some v => cases v <;> rfl

theorem settingAt_of_list (key : Key) {d : List Text} (h : ({} : Settings).get key = .list d) :
    settingAt entries key = Setting.list <$> readList entries key d := by
  rw [settingAt, readList, h]
  cases given? entries key with
  | none => rfl
  | some v =>
      cases v with
      | list vs =>
          simp only [settingOf]
          cases vs.mapM textOf? <;> rfl
      | _ => rfl

/-! ## All keys -/

theorem map_get_ofEntries (entries : List (Value × Value)) :
    (fun s : Settings => Key.all.map s.get) <$> ofEntries entries =
      Key.all.mapM (settingAt entries) := by
  simp only [Key.all, List.mapM_cons, List.mapM_nil, ofEntries, map_bind, map_pure,
    settingAt_of_text .title rfl, settingAt_of_text .output rfl, settingAt_of_flag .force rfl,
    settingAt_of_flag .keepExtension rfl, settingAt_of_text .copyright rfl,
    settingAt_of_flag .tableOfContents rfl, settingAt_of_flag .capitalize rfl,
    settingAt_of_text .defaultDialect rfl, settingAt_of_list .allowedDialects rfl,
    settingAt_of_list .sourceExtensions rfl, settingAt_of_text .contentsFile rfl,
    settingAt_of_text .contentsHeading rfl, bind_map_left, bind_assoc, pure_bind]
  rfl

/-- Settings are read exactly when each of them is. -/
theorem ofEntries_eq_ok_iff :
    ofEntries entries = .ok s ↔ ∀ key, settingAt entries key = .ok (s.get key) := by
  have hall : Key.all.mapM (settingAt entries) = .ok (Key.all.map s.get) ↔
      ∀ key, settingAt entries key = .ok (s.get key) :=
    mapM_eq_ok_map_iff.trans ⟨fun h key => h key key.mem_all, fun h key _ => h key⟩
  rw [← hall, ← map_get_ofEntries]
  constructor
  · intro h
    rw [h]
    rfl
  · cases hread : ofEntries entries with
    | error r => exact nofun
    | ok s' =>
        intro h
        have hget : Key.all.map s'.get = Key.all.map s.get := Except.ok.inj h
        rw [eq_of_get_eq fun key => List.map_inj_left.mp hget key key.mem_all]

/-- Settings are refused for the first key whose value is of the wrong kind. -/
theorem ofEntries_eq_error_iff {r : Refusal} :
    ofEntries entries = .error r ↔ ∃ front key back, Key.all = front ++ key :: back ∧
      (∀ j ∈ front, ∃ x, settingAt entries j = .ok x) ∧ settingAt entries key = .error r := by
  rw [← mapM_eq_error_iff, ← map_get_ofEntries]
  cases ofEntries entries <;> simp [Functor.map, Except.map]

/-! ## Trimmed settings -/

/-- The title and the footer have no blanks around them. -/
structure Trimmed (s : Settings) : Prop where
  title : Text.strip s.title = s.title
  copyright : Text.strip s.copyright = s.copyright

theorem trimmed_iff : s.Trimmed ↔ ∀ key, kept key (s.get key) = s.get key := by
  constructor
  · rintro ⟨htitle, hcopyright⟩ key
    cases key with
    | title => exact congrArg Setting.text htitle
    | copyright => exact congrArg Setting.text hcopyright
    | _ => rfl
  · intro h
    exact ⟨Setting.text.inj (h .title), Setting.text.inj (h .copyright)⟩

theorem kept_of_settingAt {x : Setting} (h : settingAt entries key = .ok x) : kept key x = x := by
  rw [settingAt] at h
  split at h
  · rw [← Except.ok.inj h, kept_default]
  · rename_i v _
    unfold settingOf at h
    split at h
    · rw [← Except.ok.inj h, kept_kept]
    · cases h
    · rw [← Except.ok.inj h]
      rfl
    · cases h
    · rw [← Except.ok.inj h]
      rfl
    · split at h
      · rw [← Except.ok.inj h]
        rfl
      · cases h
    · cases h

theorem Trimmed.of_ofEntries (h : ofEntries entries = .ok s) : s.Trimmed :=
  trimmed_iff.mpr fun key => kept_of_settingAt (ofEntries_eq_ok_iff.mp h key)

/-! ## Settings as a value -/

theorem mapM_textOf?_map_text (items : List Text) :
    (items.map Value.text).mapM textOf? = some items := by
  induction items with
  | nil => rfl
  | cons item items ih => simp [ih, textOf?]

theorem settingOf_toValue (key : Key) (s : Settings) :
    settingOf key (({} : Settings).get key) (s.get key).toValue = .ok (kept key (s.get key)) := by
  cases key <;>
    first
      | rfl
      | simp only [get, Setting.toValue, Value.texts, settingOf, mapM_textOf?_map_text, kept]

/-- The entries of settings as a mapping. -/
def toEntries (s : Settings) : List (Value × Value) :=
  Key.all.map fun key => (.text key.name, (s.get key).toValue)

theorem toValue_eq (s : Settings) : s.toValue = .mapping s.toEntries := by
  simp only [toValue, toValues, toFields, Value.ofFields, toEntries, List.map_map]
  rfl

theorem given?_toEntries (s : Settings) (key : Key) :
    given? s.toEntries key = some (s.get key).toValue := by
  have hentry : Value.entry? s.toEntries key.name =
      (Key.named? key.name).map fun k => (s.get k).toValue := by
    rw [Value.entry?, toEntries, List.find?_map, Option.map_map]
    rfl
  rw [given?, hentry, Key.named?_name, Option.map_some]
  cases s.get key <;> rfl

/-- Settings read back from their own entries, up to the blanks around the title and the footer. -/
theorem settingAt_toEntries (s : Settings) (key : Key) :
    settingAt s.toEntries key = .ok (kept key (s.get key)) := by
  rw [settingAt_of_given (given?_toEntries s key)]
  exact settingOf_toValue key s

theorem ofEntries_toEntries_eq_ok_iff : ofEntries s.toEntries = .ok s ↔ s.Trimmed := by
  rw [ofEntries_eq_ok_iff, trimmed_iff]
  simp only [settingAt_toEntries, Except.ok.injEq]

/-! ## Keys -/

theorem checkKeys_of_known (h : ∀ e ∈ entries, isKnown e.1 = true) :
    checkKeys (.mapping entries) = .ok () := by
  have hfilter : (entries.map Prod.fst).filter (fun k => !isKnown k) = [] := by
    simpa [List.filter_eq_nil_iff] using fun k v he => h (k, v) he
  simp [checkKeys, members, hfilter, bind, Except.bind, withoutRepeats, pure, Except.pure]

theorem isKnown_of_mem_toEntries : ∀ e ∈ s.toEntries, isKnown e.1 = true := by
  intro e he
  obtain ⟨key, -, rfl⟩ := List.mem_map.mp he
  have hname : key.name ∈ Key.names := List.mem_map_of_mem key.mem_all
  simpa [isKnown] using hname

/-- Trimmed settings, and no others, read back from the value that holds them. -/
theorem ofValue_toValue_eq_ok_iff : ofValue s.toValue = .ok s ↔ s.Trimmed := by
  have hvalue : ofValue (.mapping s.toEntries) = ofEntries s.toEntries := by
    rw [ofValue, checkKeys_of_known isKnown_of_mem_toEntries]
    exact pure_bind () _
  rw [toValue_eq, hvalue]
  exact ofEntries_toEntries_eq_ok_iff

/-! ## The content of a file -/

/-- The entries of a value that a file may hold; an empty file stands for no entries. -/
def fileEntries? : Value → Option (List (Value × Value))
  | .null => some []
  | .mapping entries => some entries
  | _ => none

theorem ofContent_eq (path : Text) (bytes : Text.Bytes) :
    ofContent path bytes =
      match parseContent path bytes with
      | .error f => .error f
      | .ok v =>
          match fileEntries? v with
          | none => .error (.noMapping path)
          | some entries =>
              match ofValue (.mapping entries) with
              | .ok s => .ok s
              | .error r => .error (.refused r) := by
  rw [ofContent]
  cases parseContent path bytes with
  | error f => rfl
  | ok v => cases v <;> rfl

theorem ofContent_eq_ok_iff {path : Text} {bytes : Text.Bytes} :
    ofContent path bytes = .ok s ↔ ∃ v entries, parseContent path bytes = .ok v ∧
      fileEntries? v = some entries ∧ ofValue (.mapping entries) = .ok s := by
  rw [ofContent_eq]
  cases parseContent path bytes with
  | error f => simp
  | ok v =>
      cases hentries : fileEntries? v with
      | none => simp [hentries]
      | some entries =>
          cases hread : ofValue (.mapping entries) <;> simp [hentries, hread]

end Settings

end ShellDoc
