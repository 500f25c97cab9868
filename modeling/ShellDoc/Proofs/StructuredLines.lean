import ShellDoc.Log.Layout
import ShellDoc.Proofs.JsonValues

/-!
# Structured log lines

A structured line is the compact JSON form of the merged fields of a record: the standard fields,
the attributes that are shown and the extra fields of the layout, each put into the ones before.
Written JSON reads back, so that a line is a faithful copy of the merged fields
(`structured_line_reads_back`), and it is made of visible ASCII characters, so that no message can
break it.
-/

namespace ShellDoc.Log

open Json (IsJson Writable decoded)

namespace Record

variable (r : Record)

/-- Only the hidden names are kept from the attributes. -/
theorem names_shown :
    r.shown.names = r.attributes.names.filter fun name => name ∉ hiddenAttributes := by
  simp [shown, Fields.names, List.filter_map, Function.comp_def]

theorem get?_shown_reverse {name : Text} (h : name ∉ hiddenAttributes) :
    Fields.get? r.shown.reverse name = Fields.get? r.attributes.reverse name := by
  have hshown : (!hiddenAttributes.contains name) = true := by simpa using h
  rw [shown, ← List.filter_reverse,
    Fields.get?_filter (p := fun name => !hiddenAttributes.contains name) hshown]

theorem get?_shown_reverse_of_hidden {name : Text} (h : name ∈ hiddenAttributes) :
    Fields.get? r.shown.reverse name = none := by
  refine Fields.get?_eq_none fun f hf hname => ?_
  have hshown := (List.mem_filter.mp (List.mem_reverse.mp hf)).2
  rw [hname] at hshown
  simp [h] at hshown

end Record

namespace StructuredLayout

variable (l : StructuredLayout) (now : Moment) (r : Record) (message : Text)

/-- The names of the standard fields that a line of a record has, in order. -/
def standardNames : List Text :=
  (if l.timestamp then ["timestamp".toList] else []) ++
    ((if l.level then ["level".toList] else []) ++
      ((if l.logger then ["logger".toList] else []) ++
        ("message".toList :: if r.exception.isSome then ["exception".toList] else [])))

theorem names_textField (wanted : Bool) (name value : Text) :
    (textField wanted name value).names = if wanted then [name] else [] := by
  cases wanted <;> rfl

theorem names_standardFields : (l.standardFields now r message).names = l.standardNames r := by
  simp only [standardFields, Fields.names_append, names_textField, standardNames, if_true,
    List.append_assoc, List.singleton_append]

theorem nodup_standardNames : (l.standardNames r).Nodup := by
  rw [standardNames]
  cases l.timestamp <;> cases l.level <;> cases l.logger <;> cases r.exception.isSome <;> decide

/-- The merged fields as the fields of all three kinds put into an empty record. -/
theorem fields_eq_ofPairs :
    l.fields now r message =
      .ofPairs (l.standardFields now r message ++ (r.shown ++ l.extra)) := by
  have hstandard : Fields.ofPairs (l.standardFields now r message) =
      l.standardFields now r message := by
    refine Fields.ofPairs_of_nodup ?_
    rw [names_standardFields]
    exact l.nodup_standardNames r
  rw [Fields.ofPairs] at hstandard ⊢
  rw [Fields.putAll_append, Fields.putAll_append, hstandard, fields]

theorem names_fields :
    (l.fields now r message).names =
      (l.standardNames r ++ (r.shown.names ++ l.extra.names)).eraseDups := by
  rw [fields_eq_ofPairs, Fields.names_ofPairs, ← l.names_standardFields now r message]
  rw [Fields.names_append, Fields.names_append]

theorem get?_fields (name : Text) :
    (l.fields now r message).get? name =
      (Fields.get? l.extra.reverse name).or
        ((Fields.get? r.shown.reverse name).or ((l.standardFields now r message).get? name)) := by
  rw [fields, Fields.get?_putAll, Fields.get?_putAll]

theorem get?_textField_of_ne (wanted : Bool) {name other : Text} (h : name ≠ other)
    (value : Text) : (textField wanted name value).get? other = none := by
  cases wanted
  · rfl
  · exact if_neg h

/-- Of the standard fields only the message has a name that is hidden. -/
theorem get?_standardFields_of_hidden {name : Text} (h : name ∈ hiddenAttributes) :
    (l.standardFields now r message).get? name =
      if name = "message".toList then some (.text message) else none := by
  have hshown : ∀ other ∈ ["timestamp".toList, "level".toList, "logger".toList,
      "exception".toList], other ∉ hiddenAttributes := by decide +kernel
  have hne : ∀ other ∈ ["timestamp".toList, "level".toList, "logger".toList,
      "exception".toList], other ≠ name := by
    rintro other hother rfl
    exact hshown other hother h
  simp only [List.forall_mem_cons] at hne
  obtain ⟨htimestamp, hlevel, hlogger, hexception, -⟩ := hne
  simp only [standardFields, Fields.get?_append, get?_textField_of_ne _ htimestamp,
    get?_textField_of_ne _ hlevel, get?_textField_of_ne _ hlogger,
    get?_textField_of_ne _ hexception, Option.none_or, Option.or_none]
  by_cases hname : name = "message".toList
  · rw [if_pos hname, hname]
    rfl
  · rw [if_neg hname, get?_textField_of_ne _ (Ne.symm hname)]

/-- What holds of texts, of the attributes that are shown and of the extra fields holds of every
merged field. -/
theorem forall_mem_fields {P : Value → Prop} (htext : ∀ s, P (.text s))
    (hattributes : ∀ f ∈ r.attributes, f.1 ∉ hiddenAttributes → P f.2)
    (hextra : ∀ f ∈ l.extra, P f.2) : ∀ f ∈ l.fields now r message, P f.2 := by
  have hfield (wanted : Bool) (name value : Text) : ∀ f ∈ textField wanted name value, P f.2 := by
    cases wanted
    · exact fun f hf => absurd hf List.not_mem_nil
    · exact List.forall_mem_singleton.mpr (htext value)
  have hstandard : ∀ f ∈ l.standardFields now r message, P f.2 := by
    simp only [standardFields, List.forall_mem_append]
    exact ⟨⟨⟨⟨hfield _ _ _, hfield _ _ _⟩, hfield _ _ _⟩, hfield _ _ _⟩, hfield _ _ _⟩
  have hshown : ∀ f ∈ r.shown, P f.2 := by
    intro f hf
    obtain ⟨hmem, hname⟩ := List.mem_filter.mp hf
    exact hattributes f hmem (by simpa using hname)
  exact Fields.forall_mem_putAll (P := fun f => P f.2)
    (Fields.forall_mem_putAll (P := fun f => P f.2) hstandard hshown) hextra

theorem format_eq_ok (h : r.message = .ok message) :
    l.format now r = .ok (Json.write (.ofFields (l.fields now r message))) := by
  rw [format, h]
  rfl

end StructuredLayout

/-- A structured line is one line of visible ASCII characters that reads as the merged fields of the
record, each name once: the standard fields that are wanted, the attributes without a reserved name
and the extra fields of the layout.  For a name that occurs more than once the extra field counts
before the attribute and the attribute before the standard field.  A reserved name stands for an
extra field only, but for the message. -/
theorem structured_line_reads_back (l : StructuredLayout) (now : Moment) (r : Record)
    (message : Text) (hmessage : r.message = .ok message)
    (hattributes : ∀ f ∈ r.attributes, f.1 ∉ hiddenAttributes → Writable f.2)
    (hextra : ∀ f ∈ l.extra, Writable f.2) :
    ∃ (line : Text) (merged : Fields Value), l.format now r = .ok line ∧
      (∀ c ∈ line, 0x20 ≤ c.toNat ∧ c.toNat ≤ 0x7e) ∧
      Json.read line = .ok (.ofFields (merged.map fun f => (f.1, decoded f.2))) ∧
      ((∀ f ∈ r.attributes, f.1 ∉ hiddenAttributes → IsJson f.2) → (∀ f ∈ l.extra, IsJson f.2) →
        Json.read line = .ok (.ofFields merged)) ∧
      merged.names.Nodup ∧
      merged.names = (l.standardNames r ++
        ((r.attributes.names.filter fun name => name ∉ hiddenAttributes) ++
          l.extra.names)).eraseDups ∧
      (∀ name, name ∉ hiddenAttributes →
        merged.get? name = (Fields.get? l.extra.reverse name).or
          ((Fields.get? r.attributes.reverse name).or
            ((l.standardFields now r message).get? name))) ∧
      ∀ name ∈ hiddenAttributes,
        merged.get? name = (Fields.get? l.extra.reverse name).or
          (if name = "message".toList then some (.text message) else none) := by
  have hnames := l.names_fields now r message
  have hnodup : (l.fields now r message).names.Nodup := by
    rw [hnames]
    exact Keyed.nodup_eraseDups _
  have hwritable := l.forall_mem_fields now r message Writable.text hattributes hextra
  have hread := Json.read_write (Json.writable_ofFields hwritable)
  refine ⟨_, l.fields now r message, l.format_eq_ok now r message hmessage,
    Json.visible_write _, ?_, fun hattributes hextra => ?_, hnodup, ?_, fun name hname => ?_,
    fun name hname => ?_⟩
  · rw [hread, Json.decoded_ofFields hnodup]
  · have hjson := l.forall_mem_fields now r message IsJson.text hattributes hextra
    rw [hread, (Json.isJson_ofFields hnodup hjson).decoded_eq]
  · rw [hnames, r.names_shown]
  · rw [l.get?_fields, r.get?_shown_reverse hname]
  · rw [l.get?_fields, r.get?_shown_reverse_of_hidden hname,
      l.get?_standardFields_of_hidden now r message hname, Option.none_or]

/-- An attribute takes the place of a standard field, an extra field takes that of another one, and
a line break in the message stays in the text of the message. -/
theorem structured_line_reads_back_overrides :
    let l : StructuredLayout := { extra := [("logger", .null), ("run", .list [.bool true, .text "é"])] }
    let r : Record :=
      { logger := "shocker.page", levelName := "INFO", template := "a\nb",
        attributes := [("source", .text "a.sh"), ("level", .bool true), ("lineno", .text "3")] }
    let now : Moment := ⟨⟨2026, 1, 1⟩, 0, 0, 0, 0, none⟩
    ∃ (line : Text) (merged : Fields Value), l.format now r = .ok line ∧
      (∀ c ∈ line, 0x20 ≤ c.toNat ∧ c.toNat ≤ 0x7e) ∧
      Json.read line = .ok (.ofFields merged) ∧
      merged.names = ["timestamp".toList, "level".toList, "logger".toList, "message".toList,
        "source".toList, "run".toList] ∧
      merged.get? "level" = some (.bool true) ∧ merged.get? "logger" = some .null ∧
      merged.get? "message" = some (.text "a\nb") ∧ merged.get? "lineno" = none := by
  intro l r now
  have hattributes : ∀ f ∈ r.attributes, IsJson f.2 := by
    simp only [r, List.forall_mem_cons]
    exact ⟨.text _, .bool true, .text _, nofun⟩
  have hitems : ∀ v ∈ [Value.bool true, .text "é"], IsJson v :=
    List.forall_mem_cons.mpr ⟨.bool true, List.forall_mem_singleton.mpr (.text _)⟩
  have hextra : ∀ f ∈ l.extra, IsJson f.2 :=
    List.forall_mem_cons.mpr ⟨.null, List.forall_mem_singleton.mpr (.list hitems)⟩
  obtain ⟨line, merged, hformat, hvisible, -, hread, -, hnames, hshown, hhidden⟩ :=
    structured_line_reads_back l now r "a\nb" rfl (fun f hf _ => (hattributes f hf).writable)
      (fun f hf => (hextra f hf).writable)
  refine ⟨line, merged, hformat, hvisible, hread (fun f hf _ => hattributes f hf) hextra,
    ?_, ?_, ?_, ?_, ?_⟩
  · rw [hnames]
    decide
  · rw [hshown _ (by decide)]
    rfl
  · rw [hshown _ (by decide)]
    rfl
  · rw [hhidden _ (by decide)]
    rfl
  · rw [hhidden _ (by decide)]
    rfl

end ShellDoc.Log
