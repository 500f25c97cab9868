import ShellDoc.Command.Execute
import ShellDoc.Proofs.JsonReading
import ShellDoc.Proofs.SettingsFields

/-!
# Saved settings

Settings that are saved as JSON load again unchanged, provided that their title and their footer
have no blanks around them.  The settings of a command always are of this kind: what a file gives
is trimmed (`Trimmed.of_load`), what the environment gives is stripped, and so are the title and
the footer of the command line, as its request holds them (`trimmed_of_invocation`).

The saved text is made of visible ASCII characters and line feeds only (`plain_toJson`), so neither
the encoding of the file nor the unification of line ends changes it.
-/

namespace ShellDoc

open Files (Location Tree)

/-! ## Plain text in files -/

namespace Text

theorem decode_encode_of_plain {s : Text} (h : Json.Plain s) : decode (encode s) = .ok s := by
  rw [decode]
  generalize 0 = offset
  induction s generalizing offset with
  | nil => rfl
  | cons c s ih =>
      obtain ⟨hc, hs⟩ := Json.plain_cons.mp h
      have hascii : c.toNat < 0x80 := by
        rcases hc with rfl | hc
        · decide
        · omega
      have hbyte : c.toNat.toUInt8.toNat = c.toNat := by
        simp only [Nat.toUInt8, UInt8.toNat_ofNat']
        omega
      have hencode : encode (c :: s) = c.toNat.toUInt8 :: encode s := by
        simp [encode, encodeChar, hascii]
      rw [hencode, decodeFrom, hbyte, lead?, if_pos hascii]
      simp only [if_true, ih hs, Char.ofNat_toNat, Except.map]

theorem unifyLineEnds_of_plain {s : Text} (h : Json.Plain s) : unifyLineEnds s = s := by
  rw [unifyLineEnds]
  induction s with
  | nil => rfl
  | cons c s ih =>
      obtain ⟨hc, hs⟩ := Json.plain_cons.mp h
      have hreturn : c ≠ '\r' := by
        rintro rfl
        exact absurd hc (by decide)
      rw [unifyAfter, if_neg hreturn, ih hs]
      by_cases hfeed : c = '\n'
      · simp [hfeed]
      · simp [hfeed]

end Text

/-! ## Settings as JSON -/

namespace Settings

variable {s : Settings}

theorem reads_setting (depth : Nat) (x : Setting) :
    Json.Reads x.toValue (Json.writeAt depth x.toValue) := by
  cases x with
  | text t => exact Json.reads_text t
  | flag b =>
      cases b with
      | false => exact Json.reads_word (w := ("false", .bool false)) (by simp [Json.words])
      | true => exact Json.reads_word (w := ("true", .bool true)) (by simp [Json.words])
  | list items =>
      refine Json.reads_writeAt_list fun v hv => ?_
      obtain ⟨t, -, rfl⟩ := List.mem_map.mp hv
      exact Json.reads_text t

theorem plain_setting (depth : Nat) (x : Setting) : Json.Plain (Json.writeAt depth x.toValue) := by
  cases x with
  | text t => exact Json.plain_writeText t
  | flag b =>
      cases b with
      | false => exact Json.Visible.plain (by decide : Json.Visible "false")
      | true => exact Json.Visible.plain (by decide : Json.Visible "true")
  | list items =>
      refine Json.plain_writeAt_list fun v hv => ?_
      obtain ⟨t, -, rfl⟩ := List.mem_map.mp hv
      exact Json.plain_writeText t

theorem exists_key_of_mem_toValues {f : Text × Value} (hf : f ∈ s.toValues) :
    ∃ key, f = (key.name, (s.get key).toValue) := by
  simp only [toValues, toFields, List.map_map, List.mem_map] at hf
  obtain ⟨key, -, rfl⟩ := hf
  exact ⟨key, rfl⟩

theorem read_toJson (s : Settings) : Json.read s.toJson = .ok s.toValue := by
  have hnames : s.toValues.names.Nodup := by
    simp only [Fields.names, toValues, toFields, List.map_map]
    exact Key.nodup_names
  have hvalues : ∀ f ∈ s.toValues, Json.Reads f.2 (Json.writeAt 1 f.2) := by
    intro f hf
    obtain ⟨key, rfl⟩ := exists_key_of_mem_toValues hf
    exact reads_setting 1 (s.get key)
  exact Json.read_of_reads (Json.reads_writeAt_ofFields (List.cons_ne_nil _ _) hnames hvalues)
    (fun hmark => absurd (Option.some.inj hmark) (by decide))

theorem plain_toJson (s : Settings) : Json.Plain s.toJson := by
  rw [toJson, toValue, Json.writeIndented]
  refine Json.plain_writeAt_ofFields fun f hf => ?_
  obtain ⟨key, rfl⟩ := exists_key_of_mem_toValues hf
  exact plain_setting 1 (s.get key)

/-! ## Saving and loading -/

variable {t t' : Tree} {wd : Location} {env : Environment} {path : Text}

theorem Trimmed.of_load (h : load t wd env path = .ok s) : s.Trimmed := by
  rw [load] at h
  split at h
  · cases h
  · obtain ⟨v, entries, -, -, hvalue⟩ := ofContent_eq_ok_iff.mp h
    obtain ⟨-, -, hentries⟩ := bind_eq_ok_iff.mp hvalue
    exact .of_ofEntries hentries

theorem writeFile_of_save (hjson : isJsonPath (expandHome env path) = true)
    (h : save t wd env path s = (t', .ok ())) :
    ∃ t₀, Files.writeFile t₀ wd (expandHome env path) (Text.encode s.toJson) = .ok t' := by
  rw [save] at h
  split at h
  · cases h
  · rename_i t₀ _
    rw [if_pos hjson] at h
    dsimp only at h
    split at h
    · rename_i hwrite
      obtain ⟨rfl, -⟩ := Prod.mk.inj h
      exact ⟨t₀, hwrite⟩
    · cases h

/-- The settings of a file that holds saved settings. -/
theorem ofContent_toJson (hs : s.Trimmed) {path : Text} (hjson : isJsonPath path = true) :
    ofContent path (Text.encode s.toJson) = .ok s := by
  have hparse : parseContent path (Text.encode s.toJson) = .ok s.toValue := by
    rw [parseContent, if_pos hjson, Text.decode_encode_of_plain s.plain_toJson]
    simp only [Text.unifyLineEnds_of_plain s.plain_toJson, read_toJson]
  exact ofContent_eq_ok_iff.mpr ⟨s.toValue, s.toEntries, hparse, rfl,
    ofValue_toValue_eq_ok_iff.mpr hs⟩

theorem load_of_save (hs : s.Trimmed) (hjson : isJsonPath (expandHome env path) = true)
    (h : save t wd env path s = (t', .ok ())) : load t' wd env path = .ok s := by
  obtain ⟨t₀, hwrite⟩ := writeFile_of_save hjson h
  rw [load, Files.readFile_of_writeFile hwrite]
  exact ofContent_toJson hs hjson

/-! ## The settings of a command -/

theorem Trimmed.withVariables (h : s.Trimmed) (env : Environment) :
    (s.withVariables env).Trimmed := by
  refine ⟨h.title, ?_⟩
  rw [Settings.withVariables]
  cases environmentText? env "SHOCKER_COPYRIGHT" with
  | none => exact h.copyright
  | some footer => exact Text.strip_strip footer

theorem Trimmed.of_ofEnvironment (h : ofEnvironment t wd env = .ok s) : s.Trimmed := by
  unfold ofEnvironment at h
  split at h
  · obtain ⟨base, hbase, h⟩ := bind_eq_ok_iff.mp h
    obtain rfl : base.withVariables env = s := Except.ok.inj h
    exact Trimmed.withVariables (.of_load hbase) env
  · obtain rfl : ({} : Settings).withVariables env = s := Except.ok.inj h
    exact Trimmed.withVariables ⟨rfl, rfl⟩ env

theorem strip_orElse {given base : Text} (hgiven : Text.strip given = given)
    (hbase : Text.strip base = base) : Text.strip (given.orElse base) = given.orElse base := by
  rw [Text.orElse]
  split
  · exact hbase
  · exact hgiven

theorem Trimmed.override (h : s.Trimmed) (o : Overrides) :
    (s.override (Command.trimmed o)).Trimmed :=
  ⟨strip_orElse (Text.strip_strip o.title) h.title,
    strip_orElse (Text.strip_strip o.copyright) h.copyright⟩

theorem Trimmed.of_effectiveSettings {session : Session} {file : Text} {o : Overrides}
    (h : Command.effectiveSettings session file (Command.trimmed o) = .ok s) : s.Trimmed := by
  unfold Command.effectiveSettings at h
  split at h
  · obtain ⟨base, hbase, h⟩ := bind_eq_ok_iff.mp h
    obtain rfl : base.override (Command.trimmed o) = s := Except.ok.inj h
    exact Trimmed.override (.of_ofEnvironment hbase) o
  · obtain ⟨base, hbase, h⟩ := bind_eq_ok_iff.mp h
    obtain rfl : base.override (Command.trimmed o) = s := Except.ok.inj h
    exact Trimmed.override (.of_load hbase) o

end Settings

/-! ## Command lines -/

namespace Command

/-- The settings that a request gives. -/
def Request.overrides : Request → Overrides
  | .generate _ o _ => o
  | .inspect _ _ => {}
  | .config _ => {}

def Invocation.isRun : Invocation → Bool
  | .run _ _ => true
  | _ => false

/-- Reading stops early only for help, the version, or a misuse. -/
theorem isRun_of_followSteps {κ α : Type} {topic : Topic}
    {apply : α → κ → Text → Except Invocation α}
    (happly : ∀ a key value i, apply a key value = .error i → i.isRun = false)
    {p : Progress α} {steps : List (Step κ)} {i : Invocation}
    (h : followSteps topic apply p steps = .error i) : i.isRun = false := by
  induction steps generalizing p with
  | nil => cases h
  | cons step steps ih =>
      cases step with
      | option key value =>
          rcases bind_eq_error_iff.mp h with h | ⟨options, -, h⟩
          · exact happly _ _ _ _ h
          · exact ih h
      | operand arguments => exact ih h
      | extra arguments => exact ih h
      | fault f =>
          rw [followSteps] at h
          cases h
          rfl

theorem isRun_of_requiredOperand {α : Type} {topic : Topic} {name : Text} {p : Progress α}
    {i : Invocation} (h : requiredOperand topic name p = .error i) : i.isRun = false := by
  rw [requiredOperand] at h
  split at h
  · cases h
  · cases h
    rfl

theorem isRun_of_applyPrint {topic : Topic} (a : Bool) (key : PrintKey) (value : Text)
    (i : Invocation) (h : applyPrint topic a key value = .error i) : i.isRun = false := by
  cases key <;> cases h
  rfl

theorem isRun_of_applyGenerate (a : Overrides × Bool) (key : GenerateKey) (value : Text)
    (i : Invocation) (h : applyGenerate a key value = .error i) : i.isRun = false := by
  cases key <;> cases h
  rfl

theorem isRun_of_applyGlobal (g : GlobalOptions) (key : GlobalKey) (value : Text)
    (i : Invocation) (h : applyGlobal g key value = .error i) : i.isRun = false := by
  cases key <;> cases h <;> rfl

/-- What the arguments of a command come to: a request whose title and footer are trimmed, or an
invocation that runs nothing. -/
structure GivesRequest (read : List Text → Except Invocation (Request × List Text)) : Prop where
  overrides {arguments : List Text} {r : Request × List Text} (h : read arguments = .ok r) :
    ∃ o, r.1.overrides = trimmed o
  isRun {arguments : List Text} {i : Invocation} (h : read arguments = .error i) : i.isRun = false

theorem givesRequest_generate : GivesRequest generateRequest where
  overrides h := by
    obtain ⟨p, -, h⟩ := bind_eq_ok_iff.mp h
    obtain ⟨path, -, h⟩ := bind_eq_ok_iff.mp h
    cases h
    exact ⟨p.options.1, rfl⟩
  isRun h := by
    rcases bind_eq_error_iff.mp h with h | ⟨p, -, h⟩
    · exact isRun_of_followSteps isRun_of_applyGenerate h
    · rcases bind_eq_error_iff.mp h with h | ⟨path, -, h⟩
      · exact isRun_of_requiredOperand h
      · cases h

theorem givesRequest_inspect : GivesRequest inspectRequest where
  overrides h := by
    obtain ⟨p, -, h⟩ := bind_eq_ok_iff.mp h
    obtain ⟨path, -, h⟩ := bind_eq_ok_iff.mp h
    cases h
    exact ⟨{}, rfl⟩
  isRun h := by
    rcases bind_eq_error_iff.mp h with h | ⟨p, -, h⟩
    · exact isRun_of_followSteps isRun_of_applyPrint h
    · rcases bind_eq_error_iff.mp h with h | ⟨path, -, h⟩
      · exact isRun_of_requiredOperand h
      · cases h

theorem givesRequest_config : GivesRequest configRequest where
  overrides h := by
    obtain ⟨p, -, h⟩ := bind_eq_ok_iff.mp h
    cases h
    exact ⟨{}, rfl⟩
  isRun h := by
    rcases bind_eq_error_iff.mp h with h | ⟨p, -, h⟩
    · exact isRun_of_followSteps isRun_of_applyPrint h
    · cases h

theorem givesRequest_requestOf : GivesRequest requestOf := by
  have hread {name : Text} {read} (h : commands.lookup name = some read) : GivesRequest read := by
    obtain ⟨front, back, hcommands, -⟩ := List.lookup_eq_some_iff.mp h
    have hmem : (name, read) ∈ commands := by simp [hcommands]
    simp only [commands, List.mem_cons, Prod.mk.injEq, List.not_mem_nil, or_false] at hmem
    rcases hmem with ⟨-, rfl⟩ | ⟨-, rfl⟩ | ⟨-, rfl⟩
    · exact givesRequest_generate
    · exact givesRequest_inspect
    · exact givesRequest_config
  constructor
  · intro arguments r h
    rw [requestOf] at h
    split at h
    · exact (hread ‹_›).overrides h
    · cases h
  · intro arguments i h
    rw [requestOf] at h
    split at h
    · exact (hread ‹_›).isRun h
    · cases h
      rfl

/-- The end of a command line, behind which nothing may be left over. -/
def finish (g : GlobalOptions) (left : List Text) (request : Option Request) :
    Except Invocation Invocation :=
  if left.isEmpty then .ok (.run g request) else .error (.misuse .program (.unrecognized left))

theorem isRun_of_finish {g : GlobalOptions} {left : List Text} {request : Option Request}
    {i : Invocation} (h : finish g left request = .error i) : i.isRun = false := by
  rw [finish] at h
  split at h
  · cases h
  · cases h
    rfl

theorem eq_of_finish {g g' : GlobalOptions} {left : List Text} {request request' : Option Request}
    (h : finish g left request = .ok (.run g' request')) : g = g' ∧ request = request' := by
  rw [finish] at h
  split at h
  · cases h
    exact ⟨rfl, rfl⟩
  · cases h

theorem readInvocation_eq (arguments : List Text) :
    readInvocation arguments = (do
      let p ← followSteps .program applyGlobal ⟨{}, none, []⟩
        (readArguments globalOptions .rest arguments)
      match p.operand with
      | none => finish p.options (p.extras ++ []) none
      | some arguments =>
          requestOf arguments >>= fun r => finish p.options (p.extras ++ r.2) (some r.1)) := by
  rw [readInvocation]
  congr 1

theorem isRun_of_readInvocation {arguments : List Text} {i : Invocation}
    (h : readInvocation arguments = .error i) : i.isRun = false := by
  rw [readInvocation_eq] at h
  rcases bind_eq_error_iff.mp h with h | ⟨p, -, h⟩
  · exact isRun_of_followSteps isRun_of_applyGlobal h
  · split at h
    · exact isRun_of_finish h
    · rcases bind_eq_error_iff.mp h with h | ⟨r, -, h⟩
      · exact givesRequest_requestOf.isRun h
      · exact isRun_of_finish h

/-- A command line that runs a command: its options, and the words of the command. -/
theorem exists_of_invocation {arguments : List Text} {g : GlobalOptions} {request : Request}
    (h : invocation arguments = .run g (some request)) :
    ∃ p words r, followSteps .program applyGlobal ⟨{}, none, []⟩
        (readArguments globalOptions .rest arguments) = .ok p ∧
      p.options = g ∧ p.operand = some words ∧ requestOf words = .ok r ∧ r.1 = request := by
  rw [invocation] at h
  split at h
  · rename_i i hread
    rw [h, readInvocation_eq] at hread
    obtain ⟨p, hsteps, hread⟩ := bind_eq_ok_iff.mp hread
    split at hread
    · cases (eq_of_finish hread).2
    · rename_i words hwords
      obtain ⟨r, hrequest, hread⟩ := bind_eq_ok_iff.mp hread
      obtain ⟨hoptions, hsome⟩ := eq_of_finish hread
      exact ⟨p, words, r, hsteps, hoptions, hwords, hrequest, Option.some.inj hsome⟩
  · rename_i i hread
    have hrun := isRun_of_readInvocation hread
    rw [h] at hrun
    cases hrun

/-- The title and the footer of a command line are trimmed. -/
theorem trimmed_of_invocation {arguments : List Text} {g : GlobalOptions} {request : Request}
    (h : invocation arguments = .run g (some request)) :
    ∃ o, request.overrides = trimmed o := by
  obtain ⟨p, words, r, -, -, -, hrequest, rfl⟩ := exists_of_invocation h
  exact givesRequest_requestOf.overrides hrequest

end Command

/-! ## What is saved is loaded -/

open Command Settings

/-- The settings of every command have no blanks around the title and the footer, and settings of
this kind read back from their JSON, also from the file that they are saved to.  Settings that a
mapping gives are given again by the mapping that they make. -/
theorem saved_settings_reload :
    (∀ (session : Session) (arguments : List Text) (g : GlobalOptions) (request : Request)
        (s : Settings), invocation arguments = .run g (some request) →
      effectiveSettings session g.settingsFile request.overrides = .ok s →
      Text.strip s.title = s.title ∧ Text.strip s.copyright = s.copyright) ∧
    (∀ (session : Session) (file : Text) (o : Overrides) (s : Settings),
      effectiveSettings session file (trimmed o) = .ok s →
      Text.strip s.title = s.title ∧ Text.strip s.copyright = s.copyright) ∧
    (∀ s : Settings, Text.strip s.title = s.title → Text.strip s.copyright = s.copyright →
      (∃ v, Json.read s.toJson = .ok v ∧ ofValue v = .ok s) ∧
      ∀ (t t' : Tree) (wd : Location) (env : Environment) (path : Text),
        isJsonPath (expandHome env path) = true → save t wd env path s = (t', .ok ()) →
        Files.readFile t' wd (expandHome env path) = .ok (Text.encode s.toJson) ∧
          load t' wd env path = .ok s) ∧
    ∀ (entries : List (Value × Value)) (s : Settings),
      ofValue (.mapping entries) = .ok s → ofValue s.toValue = .ok s := by
  refine ⟨?_, ?_, ?_, ?_⟩
  · intro session arguments g request s hinvocation h
    obtain ⟨o, ho⟩ := trimmed_of_invocation hinvocation
    rw [ho] at h
    have hs := Trimmed.of_effectiveSettings h
    exact ⟨hs.title, hs.copyright⟩
  · intro session file o s h
    have hs := Trimmed.of_effectiveSettings h
    exact ⟨hs.title, hs.copyright⟩
  · intro s htitle hcopyright
    have hs : s.Trimmed := ⟨htitle, hcopyright⟩
    refine ⟨⟨s.toValue, s.read_toJson, ofValue_toValue_eq_ok_iff.mpr hs⟩, ?_⟩
    intro t t' wd env path hjson hsave
    obtain ⟨t₀, hwrite⟩ := writeFile_of_save hjson hsave
    exact ⟨Files.readFile_of_writeFile hwrite, load_of_save hs hjson hsave⟩
  · intro entries s h
    obtain ⟨-, -, hentries⟩ := bind_eq_ok_iff.mp h
    exact ofValue_toValue_eq_ok_iff.mpr (.of_ofEntries hentries)

/-- A title from the command line and a footer from the environment, both with blanks around them,
and a title outside of ASCII. -/
theorem saved_settings_reload_two_sources :
    let s : Settings := { title := "\"é😀\"", copyright := "me" }
    let session : Session :=
      { tree := {}, workingDirectory := [], environment := [("SHOCKER_COPYRIGHT", " me ")],
        journal := Log.Journal.initial false ⟨⟨2026, 1, 1⟩, 0, 0, 0, 0, none⟩ }
    let arguments : List Text := ["generate", "-t", " \"é😀\"\n", "a.sh"]
    let request : Request := .generate "a.sh" { title := "\"é😀\"" } false
    let entries : List (Value × Value) :=
      [(.text "title", .text " \"é😀\"\n"), (.text "copyright", .text "me")]
    (invocation arguments = .run {} (some request) ∧
      effectiveSettings session [] request.overrides = .ok s ∧
      Text.strip s.title = s.title ∧ Text.strip s.copyright = s.copyright) ∧
    (effectiveSettings session [] (trimmed { title := " \"é😀\"\n" }) = .ok s ∧
      Text.strip s.title = s.title ∧ Text.strip s.copyright = s.copyright) ∧
    (∃ v, Json.read s.toJson = .ok v ∧ ofValue v = .ok s) ∧
    (save {} [] [] "c.json" s).2 = .ok () ∧
    load (save {} [] [] "c.json" s).1 [] [] "c.json" = .ok s ∧
    ofValue (.mapping entries) = .ok s ∧ ofValue s.toValue = .ok s := by
  intro s session arguments request entries
  obtain ⟨hcommands, hgiven, hsaved, hmappings⟩ := saved_settings_reload
  have hinvocation : invocation arguments = .run {} (some request) := by
    unfold arguments request
    decide +kernel
  have hsettings : effectiveSettings session [] request.overrides = .ok s := by
    unfold session request s
    apply eq_ok_of_check
    decide +kernel
  have htrimmed : effectiveSettings session [] (trimmed { title := " \"é😀\"\n" }) = .ok s := by
    unfold session s
    apply eq_ok_of_check
    decide +kernel
  have hsave : (save {} [] [] "c.json" s).2 = .ok () := by rfl
  have hvalue : ofValue (.mapping entries) = .ok s := by
    unfold entries s
    apply eq_ok_of_check
    decide +kernel
  obtain ⟨hread, hload⟩ := hsaved s (by decide) (by decide)
  obtain ⟨-, hloaded⟩ := hload {} _ [] [] "c.json" (by decide) (Prod.ext rfl hsave)
  exact ⟨⟨hinvocation, hsettings, hcommands session arguments {} request s hinvocation hsettings⟩,
    ⟨htrimmed, hgiven session [] _ s htrimmed⟩, hread, hsave, hloaded, hvalue,
    hmappings entries s hvalue⟩

end ShellDoc
