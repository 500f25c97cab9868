import ShellDoc.Proofs.SavedSettings

/-!
# Effective settings

The settings of a command come from three sources, one over the other: a file, the variables of the
environment, and the flags of the command line.  Each source says for each key which setting it
gives, if it gives one (`variableSetting`, `flagSetting`), so that the settings are determined key
by key (`effective_settings_by_key`).

A flag counts by the values that the steps of a reading give it (`givenValues`).  Of several values
the last one counts (`field_of_followSteps`): one step either sets the field that belongs to its
option or leaves it alone.
-/

namespace ShellDoc

open Files (Location Tree)
open Settings (Environment load isReachable environmentText? environmentFile?)

namespace Command

/-! ## What the steps of a reading give -/

section Steps

variable {κ α β : Type} [DecidableEq κ]

/-- The values that steps give an option, one for each time it is named; an option without a value
gives the empty text. -/
def givenValues (key : κ) : List (Step κ) → List Text
  | [] => []
  | .option k value :: steps =>
      if k = key then value.getD [] :: givenValues key steps else givenValues key steps
  | .operand _ :: steps => givenValues key steps
  | .extra _ :: steps => givenValues key steps
  | .fault _ :: steps => givenValues key steps

/-- The last operand of steps. -/
def lastOperand? : List (Step κ) → Option (List Text)
  | [] => none
  | .operand arguments :: steps => (lastOperand? steps).or (some arguments)
  | .option _ _ :: steps => lastOperand? steps
  | .extra _ :: steps => lastOperand? steps
  | .fault _ :: steps => lastOperand? steps

/-- The option `key` sets the field `field` to what `set` makes of its value, and no other option
changes it. -/
structure SetsField (apply : α → κ → Text → Except Invocation α) (key : κ) (field : α → β)
    (set : Text → β) : Prop where
  self {a a' : α} {value : Text} (h : apply a key value = .ok a') : field a' = set value
  other {a a' : α} {k : κ} {value : Text} (hk : k ≠ key) (h : apply a k value = .ok a') :
    field a' = field a

variable {topic : Topic} {apply : α → κ → Text → Except Invocation α} {p q : Progress α}
  {steps : List (Step κ)}

/-- Of the values of an option the last one counts. -/
theorem field_of_followSteps {key : κ} {field : α → β} {set : Text → β}
    (hfield : SetsField apply key field set) (h : followSteps topic apply p steps = .ok q) :
    field q.options = ((givenValues key steps).getLast?.map set).getD (field p.options) := by
  induction steps generalizing p with
  | nil =>
      cases h
      rfl
  | cons step steps ih =>
      cases step with
      | option k value =>
          obtain ⟨options, happly, h⟩ := bind_eq_ok_iff.mp h
          rw [ih h, givenValues]
          -- the value of this step is the one underneath for the steps behind it
          by_cases hk : k = key
          · subst hk
            rw [if_pos rfl, List.getLast?_cons, hfield.self happly]
            cases (givenValues k steps).getLast? <;> rfl
          · rw [if_neg hk, hfield.other hk happly]
      | operand arguments => exact ih (p := { p with operand := some arguments }) h
      | extra arguments => exact ih (p := { p with extras := p.extras ++ arguments }) h
      | fault f => cases h

omit [DecidableEq κ] in
theorem operand_of_followSteps (h : followSteps topic apply p steps = .ok q) :
    q.operand = (lastOperand? steps).or p.operand := by
  induction steps generalizing p with
  | nil =>
      cases h
      rfl
  | cons step steps ih =>
      cases step with
      | option k value =>
          obtain ⟨options, -, h⟩ := bind_eq_ok_iff.mp h
          exact ih (p := { p with options }) h
      | operand arguments =>
          have hrest := ih (p := { p with operand := some arguments }) h
          rw [hrest, lastOperand?]
          cases lastOperand? steps <;> rfl
      | extra arguments => exact ih (p := { p with extras := p.extras ++ arguments }) h
      | fault f => cases h

end Steps

/-! ## The options of a command line -/

/-- The file that the command line names. -/
def settingsPath (arguments : List Text) : Text :=
  (givenValues .config (readArguments globalOptions .rest arguments)).getLast?.getD []

/-- The steps of the words behind the command `generate`, none for another command. -/
def generateSteps (arguments : List Text) : List (Step GenerateKey) :=
  match lastOperand? (readArguments globalOptions .rest arguments) with
  | some (name :: words) =>
      if name = "generate" then readArguments generateOptions .single words else []
  | _ => []

theorem setsField_settingsFile : SetsField applyGlobal .config GlobalOptions.settingsFile id where
  self h := by
    cases h
    rfl
  other {a a' k value} hk h := by
    cases k <;> first | exact absurd rfl hk | (cases h <;> rfl)

/-- The flags of a run behind an option. -/
def setFlag (o : Overrides) (value : Text) : GenerateKey → Overrides
  | .title => { o with title := value }
  | .force => { o with force := true }
  | .output => { o with output := value }
  | .keepExtension => { o with keepExtension := true }
  | .copyright => { o with copyright := value }
  | .capitalize => { o with capitalize := true }
  | .tableOfContents => { o with tableOfContents := true }
  | _ => o

theorem fst_applyGenerate {a a' : Overrides × Bool} {k : GenerateKey} {value : Text}
    (h : applyGenerate a k value = .ok a') : a'.1 = setFlag a.1 value k := by
  cases k <;> cases h <;> rfl

theorem setsField_of_setFlag {β : Type} (key : GenerateKey) (field : Overrides → β)
    (set : Text → β)
    (h : ∀ o value k, field (setFlag o value k) = if k = key then set value else field o) :
    SetsField applyGenerate key (fun a => field a.1) set where
  self happly := by rw [fst_applyGenerate happly, h, if_pos rfl]
  other hk happly := by rw [fst_applyGenerate happly, h, if_neg hk]

section Flags

variable {q : Progress (Overrides × Bool)} {steps : List (Step GenerateKey)}
  (h : followSteps .generate applyGenerate ⟨({}, false), none, []⟩ steps = .ok q)

include h

theorem text_of_followSteps (key : GenerateKey) (field : Overrides → Text)
    (hset : ∀ o value k, field (setFlag o value k) = if k = key then value else field o)
    (hempty : field {} = []) :
    field q.options.1 = (givenValues key steps).getLast?.getD [] := by
  rw [field_of_followSteps (setsField_of_setFlag key field id hset) h, hempty, Option.map_id]
  rfl

theorem switch_of_followSteps (key : GenerateKey) (field : Overrides → Bool)
    (hset : ∀ o value k, field (setFlag o value k) = if k = key then true else field o)
    (hempty : field {} = false) :
    field q.options.1 = !(givenValues key steps).isEmpty := by
  rw [field_of_followSteps (setsField_of_setFlag key field (fun _ => true) hset) h, hempty]
  cases givenValues key steps with
  | nil => rfl
  | cons value values => rw [List.getLast?_cons]; rfl

/-- The flags that steps come to: of a text the last value, of a switch whether it is named. -/
theorem overrides_of_followSteps :
    q.options.1 =
      { title := (givenValues .title steps).getLast?.getD []
        output := (givenValues .output steps).getLast?.getD []
        force := !(givenValues .force steps).isEmpty
        keepExtension := !(givenValues .keepExtension steps).isEmpty
        copyright := (givenValues .copyright steps).getLast?.getD []
        tableOfContents := !(givenValues .tableOfContents steps).isEmpty
        capitalize := !(givenValues .capitalize steps).isEmpty } := by
  rw [← text_of_followSteps h .title Overrides.title (by rintro _ _ (_ | _) <;> rfl) rfl,
    ← text_of_followSteps h .output Overrides.output (by rintro _ _ (_ | _) <;> rfl) rfl,
    ← text_of_followSteps h .copyright Overrides.copyright (by rintro _ _ (_ | _) <;> rfl) rfl,
    ← switch_of_followSteps h .force Overrides.force (by rintro _ _ (_ | _) <;> rfl) rfl,
    ← switch_of_followSteps h .keepExtension Overrides.keepExtension
      (by rintro _ _ (_ | _) <;> rfl) rfl,
    ← switch_of_followSteps h .tableOfContents Overrides.tableOfContents
      (by rintro _ _ (_ | _) <;> rfl) rfl,
    ← switch_of_followSteps h .capitalize Overrides.capitalize
      (by rintro _ _ (_ | _) <;> rfl) rfl]

end Flags

/-! ## The flags of a command -/

/-- The setting that the values of an option with a text give: the last value in a form, unless that
is empty. -/
def textFlag (form : Text → Text) (values : List Text) : Option Setting :=
  match values.getLast? with
  | none => none
  | some value => if form value = [] then none else some (.text (form value))

/-- The setting that a switch gives: it is turned on if the switch is named. -/
def switchFlag (values : List Text) : Option Setting :=
  if values = [] then none else some (.flag true)

/-- The setting that the flags give for a key, nothing where they leave it alone. -/
def flagSetting (steps : List (Step GenerateKey)) : Key → Option Setting
  | .title => textFlag Text.strip (givenValues .title steps)
  | .output => textFlag id (givenValues .output steps)
  | .force => switchFlag (givenValues .force steps)
  | .keepExtension => switchFlag (givenValues .keepExtension steps)
  | .copyright => textFlag Text.strip (givenValues .copyright steps)
  | .tableOfContents => switchFlag (givenValues .tableOfContents steps)
  | .capitalize => switchFlag (givenValues .capitalize steps)
  | .defaultDialect | .allowedDialects | .sourceExtensions | .contentsFile | .contentsHeading =>
      none

/-- A switch only turns a setting on. -/
theorem eq_true_of_flagSetting {steps : List (Step GenerateKey)} {key : Key} {b : Bool}
    (h : flagSetting steps key = some (.flag b)) : b = true := by
  have hswitch (values : List Text) (hb : switchFlag values = some (.flag b)) : b = true := by
    rw [switchFlag] at hb
    split at hb <;> cases hb
    rfl
  have htext (form : Text → Text) (values : List Text)
      (hb : textFlag form values = some (.flag b)) : b = true := by
    rw [textFlag] at hb
    split at hb
    · cases hb
    · split at hb <;> cases hb
  cases key <;> first | exact hswitch _ h | exact htext _ _ h | cases h

theorem text_orElse_eq (form : Text → Text) (hform : form [] = []) (values : List Text)
    (base : Text) :
    Setting.text ((form (values.getLast?.getD [])).orElse base) =
      (textFlag form values).getD (.text base) := by
  rw [textFlag]
  cases values.getLast? with
  | none => rw [Option.getD_none, hform]; rfl
  | some value =>
      rw [Option.getD_some, Text.orElse]
      by_cases h : form value = []
      · simp [h]
      · simp [h]

theorem flag_or_eq (values : List Text) (base : Bool) :
    Setting.flag (!values.isEmpty || base) = (switchFlag values).getD (.flag base) := by
  cases values <;> rfl

/-- The flags over some settings, key by key. -/
theorem get_override_of_followSteps {q : Progress (Overrides × Bool)}
    {steps : List (Step GenerateKey)}
    (h : followSteps .generate applyGenerate ⟨({}, false), none, []⟩ steps = .ok q)
    (base : Settings) (key : Key) :
    (base.override (trimmed q.options.1)).get key =
      (flagSetting steps key).getD (base.get key) := by
  rw [overrides_of_followSteps h]
  cases key with
  | title => exact text_orElse_eq Text.strip rfl _ _
  | output => exact text_orElse_eq id rfl _ _
  | copyright => exact text_orElse_eq Text.strip rfl _ _
  | force => exact flag_or_eq _ _
  | keepExtension => exact flag_or_eq _ _
  | tableOfContents => exact flag_or_eq _ _
  | capitalize => exact flag_or_eq _ _
  | _ => rfl

/-- Only the command `generate` has flags for the settings. -/
theorem overrides_of_requestOf {words : List Text} {r : Request × List Text}
    (h : requestOf words = .ok r) :
    (∃ rest q, words = "generate".toList :: rest ∧
      followSteps .generate applyGenerate ⟨({}, false), none, []⟩
        (readArguments generateOptions .single rest) = .ok q ∧
      r.1.overrides = trimmed q.options.1) ∨
    (words.head? ≠ some "generate".toList ∧ r.1.overrides = {}) := by
  cases words with
  | nil => cases h
  | cons name rest =>
      rw [requestOf] at h
      split at h
      · rename_i read hread
        obtain ⟨front, back, hcommands, -⟩ := List.lookup_eq_some_iff.mp hread
        have hmem : (name, read) ∈ commands := by
          rw [hcommands]
          exact List.mem_append_right _ List.mem_cons_self
        simp only [commands, List.mem_cons, Prod.mk.injEq, List.not_mem_nil, or_false] at hmem
        rcases hmem with ⟨hname, rfl⟩ | ⟨hname, rfl⟩ | ⟨hname, rfl⟩
        · obtain ⟨q, hsteps, h⟩ := bind_eq_ok_iff.mp h
          obtain ⟨path, -, h⟩ := bind_eq_ok_iff.mp h
          cases h
          exact .inl ⟨rest, q, congrArg (· :: rest) hname, hsteps, rfl⟩
        · obtain ⟨q, -, h⟩ := bind_eq_ok_iff.mp h
          obtain ⟨path, -, h⟩ := bind_eq_ok_iff.mp h
          cases h
          exact .inr ⟨by rw [List.head?_cons, hname]; decide, rfl⟩
        · obtain ⟨q, -, h⟩ := bind_eq_ok_iff.mp h
          cases h
          exact .inr ⟨by rw [List.head?_cons, hname]; decide, rfl⟩
      · cases h

theorem flagSetting_nil (key : Key) : flagSetting [] key = none := by
  cases key <;> rfl

theorem generateSteps_eq {arguments words : List Text}
    (h : lastOperand? (readArguments globalOptions .rest arguments) = some words) :
    (∀ rest, words = "generate".toList :: rest →
      generateSteps arguments = readArguments generateOptions .single rest) ∧
    (words.head? ≠ some "generate".toList → generateSteps arguments = []) := by
  rw [generateSteps, h]
  cases words with
  | nil => exact ⟨nofun, fun _ => rfl⟩
  | cons name rest =>
      constructor
      · rintro _ ⟨⟩
        exact if_pos rfl
      · intro hne
        exact if_neg fun hname => hne (congrArg some hname)

/-- What a command line says about the settings: the file and the flags. -/
theorem settings_of_invocation {arguments : List Text} {g : GlobalOptions} {request : Request}
    (h : invocation arguments = .run g (some request)) :
    g.settingsFile = settingsPath arguments ∧
      ∀ (base : Settings) (key : Key), (base.override request.overrides).get key =
        (flagSetting (generateSteps arguments) key).getD (base.get key) := by
  obtain ⟨p, words, r, hsteps, rfl, hwords, hrequest, rfl⟩ := exists_of_invocation h
  have hfile := field_of_followSteps setsField_settingsFile hsteps
  have hoperand := operand_of_followSteps hsteps
  rw [hwords, Option.or_none] at hoperand
  obtain ⟨hgenerate, hother⟩ := generateSteps_eq hoperand.symm
  refine ⟨?_, fun base key => ?_⟩
  · rw [hfile, Option.map_id]
    rfl
  · obtain ⟨rest, q, hrest, hflags, hoverrides⟩ | ⟨hne, hoverrides⟩ :=
      overrides_of_requestOf hrequest
    · rw [hoverrides, hgenerate rest hrest, get_override_of_followSteps hflags]
    · rw [hoverrides, hother hne, flagSetting_nil]
      cases key <;> rfl

/-! ## The file and the variables of the environment -/

/-- The setting that the variables of the environment give for a key; an empty variable gives
none. -/
def variableSetting (env : Environment) : Key → Option Setting
  | .copyright => (environmentText? env "SHOCKER_COPYRIGHT").map fun s => .text (Text.strip s)
  | .defaultDialect =>
      (environmentText? env "SHOCKER_DEFAULT_DIALECT").map fun s => .text (Text.strip s)
  | .allowedDialects =>
      (environmentText? env "SHOCKER_ALLOWED_DIALECTS").map fun s => .list (Text.items s)
  | .sourceExtensions =>
      (environmentText? env "SHOCKER_SOURCE_EXTENSIONS").map fun s => .list (Text.items s)
  | .title | .output | .force | .keepExtension | .tableOfContents | .capitalize | .contentsFile
  | .contentsHeading => none

theorem get_withVariables (stored : Settings) (env : Environment) (key : Key) :
    (stored.withVariables env).get key = (variableSetting env key).getD (stored.get key) := by
  have hgetD {α : Type} (form : Text → α) (make : α → Setting) (given : Option Text) (base : α) :
      make ((given.map form).getD base) =
        (given.map fun s => make (form s)).getD (make base) := by
    cases given <;> rfl
  cases key with
  | copyright => exact hgetD Text.strip Setting.text _ _
  | defaultDialect => exact hgetD Text.strip Setting.text _ _
  | allowedDialects => exact hgetD Text.items Setting.list _ _
  | sourceExtensions => exact hgetD Text.items Setting.list _ _
  | _ => rfl

/-- The settings under the variables of the environment: those of the file that the environment
names, or the defaults if it names none or the file is not there. -/
structure StoredSettings (s : Session) (stored : Settings) : Prop where
  file {path : Text} (hpath : environmentText? s.environment "SHOCKER_CONFIG_FILE" = some path)
    (hthere : isReachable s.tree s.workingDirectory path = true) :
    load s.tree s.workingDirectory s.environment path = .ok stored
  default (h : ∀ path, environmentText? s.environment "SHOCKER_CONFIG_FILE" = some path →
    isReachable s.tree s.workingDirectory path = false) : stored = {}

/-- The settings under the flags, for the file that the command line names. -/
structure BaseSettings (s : Session) (path : Text) (base : Settings) : Prop where
  file (hpath : path ≠ []) : load s.tree s.workingDirectory s.environment path = .ok base
  environment (hpath : path = []) : ∃ stored, StoredSettings s stored ∧
    ∀ key, base.get key = (variableSetting s.environment key).getD (stored.get key)

theorem environmentFile?_eq_some_iff {t : Tree} {wd : Location} {env : Environment} {path : Text} :
    environmentFile? t wd env = some path ↔
      environmentText? env "SHOCKER_CONFIG_FILE" = some path ∧ isReachable t wd path = true := by
  rw [environmentFile?]
  cases environmentText? env "SHOCKER_CONFIG_FILE" with
  | none => simp
  | some named =>
      by_cases hthere : isReachable t wd named = true
      · simp only [hthere, if_true, Option.some.injEq]
        exact ⟨fun h => ⟨h, h ▸ hthere⟩, And.left⟩
      · simp only [hthere, Option.some.injEq]
        exact ⟨nofun, fun ⟨h, hpath⟩ => absurd (h ▸ hpath) hthere⟩

theorem StoredSettings.of_load {s : Session} {path : Text} {stored : Settings}
    (hfile : environmentFile? s.tree s.workingDirectory s.environment = some path)
    (h : load s.tree s.workingDirectory s.environment path = .ok stored) :
    StoredSettings s stored := by
  obtain ⟨hnamed, hthere⟩ := environmentFile?_eq_some_iff.mp hfile
  constructor
  · intro path' hpath' _
    obtain rfl : path = path' := Option.some.inj (hnamed.symm.trans hpath')
    exact h
  · intro hnowhere
    exact absurd hthere (Bool.eq_false_iff.mp (hnowhere path hnamed))

theorem StoredSettings.of_none {s : Session}
    (hfile : environmentFile? s.tree s.workingDirectory s.environment = none) :
    StoredSettings s {} where
  file hpath hthere := by
    rw [environmentFile?_eq_some_iff.mpr ⟨hpath, hthere⟩] at hfile
    cases hfile
  default _ := rfl

theorem ofEnvironment_eq_ok_iff {s : Session} {base : Settings} :
    Settings.ofEnvironment s.tree s.workingDirectory s.environment = .ok base ↔
      ∃ stored, StoredSettings s stored ∧
        ∀ key, base.get key = (variableSetting s.environment key).getD (stored.get key) := by
  rw [Settings.ofEnvironment]
  constructor
  · intro h
    split at h
    · obtain ⟨stored, hload, h⟩ := bind_eq_ok_iff.mp h
      cases h
      exact ⟨stored, .of_load ‹_› hload, get_withVariables stored s.environment⟩
    · cases h
      exact ⟨{}, .of_none ‹_›, get_withVariables {} s.environment⟩
  · rintro ⟨stored, hstored, hbase⟩
    obtain rfl : stored.withVariables s.environment = base :=
      Settings.eq_of_get_eq fun key => (get_withVariables _ _ key).trans (hbase key).symm
    split
    · obtain ⟨hnamed, hthere⟩ := environmentFile?_eq_some_iff.mp ‹_›
      exact bind_eq_ok_iff.mpr ⟨stored, hstored.file hnamed hthere, rfl⟩
    · rename_i hnone
      have hnowhere (path : Text)
          (hnamed : environmentText? s.environment "SHOCKER_CONFIG_FILE" = some path) :
          isReachable s.tree s.workingDirectory path = false := by
        by_contra hthere
        rw [environmentFile?_eq_some_iff.mpr ⟨hnamed, by simpa using hthere⟩] at hnone
        cases hnone
      rw [hstored.default hnowhere]
      rfl

theorem load_of_home {s : Session} {env : Environment}
    (h : env.get? "HOME" = s.environment.get? "HOME") (path : Text) :
    load s.tree s.workingDirectory env path =
      load s.tree s.workingDirectory s.environment path := by
  have hexpand : Settings.expandHome env path = Settings.expandHome s.environment path := by
    rw [Settings.expandHome, Settings.expandHome, h]
  rw [load, load, hexpand]

theorem effectiveSettings_eq_ok_iff {s : Session} {file : Text} {o : Overrides}
    {settings : Settings} :
    effectiveSettings s file o = .ok settings ↔
      ∃ base, BaseSettings s file base ∧ base.override o = settings := by
  rw [effectiveSettings]
  by_cases hfile : file = []
  · have hbase (base : Settings) :
        Settings.ofEnvironment s.tree s.workingDirectory s.environment = .ok base ↔
          BaseSettings s file base :=
      ofEnvironment_eq_ok_iff.trans
        ⟨fun h => ⟨fun hne => absurd hfile hne, fun _ => h⟩, fun h => h.environment hfile⟩
    rw [if_pos (by rw [hfile]; rfl), bind_eq_ok_iff]
    simp only [hbase, pure, Except.pure, Except.ok.injEq]
  · have hbase (base : Settings) : load s.tree s.workingDirectory s.environment file = .ok base ↔
        BaseSettings s file base :=
      ⟨fun h => ⟨fun _ => h, fun hempty => absurd hempty hfile⟩, fun h => h.file hfile⟩
    rw [if_neg (by simpa using hfile), bind_eq_ok_iff]
    simp only [hbase, pure, Except.pure, Except.ok.injEq]

/-- The settings of a command line are those of the file that it names, or else those of the
environment, and over them those of its flags: a key that the flags give has their setting, any
other key has the setting underneath.  A switch never turns a setting off.  Where the command line
names a file, no variable counts but the one that tells the home directory. -/
theorem effective_settings_by_key (s : Session) (arguments : List Text) (g : GlobalOptions)
    (request : Request) (hinvocation : invocation arguments = .run g (some request)) :
    (∀ settings, effectiveSettings s g.settingsFile request.overrides = .ok settings ↔
      ∃ base, BaseSettings s (settingsPath arguments) base ∧
        ∀ key, settings.get key =
          (flagSetting (generateSteps arguments) key).getD (base.get key)) ∧
    (∀ key b, flagSetting (generateSteps arguments) key = some (.flag b) → b = true) ∧
    (settingsPath arguments ≠ [] →
      ∀ env, env.get? "HOME" = s.environment.get? "HOME" →
        effectiveSettings { s with environment := env } g.settingsFile request.overrides =
          effectiveSettings s g.settingsFile request.overrides) := by
  obtain ⟨hfile, hflags⟩ := settings_of_invocation hinvocation
  refine ⟨fun settings => ?_, fun key b hkey => ?_, fun hpath env hhome => ?_⟩
  · rw [hfile, effectiveSettings_eq_ok_iff]
    refine exists_congr fun base => and_congr_right fun _ => ?_
    constructor
    · rintro rfl key
      exact hflags base key
    · intro h
      exact Settings.eq_of_get_eq fun key => (hflags base key).trans (h key).symm
  · exact eq_true_of_flagSetting hkey
  · rw [hfile, effectiveSettings, effectiveSettings, if_neg (by simpa using hpath),
      if_neg (by simpa using hpath), load_of_home hhome]

/-- A file that the command line names, under two flags; the footer of the environment does not
count. -/
theorem effective_settings_by_key_named_file :
    let content : Text := "\x7b\"title\": \"Old\", \"copyright\": \"file\", \"force\": true\x7d"
    let s : Session :=
      { tree := ⟨[(["c.json"], .file (Text.encode content))]⟩, workingDirectory := [],
        environment := [("SHOCKER_COPYRIGHT", "me")],
        journal := Log.Journal.initial false ⟨⟨2026, 1, 1⟩, 0, 0, 0, 0, none⟩ }
    let arguments : List Text := ["--config", "c.json", "generate", "-t", " New ", "-x", "a.sh"]
    let o : Overrides := { title := "New", keepExtension := true }
    let settings : Settings :=
      { title := "New", copyright := "file", force := true, keepExtension := true }
    invocation arguments = .run { settingsFile := "c.json" } (some (.generate "a.sh" o false)) ∧
      effectiveSettings s "c.json" o = .ok settings ∧
      (∃ base, BaseSettings s "c.json" base ∧
        ∀ key, settings.get key =
          (flagSetting (generateSteps arguments) key).getD (base.get key)) ∧
      effectiveSettings { s with environment := [] } "c.json" o = .ok settings := by
  intro content s arguments o settings
  have hinvocation : invocation arguments =
      .run { settingsFile := "c.json" } (some (.generate "a.sh" o false)) := by
    unfold arguments o
    decide +kernel
  have hpath : settingsPath arguments = "c.json" := by
    unfold arguments
    decide +kernel
  have hsettings : effectiveSettings s "c.json" o = .ok settings := by
    unfold s content o settings
    apply eq_ok_of_check
    decide +kernel
  obtain ⟨hkeys, -, hvariables⟩ := effective_settings_by_key s arguments _ _ hinvocation
  rw [hpath] at hkeys hvariables
  refine ⟨hinvocation, hsettings, (hkeys settings).mp hsettings, ?_⟩
  exact (hvariables (by decide) [] (by decide)).trans hsettings

end Command

end ShellDoc
