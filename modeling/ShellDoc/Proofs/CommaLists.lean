import ShellDoc.Proofs.Discovery
import ShellDoc.Proofs.EffectiveSettings

/-!
# Lists with commas

A list is written as a text by its items with commas between them.  Blanks around an item do not
count, and neither do entries of blanks only, so that a list has many spellings (`Text.Spells`), and
reading one of them gives the items back (`Text.items_eq_iff`).  What can be an item are the texts
that reading can give: stripped, not empty, and without a comma.

The pieces of a text between its commas are the entries of a spelling, so the two halves of this are
facts about one entry: it is blanks only, or it is an item with blanks around it.

The settings that hold a list are printed with a comma and a space between the items, which is a
spelling of the list whenever the list was read from a text with commas.
-/

namespace ShellDoc

namespace Text

/-! ## Stripping once more -/

theorem strip_between_blanks {before after : Text} (hbefore : before.all isBlank = true)
    (hafter : after.all isBlank = true) (s : Text) : strip (before ++ s ++ after) = strip s := by
  rw [List.all_eq_true] at hbefore hafter
  have hfront : strip (before ++ s) = strip s := by
    induction before with
    | nil => rfl
    | cons c before ih =>
        rw [List.forall_mem_cons] at hbefore
        rw [List.cons_append, strip_cons_of_isBlank hbefore.1, ih hbefore.2]
  induction after using List.reverseRecOn with
  | nil => rw [List.append_nil, hfront]
  | append_singleton after c ih =>
      rw [List.forall_mem_append, List.forall_mem_singleton] at hafter
      rw [← List.append_assoc, strip_append_of_isBlank hafter.2, ih hafter.1]

/-- A text is what is left when it is stripped, with blanks around it. -/
theorem exists_eq_between_blanks (s : Text) : ∃ before after,
    before.all isBlank = true ∧ after.all isBlank = true ∧ s = before ++ strip s ++ after := by
  have hall (t : Text) : (t.takeWhile isBlank).all isBlank = true :=
    List.all_eq_true.mpr fun _ hc => List.mem_takeWhile_imp hc
  have hright : strip s ++ ((stripLeft s).reverse.takeWhile isBlank).reverse = stripLeft s := by
    rw [strip, stripRight, ← List.reverse_append, List.takeWhile_append_dropWhile,
      List.reverse_reverse]
  refine ⟨s.takeWhile isBlank, ((stripLeft s).reverse.takeWhile isBlank).reverse, hall s, ?_, ?_⟩
  · rw [List.all_reverse]
    exact hall _
  · rw [List.append_assoc, hright]
    exact List.takeWhile_append_dropWhile.symm

/-! ## Spellings of a list -/

/-- What can be an item of a list. -/
structure IsItem (item : Text) : Prop where
  ne_nil : item ≠ []
  stripped : strip item = item
  comma : ',' ∉ item

/-- The entries between commas spell the items of a list: each item has blanks around it, and
entries of blanks only may stand anywhere. -/
inductive Spells : List Text → List Text → Prop
  | nil : Spells [] []
  | blank {entry : Text} {entries list : List Text} (hentry : entry.all isBlank = true)
      (rest : Spells entries list) : Spells (entry :: entries) list
  | item {before item after : Text} {entries list : List Text}
      (hbefore : before.all isBlank = true) (hafter : after.all isBlank = true)
      (rest : Spells entries list) : Spells ((before ++ item ++ after) :: entries) (item :: list)

theorem comma_not_mem_of_blank {s : Text} (h : s.all isBlank = true) : ',' ∉ s := by
  intro hcomma
  have hblank := List.all_eq_true.mp h ',' hcomma
  revert hblank
  decide

namespace Spells

variable {entries list : List Text}

/-- No comma is put into an entry but by an item. -/
theorem comma_not_mem (h : Spells entries list) (hlist : ∀ item ∈ list, IsItem item) :
    ∀ entry ∈ entries, ',' ∉ entry := by
  induction h with
  | nil => exact nofun
  | blank hentry rest ih =>
      exact List.forall_mem_cons.mpr ⟨comma_not_mem_of_blank hentry, ih hlist⟩
  | item hbefore hafter rest ih =>
      rw [List.forall_mem_cons] at hlist ⊢
      refine ⟨?_, ih hlist.2⟩
      simp [comma_not_mem_of_blank hbefore, comma_not_mem_of_blank hafter, hlist.1.comma]

/-- Stripping the entries leaves the items, and nothing of the entries of blanks. -/
theorem filter_map_strip (h : Spells entries list) (hlist : ∀ item ∈ list, IsItem item) :
    (entries.map strip).filter (· ≠ []) = list := by
  induction h with
  | nil => rfl
  | @blank entry _ _ hentry rest ih =>
      have hstrip : strip entry = [] := by
        have hempty := @strip_between_blanks entry [] hentry rfl []
        rwa [List.append_nil, List.append_nil] at hempty
      rw [List.map_cons, hstrip]
      exact ih hlist
  | item hbefore hafter rest ih =>
      rw [List.forall_mem_cons] at hlist
      rw [List.map_cons, strip_between_blanks hbefore hafter, hlist.1.stripped,
        List.filter_cons_of_pos (by simpa using hlist.1.ne_nil), ih hlist.2]

/-- Entries spell what is left when they are stripped. -/
theorem of_entries (entries : List Text) : Spells entries ((entries.map strip).filter (· ≠ [])) := by
  induction entries with
  | nil => exact .nil
  | cons entry entries ih =>
      obtain ⟨before, after, hbefore, hafter, hentry⟩ := exists_eq_between_blanks entry
      rw [List.map_cons]
      by_cases hempty : strip entry = []
      · rw [hempty, List.append_nil] at hentry
        rw [hempty]
        refine .blank ?_ ih
        rw [hentry, List.all_append, hbefore, hafter]
        rfl
      · rw [List.filter_cons_of_pos (by simpa using hempty)]
        have hspells : Spells ((before ++ strip entry ++ after) :: entries) (strip entry :: _) :=
          .item hbefore hafter ih
        rwa [← hentry] at hspells

/-- The spelling with nothing but a separator that consists of a comma and blanks. -/
theorem of_items (first : Text) (rest : List Text) :
    Spells (first :: rest.map (' ' :: ·)) (first :: rest) := by
  have hrest : Spells (rest.map (' ' :: ·)) rest := by
    induction rest with
    | nil => exact .nil
    | cons next rest ih =>
        have hspells : Spells (([' '] ++ next ++ []) :: _) (next :: rest) := .item rfl rfl ih
        rwa [List.append_nil] at hspells
  have hspells : Spells (([] ++ first ++ []) :: _) (first :: rest) := .item rfl rfl hrest
  rwa [List.append_nil] at hspells

end Spells

theorem isItem_of_mem_items {s item : Text} (h : item ∈ items s) : IsItem item := by
  obtain ⟨hmem, hne⟩ := List.mem_filter.mp h
  obtain ⟨piece, hpiece, rfl⟩ := List.mem_map.mp hmem
  refine ⟨of_decide_eq_true hne, strip_strip piece, fun hcomma => ?_⟩
  exact not_mem_of_mem_pieces hpiece ((strip_isInfix piece).subset hcomma)

theorem items_join {entries : List Text} (h : ∀ entry ∈ entries, ',' ∉ entry) :
    items (join "," entries) = (entries.map strip).filter (· ≠ []) := by
  cases entries with
  | nil => rfl
  | cons entry entries =>
      have hpieces : pieces ',' (join "," (entry :: entries)) = entry :: entries :=
        pieces_join (List.cons_ne_nil _ _) h
      rw [items, hpieces]

/-- A text reads as a list if it joins entries that spell the list, and only then. -/
theorem items_eq_iff {s : Text} {list : List Text} :
    items s = list ↔
      (∀ item ∈ list, IsItem item) ∧ ∃ entries, Spells entries list ∧ s = join "," entries := by
  constructor
  · rintro rfl
    refine ⟨fun item => isItem_of_mem_items, pieces ',' s, Spells.of_entries _, ?_⟩
    rw [pieces_eq_splitOn]
    exact (List.intercalate_splitOn ',').symm
  · rintro ⟨hlist, entries, hspells, rfl⟩
    rw [items_join (hspells.comma_not_mem hlist), hspells.filter_map_strip hlist]

theorem join_comma_space (first : Text) (rest : List Text) :
    join ", " (first :: rest) = join "," (first :: rest.map (' ' :: ·)) := by
  induction rest generalizing first with
  | nil => simp
  | cons next rest ih =>
      rw [List.map_cons, join_cons_cons, join_cons_cons, ih]
      cases rest with
      | nil => simp
      | cons other rest => simp [join_cons_cons]

/-- The items of a text with commas, printed with a comma and a space between them, read back. -/
theorem items_join_items (s : Text) : items (join ", " (items s)) = items s := by
  have hitems : ∀ item ∈ items s, IsItem item := fun item => isItem_of_mem_items
  cases hlist : items s with
  | nil => rfl
  | cons first rest =>
      rw [hlist] at hitems
      exact items_eq_iff.mpr ⟨hitems, _, .of_items first rest, join_comma_space first rest⟩

end Text

/-! ## The lists of the settings -/

namespace Settings

/-- The settings file at a path gives a text under a key. -/
def Stores (s : Session) (path : Text) (key : Key) (text : Text) : Prop :=
  ∃ bytes entries,
    Files.readFile s.tree s.workingDirectory (expandHome s.environment path) = .ok bytes ∧
      parseContent (expandHome s.environment path) bytes = .ok (.mapping entries) ∧
      given? entries key = some (.text text)

/-- Two settings hold a list. -/
def HoldsList (key : Key) : Prop := key = .allowedDialects ∨ key = .sourceExtensions

theorem settingAt_of_given_text {entries : List (Value × Value)} {key : Key} {text : Text}
    (hkey : HoldsList key) (h : given? entries key = some (.text text)) :
    settingAt entries key = .ok (.list (Text.items text)) := by
  rw [settingAt_of_given h]
  rcases hkey with rfl | rfl <;> rfl

theorem get_of_stores {s : Session} {path text : Text} {key : Key} {stored : Settings}
    (hkey : HoldsList key) (htext : Stores s path key text)
    (h : load s.tree s.workingDirectory s.environment path = .ok stored) :
    stored.get key = .list (Text.items text) := by
  obtain ⟨bytes, entries, hbytes, hentries, hgiven⟩ := htext
  rw [load, hbytes] at h
  obtain ⟨v, entries', hv, hentries', hread⟩ := ofContent_eq_ok_iff.mp h
  obtain rfl := Except.ok.inj (hentries.symm.trans hv)
  obtain rfl := Option.some.inj hentries'
  obtain ⟨-, -, hof⟩ := bind_eq_ok_iff.mp hread
  have hsetting := ofEntries_eq_ok_iff.mp hof key
  rw [settingAt_of_given_text hkey hgiven] at hsetting
  exact (Except.ok.inj hsetting).symm

end Settings

namespace Command

open Settings (Environment HoldsList Stores environmentFile? environmentText?)

/-- The text of the variable that gives a list. -/
def variableText? (env : Environment) : Key → Option Text
  | .allowedDialects => environmentText? env "SHOCKER_ALLOWED_DIALECTS"
  | .sourceExtensions => environmentText? env "SHOCKER_SOURCE_EXTENSIONS"
  | _ => none

theorem variableSetting_eq {key : Key} (hkey : HoldsList key) (env : Environment) :
    variableSetting env key = (variableText? env key).map fun s => .list (Text.items s) := by
  rcases hkey with rfl | rfl <;> rfl

/-- The text with commas that a command has a list from: that of the settings file which the command
line names, or without one that of a variable, or else that of the settings file which the
environment names. -/
inductive ListText (s : Session) (file : Text) (key : Key) (text : Text) : Prop
  | ofNamedFile (hfile : file ≠ []) (htext : Stores s file key text)
  | ofVariable (hfile : file = []) (htext : variableText? s.environment key = some text)
  | ofEnvironmentFile {path : Text} (hfile : file = [])
      (hvariable : variableText? s.environment key = none)
      (hpath : environmentFile? s.tree s.workingDirectory s.environment = some path)
      (htext : Stores s path key text)

theorem get_of_listText {s : Session} {file text : Text} {key : Key} {settings : Settings}
    (hkey : HoldsList key) (htext : ListText s file key text)
    (h : effectiveSettings s file {} = .ok settings) :
    settings.get key = .list (Text.items text) := by
  obtain ⟨base, hbase, rfl⟩ := effectiveSettings_eq_ok_iff.mp h
  have hoverride : (base.override {}).get key = base.get key := by
    rcases hkey with rfl | rfl <;> rfl
  rw [hoverride]
  cases htext with
  | ofNamedFile hfile htext => exact Settings.get_of_stores hkey htext (hbase.file hfile)
  | ofVariable hfile htext =>
      obtain ⟨stored, -, hget⟩ := hbase.environment hfile
      rw [hget, variableSetting_eq hkey, htext]
      rfl
  | ofEnvironmentFile hfile hvariable hpath htext =>
      obtain ⟨stored, hstored, hget⟩ := hbase.environment hfile
      obtain ⟨hnamed, hthere⟩ := environmentFile?_eq_some_iff.mp hpath
      rw [hget, variableSetting_eq hkey, hvariable]
      exact Settings.get_of_stores hkey htext (hstored.file hnamed hthere)

theorem settingsText_eq (settings : Settings) : ∃ width, settingsText settings =
    Text.ofLines (Key.all.map fun key =>
      Text.concat [Text.padRight width key.name, "  ", settingText (settings.get key)]) := by
  refine ⟨(settings.toFields.map fun f => f.1.length).foldl max 0, ?_⟩
  rw [settingsText, Settings.toFields]
  simp only [List.map_map]
  rfl

/-- The items of a text with commas are stripped, not empty, and without commas.  Items of this kind
are read exactly from the texts that spell them: with commas in between, blanks around them, and
entries of blanks anywhere.  Printed with a comma and a space in between they read back.

So a list that a command has from a text with commas stands in the list of all settings, behind its
key, as a text with the same items, which gives the same list in any settings file. -/
theorem comma_lists :
    (∀ s, ∀ item ∈ Text.items s, Text.IsItem item) ∧
    (∀ s list, (∀ item ∈ list, Text.IsItem item) →
      (Text.items s = list ↔ ∃ entries, Text.Spells entries list ∧ s = Text.join "," entries)) ∧
    (∀ s, Text.items (Text.join ", " (Text.items s)) = Text.items s) ∧
    ∀ (s : Session) (g : GlobalOptions) (settings : Settings) (key : Key) (text : Text),
      effectiveSettings s g.settingsFile {} = .ok settings → HoldsList key →
      ListText s g.settingsFile key text →
        configCommand s g false = (s.print (settingsText settings), .ok 0) ∧
        (∃ width, settingsText settings = Text.ofLines (Key.all.map fun k =>
          Text.concat [Text.padRight width k.name, "  ", settingText (settings.get k)])) ∧
        settings.get key = .list (Text.items text) ∧
        Text.items (settingText (settings.get key)) = Text.items text ∧
        ∀ entries stored,
          Settings.given? entries key = some (.text (settingText (settings.get key))) →
          Settings.ofEntries entries = .ok stored → stored.get key = settings.get key := by
  refine ⟨fun s item => Text.isItem_of_mem_items, fun s list hlist => ?_, Text.items_join_items,
    fun s g settings key text hsettings hkey htext => ?_⟩
  · rw [Text.items_eq_iff, and_iff_right hlist]
  · have hget := get_of_listText hkey htext hsettings
    have hprinted : Text.items (settingText (settings.get key)) = Text.items text := by
      rw [hget]
      exact Text.items_join_items text
    refine ⟨?_, settingsText_eq settings, hget, hprinted, fun entries stored hgiven hread => ?_⟩
    · rw [configCommand, hsettings]
      rfl
    · have hsetting := Settings.ofEntries_eq_ok_iff.mp hread key
      rw [Settings.settingAt_of_given_text hkey hgiven, hprinted, ← hget] at hsetting
      exact (Except.ok.inj hsetting).symm

/-- A variable with entries of blanks, and a text with other blanks that reads as the same list. -/
theorem comma_lists_variable :
    let text : Text := "bash,, z sh\t,"
    let s : Session :=
      { tree := ⟨[]⟩, workingDirectory := [], environment := [("SHOCKER_ALLOWED_DIALECTS", text)],
        journal := Log.Journal.initial false ⟨⟨2026, 1, 1⟩, 0, 0, 0, 0, none⟩ }
    let settings : Settings := { allowedDialects := ["bash", "z sh"] }
    effectiveSettings s [] {} = .ok settings ∧ ListText s [] .allowedDialects text ∧
      settingText (settings.get .allowedDialects) = "bash, z sh" ∧
      Text.items "bash, z sh" = ["bash".toList, "z sh".toList] ∧
      Text.items "\n,\x0bbash ,z sh" = ["bash".toList, "z sh".toList] := by
  intro text s settings
  have hsettings : effectiveSettings s [] {} = .ok settings := by
    apply eq_ok_of_check
    decide +kernel
  have htext : ListText s [] .allowedDialects text := .ofVariable rfl rfl
  obtain ⟨hall, hspellings, -, hprinted⟩ := comma_lists
  obtain ⟨-, -, -, hitems, -⟩ :=
    hprinted s {} settings .allowedDialects text hsettings (.inl rfl) htext
  have hlist : ∀ item ∈ ["bash".toList, "z sh".toList], Text.IsItem item := hall text
  have hspells : Text.Spells ["\n", "\x0bbash ", "z sh"] ["bash".toList, "z sh".toList] :=
    .blank rfl (@Text.Spells.item "\x0b" "bash" " " _ _ rfl rfl
      (@Text.Spells.item [] "z sh" [] _ _ rfl rfl .nil))
  exact ⟨hsettings, htext, rfl, hitems, (hspellings _ _ hlist).mpr ⟨_, hspells, rfl⟩⟩

end Command

end ShellDoc
