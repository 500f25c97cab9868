import ShellDoc.Proofs.Keyed
import ShellDoc.Proofs.PageStream
import ShellDoc.Proofs.RunSteps
import ShellDoc.Run.Narration

/-!
# The records of the work on a script

Telling the activities of a run hands records to the journal (`Run.records`): one for each event and
one for each notice whose level is enabled.  A record of the logger of the pages has the context of
that logger, overridden by the fields of its event.

While a script is worked on, its path is in the context, and the events at the beginning and at the
end name it once more.  So every record names the script, but for one: the record of dropped blocks
gives the heading of the page as its source, and that overrides the context.
-/

namespace ShellDoc

/-! ## Log calls -/

namespace Log

/-- The record of a call with fields. -/
def Logger.record (l : Logger) (s : Severity) (message : Text) (fields : Fields Value) : Record :=
  { logger := l.name, levelName := Level.name s.level, template := message,
    attributes := (l.recordFields fields).filter fun f => !hiddenAttributes.contains f.1 }

/-- The fields of a call that become attributes. -/
def ownFields (fields : Fields Value) : Fields Value := fields.filter fun f => f.1 ≠ exceptionField

theorem ownFields_of_not_mem {fields : Fields Value} (h : ∀ f ∈ fields, f.1 ≠ exceptionField) :
    ownFields fields = fields := by
  rw [ownFields, List.filter_eq_self]
  exact fun f hf => decide_eq_true (h f hf)

/-- The record of a call, which shows that there is no exception if one is asked for. -/
def Logger.callRecord (l : Logger) (s : Severity) (message : Text) (fields : Fields Value) :
    Record :=
  { l.record s message (ownFields fields) with
    exception :=
      if ((fields.get? exceptionField).map Value.isTruthy).getD false then some noException
      else none }

theorem Logger.callRecord_of_not_mem {fields : Fields Value}
    (h : ∀ f ∈ fields, f.1 ≠ exceptionField) (l : Logger) (s : Severity) (message : Text) :
    l.callRecord s message fields = l.record s message fields := by
  rw [callRecord, ownFields_of_not_mem h, Fields.get?_eq_none h]
  rfl

/-- The names that a call takes for itself. -/
def takenNames : List Text := levelField :: givenFields

/-- A call hands its record to the journal if its level is enabled, or it fails, whatever has been
printed before; then it gives a field a name that is taken, or the record has a guarded name. -/
theorem Logger.call_cases (l : Logger) (j : Journal) (s : Severity) (message : Text)
    (fields : Fields Value) :
    (∀ c, l.call j s message fields c =
        .ok (if j.isEnabled l.name s.level then j.handle s.level (l.callRecord s message fields) c
          else c)) ∨
      (∃ fault, ∀ c, l.call j s message fields c = .error fault) ∧
        ((∃ f ∈ fields, f.1 ∈ takenNames) ∨
          ∃ f ∈ l.recordFields (ownFields fields), f.1 ∈ guardedAttributes) := by
  have hmem {names : List Text} {fs : Fields Value} {f : Text × Value}
      (h : fs.find? (fun f => names.contains f.1) = some f) : f ∈ fs ∧ f.1 ∈ names :=
    ⟨List.mem_of_find?_eq_some h, by simpa using List.find?_some h⟩
  unfold call
  cases hgiven : fields.find? fun f => givenFields.contains f.1 with
  | some f =>
      obtain ⟨hf, hname⟩ := hmem hgiven
      exact .inr ⟨⟨_, fun _ => rfl⟩, .inl ⟨f, hf, List.mem_cons_of_mem _ hname⟩⟩
  | none =>
      by_cases hlevel : (fields.get? levelField).isSome = true
      · obtain ⟨f, hf, hname⟩ := List.mem_map.mp ((Fields.isSome_get?_iff _ _).mp hlevel)
        refine .inr ⟨⟨_, fun _ => if_pos hlevel⟩, .inl ⟨f, hf, ?_⟩⟩
        exact hname ▸ List.mem_cons_self
      · simp only [if_neg hlevel, write]
        by_cases henabled : j.isEnabled l.name s.level = true
        · simp only [if_pos henabled]
          cases hguarded : (l.recordFields (ownFields fields)).find? fun f =>
              guardedAttributes.contains f.1 with
          | some f =>
              refine .inr ⟨⟨.guarded f.1, fun _ => ?_⟩, .inr ⟨f, hmem hguarded⟩⟩
              rw [ownFields] at hguarded
              rw [hguarded]
          | none =>
              refine .inl fun _ => ?_
              rw [ownFields] at hguarded
              rw [hguarded]
              rfl
        · exact .inl fun _ => by simp only [if_neg henabled]

/-- The names that a call cannot give to its fields. -/
def reservedNames : List Text := levelField :: Logger.selfName :: guardedAttributes

theorem takenNames_subset_reservedNames : takenNames ⊆ reservedNames :=
  List.cons_subset_cons _ (List.cons_subset_cons _ (List.cons_subset_cons _ (List.nil_subset _)))

theorem guardedAttributes_subset_reservedNames : guardedAttributes ⊆ reservedNames :=
  List.subset_cons_of_subset _ (List.subset_cons_self _ _)

theorem exceptionField_mem_guardedAttributes : exceptionField ∈ guardedAttributes := by decide

/-- A call without reserved names hands its record to the journal if its level is enabled. -/
theorem Logger.call_eq_handle {l : Logger} {fields : Fields Value}
    (hcontext : ∀ f ∈ l.context, f.1 ∉ reservedNames) (hfields : ∀ f ∈ fields, f.1 ∉ reservedNames)
    (j : Journal) (s : Severity) (message : Text) (c : Console) :
    l.call j s message fields c =
      .ok (if j.isEnabled l.name s.level then j.handle s.level (l.record s message fields) c
        else c) := by
  have hguarded := guardedAttributes_subset_reservedNames
  have hexception : ∀ f ∈ fields, f.1 ≠ exceptionField := by
    intro f hf he
    exact hfields f hf (he ▸ hguarded exceptionField_mem_guardedAttributes)
  obtain hdone | ⟨-, ⟨f, hf, hname⟩ | ⟨f, hf, hname⟩⟩ := l.call_cases j s message fields
  · rw [hdone, callRecord_of_not_mem hexception]
  · exact absurd (takenNames_subset_reservedNames hname) (hfields f hf)
  · rw [ownFields_of_not_mem hexception] at hf
    exact absurd (hguarded hname) (Fields.forall_mem_putAll hcontext hfields f hf)

/-- The field that names a script. -/
def Record.source? (r : Record) : Option Value := r.attributes.get? "source"

/-- The field that names the kind of an event. -/
def Record.kind? (r : Record) : Option Value := r.attributes.get? "event_type"

/-- A shown field of a record is a field of the call, or else one of the context. -/
theorem Logger.get?_record {name : Text} (h : name ∉ hiddenAttributes) (l : Logger) (s : Severity)
    (message : Text) (fields : Fields Value) :
    (l.record s message fields).attributes.get? name =
      (Fields.get? fields.reverse name).or (l.context.get? name) := by
  have hshown : (!hiddenAttributes.contains name) = true := by simpa using h
  rw [record, Fields.get?_filter (p := fun n => !hiddenAttributes.contains n) hshown, recordFields,
    Fields.get?_putAll]

/-- The record of an event. -/
def Logger.eventRecord (l : Logger) (e : Event) : Record := l.record e.severity e.message e.fields

namespace Event

/-- The source that an event gives of its own. -/
def source? : Event → Option Text
  | fileStarted source _ => some source
  | blocksDiscarded source _ => some source
  | fileCompleted source _ _ => some source
  | _ => none

/-- The names that events give to their fields. -/
def names : List Text :=
  ["event_type", "source", "output", "block_name", "parameter_count", "discarded", "block_count"]

theorem source_mem_names : "source".toList ∈ names := List.mem_cons_of_mem _ List.mem_cons_self

theorem forall_mem_fields {P : Text → Prop} (h : ∀ name ∈ names, P name) (e : Event) :
    ∀ f ∈ e.fields, P f.1 := by
  have hall : (e.fields.all fun f => names.contains f.1) = true := by cases e <;> rfl
  intro f hf
  exact h f.1 (List.contains_iff_mem.mp (List.all_eq_true.mp hall f hf))

-- one list for all events, so that the names are compared once
theorem not_mem_of_mem_names :
    ∀ name ∈ names, name ∉ reservedNames ∧ name ∉ hiddenAttributes := by
  decide +kernel

theorem not_mem_reservedNames (e : Event) : ∀ f ∈ e.fields, f.1 ∉ reservedNames :=
  e.forall_mem_fields fun name hname => (not_mem_of_mem_names name hname).1

end Event

theorem Logger.source?_eventRecord (l : Logger) (e : Event) :
    (l.eventRecord e).source? = (e.source?.map Value.text).or (l.context.get? "source") := by
  have hshown := (Event.not_mem_of_mem_names "source" Event.source_mem_names).2
  have hown : Fields.get? e.fields.reverse "source" = e.source?.map Value.text := by
    cases e <;> rfl
  rw [Record.source?, eventRecord, get?_record hshown, hown]

theorem Logger.kind?_eventRecord (l : Logger) (e : Event) :
    (l.eventRecord e).kind? = some (.text e.kind) := by
  have hshown := (Event.not_mem_of_mem_names "event_type" List.mem_cons_self).2
  have hown : Fields.get? e.fields.reverse "event_type" = some (.text e.kind) := by
    cases e <;> rfl
  rw [Record.kind?, eventRecord, get?_record hshown, hown]
  rfl

theorem Logger.names_of_eventRecord {l : Logger} {e : Event} {source kind : Text}
    (hsource : (e.source?.map Value.text).or (l.context.get? "source") = some (.text source))
    (hkind : e.kind ≠ kind) :
    (l.eventRecord e).source? = some (.text source) ∧
      (l.eventRecord e).kind? ≠ some (.text kind) := by
  rw [source?_eventRecord, kind?_eventRecord]
  refine ⟨hsource, fun h => hkind ?_⟩
  exact Value.text.inj (Option.some.inj h)

theorem Severity.debug_le_level (s : Severity) : Level.debug ≤ s.level := by
  cases s <;> decide

theorem Journal.isEnabled_of_debug {j : Journal} {name : Text}
    (h : j.isEnabled name Level.debug = true) (s : Severity) : j.isEnabled name s.level = true := by
  simp only [isEnabled, Bool.and_eq_true, decide_eq_true_eq] at h ⊢
  exact ⟨Int.lt_of_lt_of_le h.1 s.debug_le_level, Int.le_trans h.2 s.debug_le_level⟩

end Log

/-! ## The records of activities -/

namespace Run

open Log (Console Journal Logger Record Severity)

/-- The record of an activity. -/
def recordOf? (l : Logger) : Activity → Option (Severity × Record)
  | .event e => some (e.severity, l.eventRecord e)
  | .notice n => some (.debug, noticeLogger.record .debug n.message [])
  | _ => none

/-- The logger of the pages behind an activity. -/
def loggerAfter (l : Logger) : Activity → Logger
  | .entered source => { l with context := l.context.put sourceField (.text source) }
  | .left => l.clearContext
  | _ => l

/-- The records of activities at enabled levels, in order. -/
def recordsFrom (j : Journal) (l : Logger) : List Activity → List (Severity × Record)
  | [] => []
  | a :: as =>
      (recordOf? l a).toList.filter (fun r => j.isEnabled r.2.logger r.1.level) ++
        recordsFrom j (loggerAfter l a) as

/-- The records of a run. -/
def records (j : Journal) (activities : List Activity) : List (Severity × Record) :=
  recordsFrom j pageLogger activities

/-- Hands records to the journal. -/
def handleAll (j : Journal) (rs : List (Severity × Record)) (c : Console) : Console :=
  rs.foldl (fun c r => j.handle r.1.level r.2 c) c

/-- Nothing but the script is ever in the context. -/
def OnlySource (l : Logger) : Prop := ∀ f ∈ l.context, f.1 = sourceField

theorem OnlySource.loggerAfter {l : Logger} (h : OnlySource l) (a : Activity) :
    OnlySource (loggerAfter l a) := by
  cases a with
  | entered source =>
      have hput : ∀ f ∈ l.context.put sourceField (.text source), f.1 = sourceField := by
        rw [Fields.put_eq_put]
        exact Keyed.forall_mem_put (P := fun f : Text × Value => f.1 = sourceField) _ rfl h
      exact hput
  | left => exact nofun
  | event e => exact h
  | notice n => exact h

theorem OnlySource.not_mem_reservedNames {l : Logger} (h : OnlySource l) :
    ∀ f ∈ l.context, f.1 ∉ Log.reservedNames := by
  intro f hf
  rw [h f hf]
  exact (Log.Event.not_mem_of_mem_names sourceField Log.Event.source_mem_names).1

theorem handleAll_filter (j : Journal) (s : Severity) (r : Record) (c : Console) :
    handleAll j ([(s, r)].filter fun r => j.isEnabled r.2.logger r.1.level) c =
      if j.isEnabled r.logger s.level then j.handle s.level r c else c := by
  cases h : j.isEnabled r.logger s.level <;> simp [handleAll, h]

theorem tell_eq_handleAll (j : Journal) {l : Logger} (h : OnlySource l) (c : Console)
    (a : Activity) :
    tell j (l, c) a = (loggerAfter l a, handleAll j ((recordOf? l a).toList.filter fun r =>
      j.isEnabled r.2.logger r.1.level) c) := by
  cases a with
  | entered source => rfl
  | left => rfl
  | event e =>
      have hcall := Logger.call_eq_handle h.not_mem_reservedNames e.not_mem_reservedNames j
        e.severity e.message c
      have htell : tell j (l, c) (.event e) =
          (l, printed c (l.call j e.severity e.message e.fields c)) := rfl
      rw [htell, hcall, recordOf?, Option.toList_some, handleAll_filter]
      rfl
  | notice n =>
      have hcall := @Logger.call_eq_handle noticeLogger [] nofun nofun j .debug n.message c
      have htell : tell j (l, c) (.notice n) =
          (l, printed c (noticeLogger.call j .debug n.message [] c)) := rfl
      rw [htell, hcall, recordOf?, Option.toList_some, handleAll_filter]
      rfl

/-- Telling a run hands its records to the journal, and does nothing else. -/
theorem narrate_eq_handleAll (j : Journal) (activities : List Activity) (c : Console) :
    narrate j activities c = handleAll j (records j activities) c := by
  have hfrom : ∀ (l : Logger) (c : Console), OnlySource l →
      (activities.foldl (tell j) (l, c)).2 = handleAll j (recordsFrom j l activities) c := by
    induction activities with
    | nil => exact fun l c _ => rfl
    | cons a activities ih =>
        intro l c hl
        rw [List.foldl_cons, tell_eq_handleAll j hl, ih _ _ (hl.loggerAfter a), recordsFrom,
          handleAll, handleAll, handleAll, List.foldl_append]
  exact hfrom pageLogger c nofun

/-! ## The records of the logger of the pages -/

/-- The records of the logger of the pages, whatever their level. -/
def pageRecords (l : Logger) : List Activity → List Record
  | [] => []
  | .event e :: as => l.eventRecord e :: pageRecords l as
  | a :: as => pageRecords (loggerAfter l a) as

/-- The records of a run that the logger of the pages has written. -/
def ownRecords (j : Journal) (activities : List Activity) : List Record :=
  ((records j activities).map (·.2)).filter fun r => r.logger = pageLogger.name

def Activity.event? : Activity → Option Log.Event
  | .event e => some e
  | _ => none

theorem ownRecords_eq_pageRecords {j : Journal}
    (h : j.isEnabled pageLogger.name Log.Level.debug = true) (activities : List Activity) :
    ownRecords j activities = pageRecords pageLogger activities := by
  have hfrom : ∀ l : Logger, l.name = pageLogger.name →
      ((recordsFrom j l activities).map (·.2)).filter (fun r => r.logger = pageLogger.name) =
        pageRecords l activities := by
    induction activities with
    | nil => exact fun l _ => rfl
    | cons a activities ih =>
        intro l hl
        rw [recordsFrom, List.map_append, List.filter_append]
        cases a with
        | entered source => exact ih (loggerAfter l (.entered source)) hl
        | left => exact ih (loggerAfter l .left) hl
        | event e =>
            have hname : (l.eventRecord e).logger = pageLogger.name := hl
            have henabled := Journal.isEnabled_of_debug h e.severity
            simp [recordOf?, pageRecords, hname, henabled, loggerAfter, ih l hl]
        | notice n =>
            have hname : noticeLogger.name ≠ pageLogger.name := by decide
            have hnone : (((recordOf? l (.notice n)).toList.filter fun r =>
                j.isEnabled r.2.logger r.1.level).map (·.2)).filter
                  (fun r => r.logger = pageLogger.name) = [] := by
              rw [List.filter_eq_nil_iff, List.forall_mem_map]
              intro r hr
              have hrecord := Option.some.inj (Option.mem_toList.mp (List.mem_of_mem_filter hr))
              rw [← hrecord]
              exact fun h => hname (of_decide_eq_true h)
            rw [hnone, List.nil_append]
            exact ih l hl
  exact hfrom pageLogger rfl

/-- The event of a run that an event of its page becomes. -/
def logged? (e : Page.Event) : Option Log.Event := (Activity.ofPage e).event?

theorem pageRecords_ofPage (l : Logger) (es : List Page.Event) (activities : List Activity) :
    pageRecords l (es.map Activity.ofPage ++ activities) =
      (es.filterMap logged?).map l.eventRecord ++ pageRecords l activities := by
  induction es with
  | nil => rfl
  | cons e es ih =>
      cases e with
      | notice n => exact ih
      | rendered name parameters => exact congrArg _ ih
      | discarded title count => exact congrArg _ ih

/-! ## The work on a script -/

/-- The script and its output are found, the script is read to its end, and blocks are dropped
there. -/
def DropsBlocks (s : Settings) (wd : Files.Location) (t : Files.Tree) (source output : Path) :
    Prop :=
  ∃ script page lines, Files.locateFile t wd source.toText = .ok script ∧
    Files.locateOutput t wd output.toText = .ok page ∧
    Script.Content.ofBytes (Files.contentAt (t.put page (.file [])) script) = ⟨lines, none⟩ ∧
    (Inspection.ofLines s.dialects lines).discarded ≠ 0

/-- The event of a block that is written. -/
def renderedEvent (b : DocBlock) : Log.Event := .blockRendered b.name b.parameters.length

theorem logged_document (s : Settings) (title : Text) (lines : List Text) :
    let i := Inspection.ofLines s.dialects lines
    (Page.document s.dialects s.copyright title lines).events.filterMap logged? =
      i.blocks.map renderedEvent ++
        (if i.discarded = 0 then [] else [i.discarded]).map (.blocksDiscarded title) := by
  intro i
  have hblocks : (i.blocks.filterMap fun b =>
      logged? (.rendered b.name b.parameters.length)) = i.blocks.map renderedEvent :=
    congrFun List.filterMap_eq_map' i.blocks
  rw [Page.events_document _ _ _ _ logged? fun _ => rfl, hblocks]
  congr 1
  split <;> rfl

theorem logged_upTo (s : Settings) (title : Text) (lines : List Text) :
    (Page.upTo s.dialects title lines).events.filterMap logged? =
      ((Page.Writer.start s.dialects title).blocksIn lines).map renderedEvent := by
  rw [Page.upTo, Page.Writer.events_feedAll logged? fun _ => rfl]
  exact congrFun List.filterMap_eq_map' _

section Script

variable (s : Settings) (wd : Files.Location) (t : Files.Tree) (source output : Path)

/-- The events of a page: one for each block, and one more if blocks are dropped, which gives the
heading as their source. -/
theorem events_openAndWrite (title : Text) :
    ∃ (es : List Page.Event) (blocks : List DocBlock) (dropped : List Nat),
      (openAndWrite s wd t source output title).activities = es.map Activity.ofPage ∧
      es.filterMap logged? =
        blocks.map renderedEvent ++ dropped.map (.blocksDiscarded title) ∧
      (dropped ≠ [] ↔ DropsBlocks s wd t source output) := by
  rcases openAndWrite_cases s wd t source output title with
    ⟨f, hmissing, hfailed⟩ | ⟨script, page, hscript, hpage, hwrite⟩
  · refine ⟨[], [], [], by rw [hfailed]; rfl, rfl, fun h => absurd rfl h, ?_⟩
    rintro ⟨script, page, lines, hscript, hpage, -⟩
    rw [hscript, hpage] at hmissing
    simp at hmissing
  · rw [hwrite, writePage]
    rcases hcontent : Script.Content.ofBytes (Files.contentAt (t.put page (.file [])) script) with
      ⟨lines, fault⟩
    have hdrops : DropsBlocks s wd t source output ↔
        fault = none ∧ (Inspection.ofLines s.dialects lines).discarded ≠ 0 := by
      constructor
      · rintro ⟨script', page', lines', hscript', hpage', hcontent', hdiscarded⟩
        obtain rfl := Except.ok.inj (hscript.symm.trans hscript')
        obtain rfl := Except.ok.inj (hpage.symm.trans hpage')
        obtain ⟨rfl, rfl⟩ := Script.Content.mk.inj (hcontent.symm.trans hcontent')
        exact ⟨rfl, hdiscarded⟩
      · rintro ⟨rfl, hdiscarded⟩
        exact ⟨script, page, lines, hscript, hpage, hcontent, hdiscarded⟩
    rw [hdrops]
    cases fault with
    -- Only the end of the script can drop blocks, so a script that breaks off drops none.
    | none =>
        refine ⟨_, _, _, rfl, logged_document s title lines, ?_⟩
        by_cases hdiscarded : (Inspection.ofLines s.dialects lines).discarded = 0
        · simp [hdiscarded]
        · simp [hdiscarded]
    | some u =>
        refine ⟨_, (Page.Writer.start s.dialects title).blocksIn lines, [], rfl, ?_, by simp⟩
        rw [List.map_nil, List.append_nil]
        exact logged_upTo s title lines

/-- The logger of the pages while a script is worked on. -/
def sourceLogger : Logger := { pageLogger with context := [(sourceField, .text source.toText)] }

/-- The event at the end of the work on a script, if it succeeds. -/
def completion : Except Fault Nat → List Log.Event
  | .ok count => [.fileCompleted source.toText output.toText count]
  | .error _ => []

theorem exists_of_mem_completion {r : Except Fault Nat} {e : Log.Event}
    (h : e ∈ completion source output r) :
    ∃ count, e = .fileCompleted source.toText output.toText count := by
  cases r with
  | error f => cases h
  | ok count => exact ⟨count, List.mem_singleton.mp h⟩

/-- The activities of the work on a script: its path is in the context from the beginning until the
page is written or fails to be. -/
theorem activities_documentFile (title : Text) :
    let o := documentFile s wd t source output title
    let heading := if title.isEmpty then fileTitle s source else title
    o.activities = .entered source.toText :: .event (.fileStarted source.toText output.toText) ::
      ((openAndWrite s wd t source output heading).activities ++
        .left :: (completion source output o.result).map .event) := by
  intro o heading
  have hresult : o.result = (openAndWrite s wd t source output heading).result := rfl
  rw [hresult]
  simp only [o, documentFile]
  cases (openAndWrite s wd t source output heading).result <;> simp [completion, heading]

/-- The records of the work on a script in order: the start, the blocks, the dropped blocks, and
the end if it is reached, where the context is empty again. -/
theorem pageRecords_documentFile (title : Text) :
    let o := documentFile s wd t source output title
    let heading := if title.isEmpty then fileTitle s source else title
    ∃ (blocks : List DocBlock) (dropped : List Nat),
      pageRecords pageLogger o.activities =
        (.fileStarted source.toText output.toText ::
          (blocks.map renderedEvent ++ dropped.map (.blocksDiscarded heading))).map
            (sourceLogger source).eventRecord ++
        (completion source output o.result).map pageLogger.eventRecord ∧
      (dropped ≠ [] ↔ DropsBlocks s wd t source output) := by
  intro o heading
  obtain ⟨es, blocks, dropped, hactivities, hevents, hdropped⟩ :=
    events_openAndWrite s wd t source output heading
  have hstart : ∀ rest, pageRecords pageLogger (.entered source.toText ::
      .event (.fileStarted source.toText output.toText) :: rest) =
      (sourceLogger source).eventRecord (.fileStarted source.toText output.toText) ::
        pageRecords (sourceLogger source) rest := fun _ => rfl
  have hend : pageRecords (sourceLogger source)
      (.left :: (completion source output o.result).map .event) =
      (completion source output o.result).map pageLogger.eventRecord := by
    cases o.result <;> rfl
  refine ⟨blocks, dropped, ?_, hdropped⟩
  rw [activities_documentFile, hactivities, hstart, pageRecords_ofPage, hevents, hend]
  rfl

theorem droppedRecord_names (heading : Text) (n : Nat) :
    let r := (sourceLogger source).eventRecord (.blocksDiscarded heading n)
    r.kind? = some (.text "block.discarded") ∧ r.source? = some (.text heading) :=
  ⟨Logger.kind?_eventRecord _ _, Logger.source?_eventRecord _ _⟩

/-- A record of the work on a script names the script, or it tells of dropped blocks and names the
heading. -/
theorem pageRecords_documentFile_cases (title : Text) :
    let heading := if title.isEmpty then fileTitle s source else title
    ∀ r ∈ pageRecords pageLogger (documentFile s wd t source output title).activities,
      (r.source? = some (.text source.toText) ∧ r.kind? ≠ some (.text "block.discarded")) ∨
        (r.kind? = some (.text "block.discarded") ∧ r.source? = some (.text heading)) ∧
          DropsBlocks s wd t source output := by
  intro heading r hr
  obtain ⟨blocks, dropped, hrecords, hdropped⟩ :=
    pageRecords_documentFile s wd t source output title
  rw [hrecords, List.mem_append, List.mem_map, List.mem_map] at hr
  rcases hr with ⟨e, he, rfl⟩ | ⟨e, he, rfl⟩
  · rcases List.mem_cons.mp he with rfl | he
    · exact .inl (Logger.names_of_eventRecord rfl (by decide : "file.started".toList ≠ _))
    · rcases List.mem_append.mp he with hblock | hdrop
      · obtain ⟨b, -, rfl⟩ := List.mem_map.mp hblock
        exact .inl (Logger.names_of_eventRecord rfl (by decide : "block.rendered".toList ≠ _))
      · obtain ⟨n, hn, rfl⟩ := List.mem_map.mp hdrop
        exact .inr ⟨droppedRecord_names source heading n, hdropped.mp (List.ne_nil_of_mem hn)⟩
  · obtain ⟨count, rfl⟩ := exists_of_mem_completion source output he
    exact .inl (Logger.names_of_eventRecord rfl (by decide : "file.completed".toList ≠ _))

/-- If blocks are dropped, there is a record of them. -/
theorem exists_droppedRecord (title : Text) (h : DropsBlocks s wd t source output) :
    let heading := if title.isEmpty then fileTitle s source else title
    ∃ r ∈ pageRecords pageLogger (documentFile s wd t source output title).activities,
      r.kind? = some (.text "block.discarded") ∧ r.source? = some (.text heading) := by
  intro heading
  obtain ⟨blocks, dropped, hrecords, hdropped⟩ :=
    pageRecords_documentFile s wd t source output title
  obtain ⟨n, hn⟩ := List.exists_mem_of_ne_nil dropped (hdropped.mpr h)
  refine ⟨_, ?_, droppedRecord_names source heading n⟩
  rw [hrecords]
  refine List.mem_append_left _ (List.mem_map_of_mem (List.mem_cons_of_mem _ ?_))
  exact List.mem_append_right _ (List.mem_map_of_mem hn)

end Script

/-- The records that the logger of the pages writes while a script is worked on, with all of its
levels enabled.  Telling the run hands them to the journal, between those of the recognizer.  They
begin with the start of the script and end, if the page is written, with its completion.  Each of
them names the script as its source, except the one of dropped blocks, which names the heading of
the page; there is one exactly if the script is read to its end and blocks are dropped there.  So
all of them name the script exactly if no blocks are dropped or the heading is the path itself. -/
theorem records_name_source (s : Settings) (wd : Files.Location) (t : Files.Tree)
    (source output : Path) (title : Text) (j : Journal)
    (hdebug : j.isEnabled pageLogger.name Log.Level.debug = true) :
    let o := documentFile s wd t source output title
    let heading := if title.isEmpty then fileTitle s source else title
    let own := ownRecords j o.activities
    (∀ c, narrate j o.activities c = handleAll j (records j o.activities) c) ∧
    (∃ r, own.head? = some r ∧ r.kind? = some (.text "file.started")) ∧
    (∀ count, o.result = .ok count →
      ∃ r, own.getLast? = some r ∧ r.kind? = some (.text "file.completed")) ∧
    (∀ r ∈ own, r.source? = some (.text source.toText) ∨
      r.kind? = some (.text "block.discarded") ∧ r.source? = some (.text heading)) ∧
    ((∃ r ∈ own, r.kind? = some (.text "block.discarded")) ↔ DropsBlocks s wd t source output) ∧
    ((∀ r ∈ own, r.source? = some (.text source.toText)) ↔
      (DropsBlocks s wd t source output → heading = source.toText)) := by
  intro o heading own
  have hown : own = pageRecords pageLogger o.activities := ownRecords_eq_pageRecords hdebug _
  obtain ⟨blocks, dropped, hrecords, -⟩ := pageRecords_documentFile s wd t source output title
  have hcases := pageRecords_documentFile_cases s wd t source output title
  have hdropped := exists_droppedRecord s wd t source output title
  rw [← hown] at hrecords hcases hdropped
  refine ⟨narrate_eq_handleAll j o.activities, ?_, ?_, ?_, ⟨?_, ?_⟩, ⟨?_, ?_⟩⟩
  · rw [hrecords]
    exact ⟨_, rfl, Logger.kind?_eventRecord _ _⟩
  · intro count hcount
    have hresult : (documentFile s wd t source output title).result = .ok count := hcount
    rw [hrecords, hresult, completion, List.map_singleton,
      List.getLast?_append_of_ne_nil _ (List.cons_ne_nil _ _)]
    exact ⟨_, rfl, Logger.kind?_eventRecord _ _⟩
  · intro r hr
    rcases hcases r hr with ⟨hsource, -⟩ | ⟨hnames, -⟩
    · exact .inl hsource
    · exact .inr hnames
  · rintro ⟨r, hr, hkind⟩
    rcases hcases r hr with ⟨-, hne⟩ | ⟨-, hdrops⟩
    · exact absurd hkind hne
    · exact hdrops
  · intro hdrops
    obtain ⟨r, hr, hkind, -⟩ := hdropped hdrops
    exact ⟨r, hr, hkind⟩
  · intro hall hdrops
    obtain ⟨r, hr, -, hheading⟩ := hdropped hdrops
    rw [hall r hr, Option.some_inj] at hheading
    exact (Value.text.inj hheading).symm
  · intro hsame r hr
    rcases hcases r hr with ⟨hsource, -⟩ | ⟨⟨-, hheading⟩, hdrops⟩
    · exact hsource
    · exact hheading.trans (congrArg (some ∘ Value.text) (hsame hdrops))

/-- A script with a finished and a dropped block, whose page is headed by the path of the script. -/
theorem records_name_source_heading :
    let t : Files.Tree := ⟨[(["a.sh"], .file (Text.encode "#/ A #/\nf\n#/ B"))]⟩
    let j := (Journal.initial false ⟨⟨2026, 1, 1⟩, 0, 0, 0, 0, none⟩).setLevel Log.programName
      Log.Level.debug
    let own := ownRecords j
      (documentFile {} [] t (Path.ofText "a.sh") (Path.ofText "a.md") "a.sh").activities
    j.isEnabled pageLogger.name Log.Level.debug = true ∧
      DropsBlocks {} [] t (Path.ofText "a.sh") (Path.ofText "a.md") ∧
      ∀ r ∈ own, r.source? = some (.text "a.sh") := by
  intro t j own
  have hdebug : j.isEnabled pageLogger.name Log.Level.debug = true := by decide
  have hdrops : DropsBlocks {} [] t (Path.ofText "a.sh") (Path.ofText "a.md") :=
    ⟨["a.sh"], ["a.md"], ["#/ A #/\n", "f\n", "#/ B"], rfl, rfl, rfl, by decide⟩
  obtain ⟨-, -, -, -, -, hsource⟩ :=
    records_name_source {} [] t (Path.ofText "a.sh") (Path.ofText "a.md") "a.sh" j hdebug
  exact ⟨hdebug, hdrops, hsource.mpr fun _ => rfl⟩

/-- The record of a dropped block names the heading of the page, which is not the script. -/
theorem dropped_block_record_names_heading :
    let t : Files.Tree := ⟨[(["a.sh"], .file (Text.encode "#/\n"))]⟩
    let j := (Journal.initial false ⟨⟨2026, 1, 1⟩, 0, 0, 0, 0, none⟩).setLevel Log.programName
      Log.Level.debug
    let own := ownRecords j
      (documentFile {} [] t (Path.ofText "a.sh") (Path.ofText "a.md") []).activities
    j.isEnabled pageLogger.name Log.Level.debug = true ∧
      own.map (fun r => r.source?.map Value.display) =
        [some "a.sh".toList, some "a".toList, some "a.sh".toList] ∧
      ¬ ∀ r ∈ own, r.source? = some (.text "a.sh") := by
  intro t j own
  have hsources : own.map (fun r => r.source?.map Value.display) =
      [some "a.sh".toList, some "a".toList, some "a.sh".toList] := by
    decide +kernel
  refine ⟨by decide, hsources, ?_⟩
  intro hall
  have hnamed : ∀ v ∈ own.map fun r => r.source?.map Value.display, v = some "a.sh".toList := by
    rw [List.forall_mem_map]
    intro r hr
    rw [hall r hr]
    rfl
  rw [hsources] at hnamed
  exact absurd (hnamed (some "a".toList) (by decide)) (by decide)

end Run

end ShellDoc
