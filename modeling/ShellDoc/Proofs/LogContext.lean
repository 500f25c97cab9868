import ShellDoc.Log.Operation
import ShellDoc.Proofs.LogRecords
import Mathlib.Data.List.DropRight

/-!
# The context of a logger

A logger is held under an identifier, and several may write under one name.  What is in its context
is a matter of the operations under that identifier alone: the fields that were set since it was
last made or cleared (`contextFields`), of which the latest value of each name counts.  One
operation keeps that (`State.HasContext.perform`), so any number of them do.  A record has these
fields, overridden by those of its call.

The work on a script puts a field into the context of the logger of the pages and clears it again,
whether the page is written or not (`Run.foldl_loggerAfter_documentFile`).
-/

namespace ShellDoc

/-! ## The operations on a context -/

namespace Log

namespace Operation

/-- The operation makes the logger under an identifier, or clears its context. -/
def clears (id : Text) : Operation → Bool
  | .get i _ => i = id
  | .new i _ _ => i = id
  | .clearContext i => i = id
  | _ => false

/-- The fields that the operation sets in the context of the logger under an identifier. -/
def sets (id : Text) : Operation → Fields Value
  | .setContext i fields =>
      if (fields.get? Logger.selfName).isSome then [] else if i = id then fields else []
  | _ => []

/-- The operation makes the logger under an identifier, or does something to its context. -/
def concerns (id : Text) (o : Operation) : Bool :=
  o.clears id || match o with
    | .setContext i _ => i = id
    | _ => false

variable {id : Text} {o : Operation}

theorem clears_of_not_concerns (h : o.concerns id = false) : o.clears id = false :=
  (Bool.or_eq_false_iff.mp h).1

theorem sets_of_not_concerns (h : o.concerns id = false) : o.sets id = [] := by
  cases o with
  | setContext i fields =>
      have hi : i ≠ id := of_decide_eq_false h
      rw [sets, if_neg hi, ite_self]
  | _ => rfl

end Operation

/-- The fields that were set in a context since it was last empty, in order. -/
def contextFields (id : Text) (history : List Operation) : Fields Value :=
  (history.rtakeWhile fun o => !o.clears id).flatMap (·.sets id)

theorem contextFields_append_singleton (id : Text) (history : List Operation) (o : Operation) :
    contextFields id (history ++ [o]) =
      if o.clears id then [] else contextFields id history ++ o.sets id := by
  rw [contextFields, List.rtakeWhile_concat]
  cases o.clears id <;> simp [contextFields]

/-- What is done under other identifiers, and which records are written, does not matter. -/
theorem contextFields_filter (id : Text) (history : List Operation) :
    contextFields id (history.filter (·.concerns id)) = contextFields id history := by
  induction history using List.reverseRecOn with
  | nil => rfl
  | append_singleton history o ih =>
      rw [List.filter_append, contextFields_append_singleton]
      cases h : o.concerns id with
      | false =>
          rw [List.filter_singleton, h, o.clears_of_not_concerns h, o.sets_of_not_concerns h]
          simpa using ih
      | true => rw [List.filter_singleton, h, cond_true, contextFields_append_singleton, ih]

/-! ## Loggers along operations -/

/-- Fields of which one has the name of the logger itself are refused; any others are set. -/
theorem Logger.setContext_eq (l : Logger) (fields : Fields Value) :
    l.setContext fields =
      if (fields.get? selfName).isSome then .error (.repeated "set_context" selfName)
      else .ok { l with context := l.context.putAll fields } := by
  unfold setContext
  cases h : fields.find? fun f => f.1 = selfName with
  | some f =>
      have hself : selfName ∈ fields.names :=
        List.mem_map.mpr ⟨f, List.mem_of_find?_eq_some h, by simpa using List.find?_some h⟩
      rw [if_pos ((Fields.isSome_get?_iff _ _).mpr hself)]
  | none =>
      have hself : fields.get? selfName = none := by
        refine Fields.get?_eq_none fun f hf hname => ?_
        exact List.find?_eq_none.mp h f hf (decide_eq_true hname)
      rw [hself]
      rfl

namespace State

variable {s : State} {id : Text}

/-- The logger under an identifier has a context. -/
def HasContext (s : State) (id : Text) (context : Fields Value) : Prop :=
  ∀ l, s.loggers.get? id = some l → l.context = context

variable {context context' : Fields Value}

theorem hasContext_hold (s : State) (id : Text) (l : Logger) :
    (s.hold id l).HasContext id l.context := by
  intro l' hl'
  have hself := (Fields.get?_put_self s.loggers id l).symm.trans hl'
  rw [Option.some.inj hself]

theorem HasContext.hold (h : s.HasContext id context) {i : Text} (hi : i ≠ id) (l : Logger) :
    (s.hold i l).HasContext id context := by
  intro l' hl'
  exact h l' ((Fields.get?_put_of_ne s.loggers l (Ne.symm hi)).symm.trans hl')

/-- Holding a new logger empties the context if it is held under that identifier. -/
theorem HasContext.hold_new (h : s.HasContext id context) (i : Text) {l : Logger}
    (hl : l.context = []) :
    (s.hold i l).HasContext id (if decide (i = id) then [] else context) := by
  by_cases hi : i = id
  · subst hi
    rw [if_pos (decide_eq_true rfl), ← hl]
    exact hasContext_hold s i l
  · rw [if_neg fun hid => hi (of_decide_eq_true hid)]
    exact h.hold hi l

/-- An operation on the logger under some identifier, if there is one, replaces one context at
most. -/
theorem HasContext.withLogger (h : s.HasContext id context) {i : Text}
    {act : Logger → State × Except CallFault Unit} (hother : i ≠ id → context' = context)
    (hact : ∀ l, s.loggers.get? i = some l → (act l).1.HasContext id context') :
    (s.withLogger i act).1.HasContext id context' := by
  unfold State.withLogger
  cases hl : s.loggers.get? i with
  | none =>
      intro l hid
      have hi : i ≠ id := by
        rintro rfl
        rw [hl] at hid
        cases hid
      rw [hother hi]
      exact h l hid
  | some l => exact hact l hl

theorem HasContext.afterCall (h : s.HasContext id context) (result : Except CallFault Console) :
    (s.afterCall result).1.HasContext id context := by
  cases result <;> exact h

theorem HasContext.setContext (h : s.HasContext id context) (i : Text) (fields : Fields Value) :
    (s.perform (.setContext i fields)).1.HasContext id
      (context.putAll ((Operation.setContext i fields).sets id)) := by
  refine h.withLogger (fun hi => ?_) fun l hl => ?_
  · rw [Operation.sets, if_neg hi, ite_self, Fields.putAll_nil]
  · rw [Logger.setContext_eq, Operation.sets]
    by_cases hself : (fields.get? Logger.selfName).isSome = true
    · rw [if_pos hself, if_pos hself]
      exact h
    · rw [if_neg hself, if_neg hself]
      by_cases hi : i = id
      · subst hi
        rw [if_pos rfl, ← h l hl]
        exact hasContext_hold s i _
      · rw [if_neg hi]
        exact h.hold hi _

/-- A logger that is made or cleared has an empty context; else the context is the one before with
the fields that the operation sets. -/
theorem HasContext.perform (h : s.HasContext id context) (o : Operation) :
    (s.perform o).1.HasContext id
      (if o.clears id then [] else context.putAll (o.sets id)) := by
  cases o with
  | configure setup => exact h
  | get i part => exact h.hold_new i rfl
  | new i name level => exact h.hold_new i rfl
  | setContext i fields => exact h.setContext i fields
  | clearContext i =>
      refine h.withLogger (fun hi => ?_) fun l _ => h.hold_new i rfl
      rw [Operation.clears, decide_eq_false hi]
      rfl
  | call i severity message fields => exact h.withLogger (fun _ => rfl) fun _ _ => h.afterCall _
  | event i e => exact h.withLogger (fun _ => rfl) fun _ _ => h.afterCall _

/-- After operations on loggers with empty contexts, a context has what was set in it since it was
last empty. -/
theorem hasContext_performAll (hs : ∀ id, s.HasContext id []) (history : List Operation)
    (id : Text) : (s.performAll history).HasContext id (.ofPairs (contextFields id history)) := by
  induction history using List.reverseRecOn with
  | nil => exact hs id
  | append_singleton history o ih =>
      rw [performAll_append, contextFields_append_singleton]
      have hstep := ih.perform o
      by_cases hclears : o.clears id = true
      · rw [if_pos hclears] at hstep ⊢
        exact hstep
      · rw [if_neg hclears] at hstep ⊢
        rw [Fields.ofPairs_append]
        exact hstep

end State

/-! ## The fields of a record -/

/-- The names that a record has of its own, which nobody should give to a field. -/
def recordNames : List Text := "taskName" :: guardedAttributes

/-- The record that a call hands to the journal, if its level is enabled and it does not fail. -/
def Logger.written? (l : Logger) (j : Journal) (s : Severity) (message : Text)
    (fields : Fields Value) : Option Record :=
  match l.call j s message fields {} with
  | .ok _ => if j.isEnabled l.name s.level then some (l.callRecord s message fields) else none
  | .error _ => none

/-- The call of a logger that an operation is. -/
def Operation.call? : Operation → Option (Text × Severity × Text × Fields Value)
  | .call id severity message fields => some (id, severity, message, fields)
  | .event id e => some (id, e.severity, e.message, e.fields)
  | _ => none

/-- A call hands the record that it writes to the journal, and does nothing else. -/
theorem State.perform_of_call? {s : State} {o : Operation} {id : Text} {severity : Severity}
    {message : Text} {fields : Fields Value} (ho : o.call? = some (id, severity, message, fields))
    {l : Logger} (hl : s.loggers.get? id = some l) :
    (s.perform o).1 =
      { s with
        console :=
          match l.written? s.journal severity message fields with
          | some r => s.journal.handle severity.level r s.console
          | none => s.console } := by
  have hcall : s.perform o = s.perform (.call id severity message fields) := by
    cases o with
    | call i severity' message' fields' => cases ho; rfl
    | event i e => cases ho; rfl
    | _ => cases ho
  rw [hcall]
  simp only [perform, withLogger, hl, Logger.written?]
  obtain hdone | ⟨⟨fault, hfailed⟩, -⟩ := l.call_cases s.journal severity message fields
  · rw [hdone, hdone]
    cases s.journal.isEnabled l.name severity.level <;> rfl
  · rw [hfailed, hfailed]
    rfl

namespace Logger

variable {l : Logger} {context fields : Fields Value} {j : Journal} {s : Severity} {message : Text}

theorem written?_eq_some {r : Record} (h : l.written? j s message fields = some r) :
    r = l.callRecord s message fields := by
  unfold written? at h
  split at h
  · split at h
    · exact (Option.some.inj h).symm
    · cases h
  · cases h

/-- A record whose fields do not have its own names shows all of them. -/
theorem attributes_callRecord (hcontext : l.context = .ofPairs context)
    (hnames : ∀ f ∈ context ++ ownFields fields, f.1 ∉ recordNames) :
    (l.callRecord s message fields).attributes = .ofPairs (context ++ ownFields fields) := by
  have hhidden : hiddenAttributes ⊆ recordNames :=
    List.cons_subset_cons _ (List.cons_subset_cons _ (List.subset_cons_self _ _))
  have hall : l.recordFields (ownFields fields) = .ofPairs (context ++ ownFields fields) := by
    rw [recordFields, hcontext, Fields.ofPairs_append]
  have hshown : (l.callRecord s message fields).attributes =
      (l.recordFields (ownFields fields)).filter fun f => !hiddenAttributes.contains f.1 := rfl
  rw [hshown, hall, List.filter_eq_self]
  intro f hf
  have hname := Fields.forall_mem_ofPairs hnames f hf
  simpa using fun h => hname (hhidden h)

/-- At an enabled level, a call whose fields have no taken name writes its record. -/
theorem isSome_written? (hcontext : l.context = .ofPairs context)
    (hnames : ∀ f ∈ context ++ ownFields fields, f.1 ∉ recordNames)
    (henabled : j.isEnabled l.name s.level = true) (htaken : ∀ f ∈ fields, f.1 ∉ takenNames) :
    (l.written? j s message fields).isSome = true := by
  have hguarded : guardedAttributes ⊆ recordNames := List.subset_cons_self _ _
  unfold written?
  obtain hdone | ⟨-, ⟨f, hf, hname⟩ | ⟨f, hf, hname⟩⟩ := l.call_cases j s message fields
  · rw [hdone]
    simp [henabled]
  · exact absurd hname (htaken f hf)
  · rw [recordFields, hcontext, ← Fields.ofPairs_append] at hf
    exact absurd (hguarded hname) (Fields.forall_mem_ofPairs hnames f hf)

end Logger

theorem Event.names_free (e : Event) : ∀ f ∈ e.fields, f.1 ∉ recordNames ∧ f.1 ∉ takenNames := by
  refine e.forall_mem_fields (P := fun name => name ∉ recordNames ∧ name ∉ takenNames) ?_
  intro name hname
  obtain ⟨hreserved, hhidden⟩ := not_mem_of_mem_names name hname
  refine ⟨fun h => ?_, fun h => hreserved (takenNames_subset_reservedNames h)⟩
  rcases List.mem_cons.mp h with rfl | h
  · exact hhidden List.mem_cons_self
  · exact hreserved (guardedAttributes_subset_reservedNames h)

end Log

/-! ## The context of the logger of the pages -/

namespace Run

open Log (Console Journal Logger)

theorem fst_tell (j : Journal) (state : Logger × Console) (a : Activity) :
    (tell j state a).1 = loggerAfter state.1 a := by
  cases a <;> rfl

theorem fst_foldl_tell (j : Journal) (activities : List Activity) (state : Logger × Console) :
    (activities.foldl (tell j) state).1 = activities.foldl loggerAfter state.1 :=
  (List.foldl_hom Prod.fst fun state a => (fst_tell j state a).symm).symm

theorem foldl_loggerAfter_ofPage (es : List Page.Event) (l : Logger) :
    (es.map Activity.ofPage).foldl loggerAfter l = l := by
  induction es with
  | nil => rfl
  | cons e es ih => cases e <;> exact ih

/-- The work on a script leaves the logger of the pages as it was, also when it fails. -/
theorem foldl_loggerAfter_documentFile (s : Settings) (wd : Files.Location) (t : Files.Tree)
    (source output : Path) (title : Text) :
    (documentFile s wd t source output title).activities.foldl loggerAfter pageLogger =
      pageLogger := by
  obtain ⟨es, -, -, hactivities, -, -⟩ := events_openAndWrite s wd t source output
    (if title.isEmpty then fileTitle s source else title)
  rw [activities_documentFile, hactivities, List.foldl_cons, List.foldl_cons, List.foldl_append,
    foldl_loggerAfter_ofPage]
  cases (documentFile s wd t source output title).result <;> rfl

/-- Tells runs one after the other, each to the journal of its time. -/
def tellRuns (runs : List (Journal × Outcome Nat)) (state : Logger × Console) : Logger × Console :=
  runs.foldl (fun state run => run.2.activities.foldl (tell run.1) state) state

theorem fst_tellRuns {runs : List (Journal × Outcome Nat)}
    (h : ∀ run ∈ runs, ∃ s wd t source output title,
      run.2 = documentFile s wd t source output title) (c : Console) :
    (tellRuns runs (pageLogger, c)).1 = pageLogger := by
  induction runs generalizing c with
  | nil => rfl
  | cons run runs ih =>
      rw [List.forall_mem_cons] at h
      obtain ⟨⟨s, wd, t, source, output, title, hrun⟩, hruns⟩ := h
      have hlogger : (run.2.activities.foldl (tell run.1) (pageLogger, c)).1 = pageLogger := by
        rw [fst_foldl_tell, hrun]
        exact foldl_loggerAfter_documentFile s wd t source output title
      have hstate : run.2.activities.foldl (tell run.1) (pageLogger, c) =
          (pageLogger, (run.2.activities.foldl (tell run.1) (pageLogger, c)).2) :=
        Prod.ext hlogger rfl
      rw [tellRuns, List.foldl_cons, hstate]
      exact ih hruns _

end Run

open Log in
/-- Loggers with empty contexts go through any operations.  What counts for the context of one of
them is what was done under its identifier.  A call of it, also by an event, does nothing but to
hand a record to the journal, and it does so if its level is enabled and no field has a taken name.
The record has exactly the fields that were set in the context since it was last empty, overridden
by the fields of the call.  This is said of fields without the names that a record has of its own;
those of an event never have them.

After any work on scripts, whether it succeeds or not, the context of the logger of the pages is
empty. -/
theorem record_fields_of_history (s : State) (hs : ∀ id, s.HasContext id [])
    (history : List Operation) (id : Text) (l : Logger)
    (hl : (s.performAll history).loggers.get? id = some l)
    (hnames : ∀ f ∈ contextFields id history, f.1 ∉ recordNames) :
    let now := s.performAll history
    let context := contextFields id history
    context = contextFields id (history.filter (·.concerns id)) ∧
    (∀ o severity message fields, o.call? = some (id, severity, message, fields) →
      (∀ f ∈ ownFields fields, f.1 ∉ recordNames) →
      let written := l.written? now.journal severity message fields
      (now.perform o).1 =
        { now with
          console :=
            match written with
            | some r => now.journal.handle severity.level r now.console
            | none => now.console } ∧
      (now.journal.isEnabled l.name severity.level = true → (∀ f ∈ fields, f.1 ∉ takenNames) →
        written.isSome = true) ∧
      ∀ r, written = some r → r.logger = l.name ∧
        r.attributes = .ofPairs (context ++ ownFields fields) ∧
        ∀ name, r.attributes.get? name =
          (Fields.get? (ownFields fields).reverse name).or (Fields.get? context.reverse name)) ∧
    (∀ e : Event, ∀ f ∈ e.fields, f.1 ∉ recordNames ∧ f.1 ∉ takenNames) ∧
    ∀ runs c,
      (∀ run ∈ runs, ∃ s wd t source output title,
        run.2 = Run.documentFile s wd t source output title) →
      (Run.tellRuns runs (Run.pageLogger, c)).1.context = [] := by
  intro now context
  have hcontext : l.context = .ofPairs context := State.hasContext_performAll hs history id l hl
  refine ⟨(contextFields_filter id history).symm, ?_, Event.names_free, ?_⟩
  · intro o severity message fields ho hown written
    have hall : ∀ f ∈ context ++ ownFields fields, f.1 ∉ recordNames :=
      List.forall_mem_append.mpr ⟨hnames, hown⟩
    refine ⟨State.perform_of_call? ho hl, Logger.isSome_written? hcontext hall, ?_⟩
    intro r hr
    have hattributes : r.attributes = .ofPairs (context ++ ownFields fields) := by
      rw [Logger.written?_eq_some hr]
      exact Logger.attributes_callRecord hcontext hall
    refine ⟨?_, hattributes, fun name => ?_⟩
    · rw [Logger.written?_eq_some hr]
      rfl
    · rw [hattributes, Fields.get?_ofPairs, List.reverse_append, Fields.get?_append]
  · intro runs c hruns
    rw [Run.fst_tellRuns hruns]
    rfl

open Log in
/-- Two loggers of one name, whose contexts and calls take turns, and a script that is missing. -/
theorem record_fields_of_history_of_namesakes :
    let s : State := { journal := Journal.initial true ⟨⟨2026, 1, 1⟩, 0, 0, 0, 0, none⟩ }
    let history : List Operation :=
      [.get "a" "docs", .get "b" "docs", .setContext "a" [("run", .int 1), ("step", .int 1)],
        .call "a" .error "first" [("step", .int 2), ("once", .int 3)], .clearContext "a",
        .setContext "a" [("run", .int 4)], .setContext "b" [("run", .int 5)],
        .setContext "a" [("run", .int 6)], .event "b" (.noScripts "lib")]
    let now := s.performAll history
    let missing := Run.documentFile {} [] ⟨[]⟩ (Path.ofText "a.sh") (Path.ofText "a.md") []
    (∃ l r, now.loggers.get? "a" = some l ∧
      l.written? now.journal .error "last" [("step", .int 7)] = some r ∧
      r.logger = "shocker.docs" ∧
      r.attributes = ([("run", .int 6), ("step", .int 7)] : Fields Value)) ∧
      (Run.tellRuns [(s.journal, missing)] (Run.pageLogger, {})).1.context = [] := by
  intro s history now missing
  have hname : (now.loggers.get? "a").map Logger.name = some "shocker.docs".toList := by
    decide +kernel
  have hnames : ∀ f ∈ contextFields "a" history, f.1 ∉ recordNames := by decide +kernel
  obtain ⟨l, hl, hname⟩ := Option.map_eq_some_iff.mp hname
  obtain ⟨-, hrecord, -, hscripts⟩ := record_fields_of_history s nofun history "a" l hl hnames
  obtain ⟨-, hwritten, hfields⟩ := hrecord (.call "a" .error "last" [("step", .int 7)]) .error
    "last" [("step", .int 7)] rfl (by decide +kernel)
  have henabled : now.journal.isEnabled l.name Severity.error.level = true := by
    rw [hname]
    decide +kernel
  obtain ⟨r, hr⟩ := Option.isSome_iff_exists.mp (hwritten henabled (by decide +kernel))
  obtain ⟨hlogger, hattributes, -⟩ := hfields r hr
  refine ⟨⟨l, r, hl, hr, hlogger.trans hname, hattributes⟩, hscripts _ _ ?_⟩
  rw [List.forall_mem_singleton]
  exact ⟨_, _, _, _, _, _, rfl⟩

end ShellDoc
