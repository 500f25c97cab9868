import ShellDoc.Log.Operation
import ShellDoc.Proofs.Keyed

/-!
# The set-up of the journal

However often the journal is set up, it has one handler, and that handler and the level of the
program are those of the last set-up that did not fail (`Journal.SetUpAs`).  One that fails does so
before anything is changed (`Journal.setUp_cases`).

No other operation touches the handlers, and only one can touch a level: a logger that is made with
a level of its own (`State.journal_perform`).
-/

namespace ShellDoc.Log

namespace Journal

variable {j : Journal} {setup : Setup}

/-- The journal has the handler and the level of a set-up, and no other handler. -/
structure SetUpAs (j : Journal) (setup : Setup) : Prop where
  handlers : j.handlers = [setup.handler j.terminal]
  level : Level.named setup.level = .ok (j.ownLevel programName)

theorem ownLevel_setLevel_self (j : Journal) (name : Text) (level : Level) :
    (j.setLevel name level).ownLevel name = level := by
  rw [ownLevel, setLevel, Fields.get?_put_self]
  rfl

theorem ownLevel_setLevel_of_ne (j : Journal) {name other : Text} (level : Level)
    (h : other ≠ name) : (j.setLevel name level).ownLevel other = j.ownLevel other := by
  rw [ownLevel, setLevel, Fields.get?_put_of_ne _ _ h]
  rfl

/-- A set-up whose level is not known leaves the journal, any other one is done. -/
theorem setUp_cases (j : Journal) (setup : Setup) :
    (∃ fault, Level.named setup.level = .error fault ∧ j.setUp setup = (j, .error fault)) ∨
      ∃ level, Level.named setup.level = .ok level ∧ (j.setUp setup).2 = .ok () ∧
        (j.setUp setup).1.SetUpAs setup ∧ (j.setUp setup).1.terminal = j.terminal := by
  cases hlevel : Level.named setup.level with
  | error fault => exact .inl ⟨fault, rfl, by rw [setUp, hlevel]⟩
  | ok level =>
      have hdone : j.setUp setup =
          (((j.setLevel programName level).clearHandlers).addHandler (setup.handler j.terminal),
            .ok ()) := by
        rw [setUp, hlevel]
        rfl
      rw [hdone]
      exact .inr ⟨level, rfl, rfl, ⟨rfl, hlevel.trans
        (congrArg _ (ownLevel_setLevel_self j programName level).symm)⟩, rfl⟩

theorem setUp_of_error {fault : Level.Fault} (h : (j.setUp setup).2 = .error fault) :
    (j.setUp setup).1 = j := by
  obtain ⟨fault', -, hfailed⟩ | ⟨level, -, hdone, -⟩ := j.setUp_cases setup
  · rw [hfailed]
  · rw [hdone] at h
    cases h

theorem setUp_fails_iff :
    (∃ fault, (j.setUp setup).2 = .error fault) ↔
      ∀ level, Level.named setup.level ≠ .ok level := by
  obtain ⟨fault, hlevel, hfailed⟩ | ⟨level, hlevel, hdone, -⟩ := j.setUp_cases setup
  · simp [hlevel, hfailed]
  · simp [hlevel, hdone]

theorem SetUpAs.setLevel (h : j.SetUpAs setup) {name : Text} (hname : name ≠ programName)
    (level : Level) : (j.setLevel name level).SetUpAs setup where
  handlers := h.handlers
  level := by rw [ownLevel_setLevel_of_ne j level (Ne.symm hname), h.level]

/-- The one handler prints a record of the program once. -/
theorem SetUpAs.handle (h : j.SetUpAs setup) {r : Record} (hown : isOwn r.logger = true)
    {line : Text} (hline : (setup.handler j.terminal).layout.format j.now r = .ok line)
    (level : Level) (c : Console) :
    j.handle level r c = c.printLine (setup.handler j.terminal).channel line := by
  rw [Journal.handle, handlersOf, if_pos hown, h.handlers]
  dsimp only [List.foldl_cons, List.foldl_nil]
  rw [Handler.emit, hline]

end Journal

namespace Operation

/-- The operation sets the level of the program by making a logger for it. -/
def SetsProgramLevel : Operation → Prop
  | .new _ name (some _) => name = programName
  | _ => False

end Operation

namespace State

theorem journal_withLogger {s : State} {act : Logger → State × Except CallFault Unit}
    (h : ∀ l, (act l).1.journal = s.journal) (id : Text) :
    (s.withLogger id act).1.journal = s.journal := by
  unfold withLogger
  split
  · rfl
  · exact h _

theorem journal_afterCall (s : State) (result : Except CallFault Console) :
    (s.afterCall result).1.journal = s.journal := by
  cases result <;> rfl

/-- What an operation does to the journal. -/
theorem journal_perform (s : State) (o : Operation) :
    (s.perform o).1.journal =
      match o with
      | .configure setup => (s.journal.setUp setup).1
      | .new _ name (some level) => s.journal.setLevel (Logger.named name).name level
      | _ => s.journal := by
  cases o with
  | configure setup => rfl
  | get id part => rfl
  | new id name level => cases level <;> rfl
  | setContext id fields =>
      refine journal_withLogger (fun l => ?_) id
      split <;> rfl
  | clearContext id =>
      refine journal_withLogger (fun l => ?_) id
      rfl
  | call id severity message fields => exact journal_withLogger (fun _ => journal_afterCall _ _) id
  | event id e => exact journal_withLogger (fun _ => journal_afterCall _ _) id

/-- The set-up that an operation does. -/
def setUpBy? (s : State) (o : Operation) : Option Setup :=
  match o, (s.perform o).2 with
  | .configure setup, .ok () => some setup
  | _, _ => none

/-- The set-ups of operations that do not fail, in order. -/
def setUps (s : State) : List Operation → List Setup
  | [] => []
  | o :: os => (s.setUpBy? o).toList ++ (s.perform o).1.setUps os

/-- An operation keeps the set-up or does another one. -/
theorem setUpAs_perform {s : State} {last : Setup} (h : s.journal.SetUpAs last) {o : Operation}
    (ho : ¬ o.SetsProgramLevel) :
    (s.perform o).1.journal.SetUpAs ((s.setUpBy? o).getD last) := by
  rw [journal_perform]
  cases o with
  | configure setup =>
      obtain ⟨fault, -, hfailed⟩ | ⟨level, -, hdone, hsetUp, -⟩ := s.journal.setUp_cases setup
      · simpa [setUpBy?, perform, hfailed, Except.mapError] using h
      · simpa [setUpBy?, perform, hdone, Except.mapError] using hsetUp
  | new id name level =>
      cases level with
      | none => exact h
      | some level =>
          refine h.setLevel ?_ level
          unfold Logger.named
          dsimp only
          split
          · decide
          · exact ho
  | get id part => exact h
  | setContext id fields => exact h
  | clearContext id => exact h
  | call id severity message fields => exact h
  | event id e => exact h

theorem setUpAs_performAll {s : State} {last : Setup} (h : s.journal.SetUpAs last)
    {os : List Operation} (hos : ∀ o ∈ os, ¬ o.SetsProgramLevel) :
    (s.performAll os).journal.SetUpAs ((s.setUps os).getLast?.getD last) := by
  induction os generalizing s last with
  | nil => exact h
  | cons o os ih =>
      rw [List.forall_mem_cons] at hos
      have hlast : (s.setUps (o :: os)).getLast?.getD last =
          ((s.perform o).1.setUps os).getLast?.getD ((s.setUpBy? o).getD last) := by
        rw [setUps, List.getLast?_append]
        cases ((s.perform o).1.setUps os).getLast? with
        | some setup => rfl
        | none => cases s.setUpBy? o <;> rfl
      rw [hlast]
      exact ih (setUpAs_perform h hos.1) hos.2

end State

/-- From the first set-up on, whatever a program does with its log but to give a level to the logger
of the program by making it: the journal has one handler, with the layout, the channel and the extra
fields of the last set-up that did not fail, and the program has the level of that set-up.  Another
set-up fails exactly if the name of its level cannot be used, and then leaves the journal as it is.
So a record of the program that passes the level test is printed as one line. -/
theorem journal_set_up (s : State) (first : Setup) (os : List Operation)
    (hfirst : (s.journal.setUp first).2 = .ok ()) (hos : ∀ o ∈ os, ¬ o.SetsProgramLevel) :
    let start := (s.perform (.configure first)).1
    let j := (start.performAll os).journal
    let last := (start.setUps os).getLast?.getD first
    j.handlers = [last.handler j.terminal] ∧
      Level.named last.level = .ok (j.ownLevel programName) ∧
      (∀ setup, (∃ fault, (j.setUp setup).2 = .error fault) ↔
        ∀ level, Level.named setup.level ≠ .ok level) ∧
      (∀ setup fault, (j.setUp setup).2 = .error fault → (j.setUp setup).1 = j) ∧
      ∀ level r line c, Journal.isOwn r.logger = true →
        (last.handler j.terminal).layout.format j.now r = .ok line →
        j.handle level r c = c.printLine (last.handler j.terminal).channel line := by
  intro start j last
  have hstart : start.journal.SetUpAs first := by
    obtain ⟨fault, -, hfailed⟩ | ⟨level, -, -, hsetUp, -⟩ := s.journal.setUp_cases first
    · rw [hfailed] at hfirst
      cases hfirst
    · exact hsetUp
  have hlast : j.SetUpAs last := State.setUpAs_performAll hstart hos
  exact ⟨hlast.handlers, hlast.level, fun setup => Journal.setUp_fails_iff,
    fun setup fault => Journal.setUp_of_error,
    fun level r line c hown hline => hlast.handle hown hline level c⟩

/-- A set-up in the structured layout, then one that fails and a call. -/
theorem journal_set_up_after_failure :
    let s : State := { journal := Journal.initial true ⟨⟨2026, 1, 1⟩, 0, 0, 0, 0, none⟩ }
    let structured : Setup := { level := "Debug", format := "json", extra := [("run", .int 7)] }
    let os : List Operation :=
      [.configure structured, .get "a" "docs", .new "b" "shocker.docs" (some Level.error),
        .configure { level := "loud", output := "stdout" }, .call "a" .error "lost" []]
    let start := (s.perform (.configure {})).1
    let j := (start.performAll os).journal
    j.handlers = [⟨.structured { extra := [("run", .int 7)] }, .error⟩] ∧
      j.ownLevel programName = Level.debug ∧ (j.setUp { level := "basic_format" }).1 = j := by
  intro s structured os start j
  have hos : ∀ o ∈ os, ¬ o.SetsProgramLevel := by
    simp only [os, List.forall_mem_cons]
    exact ⟨id, id, (by decide : "shocker.docs".toList ≠ programName), id, id, nofun⟩
  obtain ⟨hhandlers, hlevel, -, hkept, -⟩ := journal_set_up s {} os rfl hos
  have hlast : (start.setUps os).getLast?.getD {} = structured := rfl
  rw [hlast] at hhandlers hlevel
  refine ⟨hhandlers, (Except.ok.inj hlevel).symm, ?_⟩
  exact hkept _ (.notLevel "%(levelname)s:%(name)s:%(message)s") rfl

end ShellDoc.Log
