import ShellDoc.Proofs.RecognizerCalls

/-!
# Recognizers with loose fields

The type of a `Recognizer` says that a block is there exactly when the recognizer is not outside,
and that a parameter stands under its own type and name.  A `LooseRecognizer` has no such type: its
stage, its block and the entry that lines continue are three fields, set at different places, and
each parameter has a key written beside it.  A step of it that needs a block or an entry which is
not there fails.

Both do the same on every history (`loose_callAll`).  What carries this is `Draft.Sound`: no two
parameters of a block have the same key, the entry that lines continue is one of its entries, and a
description has a summary in front of it and no empty line.  A line preserves it, so each step of
the loose recognizer finds what it needs, and what the types say of one recognizer is an invariant
of the other (`LooseRecognizer.Coherent`).
-/

namespace ShellDoc

/-! ## What a draft keeps -/

namespace DocBlock

theorem hasEntry_parameter_iff (b : DocBlock) (type name : Text) :
    b.hasEntry (.parameter type name) = true ↔
      (type, name) ∈ b.parameters.map Parameter.key := by
  simp [hasEntry]

/-- Appending to a parameter leaves all keys as they are. -/
theorem map_key_extend (k : Text × Text) (s : Text) (ps : List Parameter) :
    (ps.map fun p => if p.key = k then { p with description := joined p.description s } else p).map
      Parameter.key = ps.map Parameter.key := by
  rw [List.map_map]
  refine List.map_congr_left fun p _ => ?_
  rw [Function.comp_apply]
  split <;> rfl

end DocBlock

/-- What holds of every block under construction. -/
structure Draft.Sound (d : Draft) : Prop where
  nodup : (d.block.parameters.map Parameter.key).Nodup
  active : ∀ e, d.active = some e → d.block.hasEntry e = true
  summary : d.block.description ≠ [] → d.block.summary ≠ []
  description : ∀ line ∈ d.block.description, line ≠ []

namespace Draft.Sound

theorem empty : ({} : Draft).Sound where
  nodup := List.nodup_nil
  active := nofun
  summary h := absurd rfl h
  description := nofun

theorem addLines {d : Draft} (h : d.Sound) (n : Nat) : (d.addLines n).Sound where
  nodup := h.nodup
  active e he := by
    have hentry : (d.addLines n).block.hasEntry e = d.block.hasEntry e := by
      cases e <;> rfl
    rw [hentry]
    exact h.active e he
  summary := h.summary
  description := h.description

theorem openEntry {d : Draft} (h : d.Sound) (s : Text) : (d.openEntry s).Sound := by
  unfold Draft.openEntry
  dsimp only
  split
  · refine ⟨?_, ?_, h.summary, h.description⟩
    · rw [DocBlock.addParameter, DocBlock.putParameter_eq_put]
      exact DocBlock.nodup_map_key_put _ h.nodup
    · rintro e ⟨rfl⟩
      rw [DocBlock.hasEntry_parameter_iff, DocBlock.addParameter, DocBlock.putParameter_eq_put]
      exact List.mem_map_of_mem (f := Parameter.key) (Keyed.mem_put_self _ _ _)
  · refine ⟨h.nodup, ?_, h.summary, h.description⟩
    rintro e ⟨rfl⟩
    simp [DocBlock.hasEntry, DocBlock.setProperty, Fields.get?_put_self]

theorem addText {d : Draft} (h : d.Sound) (hactive : d.active = none) {s : Text} (hs : s ≠ []) :
    ({ d with block := d.block.addText s } : Draft).Sound := by
  by_cases hfirst : d.block.summary = [] ∧ d.block.description = []
  · rw [DocBlock.addText_first hfirst]
    exact ⟨h.nodup, by simp [hactive], fun _ => hs, h.description⟩
  · rw [DocBlock.addText_next hfirst]
    refine ⟨h.nodup, by simp [hactive], fun _ hsummary => ?_, ?_⟩
    -- Without a summary there was no description either, and the text was the first one.
    · exact hfirst ⟨hsummary, not_not.mp fun hne => h.summary hne hsummary⟩
    · intro line hline
      rcases List.mem_append.mp hline with hold | hnew
      · exact h.description line hold
      · rw [List.mem_singleton.mp hnew]
        exact hs

theorem extend {d : Draft} (h : d.Sound) {e : Entry} (he : d.active = some e) (s : Text) :
    ({ d with block := (d.block.extend? e s).getD d.block } : Draft).Sound := by
  have hentry := h.active e he
  cases e with
  | parameter type name =>
      rw [DocBlock.extend?, if_pos hentry, Option.getD_some]
      refine ⟨?_, ?_, h.summary, h.description⟩
      · rw [DocBlock.map_key_extend]
        exact h.nodup
      · intro e' he'
        obtain rfl : Entry.parameter type name = e' := Option.some.inj (he.symm.trans he')
        rw [DocBlock.hasEntry_parameter_iff, DocBlock.map_key_extend]
        exact (DocBlock.hasEntry_parameter_iff _ _ _).mp hentry
  | property name =>
      obtain ⟨v, hv⟩ := Option.isSome_iff_exists.mp hentry
      rw [DocBlock.extend?, hv, Option.map_some, Option.getD_some]
      refine ⟨h.nodup, ?_, h.summary, h.description⟩
      intro e' he'
      obtain rfl : Entry.property name = e' := Option.some.inj (he.symm.trans he')
      simp [DocBlock.hasEntry, DocBlock.setProperty, Fields.get?_put_self]

/-- A content line preserves what holds of a draft. -/
theorem consume {d : Draft} (h : d.Sound) (content : Text) : (d.consume content).Sound := by
  rw [consume_eq_addLines]
  refine addLines ?_ 1
  unfold read
  split
  · exact h
  · exact h.openEntry _
  · rename_i hne _
    unfold continueWith
    split
    · rename_i hactive
      exact h.addText hactive hne
    · rename_i e hactive
      exact h.extend hactive _

end Draft.Sound

/-- What holds of every recognizer that a history reaches. -/
def Recognizer.Sound (r : Recognizer) : Prop := ∀ d, r.phase.draft? = some d → d.Sound

namespace Recognizer.Sound

theorem of_outside {r : Recognizer} (h : r.phase = .outside) : r.Sound := by
  intro d hd
  rw [h] at hd
  cases hd

theorem inside {r : Recognizer} {d : Draft} (h : r.Sound) (hd : r.phase = .inside d) : d.Sound :=
  h d (by rw [hd]; rfl)

theorem awaiting {r : Recognizer} {d : Draft} (h : r.Sound) (hd : r.phase = .awaiting d) :
    d.Sound :=
  h d (by rw [hd]; rfl)

theorem finish (r : Recognizer) : r.finish.Sound := of_outside (finish_phase r)

theorem feed {r : Recognizer} (h : r.Sound) (line : Text) : (r.feed line).next.Sound :=
  (draft_feed h .empty fun _ content _ hd => hd.consume content).1

theorem callAll {r : Recognizer} (h : r.Sound) (calls : List Call) : (r.callAll calls).2.Sound :=
  callAll_induction (fun _ line h => h.feed line) (fun r _ => finish r) h calls

theorem call {r : Recognizer} (h : r.Sound) (c : Call) : (r.call c).2.Sound := h.callAll [c]

end Recognizer.Sound

/-! ## Recognizers with loose fields -/

/-- Why a loose recognizer fails. -/
inductive Misuse where
  | noBlock
  | noEntry (e : Entry)
  deriving DecidableEq, Repr

/-- A block whose parameters have their keys written beside them. -/
structure LooseBlock where
  name : Text := []
  summary : Text := []
  description : List Text := []
  parameters : List ((Text × Text) × Parameter) := []
  properties : Fields Text := []
  lineCount : Nat := 0
  deriving DecidableEq, Repr

namespace LooseBlock

def addText (b : LooseBlock) (s : Text) : LooseBlock :=
  if b.summary = [] ∧ b.description = [] then { b with summary := s }
  else { b with description := b.description ++ [s] }

def addParameter (b : LooseBlock) (p : Parameter) : LooseBlock :=
  { b with parameters := Keyed.put Prod.fst (p.key, p) b.parameters }

def setProperty (b : LooseBlock) (name value : Text) : LooseBlock :=
  { b with properties := b.properties.put name value }

/-- Whether the key of an entry is there. -/
def HasEntry (b : LooseBlock) : Entry → Prop
  | .parameter type name => (type, name) ∈ b.parameters.map Prod.fst
  | .property name => name ∈ b.properties.names

/-- Appends text to what stands under the key of an entry. -/
def extend (b : LooseBlock) (e : Entry) (s : Text) : Except Misuse LooseBlock :=
  match e with
  | .parameter type name =>
      match b.parameters.lookup (type, name) with
      | none => .error (.noEntry e)
      | some p =>
          let p := { p with description := DocBlock.joined p.description s }
          .ok { b with parameters := Keyed.put Prod.fst ((type, name), p) b.parameters }
  | .property name =>
      match b.properties.get? name with
      | none => .error (.noEntry e)
      | some v => .ok (b.setProperty name (DocBlock.joined v s))

end LooseBlock

/-- The stage of a recognizer without the block that belongs to it. -/
inductive Stage where
  | outside
  | inside
  | awaiting
  deriving DecidableEq, Repr

structure LooseRecognizer where
  keyword : Text := "function"
  stage : Stage := .outside
  block : Option LooseBlock := none
  active : Option Entry := none
  discarded : Nat := 0
  deriving DecidableEq, Repr

namespace LooseRecognizer

def currentBlock (g : LooseRecognizer) : Except Misuse LooseBlock :=
  match g.block with
  | none => .error .noBlock
  | some b => .ok b

/-- Starts a new block; the stage is set by the caller. -/
def opened (g : LooseRecognizer) : LooseRecognizer := { g with block := some {}, active := none }

def reset (g : LooseRecognizer) : LooseRecognizer :=
  { g with stage := .outside, block := none, active := none }

/-- Opens the entry that the text behind an `@` describes. -/
def openEntry (g : LooseRecognizer) (b : LooseBlock) (s : Text) : LooseRecognizer :=
  let (name, value) := Text.cut ' ' s
  if name = Draft.parameterProperty then
    let p := Parameter.ofText value
    { g with block := some (b.addParameter p), active := some (.parameter p.type p.name) }
  else { g with block := some (b.setProperty name value), active := some (.property name) }

/-- A line without an `@`. -/
def continueWith (g : LooseRecognizer) (b : LooseBlock) (s : Text) :
    Except Misuse LooseRecognizer :=
  match g.active with
  | none => .ok { g with block := some (b.addText s) }
  | some e => do
      let b ← b.extend e s
      return { g with block := some b }

/-- Counts a content line of the current block, and reads it unless it is empty. -/
def consume (g : LooseRecognizer) (content : Text) : Except Misuse LooseRecognizer := do
  let b ← g.currentBlock
  let b := { b with lineCount := b.lineCount + 1 }
  match content with
  | [] => return { g with block := some b }
  | '@' :: s => return g.openEntry b s
  | s => g.continueWith b s

/-- Gives the current block at its declaration line. -/
def declare (g : LooseRecognizer) (line : Text) :
    Except Misuse (Option LooseBlock × LooseRecognizer) := do
  let b ← g.currentBlock
  return (some { b with name := declaredName g.keyword line }, g.reset)

def feed (g : LooseRecognizer) (line : Text) :
    Except Misuse (Option LooseBlock × LooseRecognizer) :=
  match g.stage with
  | .awaiting => if line = [] then .ok (none, g) else g.declare line
  | .inside =>
      if line = blockMark then .ok (none, { g with stage := .awaiting })
      else do
        let g ← g.consume (commentContent line)
        return (none, g)
  | .outside =>
      if blockMark.isPrefixOf line then
        if isWholeBlock line then do
          let g ← g.opened.consume (wholeBlockContent line)
          return (none, { g with stage := .awaiting })
        else .ok (none, { g.opened with stage := .inside })
      else .ok (none, g)

/-- The end of the input: a block that is there is dropped and counted, and all is reset. -/
def finish (g : LooseRecognizer) : LooseRecognizer :=
  match g.block with
  | none => g.reset
  | some _ => { g.reset with discarded := g.discarded + 1 }

def feedAll (g : LooseRecognizer) :
    List Text → Except Misuse (List LooseBlock × LooseRecognizer)
  | [] => .ok ([], g)
  | line :: lines => do
      let (emitted, g) ← g.feed line
      let (blocks, g) ← feedAll g lines
      return (emitted.toList ++ blocks, g)

def parse (g : LooseRecognizer) (lines : List Text) :
    Except Misuse (List LooseBlock × LooseRecognizer) := do
  let (blocks, g) ← g.feedAll lines
  return (blocks, g.finish)

def parseFirst (g : LooseRecognizer) (n : Nat) (lines : List Text) :
    Except Misuse (List LooseBlock × List Text × LooseRecognizer) :=
  match n, lines with
  | 0, lines => .ok ([], lines, g)
  | _ + 1, [] => .ok ([], [], g.finish)
  | n + 1, line :: lines => do
      let (emitted, g) ← g.feed line
      match emitted with
      | some b =>
          let (blocks, unread, g) ← parseFirst g n lines
          return (b :: blocks, unread, g)
      | none => parseFirst g (n + 1) lines

def call (g : LooseRecognizer) : Call → Except Misuse (List LooseBlock × LooseRecognizer)
  | .feed line => do
      let (emitted, g) ← g.feed line
      return (emitted.toList, g)
  | .finish => .ok ([], g.finish)
  | .parse lines => g.parse lines
  | .parseFirst n lines => do
      let (blocks, _, g) ← g.parseFirst n lines
      return (blocks, g)

def callAll (g : LooseRecognizer) :
    List Call → Except Misuse (List (List LooseBlock) × LooseRecognizer)
  | [] => .ok ([], g)
  | c :: calls => do
      let (blocks, g) ← g.call c
      let (rest, g) ← callAll g calls
      return (blocks :: rest, g)

/-- How the fields of a loose recognizer belong together. -/
structure Coherent (g : LooseRecognizer) : Prop where
  outside_iff : g.stage = .outside ↔ g.block = none
  active_eq_none : g.block = none → g.active = none
  hasEntry : ∀ b e, g.block = some b → g.active = some e → b.HasEntry e
  key_eq : ∀ b, g.block = some b → ∀ p ∈ b.parameters, p.2.key = p.1
  summary_ne : ∀ b, g.block = some b → b.description ≠ [] → b.summary ≠ []
  description_ne : ∀ b, g.block = some b → ∀ line ∈ b.description, line ≠ []

end LooseRecognizer

/-! ## The two do the same -/

/-- The block with the key of each parameter written beside it. -/
def DocBlock.loose (b : DocBlock) : LooseBlock :=
  { b with parameters := b.parameters.map fun p => (p.key, p) }

/-- A loose recognizer that is busy with a draft. -/
def Draft.loose (d : Draft) (keyword : Text) (stage : Stage) (discarded : Nat) :
    LooseRecognizer :=
  ⟨keyword, stage, some d.block.loose, d.active, discarded⟩

/-- The fields of a recognizer. -/
def Recognizer.loose (r : Recognizer) : LooseRecognizer :=
  match r.phase with
  | .outside => { keyword := r.keyword, discarded := r.discarded }
  | .inside d => d.loose r.keyword .inside r.discarded
  | .awaiting d => d.loose r.keyword .awaiting r.discarded

namespace DocBlock

theorem loose_addText (b : DocBlock) (s : Text) : b.loose.addText s = (b.addText s).loose := by
  by_cases h : b.summary = [] ∧ b.description = []
  · rw [addText_first h]
    exact if_pos h
  · rw [addText_next h]
    exact if_neg h

theorem loose_addParameter (b : DocBlock) (p : Parameter) :
    b.loose.addParameter p = (b.addParameter p).loose := by
  simp only [LooseBlock.addParameter, loose, addParameter, putParameter_eq_put,
    Keyed.put_map_pair]

/-- An entry that the block has is found and extended in its place. -/
theorem loose_extend {b : DocBlock} {e : Entry} (hentry : b.hasEntry e = true)
    (hnodup : (b.parameters.map Parameter.key).Nodup) (s : Text) :
    b.loose.extend e s = .ok ((b.extend? e s).getD b).loose := by
  cases e with
  | parameter type name =>
      obtain ⟨p, hp⟩ := Option.isSome_iff_exists.mp
        (List.find?_isSome.mpr (List.any_eq_true.mp hentry))
      have hkey : p.key = (type, name) := by simpa using List.find?_some hp
      have hlookup : b.loose.parameters.lookup (type, name) = some p :=
        (Keyed.lookup_map_pair _ _ _).trans hp
      let change : Parameter → Parameter :=
        fun q => { q with description := joined q.description s }
      -- One side changes the first parameter under the key, the other side every one: there is
      -- only one.
      have hput : Keyed.put Prod.fst ((type, name), change p) b.loose.parameters =
          (b.parameters.map fun q => if q.key = (type, name) then change q else q).map
            fun q => (q.key, q) := by
        have hmap := Keyed.map_put Parameter.key (a := p) change rfl b.parameters hnodup
        rw [Keyed.put_of_find? _ hp, hkey] at hmap
        rw [hmap, ← Keyed.put_map_pair, ← hkey]
        rfl
      rw [extend?, if_pos hentry, Option.getD_some, LooseBlock.extend, hlookup]
      exact congrArg (fun ps => Except.ok { b.loose with parameters := ps }) hput
  | property name =>
      obtain ⟨v, hv⟩ := Option.isSome_iff_exists.mp hentry
      have hlookup : b.loose.properties.get? name = some v := hv
      rw [extend?, hv, Option.map_some, Option.getD_some, LooseBlock.extend, hlookup]
      rfl

end DocBlock

namespace Draft

variable (keyword : Text) (stage : Stage) (discarded : Nat)

theorem loose_openEntry (d : Draft) (s : Text) :
    (d.loose keyword stage discarded).openEntry d.block.loose s =
      (d.openEntry s).loose keyword stage discarded := by
  unfold openEntry LooseRecognizer.openEntry
  dsimp only
  split
  · rw [DocBlock.loose_addParameter]
    rfl
  · rfl

theorem loose_continueWith {d : Draft} (h : d.Sound) (s : Text) :
    (d.loose keyword stage discarded).continueWith d.block.loose s =
      .ok ((d.continueWith s).loose keyword stage discarded) := by
  unfold continueWith LooseRecognizer.continueWith
  cases hactive : d.active with
  | none =>
      simp only [loose, hactive, DocBlock.loose_addText]
  | some e =>
      simp only [loose, hactive, DocBlock.loose_extend (h.active e hactive) h.nodup]
      rfl

/-- A content line does the same to the fields and to the draft. -/
theorem loose_consume {d : Draft} (h : d.Sound) (content : Text) :
    (d.loose keyword stage discarded).consume content =
      .ok ((d.consume content).loose keyword stage discarded) := by
  have hblock : (d.loose keyword stage discarded).currentBlock = .ok d.block.loose := rfl
  have hcounted : ({ d.block.loose with lineCount := d.block.loose.lineCount + 1 } : LooseBlock) =
      (d.addLines 1).block.loose := rfl
  have hconsume : d.consume content = (d.addLines 1).read content := rfl
  unfold LooseRecognizer.consume
  rw [hblock, hconsume]
  dsimp only [Bind.bind, Except.bind]
  rw [hcounted]
  split
  · rfl
  · exact congrArg Except.ok (loose_openEntry keyword stage discarded (d.addLines 1) _)
  · rename_i hnil hat
    rw [read]
    · exact loose_continueWith keyword stage discarded (h.addLines 1) content
    · exact hnil
    · exact hat

end Draft

namespace Recognizer

/-- A line does the same to the fields and to the recognizer. -/
theorem loose_feed {r : Recognizer} (h : r.Sound) (line : Text) :
    r.loose.feed line =
      .ok ((r.feed line).emitted.map DocBlock.loose, (r.feed line).next.loose) := by
  obtain ⟨keyword, phase, discarded⟩ := r
  cases phase with
  | outside =>
      cases hmark : blockMark.isPrefixOf line with
      | true =>
          rw [feed_opening rfl hmark, opened]
          refine (if_pos hmark).trans ?_
          split
          · have hopened : (loose ⟨keyword, .outside, discarded⟩).opened =
                ({} : Draft).loose keyword .outside discarded := rfl
            rw [hopened, Draft.loose_consume _ _ _ Draft.Sound.empty]
            rfl
          · rfl
      | false =>
          rw [feed_of_outside rfl hmark]
          exact if_neg (by simp [hmark])
  | inside d =>
      by_cases hmark : line = blockMark
      · rw [hmark, feed_blockMark_of_inside rfl]
        rfl
      · rw [feed_of_inside rfl hmark]
        refine (if_neg hmark).trans ?_
        exact congrArg (Except.map (none, ·)) (Draft.loose_consume _ _ _ (h.inside rfl) _)
  | awaiting d =>
      by_cases hnil : line = []
      · rw [hnil, feed_nil_of_awaiting rfl]
        rfl
      · rw [feed_of_awaiting rfl hnil]
        exact if_neg hnil

theorem loose_finish (r : Recognizer) : r.loose.finish = r.finish.loose := by
  obtain ⟨keyword, phase, discarded⟩ := r
  cases phase <;> rfl

theorem loose_feedAll {r : Recognizer} (h : r.Sound) (lines : List Text) :
    r.loose.feedAll lines =
      .ok ((r.feedAll lines).1.map DocBlock.loose, (r.feedAll lines).2.loose) := by
  induction lines generalizing r with
  | nil => rfl
  | cons line lines ih =>
      rw [LooseRecognizer.feedAll, loose_feed h, feedAll_cons, List.map_append,
        ← Option.toList_map]
      dsimp only [Bind.bind, Except.bind]
      rw [ih (h.feed line)]
      rfl

theorem loose_parse {r : Recognizer} (h : r.Sound) (lines : List Text) :
    r.loose.parse lines =
      .ok ((r.parse lines).1.map DocBlock.loose, (r.parse lines).2.loose) := by
  rw [LooseRecognizer.parse, loose_feedAll h, parse, ← loose_finish]
  rfl

theorem loose_parseFirst {r : Recognizer} (h : r.Sound) (n : Nat) (lines : List Text) :
    r.loose.parseFirst n lines =
      .ok ((r.parseFirst n lines).1.map DocBlock.loose, (r.parseFirst n lines).2.1,
        (r.parseFirst n lines).2.2.loose) := by
  induction lines generalizing r n with
  | nil =>
      cases n with
      | zero => rfl
      | succ n =>
          rw [LooseRecognizer.parseFirst, parseFirst, loose_finish]
          rfl
  | cons line lines ih =>
      cases n with
      | zero => rfl
      | succ n =>
          rw [LooseRecognizer.parseFirst, loose_feed h]
          dsimp only [Bind.bind, Except.bind]
          cases hemitted : (r.feed line).emitted with
          | none =>
              rw [parseFirst_cons_of_none hemitted]
              exact ih (h.feed line) (n + 1)
          | some b =>
              rw [parseFirst_cons_of_some hemitted]
              dsimp only [Option.map_some]
              rw [ih (h.feed line) n]
              rfl

theorem loose_call {r : Recognizer} (h : r.Sound) (c : Call) :
    r.loose.call c = .ok ((r.call c).1.map DocBlock.loose, (r.call c).2.loose) := by
  cases c with
  | feed line =>
      rw [LooseRecognizer.call, loose_feed h, call, ← Option.toList_map]
      rfl
  | finish => exact congrArg (fun g => Except.ok ([], g)) (loose_finish r)
  | parse lines => exact loose_parse h lines
  | parseFirst n lines =>
      rw [LooseRecognizer.call, loose_parseFirst h]
      rfl

/-- The two do the same on every history. -/
theorem loose_callAll {r : Recognizer} (h : r.Sound) (calls : List Call) :
    r.loose.callAll calls =
      .ok ((r.callAll calls).1.map (·.map DocBlock.loose), (r.callAll calls).2.loose) := by
  induction calls generalizing r with
  | nil => rfl
  | cons c calls ih =>
      rw [LooseRecognizer.callAll, loose_call h, callAll_cons]
      dsimp only [Bind.bind, Except.bind]
      rw [ih (h.call c)]
      rfl

end Recognizer

/-! ## How the fields belong together -/

theorem DocBlock.loose_hasEntry {b : DocBlock} {e : Entry} (h : b.hasEntry e = true) :
    b.loose.HasEntry e := by
  cases e with
  | parameter type name =>
      have hkeys : b.loose.parameters.map Prod.fst = b.parameters.map Parameter.key := by
        rw [loose, List.map_map]
        rfl
      rw [LooseBlock.HasEntry, hkeys]
      exact (hasEntry_parameter_iff b type name).mp h
  | property name => exact (Fields.isSome_get?_iff _ _).mp h

theorem Draft.Sound.coherent {d : Draft} (h : d.Sound) (keyword : Text) {stage : Stage}
    (hstage : stage ≠ .outside) (discarded : Nat) :
    (d.loose keyword stage discarded).Coherent where
  outside_iff := ⟨fun e => absurd e hstage, nofun⟩
  active_eq_none := nofun
  hasEntry := by
    rintro _ e ⟨rfl⟩ he
    exact DocBlock.loose_hasEntry (h.active e he)
  key_eq := by
    rintro _ ⟨rfl⟩ p hp
    obtain ⟨q, -, rfl⟩ := List.mem_map.mp hp
    rfl
  summary_ne := by
    rintro _ ⟨rfl⟩
    exact h.summary
  description_ne := by
    rintro _ ⟨rfl⟩
    exact h.description

theorem Recognizer.Sound.coherent {r : Recognizer} (h : r.Sound) : r.loose.Coherent := by
  obtain ⟨keyword, phase, discarded⟩ := r
  cases phase with
  | outside => exact ⟨⟨fun _ => rfl, fun _ => rfl⟩, fun _ => rfl, nofun, nofun, nofun, nofun⟩
  | inside d => exact (h.inside rfl).coherent keyword (by decide) discarded
  | awaiting d => exact (h.awaiting rfl).coherent keyword (by decide) discarded

theorem Recognizer.discarded_loose (r : Recognizer) : r.loose.discarded = r.discarded := by
  obtain ⟨keyword, phase, discarded⟩ := r
  cases phase <;> rfl

/-- No history of a fresh recognizer ever misses a block or an entry, whatever it is made of: with
its fields apart it gives the same blocks, its fields belong together behind every call, and it has
discarded a block for each end of input that came while one was pending. -/
theorem reachable_recognizer (keyword : Text) (calls : List Call) :
    let reached := ({ keyword } : Recognizer).callAll calls
    ({ keyword } : LooseRecognizer).callAll calls =
        .ok (reached.1.map (·.map DocBlock.loose), reached.2.loose) ∧
      reached.2.loose.Coherent ∧
      reached.2.loose.discarded = ({ keyword } : Recognizer).discardedByAll calls := by
  intro reached
  have hfresh : ({ keyword } : Recognizer).Sound := .of_outside rfl
  refine ⟨Recognizer.loose_callAll hfresh calls, (hfresh.callAll calls).coherent, ?_⟩
  rw [Recognizer.discarded_loose, Recognizer.discarded_callAll]
  exact Nat.zero_add _

-- Fields that do not belong together do fail.
example : LooseRecognizer.feed { stage := .inside } ['x'] = .error .noBlock := rfl

end ShellDoc
