import ShellDoc.DocBlock.Recognizer
import ShellDoc.Proofs.BodyReading

/-!
# The segments of a script

`openings` cuts a list of lines into documentation comments without a state: look
for the next line that opens a comment, take its body, pass over empty lines, take
the declaration, and go on behind it.  Each opening comes with its segment, or with
none when the lines end first.

The recognizer finds the same segments.  Its run is followed with the lines behind
each declaration (`Recognizer.run`), so that a segment also says where in the script
it was finished.  One lemma for each phase says how far the run goes from there:
outside to the next opening, inside to the next mark, and from there to the
declaration.

What holds of an empty block and is kept by each line of its body holds of the block
that is emitted (`Recognizer.draft_feed`).

The blocks are counted apart from this: a line that opens a block makes it pending,
its declaration emits it, and no line does anything else to the balance
(`Recognizer.openingCount_add_pending`).
-/

namespace ShellDoc

/-- A documentation comment in a script: the contents of its body, the line that it
documents, and the lines behind that. -/
structure Segment where
  body : List Text
  declaration : Text
  behind : List Text
  deriving DecidableEq, Repr

/-- The block that a segment describes. -/
def Segment.block (keyword : Text) (g : Segment) : DocBlock :=
  { DocBlock.ofBody g.body with name := declaredName keyword g.declaration }

/-- The body of a comment behind its opening line, together with the lines behind the
comment; `none` when no line closes it. -/
def bodyBehind? (opening : Text) (lines : List Text) : Option (List Text × List Text) :=
  if isWholeBlock opening then some ([wholeBlockContent opening], lines)
  else
    match lines.dropWhile (· ≠ blockMark) with
    | [] => none
    | _ :: behind => some ((lines.takeWhile (· ≠ blockMark)).map commentContent, behind)

/-- The segment behind an opening line; `none` when the lines end before the comment is
closed or before its declaration. -/
def segmentBehind? (opening : Text) (lines : List Text) : Option Segment :=
  match bodyBehind? opening lines with
  | none => none
  | some (body, lines) =>
      match lines.dropWhile (· = []) with
      | [] => none
      | declaration :: behind => some ⟨body, declaration, behind⟩

theorem length_behind_bodyBehind? {opening : Text} {lines body behind : List Text}
    (h : bodyBehind? opening lines = some (body, behind)) : behind.length ≤ lines.length := by
  unfold bodyBehind? at h
  split at h
  · cases h
    exact Nat.le_refl _
  · have hle := (List.dropWhile_suffix (l := lines) (· ≠ blockMark)).length_le
    split at h
    · cases h
    · rename_i hdrop
      cases h
      rw [hdrop, List.length_cons] at hle
      omega

theorem length_behind_segmentBehind? {opening : Text} {lines : List Text} {g : Segment}
    (h : segmentBehind? opening lines = some g) : g.behind.length < lines.length := by
  unfold segmentBehind? at h
  split at h
  · cases h
  · rename_i body rest hbody
    have hrest := length_behind_bodyBehind? hbody
    have hle := (List.dropWhile_suffix (l := rest) (· = [])).length_le
    split at h
    · cases h
    · rename_i hdrop
      cases h
      rw [hdrop, List.length_cons] at hle
      exact Nat.lt_of_lt_of_le hle hrest

/-- The openings in a list of lines, each with its segment if it has one. -/
def openings (lines : List Text) : List (Option Segment) :=
  match _hlines : lines.dropWhile fun l => !blockMark.isPrefixOf l with
  | [] => []
  | opening :: rest =>
      match _hrest : segmentBehind? opening rest with
      | none => [none]
      | some g => some g :: openings g.behind
termination_by lines.length
decreasing_by
  have hlt := length_behind_segmentBehind? _hrest
  have hle := (List.dropWhile_suffix (l := lines) fun l => !blockMark.isPrefixOf l).length_le
  rw [_hlines, List.length_cons] at hle
  omega

/-- The segments of a list of lines, in order. -/
def segments (lines : List Text) : List Segment := (openings lines).filterMap id

namespace Recognizer

/-! ## Runs with the lines behind each declaration -/

/-- The blocks in a list of lines, each with the lines behind its declaration, and the
recognizer behind the last line. -/
def run (r : Recognizer) : List Text → List (DocBlock × List Text) × Recognizer
  | [] => ([], r)
  | line :: lines =>
      let step := r.feed line
      let rest := run step.next lines
      (step.emitted.toList.map (·, lines) ++ rest.1, rest.2)

@[simp] theorem run_nil (r : Recognizer) : r.run [] = ([], r) := rfl

theorem run_cons (r : Recognizer) (line : Text) (lines : List Text) :
    r.run (line :: lines) =
      ((r.feed line).emitted.toList.map (·, lines) ++ ((r.feed line).next.run lines).1,
        ((r.feed line).next.run lines).2) := rfl

theorem feedAll_eq_run (r : Recognizer) (lines : List Text) :
    r.feedAll lines = ((r.run lines).1.map Prod.fst, (r.run lines).2) := by
  induction lines generalizing r with
  | nil => rfl
  | cons line lines ih =>
      rw [feedAll_cons, ih, run_cons]
      simp [Function.comp_def]

theorem length_lt_of_mem_run {r : Recognizer} {lines : List Text} {e : DocBlock × List Text}
    (h : e ∈ (r.run lines).1) : e.2.length < lines.length := by
  induction lines generalizing r with
  | nil => cases h
  | cons line lines ih =>
      rw [run_cons] at h
      rcases List.mem_append.mp h with hline | hrest
      · obtain ⟨b, _, rfl⟩ := List.mem_map.mp hline
        exact Nat.lt_succ_self _
      · exact Nat.lt_succ_of_lt (ih hrest)

/-- The blocks with at least all of `ys` behind their declaration are those of `xs`. -/
theorem run_append_filter (r : Recognizer) (xs ys : List Text) :
    ((r.run (xs ++ ys)).1.filter fun e => ys.length ≤ e.2.length).map Prod.fst =
      (r.feedAll xs).1 := by
  induction xs generalizing r with
  | nil =>
      have hnone : ((r.run ys).1.filter fun e => ys.length ≤ e.2.length) = [] := by
        rw [List.filter_eq_nil_iff]
        intro e he
        have hlt := length_lt_of_mem_run he
        simpa using hlt
      rw [List.nil_append, hnone]
      rfl
  | cons x xs ih =>
      have hline : ((r.feed x).emitted.toList.map (·, xs ++ ys)).filter
          (fun e => ys.length ≤ e.2.length) = (r.feed x).emitted.toList.map (·, xs ++ ys) := by
        rw [List.filter_eq_self]
        intro e he
        obtain ⟨b, _, rfl⟩ := List.mem_map.mp he
        simp
      rw [List.cons_append, run_cons, List.filter_append, List.map_append, hline, ih,
        feedAll_cons, List.map_map]
      simp [Function.comp_def]

/-- A line that finishes no block only moves the recognizer. -/
theorem run_cons_of_step {r r' : Recognizer} {line : Text} (h : r.feed line = ⟨r', none, none⟩)
    (lines : List Text) : r.run (line :: lines) = r'.run lines := by
  rw [run_cons, h]
  rfl

section Phases

variable (keyword : Text) (discarded : Nat)

/-- Outside, everything up to the next opening is passed over. -/
theorem run_outside (lines : List Text) :
    run ⟨keyword, .outside, discarded⟩ lines =
      run ⟨keyword, .outside, discarded⟩
        (lines.dropWhile fun l => !blockMark.isPrefixOf l) := by
  induction lines with
  | nil => rfl
  | cons line lines ih =>
      by_cases h : blockMark.isPrefixOf line = true
      · rw [List.dropWhile_cons_of_neg (by simp [h])]
      · rw [Bool.not_eq_true] at h
        rw [List.dropWhile_cons_of_pos (by simp [h]), run_cons_of_step (feed_of_outside rfl h), ih]

/-- Inside, the lines are contents of the body as long as none of them is the mark. -/
theorem run_inside_of_nil (d : Draft) {lines : List Text}
    (h : lines.dropWhile (· ≠ blockMark) = []) :
    run ⟨keyword, .inside d, discarded⟩ lines =
      ([], ⟨keyword, .inside (d.consumeAll (lines.map commentContent)), discarded⟩) := by
  induction lines generalizing d with
  | nil => rfl
  | cons line lines ih =>
      have hline : line ≠ blockMark := by
        intro e
        rw [List.dropWhile_cons_of_neg (by simp [e])] at h
        cases h
      rw [List.dropWhile_cons_of_pos (by simpa using hline)] at h
      rw [run_cons_of_step (feed_of_inside rfl hline), ih _ h]
      rfl

/-- The mark closes the body, and the recognizer waits for the declaration. -/
theorem run_inside_of_cons (d : Draft) {lines behind : List Text} {mark : Text}
    (h : lines.dropWhile (· ≠ blockMark) = mark :: behind) :
    run ⟨keyword, .inside d, discarded⟩ lines =
      run ⟨keyword,
        .awaiting (d.consumeAll ((lines.takeWhile (· ≠ blockMark)).map commentContent)),
        discarded⟩ behind := by
  induction lines generalizing d with
  | nil => cases h
  | cons line lines ih =>
      by_cases hline : line = blockMark
      · subst hline
        rw [List.dropWhile_cons_of_neg (by simp)] at h
        rw [List.takeWhile_cons_of_neg (by simp), run_cons_of_step (feed_blockMark_of_inside rfl),
          (List.cons.inj h).2]
        rfl
      · rw [List.dropWhile_cons_of_pos (by simpa using hline)] at h
        rw [List.takeWhile_cons_of_pos (by simpa using hline),
          run_cons_of_step (feed_of_inside rfl hline), ih _ h]
        rfl

theorem run_awaiting (d : Draft) (lines : List Text) :
    run ⟨keyword, .awaiting d, discarded⟩ lines =
      run ⟨keyword, .awaiting d, discarded⟩ (lines.dropWhile (· = [])) := by
  induction lines with
  | nil => rfl
  | cons line lines ih =>
      by_cases h : line = []
      · subst h
        rw [List.dropWhile_cons_of_pos (by simp), run_cons_of_step (feed_nil_of_awaiting rfl), ih]
      · rw [List.dropWhile_cons_of_neg (by simpa using h)]

theorem run_awaiting_of_cons (d : Draft) {lines behind : List Text} {declaration : Text}
    (h : lines.dropWhile (· = []) = declaration :: behind) :
    run ⟨keyword, .awaiting d, discarded⟩ lines =
      (({ d.block with name := declaredName keyword declaration }, behind) ::
        (run ⟨keyword, .outside, discarded⟩ behind).1,
        (run ⟨keyword, .outside, discarded⟩ behind).2) := by
  have hne : declaration ≠ [] := by
    simpa using not_of_head?_dropWhile (congrArg List.head? h)
  rw [run_awaiting, h, run_cons, feed_of_awaiting rfl hne]
  rfl

/-- A comment that is not closed keeps the recognizer from going outside. -/
theorem run_opened_of_none {opening : Text} {lines : List Text}
    (h : bodyBehind? opening lines = none) :
    ∃ phase, phase ≠ .outside ∧
      run ⟨keyword, opened opening, discarded⟩ lines = ([], ⟨keyword, phase, discarded⟩) := by
  unfold bodyBehind? at h
  split at h
  · cases h
  · rename_i hwhole
    have hopened : opened opening = .inside {} := if_neg hwhole
    split at h
    · rename_i hdrop
      rw [hopened, run_inside_of_nil _ _ _ hdrop]
      exact ⟨_, Phase.noConfusion, rfl⟩
    · cases h

/-- A comment that is closed leaves its body in the draft. -/
theorem run_opened_of_some {opening : Text} {lines body behind : List Text}
    (h : bodyBehind? opening lines = some (body, behind)) :
    run ⟨keyword, opened opening, discarded⟩ lines =
      run ⟨keyword, .awaiting (({} : Draft).consumeAll body), discarded⟩ behind := by
  unfold bodyBehind? at h
  split at h
  · rename_i hwhole
    have hopened : opened opening =
        .awaiting (({} : Draft).consume (wholeBlockContent opening)) := if_pos hwhole
    cases h
    rw [hopened, Draft.consumeAll_cons, Draft.consumeAll_nil]
  · rename_i hwhole
    have hopened : opened opening = .inside {} := if_neg hwhole
    split at h
    · cases h
    · rename_i hdrop
      cases h
      rw [hopened, run_inside_of_cons _ _ _ hdrop]

theorem run_opening {opening : Text} (h : blockMark.isPrefixOf opening = true)
    (lines : List Text) :
    run ⟨keyword, .outside, discarded⟩ (opening :: lines) =
      run ⟨keyword, opened opening, discarded⟩ lines :=
  run_cons_of_step (feed_opening rfl h) lines

/-- An opening without a segment emits nothing and leaves the recognizer with a pending
block. -/
theorem run_opening_of_none {opening : Text} {lines : List Text}
    (hopening : blockMark.isPrefixOf opening = true)
    (h : segmentBehind? opening lines = none) :
    ∃ phase, phase ≠ .outside ∧
      run ⟨keyword, .outside, discarded⟩ (opening :: lines) =
        ([], ⟨keyword, phase, discarded⟩) := by
  rw [run_opening keyword discarded hopening]
  unfold segmentBehind? at h
  split at h
  · rename_i hbody
    exact run_opened_of_none keyword discarded hbody
  · rename_i body rest hbody
    rw [run_opened_of_some keyword discarded hbody]
    split at h
    · rename_i hdrop
      rw [run_awaiting, hdrop, run_nil]
      exact ⟨_, Phase.noConfusion, rfl⟩
    · cases h

/-- An opening with a segment emits its block, and the recognizer goes on outside behind
the declaration. -/
theorem run_opening_of_some {opening : Text} {lines : List Text} {g : Segment}
    (hopening : blockMark.isPrefixOf opening = true)
    (h : segmentBehind? opening lines = some g) :
    run ⟨keyword, .outside, discarded⟩ (opening :: lines) =
      ((g.block keyword, g.behind) :: (run ⟨keyword, .outside, discarded⟩ g.behind).1,
        (run ⟨keyword, .outside, discarded⟩ g.behind).2) := by
  rw [run_opening keyword discarded hopening]
  unfold segmentBehind? at h
  split at h
  · cases h
  · rename_i body rest hbody
    rw [run_opened_of_some keyword discarded hbody]
    split at h
    · cases h
    · rename_i hdrop
      cases h
      rw [run_awaiting_of_cons _ _ _ hdrop]
      rfl

end Phases

/-! ## The block under construction -/

/-- What the block under construction keeps: a line opens an empty one, adds a content to it, or
declares it. -/
theorem draft_feed {P : Draft → Prop} {r : Recognizer} {line : Text}
    (h : ∀ d, r.phase.draft? = some d → P d) (hempty : P {})
    (hconsume : ∀ d content, content = commentContent line ∨ content = wholeBlockContent line →
      P d → P (d.consume content)) :
    (∀ d, (r.feed line).next.phase.draft? = some d → P d) ∧
      ∀ b ∈ (r.feed line).emitted,
        ∃ d, P d ∧ b = { d.block with name := declaredName r.keyword line } := by
  cases hphase : r.phase with
  | outside =>
      cases hmark : blockMark.isPrefixOf line with
      | true =>
          rw [feed_opening hphase hmark, opened]
          refine ⟨?_, nofun⟩
          split
          · rintro _ ⟨rfl⟩
            exact hconsume _ _ (.inr rfl) hempty
          · rintro _ ⟨rfl⟩
            exact hempty
      | false =>
          rw [feed_of_outside hphase hmark]
          exact ⟨h, nofun⟩
  | inside d =>
      have hd : P d := h d (by rw [hphase]; rfl)
      by_cases hmark : line = blockMark
      · rw [hmark, feed_blockMark_of_inside hphase]
        refine ⟨?_, nofun⟩
        rintro _ ⟨rfl⟩
        exact hd
      · rw [feed_of_inside hphase hmark]
        refine ⟨?_, nofun⟩
        rintro _ ⟨rfl⟩
        exact hconsume d _ (.inl rfl) hd
  | awaiting d =>
      have hd : P d := h d (by rw [hphase]; rfl)
      by_cases hnil : line = []
      · rw [hnil, feed_nil_of_awaiting hphase]
        exact ⟨h, nofun⟩
      · rw [feed_of_awaiting hphase hnil]
        refine ⟨nofun, ?_⟩
        rintro _ ⟨rfl⟩
        exact ⟨d, hd, rfl⟩

/-! ## The balance of openings and blocks -/

/-- The number of blocks that are opened and not yet finished. -/
def pending (r : Recognizer) : Nat := if r.phase = .outside then 0 else 1

def opensAt (r : Recognizer) (line : Text) : Bool :=
  decide (r.phase = .outside) && blockMark.isPrefixOf line

/-- How many of the lines open a block. -/
def openingCount (r : Recognizer) : List Text → Nat
  | [] => 0
  | line :: lines => (r.opensAt line).toNat + openingCount (r.feed line).next lines

theorem pending_le_one (r : Recognizer) : r.pending ≤ 1 := by
  unfold pending
  split <;> omega

theorem opened_ne_outside (line : Text) : opened line ≠ .outside := by
  unfold opened
  split <;> exact Phase.noConfusion

/-- One line keeps the balance. -/
theorem opensAt_add_pending (r : Recognizer) (line : Text) :
    (r.opensAt line).toNat + r.pending =
      (r.feed line).emitted.toList.length + (r.feed line).next.pending := by
  cases hphase : r.phase with
  | outside =>
      cases hmark : blockMark.isPrefixOf line with
      | true => simp [opensAt, pending, hphase, hmark, feed_opening, opened_ne_outside]
      | false => simp [opensAt, pending, hphase, hmark, feed_of_outside]
  | inside d =>
      by_cases hmark : line = blockMark
      · simp [opensAt, pending, hphase, hmark, feed_blockMark_of_inside hphase]
      · simp [opensAt, pending, hphase, feed_of_inside hphase hmark]
  | awaiting d =>
      by_cases hnil : line = []
      · simp [opensAt, pending, hphase, hnil, feed_nil_of_awaiting hphase]
      · simp [opensAt, pending, hphase, feed_of_awaiting hphase hnil, declare]

/-- A run keeps the balance: what was opened is emitted or still pending. -/
theorem openingCount_add_pending (r : Recognizer) (lines : List Text) :
    r.openingCount lines + r.pending =
      (r.feedAll lines).1.length + (r.feedAll lines).2.pending := by
  induction lines generalizing r with
  | nil => simp [openingCount]
  | cons line lines ih =>
      have hstep := opensAt_add_pending r line
      have hrest := ih (r.feed line).next
      simp only [openingCount, feedAll_cons, List.length_append]
      omega

theorem discarded_finish (r : Recognizer) : r.finish.discarded = r.discarded + r.pending := by
  obtain ⟨keyword, phase, discarded⟩ := r
  cases phase <;> rfl

theorem discarded_feed (r : Recognizer) (line : Text) :
    (r.feed line).next.discarded = r.discarded := by
  unfold feed declare
  repeat' split
  all_goals rfl

theorem discarded_feedAll (r : Recognizer) (lines : List Text) :
    (r.feedAll lines).2.discarded = r.discarded := by
  induction lines generalizing r with
  | nil => rfl
  | cons line lines ih =>
      have hrest := ih (r.feed line).next
      rw [discarded_feed] at hrest
      exact hrest

/-! ## Runs and segments -/

theorem isPrefixOf_of_dropWhile {lines rest : List Text} {opening : Text}
    (h : (lines.dropWhile fun l => !blockMark.isPrefixOf l) = opening :: rest) :
    blockMark.isPrefixOf opening = true := by
  simpa using not_of_head?_dropWhile (congrArg List.head? h)

/-- A run from outside finds the segments of the lines, and leaves a block pending exactly
when the last opening has none. -/
theorem run_eq_segments (keyword : Text) (discarded : Nat) (lines : List Text) :
    (run ⟨keyword, .outside, discarded⟩ lines).1 =
        (segments lines).map (fun g => (g.block keyword, g.behind)) ∧
      (openings lines).length =
        (segments lines).length + (run ⟨keyword, .outside, discarded⟩ lines).2.pending := by
  unfold segments
  rw [run_outside]
  fun_induction openings lines with
  | case1 lines hlines =>
      rw [hlines]
      exact ⟨rfl, rfl⟩
  | case2 lines opening rest hlines hrest =>
      obtain ⟨phase, hphase, hrun⟩ :=
        run_opening_of_none keyword discarded (isPrefixOf_of_dropWhile hlines) hrest
      rw [hlines, hrun]
      refine ⟨rfl, ?_⟩
      simp [pending, hphase]
  | case3 lines opening rest hlines g hrest ih =>
      rw [hlines, run_opening_of_some keyword discarded (isPrefixOf_of_dropWhile hlines) hrest,
        run_outside]
      obtain ⟨hblocks, hcount⟩ := ih
      constructor
      · simp [hblocks]
      · simp only [List.length_cons, hcount, List.filterMap_cons, id]
        omega

theorem feedAll_eq_segments (keyword : Text) (discarded : Nat) (lines : List Text) :
    (feedAll ⟨keyword, .outside, discarded⟩ lines).1 =
      (segments lines).map (Segment.block keyword) := by
  rw [feedAll_eq_run, (run_eq_segments keyword discarded lines).1, List.map_map]
  rfl

theorem length_behind_lt_of_mem_segments {lines : List Text} {g : Segment}
    (h : g ∈ segments lines) : g.behind.length < lines.length := by
  have hmem : (g.block [], g.behind) ∈ (run ⟨[], .outside, 0⟩ lines).1 := by
    rw [(run_eq_segments [] 0 lines).1]
    exact List.mem_map_of_mem h
  exact length_lt_of_mem_run hmem

/-- The segments with at least all of `ys` behind their declaration are found in `xs`. -/
theorem feedAll_eq_segments_append (keyword : Text) (discarded : Nat) (xs ys : List Text) :
    (feedAll ⟨keyword, .outside, discarded⟩ xs).1 =
      ((segments (xs ++ ys)).filter fun g => ys.length ≤ g.behind.length).map
        (Segment.block keyword) := by
  rw [← run_append_filter _ xs ys, (run_eq_segments keyword discarded (xs ++ ys)).1,
    List.filter_map, List.map_map]
  rfl

end Recognizer

/-- A recognizer emits exactly the blocks of the segments of its input, in order.  Every
opening is either emitted or discarded, at most the last one is discarded, and each block
counts the lines of its body. -/
theorem parse_eq_segments (keyword : Text) (lines : List Text) :
    let parsed := ({ keyword } : Recognizer).parse lines
    parsed.1 = (segments lines).map (Segment.block keyword) ∧
      ({ keyword } : Recognizer).openingCount lines = (openings lines).length ∧
      (openings lines).length = parsed.1.length + parsed.2.discarded ∧
      parsed.2.discarded ≤ 1 ∧
      parsed.1.map DocBlock.lineCount = (segments lines).map fun g => g.body.length := by
  intro parsed
  have hblocks : parsed.1 = (segments lines).map (Segment.block keyword) :=
    Recognizer.feedAll_eq_segments keyword 0 lines
  have hdiscarded : parsed.2.discarded =
      (({ keyword } : Recognizer).feedAll lines).2.pending := by
    have hfinish := Recognizer.discarded_finish (({ keyword } : Recognizer).feedAll lines).2
    rw [Recognizer.discarded_feedAll] at hfinish
    exact hfinish.trans (Nat.zero_add _)
  have hopenings : (openings lines).length = parsed.1.length + parsed.2.discarded := by
    rw [hblocks, hdiscarded, Recognizer.feedAll_eq_run, List.length_map]
    exact (Recognizer.run_eq_segments keyword 0 lines).2
  have hbalance : ({ keyword } : Recognizer).openingCount lines =
      parsed.1.length + parsed.2.discarded := by
    rw [hdiscarded]
    exact Recognizer.openingCount_add_pending { keyword } lines
  refine ⟨hblocks, hbalance.trans hopenings.symm, hopenings, ?_, ?_⟩
  · rw [hdiscarded]
    exact Recognizer.pending_le_one _
  · rw [hblocks, List.map_map]
    exact List.map_congr_left fun g _ => DocBlock.lineCount_ofBody g.body

-- Two marks alone open a comment, and a mark behind the comment is its declaration.
example : segments ["#/#/", "# A", "#/", [], "#/", "#/ B #/"] =
    [⟨["A"], "#/", ["#/ B #/"]⟩] := by decide +kernel

end ShellDoc
