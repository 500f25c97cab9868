import ShellDoc.Proofs.Segmentation

/-!
# Calls on a recognizer

A recognizer can be used in any order: lines are fed to it one at a time, the end of the input is
signalled, and lists of lines are parsed to their end or only as far as some number of blocks.  A
history is a list of such calls.

A parse of which only the first blocks are taken either finds too few and goes to the end like any
other parse, or it has read just the lines up to the last of these blocks (`parseFirst_cases`).  So
a history does nothing but feed lines and signal ends, and what both preserve holds behind every
history (`callAll_induction`).  The blocks that were discarded are told by the ends that came while
a block was pending (`discarded_callAll`).
-/

namespace ShellDoc

/-- What can be asked of a recognizer. -/
inductive Call where
  | feed (line : Text)
  | finish
  | parse (lines : List Text)
  /-- A parse that is given up as soon as it has found `n` blocks. -/
  | parseFirst (n : Nat) (lines : List Text)
  deriving DecidableEq, Repr

namespace Recognizer

/-- The blocks that a call gives, and the recognizer behind it. -/
def call (r : Recognizer) : Call → List DocBlock × Recognizer
  | .feed line => ((r.feed line).emitted.toList, (r.feed line).next)
  | .finish => ([], r.finish)
  | .parse lines => r.parse lines
  | .parseFirst n lines => ((r.parseFirst n lines).1, (r.parseFirst n lines).2.2)

/-- The blocks of each call of a history, and the recognizer behind the last one. -/
def callAll (r : Recognizer) : List Call → List (List DocBlock) × Recognizer
  | [] => ([], r)
  | c :: calls =>
      ((r.call c).1 :: ((r.call c).2.callAll calls).1, ((r.call c).2.callAll calls).2)

theorem callAll_cons (r : Recognizer) (c : Call) (calls : List Call) :
    r.callAll (c :: calls) =
      ((r.call c).1 :: ((r.call c).2.callAll calls).1, ((r.call c).2.callAll calls).2) := rfl

/-! ## Parses that are given up -/

section ParseFirst

variable {r : Recognizer} {line : Text} {lines : List Text}

theorem parseFirst_cons_of_none (h : (r.feed line).emitted = none) (n : Nat) :
    r.parseFirst (n + 1) (line :: lines) = (r.feed line).next.parseFirst (n + 1) lines := by
  rw [parseFirst, h]

theorem parseFirst_cons_of_some {b : DocBlock} (h : (r.feed line).emitted = some b) (n : Nat) :
    r.parseFirst (n + 1) (line :: lines) =
      (b :: ((r.feed line).next.parseFirst n lines).1,
        ((r.feed line).next.parseFirst n lines).2) := by
  rw [parseFirst, h]

theorem parse_cons (r : Recognizer) (line : Text) (lines : List Text) :
    r.parse (line :: lines) =
      ((r.feed line).emitted.toList ++ ((r.feed line).next.parse lines).1,
        ((r.feed line).next.parse lines).2) := rfl

/-- A parse finds too few blocks and goes to the end, or it stops behind the lines that give exactly
as many blocks as were asked for. -/
theorem parseFirst_cases (r : Recognizer) (n : Nat) (lines : List Text) :
    ((r.feedAll lines).1.length < n ∧
        r.parseFirst n lines = ((r.parse lines).1, [], (r.parse lines).2)) ∨
      ∃ read rest, lines = read ++ rest ∧ (r.feedAll read).1.length = n ∧
        r.parseFirst n lines = ((r.feedAll read).1, rest, (r.feedAll read).2) := by
  induction lines generalizing r n with
  | nil =>
      cases n with
      | zero => exact .inr ⟨[], [], rfl, rfl, rfl⟩
      | succ n => exact .inl ⟨Nat.succ_pos n, rfl⟩
  | cons line lines ih =>
      cases n with
      | zero => exact .inr ⟨[], line :: lines, rfl, rfl, rfl⟩
      | succ n =>
          cases hemitted : (r.feed line).emitted with
          | none =>
              rw [parseFirst_cons_of_none hemitted, parse_cons, feedAll_cons, hemitted]
              rcases ih (r.feed line).next (n + 1) with hend | ⟨read, rest, rfl, hn, hstop⟩
              · exact .inl hend
              · refine .inr ⟨line :: read, rest, rfl, ?_, ?_⟩
                · rw [feedAll_cons, hemitted]
                  exact hn
                · rw [feedAll_cons, hemitted]
                  exact hstop
          | some b =>
              rw [parseFirst_cons_of_some hemitted, parse_cons, feedAll_cons, hemitted]
              rcases ih (r.feed line).next n with ⟨hlt, hend⟩ | ⟨read, rest, rfl, hn, hstop⟩
              · rw [hend]
                exact .inl ⟨Nat.succ_lt_succ hlt, rfl⟩
              · rw [hstop]
                refine .inr ⟨line :: read, rest, rfl, ?_, ?_⟩
                · rw [feedAll_cons, hemitted, ← hn]
                  rfl
                · rw [feedAll_cons, hemitted]
                  rfl

end ParseFirst

/-! ## What every history preserves -/

theorem feedAll_induction {P : Recognizer → Prop}
    (hfeed : ∀ r line, P r → P (r.feed line).next) {r : Recognizer} (hr : P r)
    (lines : List Text) : P (r.feedAll lines).2 := by
  induction lines generalizing r with
  | nil => exact hr
  | cons line lines ih => exact ih (hfeed r line hr)

theorem callAll_induction {P : Recognizer → Prop}
    (hfeed : ∀ r line, P r → P (r.feed line).next) (hfinish : ∀ r, P r → P r.finish)
    {r : Recognizer} (hr : P r) (calls : List Call) : P (r.callAll calls).2 := by
  induction calls generalizing r with
  | nil => exact hr
  | cons c calls ih =>
      refine ih ?_
      cases c with
      | feed line => exact hfeed r line hr
      | finish => exact hfinish r hr
      | parse lines => exact hfinish _ (feedAll_induction hfeed hr lines)
      | parseFirst n lines =>
          rcases parseFirst_cases r n lines with ⟨-, hend⟩ | ⟨read, rest, -, -, hstop⟩
          · rw [call, hend]
            exact hfinish _ (feedAll_induction hfeed hr lines)
          · rw [call, hstop]
            exact feedAll_induction hfeed hr read

theorem keyword_finish (r : Recognizer) : r.finish.keyword = r.keyword := by
  unfold finish
  split <;> rfl

theorem keyword_callAll (r : Recognizer) (calls : List Call) :
    (r.callAll calls).2.keyword = r.keyword :=
  callAll_induction (P := fun r' => r'.keyword = r.keyword)
    (fun r line h => (feed_keyword r line).trans h) (fun r h => (keyword_finish r).trans h) rfl calls

/-! ## Blocks that are discarded -/

/-- How many blocks a call discards: one if it comes to the end of the input while a block is
pending.  A parse comes to the end of its lines if it is not given up before. -/
def discardedBy (r : Recognizer) : Call → Nat
  | .feed _ => 0
  | .finish => r.pending
  | .parse lines => (r.feedAll lines).2.pending
  | .parseFirst n lines =>
      if (r.feedAll lines).1.length < n then (r.feedAll lines).2.pending else 0

/-- How many blocks the calls of a history discard. -/
def discardedByAll (r : Recognizer) : List Call → Nat
  | [] => 0
  | c :: calls => r.discardedBy c + discardedByAll (r.call c).2 calls

theorem discarded_parse (r : Recognizer) (lines : List Text) :
    (r.parse lines).2.discarded = r.discarded + (r.feedAll lines).2.pending := by
  rw [parse, discarded_finish, discarded_feedAll]

theorem discarded_call (r : Recognizer) (c : Call) :
    (r.call c).2.discarded = r.discarded + r.discardedBy c := by
  cases c with
  | feed line => exact discarded_feed r line
  | finish => exact discarded_finish r
  | parse lines => exact discarded_parse r lines
  | parseFirst n lines =>
      rcases parseFirst_cases r n lines with ⟨hlt, hend⟩ | ⟨read, rest, rfl, hn, hstop⟩
      · rw [call, hend, discardedBy, if_pos hlt]
        exact discarded_parse r lines
      · have hle : ¬ (r.feedAll (read ++ rest)).1.length < n := by
          rw [feedAll_append, List.length_append, hn]
          omega
        rw [call, hstop, discardedBy, if_neg hle]
        exact discarded_feedAll r read

theorem discarded_callAll (r : Recognizer) (calls : List Call) :
    (r.callAll calls).2.discarded = r.discarded + r.discardedByAll calls := by
  induction calls generalizing r with
  | nil => rfl
  | cons c calls ih =>
      rw [callAll_cons, discardedByAll, ← Nat.add_assoc, ← discarded_call]
      exact ih (r.call c).2

end Recognizer

end ShellDoc
