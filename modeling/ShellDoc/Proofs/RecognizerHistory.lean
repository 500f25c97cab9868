import ShellDoc.Proofs.LooseRecognizer

/-!
# What a recognizer remembers

A recognizer that is outside remembers nothing of its history but its keyword and the number of
blocks that it discarded, and that number decides nothing: it only grows (`feedAll_addDiscarded`).
So it goes on like a fresh one.

This is what makes it safe to give up a parse.  The recognizer is left at the line behind a
declaration, and a second parse of the lines that were not read yet finds what the first one would
have found there (`parseInParts_eq_parse`).
-/

namespace ShellDoc

namespace Recognizer

/-- The recognizer after `n` more blocks were discarded. -/
def addDiscarded (n : Nat) (r : Recognizer) : Recognizer :=
  { r with discarded := n + r.discarded }

theorem feed_addDiscarded (n : Nat) (r : Recognizer) (line : Text) :
    (r.addDiscarded n).feed line =
      ⟨(r.feed line).next.addDiscarded n, (r.feed line).emitted, (r.feed line).notice⟩ := by
  obtain ⟨keyword, phase, discarded⟩ := r
  cases phase with
  | outside =>
      simp only [feed, addDiscarded]
      split <;> rfl
  | inside d =>
      simp only [feed, addDiscarded]
      split <;> rfl
  | awaiting d =>
      simp only [feed, addDiscarded]
      split <;> rfl

/-- The number of discarded blocks decides nothing. -/
theorem feedAll_addDiscarded (n : Nat) (r : Recognizer) (lines : List Text) :
    (r.addDiscarded n).feedAll lines =
      ((r.feedAll lines).1, (r.feedAll lines).2.addDiscarded n) := by
  induction lines generalizing r with
  | nil => rfl
  | cons line lines ih => rw [feedAll_cons, feed_addDiscarded, ih, feedAll_cons]

/-- Outside, there is nothing but the keyword and the number of discarded blocks. -/
theorem eq_addDiscarded_of_outside {r : Recognizer} (h : r.phase = .outside) :
    r = ({ keyword := r.keyword } : Recognizer).addDiscarded r.discarded := by
  obtain ⟨keyword, phase, discarded⟩ := r
  obtain rfl : phase = .outside := h
  rfl

theorem finish_finish (r : Recognizer) : r.finish.finish = r.finish := by
  obtain ⟨keyword, phase, discarded⟩ := r
  cases phase <;> rfl

/-- A parse that is given up behind its `n`-th block, and one of the lines that it left. -/
def parseInParts (r : Recognizer) (n : Nat) (lines : List Text) : List DocBlock × Recognizer :=
  let first := r.parseFirst n lines
  let rest := first.2.2.parse first.2.1
  (first.1 ++ rest.1, rest.2)

/-- Giving a parse up and going on with the lines that it left is one parse. -/
theorem parseInParts_eq_parse (r : Recognizer) (n : Nat) (lines : List Text) :
    r.parseInParts n lines = r.parse lines := by
  rcases parseFirst_cases r n lines with ⟨-, hend⟩ | ⟨read, unread, rfl, -, hstop⟩
  · -- The end was signalled already; signalling it again does nothing.
    have hagain : (r.parse lines).2.parse [] = ([], (r.parse lines).2) :=
      congrArg ([], ·) (finish_finish (r.feedAll lines).2)
    rw [parseInParts, hend]
    simp only [hagain, List.append_nil]
  · rw [parseInParts, hstop, parse, parse, feedAll_append]

end Recognizer

/-! ## With the fields apart -/

namespace LooseRecognizer

def addDiscarded (n : Nat) (g : LooseRecognizer) : LooseRecognizer :=
  { g with discarded := n + g.discarded }

def parseInParts (g : LooseRecognizer) (n : Nat) (lines : List Text) :
    Except Misuse (List LooseBlock × LooseRecognizer) := do
  let (first, unread, g) ← g.parseFirst n lines
  let (rest, g) ← g.parse unread
  return (first ++ rest, g)

end LooseRecognizer

namespace Recognizer

theorem loose_addDiscarded (n : Nat) (r : Recognizer) :
    (r.addDiscarded n).loose = r.loose.addDiscarded n := by
  obtain ⟨keyword, phase, discarded⟩ := r
  cases phase <;> rfl

theorem phase_eq_outside_of_loose {r : Recognizer} (h : r.loose.stage = .outside) :
    r.phase = .outside := by
  obtain ⟨keyword, phase, discarded⟩ := r
  cases phase with
  | outside => rfl
  | inside d => cases h
  | awaiting d => cases h

theorem loose_parseInParts {r : Recognizer} (h : r.Sound) (n : Nat) (lines : List Text) :
    r.loose.parseInParts n lines =
      .ok ((r.parseInParts n lines).1.map DocBlock.loose, (r.parseInParts n lines).2.loose) := by
  have hleft : (r.parseFirst n lines).2.2.Sound := h.call (.parseFirst n lines)
  rw [LooseRecognizer.parseInParts, loose_parseFirst h, parseInParts, List.map_append]
  dsimp only [Bind.bind, Except.bind]
  rw [loose_parse hleft]
  rfl

end Recognizer

/-- A recognizer that is outside goes on like a fresh one with the same keyword, whatever was asked
of it before: it finds the same blocks and is left with the same fields, and only counts the blocks
that it discarded earlier.  A parse that is given up and continued later is one parse. -/
theorem history_independence (keyword : Text) (calls : List Call) :
    let fresh : Recognizer := { keyword }
    let r := (fresh.callAll calls).2
    (r.phase = .outside → ∀ ys,
        (r.feedAll ys).1 = (fresh.feedAll ys).1 ∧
          (r.feedAll ys).2 = (fresh.feedAll ys).2.addDiscarded r.discarded) ∧
      (∀ n lines, r.parseInParts n lines = r.parse lines) ∧
      ∃ blocks g, ({ keyword } : LooseRecognizer).callAll calls = .ok (blocks, g) ∧
        (g.stage = .outside → ∀ ys, ∃ found g',
          ({ keyword } : LooseRecognizer).feedAll ys = .ok (found, g') ∧
            g.feedAll ys = .ok (found, g'.addDiscarded g.discarded)) ∧
        ∀ n lines, ∃ out, g.parse lines = .ok out ∧ g.parseInParts n lines = .ok out := by
  intro fresh r
  have hfresh : fresh.Sound := .of_outside rfl
  have hr : r.Sound := hfresh.callAll calls
  have hsame : r.phase = .outside → ∀ ys,
      r.feedAll ys = ((fresh.feedAll ys).1, (fresh.feedAll ys).2.addDiscarded r.discarded) := by
    intro houtside ys
    have hreset := Recognizer.eq_addDiscarded_of_outside houtside
    rw [Recognizer.keyword_callAll fresh calls] at hreset
    rw [← Recognizer.feedAll_addDiscarded, ← hreset]
  refine ⟨?_, r.parseInParts_eq_parse, _, r.loose, Recognizer.loose_callAll hfresh calls, ?_, ?_⟩
  · intro houtside ys
    rw [hsame houtside ys]
    exact ⟨rfl, rfl⟩
  · intro hstage ys
    refine ⟨_, _, Recognizer.loose_feedAll hfresh ys, ?_⟩
    rw [Recognizer.loose_feedAll hr, hsame (Recognizer.phase_eq_outside_of_loose hstage) ys,
      Recognizer.loose_addDiscarded, Recognizer.discarded_loose]
  · intro n lines
    refine ⟨_, Recognizer.loose_parse hr lines, ?_⟩
    rw [Recognizer.loose_parseInParts hr, Recognizer.parseInParts_eq_parse]

/-- One block was discarded, and another parse was given up in front of an opening line. -/
theorem history_independence_discarded_block :
    let fresh : Recognizer := { keyword := ['f'] }
    let given : List Text := [['#', '/', 'A', '#', '/'], ['f', ' ', 'a'], ['#', '/']]
    let r := (fresh.callAll [.parse [['#', '/'], ['#', '@', 'x']], .parseFirst 1 given]).2
    let ys : List Text := [['#', '/', 'B', '#', '/'], ['f', ' ', 'b'], ['#', '/']]
    r.phase = .outside ∧ r.discarded = 1 ∧ (r.feedAll ys).1 = (fresh.feedAll ys).1 ∧
      (r.feedAll ys).2 = (fresh.feedAll ys).2.addDiscarded r.discarded := by
  intro fresh given r ys
  exact ⟨rfl, rfl, (history_independence ['f'] _).1 rfl ys⟩

end ShellDoc
