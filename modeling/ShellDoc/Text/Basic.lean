/-!
# Text

A text is a list of characters, so that every length in this library counts code points and every
function on text is a recursion on a list.  String literals stand for texts.

The searching functions come with the two facts that pin them down: nothing is lost, and the part in
front of the separator does not contain it.
-/

namespace ShellDoc

abbrev Text := List Char

instance : Coe String Text := ⟨String.toList⟩

namespace Text

/-- Whether the code point of `c` lies in one of the closed ranges. -/
def inRanges (ranges : List (Nat × Nat)) (c : Char) : Bool :=
  ranges.any fun r => r.1 ≤ c.toNat && c.toNat ≤ r.2

/-- The text in front of the first `sep` and the text behind it; the second is empty when there is
no `sep`. -/
def cut (sep : Char) (s : Text) : Text × Text :=
  (s.takeWhile (· != sep), (s.dropWhile (· != sep)).drop 1)

theorem not_mem_cut_fst (sep : Char) (s : Text) : sep ∉ (cut sep s).1 := by
  induction s with
  | nil => simp [cut]
  | cons c s ih =>
      by_cases hc : c = sep
      · simp [cut, hc]
      · have h : ¬ sep = c := fun e => hc e.symm
        simpa [cut, hc, h] using ih

theorem cut_append (sep : Char) (s t : Text) (h : sep ∉ s) :
    cut sep (s ++ sep :: t) = (s, t) := by
  induction s with
  | nil => simp [cut]
  | cons c s ih =>
      simp only [List.mem_cons, not_or] at h
      have hc : (c != sep) = true := by simpa using fun e => h.1 e.symm
      simpa [cut, hc] using ih h.2

/-- The pieces between the occurrences of `sep`: always at least one, and possibly empty ones. -/
def pieces (sep : Char) : Text → List Text
  | [] => [[]]
  | c :: s =>
      if c = sep then [] :: pieces sep s
      else
        match pieces sep s with
        | [] => [[c]]
        | p :: ps => (c :: p) :: ps

theorem pieces_ne_nil (sep : Char) (s : Text) : pieces sep s ≠ [] := by
  cases s with
  | nil => simp [pieces]
  | cons c s =>
      unfold pieces
      split
      · simp
      · split <;> simp

/-- The texts of a list one behind the other. -/
def concat (parts : List Text) : Text := parts.flatten

@[simp] theorem concat_nil : concat [] = [] := rfl

@[simp] theorem concat_cons (s : Text) (parts : List Text) :
    concat (s :: parts) = s ++ concat parts := rfl

/-- The texts of a list with `sep` between each two. -/
def join (sep : Text) (parts : List Text) : Text := sep.intercalate parts

@[simp] theorem join_nil (sep : Text) : join sep [] = [] := by simp [join]

@[simp] theorem join_singleton (sep s : Text) : join sep [s] = s := by simp [join]

theorem join_cons_cons (sep s t : Text) (parts : List Text) :
    join sep (s :: t :: parts) = s ++ (sep ++ join sep (t :: parts)) := by
  simp [join, List.intercalate]

theorem mem_join {sep : Text} {parts : List Text} {c : Char} (h : c ∈ join sep parts) :
    c ∈ sep ∨ ∃ part ∈ parts, c ∈ part := by
  induction parts with
  | nil => simp at h
  | cons part parts ih =>
      cases parts with
      | nil => exact .inr ⟨part, List.mem_cons_self, by simpa using h⟩
      | cons next parts =>
          rw [join_cons_cons] at h
          rcases List.mem_append.mp h with h | h
          · exact .inr ⟨part, List.mem_cons_self, h⟩
          · rcases List.mem_append.mp h with h | h
            · exact .inl h
            · obtain hsep | ⟨other, hother, h⟩ := ih h
              · exact .inl hsep
              · exact .inr ⟨other, List.mem_cons_of_mem part hother, h⟩

/-- The text behind the last `sep`, or all of it when there is none. -/
def afterLast (sep : Char) (s : Text) : Text := (s.reverse.takeWhile (· != sep)).reverse

/-- The part in front of the last `sep`, together with the part from it on; `none` when there is no
`sep`. -/
def cutLast? (sep : Char) (s : Text) : Option (Text × Text) :=
  match s.reverse.dropWhile (· != sep) with
  | [] => none
  | _ :: front => some (front.reverse, sep :: afterLast sep s)

/-- Fills up with spaces on the right to a width of `n`. -/
def padRight (n : Nat) (s : Text) : Text := s ++ List.replicate (n - s.length) ' '

theorem length_padRight (n : Nat) (s : Text) : (padRight n s).length = max n s.length := by
  simp [padRight]; omega

/-- Fills up with spaces on the left to a width of `n`. -/
def padLeft (n : Nat) (s : Text) : Text := List.replicate (n - s.length) ' ' ++ s

theorem length_padLeft (n : Nat) (s : Text) : (padLeft n s).length = max n s.length := by
  simp [padLeft]; omega

/-- A number in decimal digits. -/
def ofNat (n : Nat) : Text := Nat.toDigits 10 n

/-- An integer in decimal digits, with a sign when it is negative. -/
def ofInt (n : Int) : Text := if n < 0 then '-' :: ofNat n.natAbs else ofNat n.natAbs

/-- A number in hexadecimal digits with at least `width` places. -/
def hex (width n : Nat) : Text :=
  let digits := Nat.toDigits 16 n
  List.replicate (width - digits.length) '0' ++ digits

/-- The order of texts by code points, as a Boolean test. -/
def le : Text → Text → Bool
  | [], _ => true
  | _ :: _, [] => false
  | c :: s, d :: t => if c = d then le s t else decide (c.toNat ≤ d.toNat)

/-- Sorted by code points; equal texts keep their order. -/
def sort (ts : List Text) : List Text := ts.mergeSort le

end Text

end ShellDoc
