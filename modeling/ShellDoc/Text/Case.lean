import ShellDoc.Text.Case.Context
import ShellDoc.Text.Case.Mapping

/-!
# Upper and lower case

The case of a text is changed character by character, with one exception: a capital sigma that ends
a word becomes the final small sigma.
-/

namespace ShellDoc.Text

def capitalSigma : Char := Char.ofNat 0x3a3

def smallSigma : Char := Char.ofNat 0x3c3

def finalSigma : Char := Char.ofNat 0x3c2

/-- Whether the nearest character that is not ignorable is cased. -/
def meetsCased (s : Text) : Bool :=
  match s.dropWhile isCaseIgnorable with
  | [] => false
  | c :: _ => isCased c

/-- The lower-case form of the text that follows `before`, which is given in reverse. -/
def lowerAfter (before : Text) : Text → Text
  | [] => []
  | c :: s =>
      (if c = capitalSigma then
        [if meetsCased before && !meetsCased s then finalSigma else smallSigma]
      else lowerChar c) ++ lowerAfter (c :: before) s

def lower (s : Text) : Text := lowerAfter [] s

def upper (s : Text) : Text := s.flatMap upperChar

/-- Only the first character in upper case. -/
def capitalizeFirst : Text → Text
  | [] => []
  | c :: s => upperChar c ++ s

@[simp] theorem capitalizeFirst_nil : capitalizeFirst [] = [] := rfl

@[simp] theorem capitalizeFirst_cons (c : Char) (s : Text) :
    capitalizeFirst (c :: s) = upperChar c ++ s := rfl

end ShellDoc.Text
