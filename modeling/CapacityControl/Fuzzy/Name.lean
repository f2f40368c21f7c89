/-
  CapacityControl.Fuzzy.Name
  ──────────────────────────
  NAMES of variables and terms.  A name has to stand in the text of a rule as one word
  that is none of the words of the rule language.
-/
import CapacityControl.Requirement
import CapacityControl.Text.Numeral

namespace CapacityControl.Fuzzy

open Text

/-- The words of the rule language, which are no names. -/
def reservedWords : List String := ["if", "then", "is", "and", "or", "not", "with", "none"]

/-- Whether a name may begin with the character. -/
def beginsName (c : Char) : Bool := isLetter c || c == '_'

/-- Whether a name may go on with the character. -/
def continuesName (c : Char) : Bool := isLetterOrNumeral c || c == '_' || c == '.'

/-- Whether the characters spell a name, reserved or not. -/
def spellsName : List Char → Bool
  | [] => false
  | c :: cs => beginsName c && cs.all continuesName

/-- Accepts the text if it is a name. -/
def checkName (s : String) : Except Requirement String :=
  if !spellsName s.toList then .error .nameSpelling
  else if s ∈ reservedWords then .error .nameReserved
  else .ok s

end CapacityControl.Fuzzy
