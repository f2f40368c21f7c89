/-
  CapacityControl.Fuzzy.RuleText.Token
  ────────────────────────────────────
  THE WORDS OF A RULE.  Blanks separate words, and a parenthesis is a word of its own
  wherever it stands.
-/
import CapacityControl.Text.Blank

namespace CapacityControl.Fuzzy.RuleText

open Text

/-- Whether the character is a word of its own. -/
def isParenthesis (c : Char) : Bool := c == '(' || c == ')'

/-- Whether the character goes on in a word. -/
def continuesWord (c : Char) : Bool := !isBlank c && !isParenthesis c

/-- The words of a text, as characters.  `word` holds the characters of the word being
read, last one first. -/
def splitWords (word : List Char) : List Char → List (List Char)
  | [] => if word.isEmpty then [] else [word.reverse]
  | c :: cs =>
    if continuesWord c then splitWords (c :: word) cs
    else
      let lone := if isBlank c then [] else [[c]]
      (if word.isEmpty then [] else [word.reverse]) ++ lone ++ splitWords [] cs

/-- The words of a text. -/
def words (text : String) : List String := (splitWords [] text.toList).map String.ofList

/-- A text without the blanks at its ends. -/
def trimmed (text : String) : String := String.ofList (trimBlanks text.toList)

end CapacityControl.Fuzzy.RuleText
