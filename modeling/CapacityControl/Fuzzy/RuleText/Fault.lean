/-
  CapacityControl.Fuzzy.RuleText.Fault
  ────────────────────────────────────
  WHAT CAN BE WRONG WITH THE TEXT OF A RULE.
-/
import CapacityControl.Scalar

namespace CapacityControl.Fuzzy.RuleText

/-- What the grammar asks for at some point of a rule. -/
inductive Expected where
  | word (w : String)
  | inputVariable
  | outputVariable
  | term
  | weight
  deriving DecidableEq, Repr

/-- How a message names what is asked for. -/
def Expected.text : Expected → String
  | word w => "'" ++ w ++ "'"
  | inputVariable => "an input variable"
  | outputVariable => "an output variable"
  | term => "a term"
  | weight => "a weight"

/-- Why a text is no rule. -/
inductive Fault (α : Type) where
  | endOfRule (expected : Expected)
  | otherWord (expected found : String)
  | unknownInput (name : String)
  | unknownOutput (name : String)
  | unknownTerm (term owner : String)
  | negatedConsequent
  | invalidWeight (word : String)
  | weightOutside (weight : α)
  | trailing (word : String)

/-- The wording of a fault. -/
def Fault.text {α : Type} [Scalar α] : Fault α → String
  | endOfRule e => "expected " ++ e.text ++ ", found end of rule"
  | otherWord e f => "expected '" ++ e ++ "', found '" ++ f ++ "'"
  | unknownInput n => "unknown input variable '" ++ n ++ "'"
  | unknownOutput n => "unknown output variable '" ++ n ++ "'"
  | unknownTerm t v => "unknown term '" ++ t ++ "' for '" ++ v ++ "'"
  | negatedConsequent => "consequents cannot be negated"
  | invalidWeight w => "invalid weight '" ++ w ++ "'"
  | weightOutside w => "weight " ++ Scalar.text w ++ " outside [0, 1]"
  | trailing w => "unexpected '" ++ w ++ "' after rule"

end CapacityControl.Fuzzy.RuleText
