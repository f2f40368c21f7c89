/-
  CapacityControl.Fuzzy.RuleText.Grammar
  ──────────────────────────────────────
  THE GRAMMAR OF RULES, as relations between words and what they mean.

      rule        := "if" disjunction "then" consequents ["with" weight]
      disjunction := [disjunction "or"] conjunction
      conjunction := [conjunction "and"] atom
      atom        := "(" disjunction ")" | input "is" ["not"] term
      consequents := output "is" term ["and" consequents]

  A relation says which words are a sentence and what the sentence means; how to find
  the meaning of given words is the business of `RuleText.Read`.
-/
import CapacityControl.Fuzzy.RuleText.Read

namespace CapacityControl.Fuzzy.RuleText

variable {α : Type} [Scalar α]

/-! ## §1. Names. -/

/-- **The names** `owner` and `term` stand for the term at `place.2` of the variable at
`place.1`. -/
def Names (v : Vocabulary) (owner term : String) (place : Nat × Nat) : Prop :=
  ∃ terms, v.variable? owner = some (place.1, terms) ∧ termIndex? terms term = some place.2

/-! ## §2. Conditions. -/

mutual

/-- **A disjunction**: conjunctions joined by `or`, grouped to the left. -/
inductive IsDisjunction (v : Vocabulary) : List String → Condition → Prop where
  | single {ws : List String} {c : Condition} (h : IsConjunction v ws c) : IsDisjunction v ws c
  | join {ws us : List String} {c d : Condition}
      (left : IsDisjunction v ws c) (right : IsConjunction v us d) :
      IsDisjunction v (ws ++ "or" :: us) (.or c d)

/-- **A conjunction**: atoms joined by `and`, grouped to the left. -/
inductive IsConjunction (v : Vocabulary) : List String → Condition → Prop where
  | single {ws : List String} {c : Condition} (h : IsAtom v ws c) : IsConjunction v ws c
  | join {ws us : List String} {c d : Condition}
      (left : IsConjunction v ws c) (right : IsAtom v us d) :
      IsConjunction v (ws ++ "and" :: us) (.and c d)

/-- **An atom**: a disjunction in parentheses, or a proposition, negated or not. -/
inductive IsAtom (v : Vocabulary) : List String → Condition → Prop where
  | group {ws : List String} {c : Condition} (h : IsDisjunction v ws c) :
      IsAtom v ("(" :: ws ++ [")"]) c
  | affirmed {owner term : String} {place : Nat × Nat} (h : Names v owner term place) :
      IsAtom v [owner, "is", term] (.prop ⟨place.1, place.2, false⟩)
  | negated {owner term : String} {place : Nat × Nat} (h : Names v owner term place) :
      IsAtom v [owner, "is", "not", term] (.prop ⟨place.1, place.2, true⟩)

end

/-! ## §3. Rules. -/

/-- **Consequents**: affirmed propositions joined by `and`. -/
inductive AreConsequents (v : Vocabulary) : List String → List Proposition → Prop where
  | last {owner term : String} {place : Nat × Nat} (h : Names v owner term place) :
      AreConsequents v [owner, "is", term] [⟨place.1, place.2, false⟩]
  | more {owner term : String} {place : Nat × Nat} {ws : List String} {ps : List Proposition}
      (h : Names v owner term place) (rest : AreConsequents v ws ps) :
      AreConsequents v ([owner, "is", term] ++ "and" :: ws) (⟨place.1, place.2, false⟩ :: ps)

/-- **What may follow the consequents**: nothing, for the weight one, or `with` and a numeral
for a number of `[0, 1]`. -/
inductive IsEnding : List String → α → Prop where
  | unweighted : IsEnding [] 1.0
  | weighted {word : String} {literal : Literal} (read : Literal.read? word = some literal)
      (unit : Scalar.inUnit (Scalar.ofLiteral literal : α) = true) :
      IsEnding ["with", word] (Scalar.ofLiteral literal)

/-- **A sentence**: a whole rule with its condition, its consequents and its weight. -/
inductive IsSentence (inputs outputs : Vocabulary) :
    List String → Condition → List Proposition → α → Prop where
  | rule {ws us es : List String} {c : Condition} {ps : List Proposition} {w : α}
      (condition : IsDisjunction inputs ws c) (consequents : AreConsequents outputs us ps)
      (ending : IsEnding es w) :
      IsSentence inputs outputs ("if" :: ws ++ "then" :: us ++ es) c ps w

end CapacityControl.Fuzzy.RuleText
