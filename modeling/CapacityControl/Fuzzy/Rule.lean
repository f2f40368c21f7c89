/-
  CapacityControl.Fuzzy.Rule
  ──────────────────────────
  RULES.  A rule concludes from a condition on the inputs that outputs belong to terms.
  Rules refer to variables and terms by their place in one engine and mean nothing
  outside it.
-/
import CapacityControl.Fuzzy.Variable

namespace CapacityControl.Fuzzy

variable {α : Type} [Scalar α]

/-! ## §1. Conditions. -/

/-- `variable is [not] term`, by index. -/
structure Proposition where
  var : Nat
  term : Nat
  negated : Bool
  deriving DecidableEq, Repr

/-- What a rule requires of the inputs. -/
inductive Condition where
  | prop (p : Proposition)
  | and (left right : Condition)
  | or (left right : Condition)
  deriving DecidableEq, Repr

/-- The degree of a proposition for the current input values. -/
def Proposition.degree (p : Proposition) (inputs : List (Input α)) : α :=
  let mu := match inputs[p.var]? with
    | some v => v.membership p.term
    | none => Scalar.nan
  if p.negated then 1.0 - mu else mu

namespace Condition

/-- **The degree of a condition** for the current input values. -/
def degree (inputs : List (Input α)) (conjunction : TNorm) (disjunction : SNorm) :
    Condition → α
  | prop p => p.degree inputs
  | and l r =>
    conjunction.apply (degree inputs conjunction disjunction l)
      (degree inputs conjunction disjunction r)
  | or l r =>
    disjunction.apply (degree inputs conjunction disjunction l)
      (degree inputs conjunction disjunction r)

/-- The propositions of a condition, from left to right. -/
def propositions : Condition → List Proposition
  | prop p => [p]
  | and l r => l.propositions ++ r.propositions
  | or l r => l.propositions ++ r.propositions

end Condition

/-! ## §2. Rules and blocks. -/

/-- A rule: its text, its condition, what it concludes, and how much it counts. -/
structure Rule (α : Type) where
  text : String
  condition : Condition
  consequents : List Proposition
  weight : α

/-- Rules that share their connectives. -/
structure RuleBlock (α : Type) where
  name : String
  conjunction : TNorm
  disjunction : SNorm
  implication : TNorm
  rules : List (Rule α)

/-- A block without rules, with minimum, maximum and product. -/
def RuleBlock.new (name : String) : RuleBlock α :=
  ⟨name, .minimum, .maximum, .algebraicProduct, []⟩

/-! ## §3. Firing. -/

/-- A rule that fires, to a positive degree. -/
structure Firing (α : Type) where
  degree : α
  implication : TNorm
  consequents : List Proposition

/-- The weighted degree of a rule of the block. -/
def RuleBlock.degreeOf (b : RuleBlock α) (inputs : List (Input α)) (r : Rule α) : α :=
  r.weight * r.condition.degree inputs b.conjunction b.disjunction

/-- The rules of the block that fire, in order. -/
def RuleBlock.firings (b : RuleBlock α) (inputs : List (Input α)) : List (Firing α) :=
  b.rules.filterMap fun r =>
    let degree := b.degreeOf inputs r
    if 0.0 < degree then some ⟨degree, b.implication, r.consequents⟩ else none

/-- The activations of the output at an index, in the order of the rules. -/
def activationsOf (output : Nat) (firings : List (Firing α)) : List (Activation α) :=
  firings.flatMap fun f =>
    (f.consequents.filter (·.var == output)).map fun c => ⟨c.term, f.degree, f.implication⟩

end CapacityControl.Fuzzy
