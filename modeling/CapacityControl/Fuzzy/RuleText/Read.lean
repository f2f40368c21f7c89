/-
  CapacityControl.Fuzzy.RuleText.Read
  ───────────────────────────────────
  READING RULES.

      rule        := "if" disjunction "then" consequent ("and" consequent)* ["with" weight]
      disjunction := conjunction ("or" conjunction)*
      conjunction := atom ("and" atom)*
      atom        := "(" disjunction ")" | input "is" ["not"] term
      consequent  := output "is" term

  Conjunction binds tighter than disjunction, and both group to the left.  Names are
  looked up while reading.  The condition is read in one pass over the words: what has
  been read of the enclosing parentheses waits on a stack of `Pending` parts.
-/
import CapacityControl.Fuzzy.Rule
import CapacityControl.Fuzzy.RuleText.Token
import CapacityControl.Fuzzy.RuleText.Fault

namespace CapacityControl.Fuzzy.RuleText

variable {α : Type} [Scalar α]

/-! ## §1. Vocabularies. -/

/-- The names that rules may use: variables with the names of their terms, in order. -/
abbrev Vocabulary := List (String × List String)

/-- The place of a variable and the names of its terms; of several the first. -/
def Vocabulary.variable? (v : Vocabulary) (name : String) : Option (Nat × List String) :=
  (v.findIdx? (·.1 == name)).bind fun i => (v[i]?).map fun entry => (i, entry.2)

/-- The place of a term; of several the first. -/
def termIndex? (terms : List String) (name : String) : Option Nat := terms.findIdx? (· == name)

/-! ## §2. Conditions. -/

/-- What has been read of a disjunction whose next operand is missing. -/
structure Pending where
  disjuncts : Option Condition
  conjuncts : Option Condition

/-- What has been read of a disjunction after an operand. -/
structure Settled where
  disjuncts : Option Condition
  conjuncts : Condition

/-- Nothing has been read. -/
def Pending.none : Pending := ⟨Option.none, Option.none⟩

/-- The operand joins the conjunction being read. -/
def Pending.settle (p : Pending) (operand : Condition) : Settled :=
  ⟨p.disjuncts, match p.conjuncts with
    | Option.none => operand
    | some left => .and left operand⟩

/-- The whole that has been read. -/
def Settled.whole (s : Settled) : Condition :=
  match s.disjuncts with
  | Option.none => s.conjuncts
  | some left => .or left s.conjuncts

/-- After `and`: the conjunction goes on. -/
def Settled.further (s : Settled) : Pending := ⟨s.disjuncts, some s.conjuncts⟩

/-- After `or`: a new conjunction begins. -/
def Settled.another (s : Settled) : Pending := ⟨some s.whole, Option.none⟩

/-- Looks up a term of a variable. -/
def resolveTerm (owner : String) (terms : List String) (term : String) :
    Except (Fault α) Nat :=
  match termIndex? terms term with
  | some i => .ok i
  | none => .error (.unknownTerm term owner)

mutual

/-- Reads an operand and goes on behind it.  `outer` holds what was read before each open
parenthesis. -/
def operand (inputs : Vocabulary) (outer : List Pending) (here : Pending) :
    List String → Except (Fault α) (Condition × List String)
  | [] => .error (.endOfRule .inputVariable)
  | name :: rest =>
    if name = "(" then operand inputs (here :: outer) .none rest
    else match inputs.variable? name with
      | none => .error (.unknownInput name)
      | some (var, terms) =>
        match rest with
        | [] => .error (.endOfRule (.word "is"))
        | [word] =>
          if word = "is" then .error (.endOfRule .term) else .error (.otherWord "is" word)
        | word :: first :: rest =>
          if word ≠ "is" then .error (.otherWord "is" word)
          else if first = "not" then
            match rest with
            | [] => .error (.endOfRule .term)
            | term :: rest =>
              match resolveTerm name terms term with
              | .error e => .error e
              | .ok i => operator inputs outer (here.settle (.prop ⟨var, i, true⟩)) rest
          else
            match resolveTerm name terms first with
            | .error e => .error e
            | .ok i => operator inputs outer (here.settle (.prop ⟨var, i, false⟩)) rest

/-- Goes on after an operand: with a further operand, out of a parenthesis, or to the end
of the condition. -/
def operator (inputs : Vocabulary) (outer : List Pending) (here : Settled) :
    List String → Except (Fault α) (Condition × List String)
  | [] =>
    match outer with
    | [] => .ok (here.whole, [])
    | _ :: _ => .error (.endOfRule (.word ")"))
  | word :: rest =>
    if word = "and" then operand inputs outer here.further rest
    else if word = "or" then operand inputs outer here.another rest
    else match outer with
      | [] => .ok (here.whole, word :: rest)
      | above :: outer =>
        if word = ")" then operator inputs outer (above.settle here.whole) rest
        else .error (.otherWord ")" word)

end

/-! ## §3. Rules. -/

/-- Reads a given word. -/
def expect (word : String) : List String → Except (Fault α) (List String)
  | [] => .error (.endOfRule (.word word))
  | found :: rest => if found = word then .ok rest else .error (.otherWord word found)

/-- Reads the consequents: one, and one more after every `and`. -/
def consequents (outputs : Vocabulary) :
    List String → Except (Fault α) (List Proposition × List String)
  | [] => .error (.endOfRule .outputVariable)
  | name :: rest =>
    match outputs.variable? name with
    | none => .error (.unknownOutput name)
    | some (var, terms) =>
      match rest with
      | [] => .error (.endOfRule (.word "is"))
      | [word] =>
        if word = "is" then .error (.endOfRule .term) else .error (.otherWord "is" word)
      | word :: term :: rest =>
        if word ≠ "is" then .error (.otherWord "is" word)
        else if term = "not" then .error .negatedConsequent
        else match resolveTerm name terms term with
          | .error e => .error e
          | .ok i =>
            match rest with
            | [] => .ok ([⟨var, i, false⟩], [])
            | next :: rest =>
              if next = "and" then
                (consequents outputs rest).map fun (ps, rest) => (⟨var, i, false⟩ :: ps, rest)
              else .ok ([⟨var, i, false⟩], next :: rest)

/-- Reads a weight, a number of `[0, 1]`. -/
def weight (word : String) : Except (Fault α) α :=
  match Literal.read? word with
  | none => .error (.invalidWeight word)
  | some literal =>
    let w : α := Scalar.ofLiteral literal
    if Scalar.inUnit w then .ok w else .error (.weightOutside w)

/-- Reads what may follow the consequents, and nothing after it: `with` and a weight. -/
def ending : List String → Except (Fault α) α
  | [] => .ok 1.0
  | word :: rest =>
    if word ≠ "with" then .error (.trailing word)
    else match rest with
      | [] => .error (.endOfRule .weight)
      | w :: rest => do
        let w ← weight w
        match rest with
        | [] => pure w
        | extra :: _ => .error (.trailing extra)

/-- Reads the words of a rule; the rule shows `text`. -/
def readWords (inputs outputs : Vocabulary) (text : String) (ws : List String) :
    Except (Fault α) (Rule α) := do
  let ws ← expect "if" ws
  let (condition, ws) ← operand inputs [] .none ws
  let ws ← expect "then" ws
  let (ps, ws) ← consequents outputs ws
  let w ← ending ws
  pure ⟨text, condition, ps, w⟩

/-- **Reads a rule.**  The rule keeps its text without the blanks around it. -/
def read (inputs outputs : Vocabulary) (text : String) : Except (Fault α) (Rule α) :=
  readWords inputs outputs (trimmed text) (words text)

end CapacityControl.Fuzzy.RuleText
