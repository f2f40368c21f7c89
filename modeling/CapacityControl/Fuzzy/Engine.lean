/-
  CapacityControl.Fuzzy.Engine
  ────────────────────────────
  INFERENCE.  An engine owns the variables and rule blocks of one fuzzy system.  A cycle
  sets every input, infers, and reads the outputs.  Every operation that can refuse
  returns the changed engine or an error, so a refused operation changes nothing.
-/
import CapacityControl.Fuzzy.Error
import CapacityControl.Fuzzy.RuleText.Read

namespace CapacityControl.Fuzzy

variable {α : Type} [Scalar α]

/-- A fuzzy system: variables and rules. -/
structure Engine (α : Type) where
  name : String
  inputs : List (Input α)
  outputs : List (Output α)
  blocks : List (RuleBlock α)

namespace Engine

/-! ## §1. Assembly. -/

/-- An engine with nothing in it. -/
def new (name : String) : Engine α := ⟨name, [], [], []⟩

/-- The input of that name. -/
def input? (e : Engine α) (name : String) : Option (Input α) := e.inputs.find? (·.name == name)

/-- The output of that name. -/
def output? (e : Engine α) (name : String) : Option (Output α) := e.outputs.find? (·.name == name)

/-- Whether a variable has this name. -/
def isTaken (e : Engine α) (name : String) : Bool :=
  e.inputs.any (·.name == name) || e.outputs.any (·.name == name)

/-- Adds an input under a new name. -/
def addInput (e : Engine α) (v : Input α) : Except (Error α) (Engine α) :=
  if e.isTaken v.name then .error (.duplicateVariable v.name)
  else .ok { e with inputs := e.inputs ++ [v] }

/-- Adds an output under a new name. -/
def addOutput (e : Engine α) (v : Output α) : Except (Error α) (Engine α) :=
  if e.isTaken v.name then .error (.duplicateVariable v.name)
  else .ok { e with outputs := e.outputs ++ [v] }

/-- The names that conditions may use. -/
def inputVocabulary (e : Engine α) : RuleText.Vocabulary :=
  e.inputs.map fun v => (v.name, v.terms.map (·.name))

/-- The names that consequents may use. -/
def outputVocabulary (e : Engine α) : RuleText.Vocabulary :=
  e.outputs.map fun v => (v.name, v.terms.map (·.name))

/-- Reads the text of a rule over the variables of the engine. -/
def readRule (e : Engine α) (text : String) : Except (Error α) (Rule α) :=
  (RuleText.read e.inputVocabulary e.outputVocabulary text).mapError (.unreadable text)

/-- Whether an input and its term exist. -/
def hasInputTerm (e : Engine α) (p : Proposition) : Bool :=
  match e.inputs[p.var]? with
  | some v => decide (p.term < v.terms.length)
  | none => false

/-- Whether an output and its term exist. -/
def hasOutputTerm (e : Engine α) (p : Proposition) : Bool :=
  match e.outputs[p.var]? with
  | some v => decide (p.term < v.terms.length)
  | none => false

/-- Whether everything that a rule refers to exists. -/
def admits (e : Engine α) (r : Rule α) : Bool :=
  r.condition.propositions.all e.hasInputTerm && r.consequents.all e.hasOutputTerm

/-- Adds a block whose rules refer only to what exists. -/
def addBlock (e : Engine α) (b : RuleBlock α) : Except (Error α) (Engine α) :=
  if b.rules.all e.admits then .ok { e with blocks := e.blocks ++ [b] }
  else .error (.violated .ruleIndices)

/-! ## §2. Values. -/

/-- Sets the value of an input. -/
def setInput (e : Engine α) (name : String) (value : α) : Except (Error α) (Engine α) :=
  match e.inputs.findIdx? (·.name == name) with
  | some i => .ok { e with inputs := e.inputs.modify i fun v => { v with value := value } }
  | none => .error (.unknownVariable name)

/-- The value of an input. -/
def inputValue (e : Engine α) (name : String) : Except (Error α) α :=
  match e.input? name with
  | some v => .ok v.value
  | none => .error (.unknownVariable name)

/-- The value of an output after the last inference. -/
def outputValue (e : Engine α) (name : String) : Except (Error α) α :=
  match e.output? name with
  | some v => .ok v.value
  | none => .error (.unknownVariable name)

/-- The term of a variable; an input of that name goes before an output. -/
def term? (e : Engine α) (var term : String) : Option (Term α) :=
  match e.input? var with
  | some v => termNamed? v.terms term
  | none => (e.output? var).bind fun v => termNamed? v.terms term

/-- Unsets every input and clears every output. -/
def restart (e : Engine α) : Engine α :=
  { e with
    inputs := e.inputs.map fun v => { v with value := Scalar.nan }
    outputs := e.outputs.map Output.cleared }

/-! ## §3. Inference. -/

/-- What the engine lacks, if anything. -/
def missing? (e : Engine α) : Option Missing :=
  if e.inputs.isEmpty then some .inputs
  else if e.outputs.isEmpty then some .outputs
  else if e.blocks.all (·.rules.isEmpty) then some .rules
  else none

/-- Whether there are an input, an output and a rule. -/
def isReady (e : Engine α) : Bool := e.missing?.isNone

/-- The rules that fire for the current input values, in order. -/
def firings (e : Engine α) : List (Firing α) := e.blocks.flatMap (·.firings e.inputs)

/-- The outputs with the activations of the firing rules and the values that follow. -/
def inferred (e : Engine α) : List (Output α) :=
  let firings := e.firings
  e.outputs.mapIdx fun i v => { v with activations := activationsOf i firings }.defuzzified

/-- **One inference** over the current input values, all of which have to be numbers. -/
def process (e : Engine α) : Except (Error α) (Engine α) :=
  match e.missing? with
  | some m => .error (.notReady m)
  | none =>
    match e.inputs.find? (!·.isSet) with
    | some v => .error (.notFiniteInput v.name v.value)
    | none => .ok { e with outputs := e.inferred }

end Engine

end CapacityControl.Fuzzy
