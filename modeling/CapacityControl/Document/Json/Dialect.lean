/-
  CapacityControl.Document.Json.Dialect
  ─────────────────────────────────────
  WHAT JSON SAYS.  Reals are numbers, texts are strings, and a word of a choice is a
  string or a mapping from that string to `null`.
-/
import CapacityControl.Document.Dialect
import CapacityControl.Document.Json.Read

namespace CapacityControl.Document.Json

variable {α : Type} [Scalar α]

/-- The number that a scalar writes. -/
def number? : Node → Option Number
  | .scalar false text => Number.ofText? text
  | _ => none

/-- A real is a number that is not too great. -/
def real? (n : Node) : Option α := (number? n).bind Number.value?

/-- A count is a number without sign, point and power. -/
def count? (n : Node) : Option Nat := (number? n).bind Number.count?

/-- A text is a string. -/
def text? : Node → Option String
  | .scalar true text => some text
  | _ => none

/-- A flag is one of two words. -/
def flag? : Node → Option Bool
  | .scalar false "true" => some true
  | .scalar false "false" => some false
  | _ => none

/-- The word for no value. -/
def isNull : Node → Bool
  | .scalar false "null" => true
  | _ => false

/-- A choice is a string, or a mapping from it to nothing. -/
def choice? : Node → Option String
  | .map [(key, value)] => if isNull value then text? key else none
  | n => text? n

/-- A scalar that may stand in a tagged value: no number that is too great, and no string
without text. -/
def admits : Node → Bool
  | .scalar false text =>
    match Number.ofText? text with
    | some n => (n.value? : Option α).isSome
    | none => true
  | .garbled => false
  | _ => true

/-- **The dialect of JSON.** -/
def dialect : Dialect α where
  real? := real?
  taggedReal? := real?
  flag? := flag?
  text? := text?
  word? := choice?
  isAbsent := isNull
  isEmptyMap _ := false
  key? := text?
  taggedKey? fields n := (text? n).map fun k => fields.idxOf? k
  admits := admits (α := α)
  depth := 127

end CapacityControl.Document.Json
