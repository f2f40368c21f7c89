/-
  CapacityControl.Document.Yaml.Dialect
  ─────────────────────────────────────
  WHAT YAML SAYS.  Only a plain scalar is a number or a flag; where a text is wanted, any
  scalar is one.  In a tagged value a plain scalar is first taken for the nothing, a flag,
  a whole number or a real that it may write, and for a text only if it writes none.
-/
import CapacityControl.Document.Dialect
import CapacityControl.Document.Node

namespace CapacityControl.Document.Yaml

variable {α : Type} [Scalar α]

/-! ## §1. Reals. -/

/-- A text without a plus sign in front; a second sign may not follow it. -/
def withoutPlus? (cs : List Char) : Option (List Char) :=
  match cs with
  | '+' :: '+' :: _ => none
  | '+' :: '-' :: _ => none
  | '+' :: cs => some cs
  | cs => some cs

/-- The number that is not finite and that a text writes. -/
def special? (text : String) : Option Literal :=
  if text = ".nan" || text = ".NaN" || text = ".NAN" then some .notANumber
  else if text = "-.inf" || text = "-.Inf" || text = "-.INF" then some (.infinite true)
  else match withoutPlus? text.toList with
    | none => none
    | some cs =>
      let unsigned := String.ofList cs
      if unsigned = ".inf" || unsigned = ".Inf" || unsigned = ".INF" then some (.infinite false)
      else none

/-- The decimal that a text writes. -/
def decimal? (text : String) : Option Literal := do
  match Literal.read? (String.ofList (← withoutPlus? text.toList)) with
  | some (.decimal negative digits exponent) => some (.decimal negative digits exponent)
  | _ => none

/-- The real that a text writes.  A decimal beyond the range of the arithmetic is none. -/
def realText? (text : String) : Option α :=
  match special? text with
  | some l => some (Scalar.ofLiteral l)
  | none => ((decimal? text).map Scalar.ofLiteral).filter (Scalar.isFinite ·)

/-- A real where one is wanted. -/
def real? : Node → Option α
  | .scalar false text => realText? text
  | _ => none

/-! ## §2. Whole numbers. -/

/-- The value of digits of a base, all of which have to be digits, and at least one. -/
def digitsOf? (base : Nat) (cs : List Char) : Option Nat :=
  let digit (c : Char) : Option Nat :=
    if c.isDigit then some (c.toNat - '0'.toNat)
    else if 'a' ≤ c ∧ c ≤ 'f' then some (c.toNat - 'a'.toNat + 10)
    else if 'A' ≤ c ∧ c ≤ 'F' then some (c.toNat - 'A'.toNat + 10)
    else none
  if cs.isEmpty then none
  else cs.foldlM (fun n c => do
    let d ← digit c
    if d < base then some (base * n + d) else none) 0

/-- The value of digits with a sign of their base in front. -/
def basedDigits? (cs : List Char) : Option Nat :=
  match cs with
  | '0' :: 'x' :: ds => digitsOf? 16 ds
  | '0' :: 'o' :: ds => digitsOf? 8 ds
  | '0' :: 'b' :: ds => digitsOf? 2 ds
  | ds => digitsOf? 10 ds

/-- A text without its sign. -/
def withoutSign : List Char → List Char
  | '-' :: cs => cs
  | '+' :: cs => cs
  | cs => cs

/-- Digits that begin with a zero they do not need, which write no number. -/
def isPadded (text : String) : Bool :=
  match withoutSign text.toList with
  | '0' :: c :: cs => (c :: cs).all Char.isDigit
  | _ => false

/-- The whole number that a text writes. -/
def integer? (text : String) : Option Int :=
  if isPadded text then none
  else match text.toList with
    | '-' :: cs => (basedDigits? cs).map fun n => -(n : Int)
    | '+' :: cs => (basedDigits? cs).map Int.ofNat
    | cs => (basedDigits? cs).map Int.ofNat

/-- The least whole number that needs more than so many bits. -/
def ofBits (bits : Nat) : Int := Nat.pow 2 bits

/-- Whether a whole number is one that documents can hold. -/
def isHeld (n : Int) : Bool := decide (-ofBits 63 ≤ n) && decide (n < ofBits 64)

/-- Whether a whole number is too great for a document, and yet not so great that it is a
real. -/
def isStranded (n : Int) : Bool :=
  !isHeld n && decide (-ofBits 127 ≤ n) && decide (n < ofBits 128)

/-! ## §3. Other scalars. -/

/-- The nothing. -/
def isNullText (text : String) : Bool :=
  text = "null" || text = "Null" || text = "NULL" || text = "~"

/-- The flag that a text writes. -/
def flagText? (text : String) : Option Bool :=
  if text = "true" || text = "True" || text = "TRUE" then some true
  else if text = "false" || text = "False" || text = "FALSE" then some false
  else none

/-- A flag where one is wanted. -/
def flag? : Node → Option Bool
  | .scalar false text => flagText? text
  | _ => none

/-- Nothing where there may be nothing. -/
def isAbsent : Node → Bool
  | .scalar false text => text = "" || isNullText text
  | _ => false

/-- What a plain scalar in a tagged value is taken for. -/
inductive Resolved (α : Type) where
  | nothing
  | flag (value : Bool)
  | integer (value : Int)
  | real (value : α)
  | text
  deriving DecidableEq

/-- **What a plain scalar is taken for.** -/
def resolve (text : String) : Resolved α :=
  if text = "" || isNullText text then .nothing
  else match flagText? text with
  | some b => .flag b
  | none =>
    let float : Resolved α :=
      if isPadded text then .text
      else match realText? text with
        | some x => .real x
        | none => .text
    match integer? text with
    | some n => if isHeld n || isStranded n then .integer n else float
    | none => float

/-- The real of a whole number. -/
def ofInt (n : Int) : α :=
  if n < 0 then -Scalar.ofNat n.natAbs else Scalar.ofNat n.natAbs

/-- A real in a tagged value. -/
def taggedReal? : Node → Option α
  | .scalar false text =>
    match (resolve text : Resolved α) with
    | .integer n => if isHeld n then some (ofInt n) else none
    | .real x => some x
    | _ => none
  | _ => none

/-- A scalar that may stand in a tagged value: all but whole numbers that are too great. -/
def admits : Node → Bool
  | .scalar false text =>
    match (resolve text : Resolved α) with
    | .integer n => isHeld n
    | _ => true
  | _ => true

/-- A key of a tagged value: a text, or the place of a field. -/
def taggedKey? (fields : List String) : Node → Option (Option Nat)
  | .scalar true text => some (fields.idxOf? text)
  | .scalar false text =>
    match (resolve text : Resolved α) with
    | .text => some (fields.idxOf? text)
    | .integer n =>
      if n < 0 then none
      else some (if n.toNat < fields.length then some n.toNat else none)
    | _ => none
  | _ => none

/-- **The dialect of YAML.** -/
def dialect : Dialect α where
  real? := real?
  taggedReal? := taggedReal?
  flag? := flag?
  text? := Node.text?
  word? := Node.text?
  isAbsent := isAbsent
  isEmptyMap
    | .scalar false "" => true
    | _ => false
  key? := Node.text?
  taggedKey? := taggedKey? (α := α)
  admits := admits (α := α)
  depth := 128

end CapacityControl.Document.Yaml
