/-
  CapacityControl.Document.Json.Number
  ────────────────────────────────────
  NUMBERS OF JSON.  A number is an optional minus sign, a whole part without leading
  zeros, optionally a point with at least one digit, and optionally a power of ten.

  Its value is the significand times a power of ten, in one multiplication or division.
  The significand is a whole number below `2^64`: digits that do not fit are left out,
  and only the exponent knows of them.
-/
import CapacityControl.Scalar

namespace CapacityControl.Document.Json

variable {α : Type} [Scalar α]

/-! ## §1. Written numbers. -/

/-- A number in its parts. -/
structure Number where
  negative : Bool
  whole : List Char
  /-- The digits behind the point, if there is one. -/
  places : Option (List Char)
  /-- The sign and the digits of the power of ten, if there is one. -/
  power : Option (Bool × List Char)

namespace Number

/-- Splits off the digits at the beginning, of which there has to be one. -/
def digits? (cs : List Char) : Option (List Char × List Char) :=
  let ds := cs.takeWhile Char.isDigit
  if ds.isEmpty then none else some (ds, cs.dropWhile Char.isDigit)

/-- Splits off a whole part: a zero alone, or digits that do not begin with zero. -/
def whole? (cs : List Char) : Option (List Char × List Char) := do
  let (ds, rest) ← digits? cs
  if ds.head? = some '0' && 1 < ds.length then none else some (ds, rest)

/-- Splits off a point and digits. -/
def places? : List Char → Option (Option (List Char) × List Char)
  | '.' :: cs => (digits? cs).map fun (ds, rest) => (some ds, rest)
  | cs => some (none, cs)

/-- Splits off a power of ten. -/
def power? : List Char → Option (Option (Bool × List Char) × List Char)
  | c :: cs =>
    if c = 'e' || c = 'E' then
      let (negative, cs) := match cs with
        | '+' :: cs => (false, cs)
        | '-' :: cs => (true, cs)
        | cs => (false, cs)
      (digits? cs).map fun (ds, rest) => (some (negative, ds), rest)
    else some (none, c :: cs)
  | [] => some (none, [])

/-- Splits off a number. -/
def read? (cs : List Char) : Option (Number × List Char) := do
  let (negative, cs) := match cs with
    | '-' :: cs => (true, cs)
    | cs => (false, cs)
  let (whole, cs) ← whole? cs
  let (places, cs) ← places? cs
  let (power, cs) ← power? cs
  some (⟨negative, whole, places, power⟩, cs)

/-- Reads a whole text as a number. -/
def ofText? (text : String) : Option Number :=
  match read? text.toList with
  | some (n, []) => some n
  | _ => none

/-! ## §2. The significand. -/

/-- The value of a digit. -/
def digit (c : Char) : Nat := c.toNat - '0'.toNat

/-- Appends digits to a significand as long as it stays below `limit`; the digits that no
longer fit are returned. -/
def gather (limit : Nat) : Nat → List Char → Nat × List Char
  | n, [] => (n, [])
  | n, c :: cs =>
    if 10 * n + digit c < limit then gather limit (10 * n + digit c) cs else (n, c :: cs)

/-- The bound of significands. -/
def significandLimit : Nat := Nat.pow 2 64

/-- The bound of the exponent that is written. -/
def exponentLimit : Nat := Nat.pow 2 31

/-- The significand and the power of ten that the digits stand for. -/
def parts (n : Number) : Nat × Int :=
  let (significand, left) := gather significandLimit 0 n.whole
  match n.places with
  | none => (significand, left.length)
  | some places =>
    let (significand, dropped) := gather significandLimit significand places
    (significand, (left.length : Int) - ((places.length - dropped.length : Nat) : Int))

/-! ## §3. The value. -/

/-- A power of ten. -/
def powerOfTen (e : Nat) : α := Scalar.ofLiteral (.decimal false 1 e)

/-- The greatest power of ten that is used at once. -/
def greatestPower : Nat := 308

/-- Division by a power of ten, in steps if it is too great. -/
def divided (f : α) (e : Nat) : α :=
  if greatestPower < e then
    if f == 0.0 then f else divided (f / powerOfTen greatestPower) (e - greatestPower)
  else f / powerOfTen e
termination_by e
decreasing_by simp only [greatestPower] at *; omega

/-- A significand times a power of ten; `none` if it is too great. -/
def scaled (significand : Nat) (e : Int) : Option α :=
  let f : α := Scalar.ofNat significand
  if e < 0 then some (divided f e.natAbs)
  else if (greatestPower : Int) < e then if f == 0.0 then some f else none
  else
    let r := f * powerOfTen e.natAbs
    if Scalar.isFinite r then some r else none

/-- The size of the number; `none` if it is too great. -/
def size? (n : Number) : Option α :=
  let (significand, e) := n.parts
  match n.power with
  | none => if n.places.isNone && e == 0 then some (Scalar.ofNat significand) else scaled significand e
  | some (negative, ds) =>
    let (written, left) := gather exponentLimit 0 ds
    if left.isEmpty then scaled significand (if negative then e - written else e + written)
    else if significand = 0 || negative then some 0.0
    else none

/-- **The value of the number**; `none` if it is too great. -/
def value? (n : Number) : Option α := n.size?.map fun x => if n.negative then -x else x

/-- The value as a count: without sign, point and power, and below the bound. -/
def count? (n : Number) : Option Nat :=
  let (significand, left) := gather significandLimit 0 n.whole
  if !n.negative && n.places.isNone && n.power.isNone && left.isEmpty then some significand
  else none

end Number

end CapacityControl.Document.Json
