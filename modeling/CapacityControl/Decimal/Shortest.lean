/-
  CapacityControl.Decimal.Shortest
  ────────────────────────────────
  THE FEWEST DIGITS THAT READ BACK.  A positive binary number `m · 2^q` stands for
  every real that rounds to it: an interval around it, closed if `m` is even.  Among
  the decimals in that interval, `Magnitude.shortest` takes one with the fewest
  digits, and of those the nearest to the number; where two are equally near, the
  `Tie` decides.  The search is exact: for `1, 2, … , 17` digits it tests the two
  neighbours of the number on that decimal grid by cross-multiplication of natural
  numbers.
-/

namespace CapacityControl.Decimal

/-! ## §1. Binary magnitudes. -/

/-- The positive number `mantissa · 2^exponent`.  `narrowBelow` says that the next
smaller binary number is half as far away as the next larger one. -/
structure Magnitude where
  mantissa : Nat
  exponent : Int
  narrowBelow : Bool

/-- Which of two equally near decimals is taken. -/
inductive Tie where
  /-- The greater one. -/
  | up
  /-- The one whose last digit is even. -/
  | even
  deriving DecidableEq, Repr

/-- A decimal `digits · 10^exponent`. -/
structure Digits where
  digits : Nat
  exponent : Int
  deriving DecidableEq, Repr

namespace Magnitude

/-- The whole power `b^e`, or one if `e` is negative. -/
def powerUp (b : Nat) (e : Int) : Nat := Nat.pow b e.toNat

/-- The whole power `b^(-e)`, or one if `e` is positive. -/
def powerDown (b : Nat) (e : Int) : Nat := Nat.pow b (-e).toNat

/-! ## §2. The grid of a decimal exponent.

On the grid of `10^e` a quarter unit of the binary number weighs `quarter` and a grid
step weighs `step`, so that `d · 10^e` is compared with `k / 4` binary units by comparing
`d · step` with `k · quarter`. -/

/-- The weights of one decimal grid. -/
structure Grid where
  quarter : Nat
  step : Nat

/-- The grid of `10^e`. -/
def grid (x : Magnitude) (e : Int) : Grid :=
  ⟨powerUp 2 (x.exponent - 2) * powerDown 10 e, powerUp 10 e * powerDown 2 (x.exponent - 2)⟩

/-- Whether `d · 10^e` rounds to the number. -/
def covers (x : Magnitude) (g : Grid) (d : Nat) : Bool :=
  let low := (4 * x.mantissa - (if x.narrowBelow then 1 else 2)) * g.quarter
  let high := (4 * x.mantissa + 2) * g.quarter
  let v := d * g.step
  if x.mantissa % 2 = 0 then decide (low ≤ v) && decide (v ≤ high)
  else decide (low < v) && decide (v < high)

/-- The nearer of two neighbours at these distances. -/
def nearer (tie : Tie) (below toBelow above toAbove : Nat) : Nat :=
  if toBelow < toAbove then below
  else if toAbove < toBelow then above
  else match tie with
    | .up => above
    | .even => if below % 2 = 0 then below else above

/-- The point of the grid nearest to the number among those that round to it, if any. -/
def onGrid? (tie : Tie) (x : Magnitude) (g : Grid) : Option Nat :=
  let v := 4 * x.mantissa * g.quarter
  let below := v / g.step
  let above := below + 1
  match covers x g below, covers x g above with
  | true, true => some (nearer tie below (v - below * g.step) above (above * g.step - v))
  | true, false => some below
  | false, true => some above
  | false, false => none

/-! ## §3. The search. -/

/-- Whether the number is at least `10^e`. -/
def reaches (x : Magnitude) (e : Int) : Bool :=
  let g := grid x e
  decide (g.step ≤ 4 * x.mantissa * g.quarter)

/-- The exponent of the leading decimal digit: the greatest `e` with `10^e` not above the
number, found from the binary length up to one. -/
def leading (x : Magnitude) : Int :=
  let guess := ((x.mantissa.log2 : Int) + x.exponent) * 30103 / 100000
  if reaches x (guess + 1) then guess + 1 else if reaches x guess then guess else guess - 1

/-- A decimal without the zeros at its end. -/
def trimmed (d : Digits) : Digits := go 20 d
where
  /-- Drops at most `fuel` zeros. -/
  go : Nat → Digits → Digits
    | 0, d => d
    | fuel + 1, d =>
      if d.digits ≠ 0 && d.digits % 10 = 0 then go fuel ⟨d.digits / 10, d.exponent + 1⟩ else d

/-- The nearest of the shortest decimals that round to the number. -/
def shortest (tie : Tie) (x : Magnitude) : Digits :=
  let top := leading x
  let hit := (List.range 17).findSome? fun n : Nat =>
    let e := top - (n : Int)
    (onGrid? tie x (grid x e)).map fun d => trimmed ⟨d, e⟩
  hit.getD ⟨x.mantissa, 0⟩

end Magnitude

end CapacityControl.Decimal
