/-
  CapacityControl.Document.Yaml.Style
  ───────────────────────────────────
  HOW STRINGS ARE WRITTEN.  A string is written plainly if that reads back as the same
  string; else in single quotes, over several lines as a block, or, where neither can
  hold it, in double quotes with escapes.
-/
import CapacityControl.Document.Yaml.Dialect
import CapacityControl.Document.Yaml.Flow
import CapacityControl.Decimal.Layout

namespace CapacityControl.Document.Yaml

/-! ## §1. What a string is made of. -/

/-- A character that is shown as it is.  Those outside of the basic plane are not. -/
def isShown (c : Char) : Bool :=
  let n := c.toNat
  n = 0x0A || (0x20 ≤ n && n ≤ 0x7E) || (0xA0 ≤ n && n ≤ 0xFFFD && n ≠ 0xFEFF)

/-- Characters that cannot begin a plain scalar. -/
def beginsOther (c : Char) : Bool :=
  isBracket c || "#,&*!|>\"%@".toList.contains c || c = '\'' || c = graveAccent

/-- Whether a plain scalar would end, or become something else, at a character with a blank
or the beginning before it, and these behind. -/
def breaksPlain (blankBefore : Bool) (c : Char) (behind : List Char) : Bool :=
  (c = ':' && endsWord behind) || (c = '#' && blankBefore)

/-- Whether any character of a string ends a plain scalar. -/
def endsPlain : Bool → List Char → Bool
  | _, [] => false
  | blankBefore, c :: cs =>
    breaksPlain blankBefore c cs || endsPlain (isBlank c || isBreak c) cs

/-- Whether the beginning of a string is that of something else than a plain scalar. -/
def startsOther (cs : List Char) : Bool :=
  match cs with
  | [] => false
  | c :: rest =>
    beginsOther c || ((c = '?' || c = ':' || c = '-') && endsWord rest) ||
      "---".toList.isPrefixOf cs || "...".toList.isPrefixOf cs

/-- Whether two characters that follow each other satisfy conditions. -/
def hasPair (p q : Char → Bool) : List Char → Bool
  | a :: b :: cs => (p a && q b) || hasPair p q (b :: cs)
  | _ => false

/-- What decides on the style of a string. -/
structure Traits where
  empty : Bool
  /-- It would be read as something else. -/
  misread : Bool
  lines : Bool
  special : Bool
  spaceFirst : Bool
  spaceLast : Bool
  breakFirst : Bool
  breakLast : Bool
  spaceThenBreak : Bool
  breakThenSpace : Bool

/-- The traits of a string. -/
def traits (cs : List Char) : Traits where
  empty := cs.isEmpty
  misread := startsOther cs || endsPlain true cs
  lines := cs.any isBreak
  special := cs.any (!isShown ·)
  spaceFirst := cs.head? = some ' '
  spaceLast := cs.getLast? = some ' '
  breakFirst := cs.head?.any isBreak
  breakLast := cs.getLast?.any isBreak
  spaceThenBreak := hasPair (· = ' ') isBreak cs
  breakThenSpace := hasPair isBreak (· = ' ') cs

namespace Traits

/-- Whether double quotes are the only way. -/
def needsEscapes (t : Traits) : Bool := t.special || t.spaceThenBreak

/-- Whether it can be written plainly. -/
def allowsPlain (t : Traits) : Bool :=
  !(t.misread || t.lines || t.needsEscapes || t.spaceFirst || t.spaceLast || t.breakFirst ||
    t.breakLast)

/-- Whether it can be written in single quotes. -/
def allowsSingle (t : Traits) : Bool := !(t.needsEscapes || t.breakThenSpace)

/-- Whether it can be written as a block. -/
def allowsBlock (t : Traits) : Bool := !(t.empty || t.needsEscapes || t.spaceLast)

end Traits

/-! ## §2. Styles. -/

/-- The ways to write a string. -/
inductive Style where
  | plain
  | single
  | double
  | literal
  deriving DecidableEq, Repr

/-- Whether a plain scalar with this text would not be read as a text. -/
def isAmbiguous (α : Type) [Scalar α] (s : String) : Bool :=
  isPadded s ||
    match (resolve s : Resolved α) with
    | .text => false
    | _ => true

/-- **The style of a string.** -/
def style (α : Type) [Scalar α] (s : String) : Style :=
  let cs := s.toList
  let t := traits cs
  if cs.contains '\n' then if t.allowsBlock then .literal else .double
  else if t.allowsPlain && !isAmbiguous α s then .plain
  else if t.allowsSingle then .single
  else .double

/-! ## §3. Texts. -/

/-- A string in single quotes. -/
def single (cs : List Char) : List Char :=
  '\'' :: (cs.flatMap fun c => if c = '\'' then ['\'', '\''] else [c]) ++ ['\'']

/-- A hexadecimal number with so many digits. -/
def hexDigits : Nat → Nat → List Char
  | 0, _ => []
  | width + 1, n => hexDigits width (n / 16) ++ [(Nat.digitChar (n % 16)).toUpper]

/-- The letter of a character that has one behind a backslash. -/
def escapeLetter? (c : Char) : Option Char :=
  ['0', 'a', 'b', 't', 'n', 'v', 'f', 'r', 'e', '"', '\\', 'N', '_', 'L', 'P'].find? fun l =>
    escape? l == some c

/-- A character as it stands in double quotes. -/
def escaped (c : Char) : List Char :=
  let n := c.toNat
  if isShown c && !isBreak c && c ≠ '"' && c ≠ '\\' then [c]
  else match escapeLetter? c with
    | some l => ['\\', l]
    | none =>
      if n ≤ 0xFF then '\\' :: 'x' :: hexDigits 2 n
      else if n ≤ 0xFFFF then '\\' :: 'u' :: hexDigits 4 n
      else '\\' :: 'U' :: hexDigits 8 n

/-- A string in double quotes. -/
def double (cs : List Char) : List Char := '"' :: cs.flatMap escaped ++ ['"']

/-- The signs of a block: its indentation if it begins with a blank, and what becomes of the
breaks at its end. -/
def blockSigns (step : Nat) (cs : List Char) : List Char :=
  (if cs.head?.any fun c => c = ' ' || isBreak c then Decimal.digitChars step else []) ++
    match cs.reverse with
    | a :: b :: _ => if !isBreak a then ['-'] else if isBreak b then ['+'] else []
    | [a] => if isBreak a then ['+'] else ['-']
    | [] => ['-']

/-- The lines of a block, those with text indented. -/
def blockLines (margin : List Char) : Bool → List Char → List Char
  | _, [] => []
  | atStart, c :: cs =>
    if isBreak c then c :: blockLines margin true cs
    else (if atStart then margin else []) ++ c :: blockLines margin false cs

end CapacityControl.Document.Yaml
