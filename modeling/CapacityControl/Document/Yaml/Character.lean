/-
  CapacityControl.Document.Yaml.Character
  ───────────────────────────────────────
  CHARACTERS AND PLACES.  A document is made of printable characters, blanks and line
  breaks; where a character stands decides what it begins.
-/

namespace CapacityControl.Document.Yaml

/-! ## §1. Characters. -/

/-- A character that stands between words on one line. -/
def isBlank (c : Char) : Bool := c = ' ' || c = '\t'

/-- A character that ends a line.  Other breaks are replaced by the first of these. -/
def isBreak (c : Char) : Bool := c = '\n' || c = '\u2028' || c = '\u2029'

/-- The grave accent, which begins nothing. -/
def graveAccent : Char := Char.ofNat 0x60

/-- Whether a word ends before these characters. -/
def endsWord : List Char → Bool
  | [] => true
  | c :: _ => isBlank c || isBreak c

/-- A character that may stand in a document. -/
def isAllowed (c : Char) : Bool :=
  let n := c.toNat
  n = 0x09 || n = 0x0A || n = 0x0D || (0x20 ≤ n && n ≤ 0x7E) || n = 0x85 ||
    (0xA0 ≤ n && n ≤ 0xFFFD && n ≠ 0xFEFF) || 0x10000 ≤ n

/-- A text with every carriage return, alone or before a line feed, and every next-line
character replaced by a line feed. -/
def unified : List Char → List Char
  | '\r' :: '\n' :: cs => '\n' :: unified cs
  | '\r' :: cs => '\n' :: unified cs
  | '\u0085' :: cs => '\n' :: unified cs
  | c :: cs => c :: unified cs
  | [] => []

/-! ## §2. Places. -/

/-- A place in a text, all counted from zero. -/
structure Mark where
  index : Nat
  line : Nat
  column : Nat
  deriving DecidableEq, Repr

namespace Mark

/-- The place after a character of the line. -/
def step (m : Mark) : Mark := ⟨m.index + 1, m.line, m.column + 1⟩

/-- The place after a line break. -/
def newline (m : Mark) : Mark := ⟨m.index + 1, m.line + 1, 0⟩

/-- The place after a character. -/
def past (m : Mark) (c : Char) : Mark := if isBreak c then m.newline else m.step

end Mark

/-- What is left of a text, and where that begins. -/
structure Cursor where
  rest : List Char
  mark : Mark

namespace Cursor

/-- The beginning of a text. -/
def start (cs : List Char) : Cursor := ⟨cs, ⟨0, 0, 0⟩⟩

/-- Past one character. -/
def next (c : Cursor) : Cursor :=
  match c.rest with
  | [] => c
  | x :: xs => ⟨xs, c.mark.past x⟩

/-- Past so many characters. -/
def skip (c : Cursor) : Nat → Cursor
  | 0 => c
  | n + 1 => c.next.skip n

/-- Past the characters that satisfy a condition. -/
def skipWhile (c : Cursor) (p : Char → Bool) : Cursor := c.skip (c.rest.takeWhile p).length

/-- Whether a document begins or ends here: three dashes or points at the beginning of a
line. -/
def atMarker (c : Cursor) : Bool :=
  c.mark.column == 0 &&
    match c.rest with
    | '-' :: '-' :: '-' :: cs => endsWord cs
    | '.' :: '.' :: '.' :: cs => endsWord cs
    | _ => false

end Cursor

end CapacityControl.Document.Yaml
