/-
  CapacityControl.Document.Yaml.Block
  ───────────────────────────────────
  BLOCK SCALARS.  A vertical bar keeps the lines of the text below it as they are; a
  greater-than sign joins them where both begin with a word.  Signs behind it say how
  deep the text is indented, and what becomes of the breaks at its end.
-/
import CapacityControl.Document.Yaml.Flow

namespace CapacityControl.Document.Yaml

/-! ## §1. Headers. -/

/-- What becomes of the breaks at the end. -/
inductive Chomping where
  /-- None is kept. -/
  | strip
  /-- One is kept. -/
  | clip
  /-- All are kept. -/
  | keep
  deriving DecidableEq, Repr

/-- The signs behind the first one. -/
structure Header where
  chomping : Chomping
  indent : Option Nat

/-- The chomping of a sign. -/
def chomping? : Char → Option Chomping
  | '+' => some .keep
  | '-' => some .strip
  | _ => none

/-- Splits off an indentation. -/
def indentSign (c : Cursor) : Option (Option Nat × Cursor) :=
  match c.rest with
  | d :: _ =>
    if d = '0' then none
    else if d.isDigit then some (some (d.toNat - '0'.toNat), c.next)
    else some (none, c)
  | [] => some (none, c)

/-- Splits off the signs, in either order. -/
def header? (c : Cursor) : Option (Header × Cursor) := do
  match c.rest.head?.bind chomping? with
  | some ch =>
    let (indent, c) ← indentSign c.next
    some (⟨ch, indent⟩, c)
  | none =>
    let (indent, c) ← indentSign c
    match indent, c.rest.head?.bind chomping? with
    | some n, some ch => some (⟨ch, some n⟩, c.next)
    | indent, _ => some (⟨.clip, indent⟩, c)

/-- Splits off the rest of the first line: blanks, a comment, and the break. -/
def headerEnd? (c : Cursor) : Option Cursor :=
  let c := c.skipWhile isBlank
  let c := if c.rest.head? = some '#' then c.skipWhile (!isBreak ·) else c
  match c.rest with
  | [] => some c
  | x :: _ => if isBreak x then some c.next else none

/-! ## §2. Lines. -/

/-- Breaks before a line with text, and how far the empty lines reached. -/
structure Margin where
  breaks : List Char
  deepest : Nat
  after : Cursor

/-- Splits off empty lines.  Without a known indentation, spaces are taken as far as they go;
a tab must not stand among them. -/
def margin? (indent : Option Nat) : Nat → List Char → Nat → Cursor → Option Margin
  | 0, _, _, _ => none
  | fuel + 1, breaks, deepest, c =>
    let limit := match indent with
      | some n => n - c.mark.column
      | none => c.rest.length
    let c := c.skip (min limit (c.rest.takeWhile (· = ' ')).length)
    let deepest := max deepest c.mark.column
    let short := match indent with
      | some n => c.mark.column < n
      | none => true
    match c.rest with
    | [] => some ⟨breaks, deepest, c⟩
    | x :: _ =>
      if short && x = '\t' then none
      else if isBreak x then margin? indent fuel (breaks ++ [x]) deepest c.next
      else some ⟨breaks, deepest, c⟩

/-- What stands between two lines: the break of the first, as it is read, and the empty lines
after it. -/
def joint (folds : Bool) (leading : List Char) (blankBefore blankAfter : Bool)
    (trailing : List Char) : List Char :=
  if folds && leading = ['\n'] && !blankBefore && !blankAfter then
    if trailing.isEmpty then [' '] else trailing
  else leading ++ trailing

/-- A text up to some line, the break of that line and the empty lines after it. -/
structure Progress where
  text : List Char
  leading : List Char
  trailing : List Char
  after : Cursor

/-- Reads the lines that are indented to a column. -/
def lines? (folds : Bool) (indent : Nat) : Nat → Bool → Progress → Option Progress
  | 0, _, _ => none
  | fuel + 1, blankBefore, p =>
    match p.after.rest with
    | [] => some p
    | x :: _ =>
      if p.after.mark.column ≠ indent then some p
      else do
        let blank := isBlank x
        let line := p.after.rest.takeWhile (!isBreak ·)
        let text := p.text ++ joint folds p.leading blankBefore blank p.trailing ++ line
        let next := p.after.skip line.length
        let leading := next.rest.take 1
        let m ← margin? (some indent) (next.rest.length + 1) [] 0 next.next
        lines? folds indent fuel blank ⟨text, leading, m.breaks, m.after⟩

/-- **Reads a block scalar** that begins here; `outer` is the indentation around it, if any. -/
def block? (outer : Option Nat) (c : Cursor) : Option Lexeme := do
  let folds := c.rest.head? = some '>'
  let (h, c) ← header? c.next
  let c ← headerEnd? c
  let fuel := c.rest.length + 1
  let given := h.indent.map fun n => outer.getD 0 + n
  let m ← margin? given fuel [] 0 c
  let least := match outer with
    | some n => n + 1
    | none => 1
  let indent := given.getD (max m.deepest least)
  let p ← lines? folds indent fuel false ⟨[], [], m.breaks, m.after⟩
  let text := match h.chomping with
    | .strip => p.text
    | .clip => p.text ++ p.leading
    | .keep => p.text ++ p.leading ++ p.trailing
  some ⟨text, p.after, false⟩

end CapacityControl.Document.Yaml
