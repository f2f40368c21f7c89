/-
  CapacityControl.Document.Yaml.Flow
  ──────────────────────────────────
  PLAIN AND QUOTED SCALARS.  They may go on over several lines: a single line break is
  read as a space, and of several the first is left out.  Blanks next to a break are
  left out as well.
-/
import CapacityControl.Document.Yaml.Character
import CapacityControl.Document.Json.Text

namespace CapacityControl.Document.Yaml

/-! ## §1. Gaps. -/

/-- Blanks and breaks between two words. -/
structure Gap where
  /-- The blanks before the first break. -/
  blanks : List Char
  breaks : List Char
  /-- A tab stands where the indentation of a line should. -/
  tabbed : Bool

namespace Gap

/-- Nothing. -/
def empty : Gap := ⟨[], [], false⟩

/-- What a gap is read as. -/
def folded (g : Gap) : List Char :=
  match g.breaks with
  | [] => g.blanks
  | ['\n'] => [' ']
  | '\n' :: more => more
  | others => others

/-- Splits off a gap, some of which may have been seen.  `indent` is the column that the lines
have to reach without tabs; `led` says that a break was there which counts for nothing. -/
def take (indent : Nat) (led : Bool) : List Char → Mark → Gap → Gap × Cursor
  | [], m, g => (g, ⟨[], m⟩)
  | c :: cs, m, g =>
    let inLine := !led && g.breaks.isEmpty
    if isBlank c then
      take indent led cs m.step
        (if inLine then { g with blanks := g.blanks ++ [c] }
          else { g with tabbed := g.tabbed || (c = '\t' && m.column < indent) })
    else if isBreak c then take indent led cs m.newline { g with breaks := g.breaks ++ [c] }
    else (g, ⟨c :: cs, m⟩)

end Gap

/-! ## §2. Plain scalars. -/

/-- A scalar that was read: its text, where it ends, and whether a line ended behind it. -/
structure Lexeme where
  text : List Char
  after : Cursor
  brokeLine : Bool

/-- A scalar with more text in front. -/
def Lexeme.behind (l : Lexeme) (text : List Char) : Lexeme := { l with text := text ++ l.text }

/-- Whether a character opens or closes a collection in one line. -/
def isBracket (c : Char) : Bool := c = '[' || c = ']' || c = '{' || c = '}'

/-- Splits off the characters up to the end of a plain word; `none` if a colon stands where a
value might begin or not. -/
def plainWord? (inFlow : Bool) : List Char → Option (List Char × List Char)
  | [] => some ([], [])
  | c :: cs =>
    let ambiguous := match cs with
      | d :: _ => d = ',' || d = '?' || isBracket d
      | [] => false
    if isBlank c || isBreak c then some ([], c :: cs)
    else if inFlow && c = ':' && ambiguous then none
    else if (c = ':' && endsWord cs) || (inFlow && (c = ',' || isBracket c)) then
      some ([], c :: cs)
    else (plainWord? inFlow cs).map fun (word, rest) => (c :: word, rest)

/-- Reads what is left of a plain scalar behind a gap.  Outside of flow collections, a line that
does not reach the column `indent` is not part of it. -/
def plainFrom? (inFlow : Bool) (indent : Nat) : Nat → Gap → Cursor → Option Lexeme
  | 0, _, _ => none
  | fuel + 1, gap, c =>
    let broke := !gap.breaks.isEmpty
    if c.atMarker || c.rest.head? = some '#' then some ⟨[], c, broke⟩
    else do
      let (word, rest) ← plainWord? inFlow c.rest
      let text := if word.isEmpty then [] else gap.folded ++ word
      let after := c.skip word.length
      if rest.isEmpty || !endsWord rest then some ⟨text, after, broke && word.isEmpty⟩
      else
        let seen := if word.isEmpty then gap else .empty
        let (gap, next) := Gap.take indent false after.rest after.mark seen
        if gap.tabbed then none
        else if !inFlow && next.mark.column < indent then some ⟨text, next, !gap.breaks.isEmpty⟩
        else (plainFrom? inFlow indent fuel gap next).map (·.behind text)

/-- **Reads a plain scalar.** -/
def plain? (inFlow : Bool) (indent : Nat) (c : Cursor) : Option Lexeme :=
  plainFrom? inFlow indent (c.rest.length + 1) .empty c

/-! ## §3. Quoted scalars. -/

/-- The character that a letter after a backslash stands for. -/
def escape? : Char → Option Char
  | '0' => some '\x00'
  | 'a' => some '\x07'
  | 'b' => some '\x08'
  | 't' => some '\t'
  | '\t' => some '\t'
  | 'n' => some '\n'
  | 'v' => some '\x0b'
  | 'f' => some '\x0c'
  | 'r' => some '\r'
  | 'e' => some '\x1b'
  | ' ' => some ' '
  | '"' => some '"'
  | '/' => some '/'
  | '\\' => some '\\'
  | 'N' => some '\u0085'
  | '_' => some '\u00a0'
  | 'L' => some '\u2028'
  | 'P' => some '\u2029'
  | _ => none

/-- The number of hexadecimal digits that follow a letter after a backslash. -/
def escapeWidth? : Char → Option Nat
  | 'x' => some 2
  | 'u' => some 4
  | 'U' => some 8
  | _ => none

/-- The character of a code, if there is one. -/
def charOf? (n : Nat) : Option Char :=
  if n.isValidChar then some (Char.ofNat n) else none

/-- Splits off an escape behind its backslash: its character and its length. -/
def escaped? : List Char → Option (Char × Nat)
  | [] => none
  | c :: cs =>
    match escapeWidth? c with
    | none => (escape? c).map (·, 1)
    | some n =>
      if cs.length < n then none
      else ((Json.hexValue? (cs.take n)).bind charOf?).map (·, n + 1)

/-- Reads what is left of a quoted scalar. -/
def quotedFrom? (quote : Char) : Nat → Cursor → Option Lexeme
  | 0, _ => none
  | fuel + 1, c =>
    match c.rest with
    | [] => none
    | x :: xs =>
      if isBlank x || isBreak x then
        let (gap, next) := Gap.take 0 false c.rest c.mark .empty
        if next.atMarker then none else (quotedFrom? quote fuel next).map (·.behind gap.folded)
      else if x = quote then
        if quote = '\'' && xs.head? = some '\'' then
          (quotedFrom? quote fuel (c.skip 2)).map (·.behind ['\''])
        else some ⟨[], c.next, false⟩
      else if quote = '"' && x = '\\' then
        if xs.head?.any isBreak then
          let line := c.skip 2
          let (gap, next) := Gap.take 0 true line.rest line.mark .empty
          if next.atMarker then none else (quotedFrom? quote fuel next).map (·.behind gap.breaks)
        else
          match escaped? xs with
          | some (e, n) => (quotedFrom? quote fuel (c.skip (n + 1))).map (·.behind [e])
          | none => none
      else (quotedFrom? quote fuel c.next).map (·.behind [x])

/-- **Reads a quoted scalar** that begins here. -/
def quoted? (c : Cursor) : Option Lexeme :=
  match c.rest with
  | quote :: _ => quotedFrom? quote (c.rest.length + 1) c.next
  | [] => none

end CapacityControl.Document.Yaml
