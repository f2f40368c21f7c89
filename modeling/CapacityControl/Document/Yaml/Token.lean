/-
  CapacityControl.Document.Yaml.Token
  ───────────────────────────────────
  TOKENS.  Indentation is read as brackets: where a collection begins in a column further
  right than the one around it, an opening token is put in, and a closing one where the
  column is left.  A word turns out to be a key only when the colon behind it is seen; it
  has to stand on one line with its colon, and tokens are then put in before it.
-/
import CapacityControl.Document.Yaml.Block

namespace CapacityControl.Document.Yaml

/-! ## §1. Tokens. -/

/-- A token. -/
inductive Token where
  | directive
  | documentStart
  | documentEnd
  | streamEnd
  | blockList
  | blockMap
  | blockEnd
  | openList
  | closeList
  | openMap
  | closeMap
  /-- The dash before an item. -/
  | item
  /-- The comma between entries. -/
  | comma
  | key
  | value
  | anchor (name : List Char)
  | alias (name : List Char)
  | tag
  | scalar (quoted : Bool) (text : List Char)
  deriving DecidableEq, Repr

/-- A place where a key may have begun. -/
structure KeyPlace where
  /-- The number of tokens before it. -/
  token : Nat
  mark : Mark
  /-- Nothing but a key can stand there. -/
  required : Bool

/-- What has been read of a text. -/
structure Lexer where
  cursor : Cursor
  tokens : Array Token
  /-- The columns of the open block collections, innermost first. -/
  indents : List Nat
  /-- Whether a key may begin here. -/
  keyAllowed : Bool
  /-- Where a key may have begun, for the flow collections that are open, innermost first. -/
  keys : List (Option KeyPlace)
  keyPlace : Option KeyPlace

namespace Lexer

/-- The beginning of a text. -/
def start (cs : List Char) : Lexer := ⟨.start cs, #[], [], true, [], none⟩

/-- Whether a flow collection is open. -/
def inFlow (l : Lexer) : Bool := !l.keys.isEmpty

/-- The column here. -/
def column (l : Lexer) : Nat := l.cursor.mark.column

/-- Whether the innermost block collection begins left of a column. -/
def isDeeper (l : Lexer) (column : Nat) : Bool :=
  match l.indents with
  | [] => true
  | i :: _ => i < column

/-- The column that a line has to reach to belong to a plain scalar. -/
def plainIndent (l : Lexer) : Nat :=
  match l.indents with
  | [] => 0
  | i :: _ => i + 1

/-- Adds a token. -/
def emit (l : Lexer) (t : Token) : Lexer := { l with tokens := l.tokens.push t }

/-- Adds a token and goes past so many characters. -/
def emitPast (l : Lexer) (t : Token) (n : Nat) : Lexer :=
  { l.emit t with cursor := l.cursor.skip n }

/-- Puts in a token before the token of a number. -/
def insert (l : Lexer) (number : Nat) (t : Token) : Lexer :=
  { l with tokens := l.tokens.insertIdxIfInBounds number t }

/-! ## §2. Indentation. -/

/-- Opens a block collection at a column if none is open there, before the token of a
number. -/
def openBlock (l : Lexer) (column number : Nat) (t : Token) : Lexer :=
  if l.inFlow || !l.isDeeper column then l
  else { l.insert number t with indents := column :: l.indents }

/-- Closes the block collections that begin right of a column. -/
def closeTo (column : Nat) : List Nat → Array Token → List Nat × Array Token
  | [], ts => ([], ts)
  | i :: is, ts => if column < i then closeTo column is (ts.push .blockEnd) else (i :: is, ts)

/-- Closes what the column here leaves. -/
def unindent (l : Lexer) : Lexer :=
  if l.inFlow then l
  else
    let (indents, tokens) := closeTo l.column l.indents l.tokens
    { l with indents := indents, tokens := tokens }

/-- Closes every block collection. -/
def closeAll (l : Lexer) : Lexer :=
  if l.inFlow then l
  else { l with indents := [], tokens := l.indents.foldl (fun ts _ => ts.push .blockEnd) l.tokens }

/-! ## §3. Keys. -/

/-- How long a key may be. -/
def keyLimit : Nat := 1024

/-- Whether a key that began there may still end here. -/
def isAlive (l : Lexer) (k : KeyPlace) : Bool :=
  k.mark.line == l.cursor.mark.line && l.cursor.mark.index ≤ k.mark.index + keyLimit

/-- Forgets places where no key can be any more; where there had to be one, that fails. -/
def expire? (l : Lexer) : Option Lexer :=
  let dead (k : Option KeyPlace) : Bool := k.any fun k => !l.isAlive k
  let alive (k : Option KeyPlace) := if dead k then none else k
  if (l.keyPlace :: l.keys).any fun k => dead k && k.any (·.required) then none
  else some { l with keyPlace := alive l.keyPlace, keys := l.keys.map alive }

/-- Gives up the place of a key. -/
def dropKey? (l : Lexer) : Option Lexer :=
  if l.keyPlace.any (·.required) then none else some { l with keyPlace := none }

/-- Notes that a key may begin here. -/
def saveKey? (l : Lexer) : Option Lexer :=
  if l.keyAllowed then do
    let l ← l.dropKey?
    let required := !l.inFlow && l.indents.head? = some l.column
    some { l with keyPlace := some ⟨l.tokens.size, l.cursor.mark, required⟩ }
  else some l

/-- Sets whether a key may begin behind here. -/
def allow (l : Lexer) (on : Bool) : Lexer := { l with keyAllowed := on }

/-! ## §4. Single tokens. -/

/-- Goes to the next token: past blanks, comments and breaks.  Tabs are no indentation. -/
def skipGap : Nat → Lexer → Lexer
  | 0, l => l
  | fuel + 1, l =>
    match l.cursor.rest with
    | [] => l
    | c :: _ =>
      if c = ' ' || (c = '\t' && (l.inFlow || !l.keyAllowed)) then
        skipGap fuel { l with cursor := l.cursor.next }
      else if c = '#' then skipGap fuel { l with cursor := l.cursor.skipWhile (!isBreak ·) }
      else if isBreak c then
        skipGap fuel { l with cursor := l.cursor.next, keyAllowed := l.keyAllowed || !l.inFlow }
      else l

/-- The marker of a document. -/
def marker? (l : Lexer) : Option Lexer := do
  let l ← l.closeAll.dropKey?
  let t := if l.cursor.rest.head? = some '-' then Token.documentStart else .documentEnd
  some ((l.allow false).emitPast t 3)

/-- A line that begins with a percent sign: the version of the format, or prefixes of tags. -/
def directive? (l : Lexer) : Option Lexer := do
  let l ← l.closeAll.dropKey?
  let line := String.ofList (l.cursor.rest.takeWhile (!isBreak ·))
  let words := (line.splitOn " ").filter (· ≠ "")
  let known : Bool := match words with
    | "%YAML" :: version :: rest =>
      (version = "1.1" || version = "1.2") && rest.head?.all (·.startsWith "#")
    | "%TAG" :: _ :: _ :: rest => rest.head?.all (·.startsWith "#")
    | _ => false
  if known then
    some { (l.allow false).emit .directive with cursor := l.cursor.skipWhile (!isBreak ·) }
  else none

/-- The beginning of a flow collection. -/
def openFlow? (l : Lexer) (t : Token) : Option Lexer := do
  let l ← l.saveKey?
  some (({ l with keys := l.keyPlace :: l.keys, keyPlace := none }.allow true).emitPast t 1)

/-- The end of a flow collection. -/
def closeFlow? (l : Lexer) (t : Token) : Option Lexer := do
  let l ← l.dropKey?
  let l := match l.keys with
    | k :: ks => { l with keyPlace := k, keys := ks }
    | [] => l
  some ((l.allow false).emitPast t 1)

/-- The comma between entries. -/
def comma? (l : Lexer) : Option Lexer := do
  let l ← l.dropKey?
  some ((l.allow true).emitPast .comma 1)

/-- The dash before an item. -/
def item? (l : Lexer) : Option Lexer := do
  if !l.inFlow && !l.keyAllowed then none
  else
    let l ← (l.openBlock l.column l.tokens.size .blockList).dropKey?
    some ((l.allow true).emitPast .item 1)

/-- The question mark before a key. -/
def key? (l : Lexer) : Option Lexer := do
  if !l.inFlow && !l.keyAllowed then none
  else
    let l ← (l.openBlock l.column l.tokens.size .blockMap).dropKey?
    some ((l.allow !l.inFlow).emitPast .key 1)

/-- The colon behind a key. -/
def value? (l : Lexer) : Option Lexer :=
  match l.keyPlace with
  | some k =>
    let l := (l.insert k.token .key).openBlock k.mark.column k.token .blockMap
    some (({ l with keyPlace := none }.allow false).emitPast .value 1)
  | none =>
    if !l.inFlow && !l.keyAllowed then none
    else
      let l := l.openBlock l.column l.tokens.size .blockMap
      some ((l.allow !l.inFlow).emitPast .value 1)

/-- Whether a character may stand in the name of an anchor. -/
def isNameChar (c : Char) : Bool := c.isAlphanum || c = '_' || c = '-'

/-- An anchor or alias. -/
def reference? (l : Lexer) (t : List Char → Token) : Option Lexer := do
  let l ← l.saveKey?
  let name := l.cursor.next.rest.takeWhile isNameChar
  let l := (l.allow false).emitPast (t name) (name.length + 1)
  let ends := match l.cursor.rest with
    | c :: _ => endsWord l.cursor.rest || "?:,]%@".toList.contains c || c = '}' || c = graveAccent
    | [] => true
  if name.isEmpty || !ends then none else some l

/-- Whether a character may stand in a tag. -/
def isTagChar (c : Char) : Bool := c.isAlphanum || c = '\'' || "-;/?:@&=+$.!~*()%_".toList.contains c

/-- A tag, which says nothing that matters to a configuration. -/
def tag? (l : Lexer) : Option Lexer := do
  let l ← l.saveKey?
  let name := l.cursor.rest.takeWhile isTagChar
  let l := (l.allow false).emitPast .tag name.length
  let ends := endsWord l.cursor.rest || (l.inFlow && l.cursor.rest.head? = some ',')
  if ends then some l else none

/-- Adds a scalar that was read. -/
def scalar (l : Lexer) (quoted : Bool) (x : Lexeme) : Lexer :=
  { l.emit (.scalar quoted x.text) with cursor := x.after, keyAllowed := l.keyAllowed || x.brokeLine }

/-- A block scalar. -/
def blockScalar? (l : Lexer) : Option Lexer := do
  let l ← l.dropKey?
  let x ← block? l.indents.head? l.cursor
  some ((l.allow true).scalar true x)

/-- A quoted scalar. -/
def quotedScalar? (l : Lexer) : Option Lexer := do
  let l ← l.saveKey?
  let x ← quoted? l.cursor
  some ((l.allow false).scalar true x)

/-- A plain scalar. -/
def plainScalar? (l : Lexer) : Option Lexer := do
  let l ← l.saveKey?
  let x ← plain? l.inFlow l.plainIndent l.cursor
  some ((l.allow false).scalar false x)

/-! ## §5. All tokens. -/

/-- The characters that begin no plain scalar. -/
def isIndicator (c : Char) : Bool :=
  isBracket c || "-?:,#&*!|>\"%@".toList.contains c || c = '\'' || c = graveAccent

/-- The token that begins with a character. -/
def token? (l : Lexer) (c : Char) (cs : List Char) : Option Lexer :=
  let ends := endsWord cs
  if l.column = 0 && c = '%' then l.directive?
  else if l.cursor.atMarker then l.marker?
  else if c = '[' then l.openFlow? .openList
  else if c = '{' then l.openFlow? .openMap
  else if c = ']' then l.closeFlow? .closeList
  else if c = '}' then l.closeFlow? .closeMap
  else if c = ',' then l.comma?
  else if c = '-' && ends then l.item?
  else if c = '?' && (l.inFlow || ends) then l.key?
  else if c = ':' && (l.inFlow || ends) then l.value?
  else if c = '*' then l.reference? .alias
  else if c = '&' then l.reference? .anchor
  else if c = '!' then l.tag?
  else if (c = '|' || c = '>') && !l.inFlow then l.blockScalar?
  else if c = '\'' || c = '"' then l.quotedScalar?
  else if !isIndicator c || c = '-' || (!l.inFlow && (c = '?' || c = ':')) then l.plainScalar?
  else none

/-- Goes on to the end of the text. -/
def run? : Nat → Lexer → Option (List Token)
  | 0, _ => none
  | fuel + 1, l => do
    let l := skipGap (l.cursor.rest.length + 1) l
    let l := (← l.expire?).unindent
    match l.cursor.rest with
    | [] =>
      let l ← l.closeAll.dropKey?
      some (l.emit .streamEnd).tokens.toList
    | c :: cs => run? fuel (← l.token? c cs)

end Lexer

/-- **The tokens of a text.** -/
def tokens? (cs : List Char) : Option (List Token) := Lexer.run? (cs.length + 1) (.start cs)

end CapacityControl.Document.Yaml
