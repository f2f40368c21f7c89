/-
  CapacityControl.Document.Json.Read
  ──────────────────────────────────
  READING JSON.  A document is one value, with blanks around it and nothing else.  The
  values of numbers are left open, so that a number that is too great only matters where
  it is wanted.
-/
import CapacityControl.Document.Node
import CapacityControl.Document.Json.Number
import CapacityControl.Document.Json.Text

namespace CapacityControl.Document.Json

/-- The blanks between the words of a document. -/
def isSpace (c : Char) : Bool := c = ' ' || c = '\n' || c = '\t' || c = '\r'

/-- Leaves out blanks. -/
def skipSpace (cs : List Char) : List Char := cs.dropWhile isSpace

/-- Splits off a word. -/
def word? (word : List Char) (cs : List Char) : Option (List Char) :=
  if word.isPrefixOf cs then some (cs.drop word.length) else none

/-- Splits off a string behind its opening quote. -/
def string? (cs : List Char) : Option (Node × List Char) :=
  (pieces? cs).map fun (ps, rest) =>
    (match joined? ps with
      | some text => .string (String.ofList text)
      | none => .garbled, rest)

/-- Splits off a number or one of the words. -/
def bare? (cs : List Char) : Option (Node × List Char) :=
  match cs with
  | 't' :: _ => (word? "true".toList cs).map fun rest => (.plain "true", rest)
  | 'f' :: _ => (word? "false".toList cs).map fun rest => (.plain "false", rest)
  | 'n' :: _ => (word? "null".toList cs).map fun rest => (.plain "null", rest)
  | _ => (Number.read? cs).map fun (_, rest) =>
    (.plain (String.ofList (cs.take (cs.length - rest.length))), rest)

mutual

/-- Splits off a value. -/
def value? : Nat → List Char → Option (Node × List Char)
  | 0, _ => none
  | fuel + 1, cs =>
    match skipSpace cs with
    | '"' :: cs => string? cs
    | '[' :: cs =>
      match skipSpace cs with
      | ']' :: cs => some (.list [], cs)
      | cs => (items? fuel cs).map fun (ns, rest) => (.list ns, rest)
    | '{' :: cs =>
      match skipSpace cs with
      | '}' :: cs => some (.map [], cs)
      | cs => (entries? fuel cs).map fun (es, rest) => (.map es, rest)
    | cs => bare? cs

/-- Splits off the items of a list up to its end. -/
def items? : Nat → List Char → Option (List Node × List Char)
  | 0, _ => none
  | fuel + 1, cs => do
    let (n, cs) ← value? fuel cs
    match skipSpace cs with
    | ',' :: cs => (items? fuel cs).map fun (ns, rest) => (n :: ns, rest)
    | ']' :: cs => some ([n], cs)
    | _ => none

/-- Splits off the entries of a mapping up to its end. -/
def entries? : Nat → List Char → Option (List (Node × Node) × List Char)
  | 0, _ => none
  | fuel + 1, cs => do
    let (key, cs) ← match skipSpace cs with
      | '"' :: cs => string? cs
      | _ => none
    let cs ← match skipSpace cs with
      | ':' :: cs => some cs
      | _ => none
    let (value, cs) ← value? fuel cs
    match skipSpace cs with
    | ',' :: cs => (entries? fuel cs).map fun (es, rest) => ((key, value) :: es, rest)
    | '}' :: cs => some ([(key, value)], cs)
    | _ => none

end

/-- **Reads a document.**  Each character is looked at by at most two steps. -/
def read? (text : String) : Option Node :=
  let cs := text.toList
  match value? (2 * cs.length + 2) cs with
  | some (n, rest) => if (skipSpace rest).isEmpty then some n else none
  | none => none

end CapacityControl.Document.Json
