/-
  CapacityControl.Document.Yaml.Read
  ──────────────────────────────────
  READING YAML.  A text holds one document: directives, a marker, a node and another
  marker, of which only the node has to be there.  A node that is left out is an empty
  plain scalar.  An alias stands for the node that was last given its name.
-/
import CapacityControl.Document.Node
import CapacityControl.Document.Yaml.Token

namespace CapacityControl.Document.Yaml

/-! ## §1. What is left to read. -/

/-- The tokens that are left, and the nodes that have names. -/
structure Stream where
  tokens : List Token
  anchors : List (List Char × Node)

namespace Stream

/-- The next token. -/
def head (s : Stream) : Token := s.tokens.head?.getD .streamEnd

/-- Past the next token. -/
def next (s : Stream) : Stream := { s with tokens := s.tokens.tail }

/-- Gives a node its name, if it has one. -/
def named (s : Stream) (name : Option (List Char)) (n : Node) : Stream :=
  match name with
  | some name => { s with anchors := (name, n) :: s.anchors }
  | none => s

end Stream

/-- The node that is left out. -/
def emptyNode : Node := .plain ""

/-- Splits off an anchor and a tag, in either order, each at most once. -/
def properties (s : Stream) : Option (List Char) × Bool × Stream :=
  match s.head with
  | .anchor name => (some name, if s.next.head = .tag then (true, s.next.next) else (false, s.next))
  | .tag =>
    match s.next.head with
    | .anchor name => (some name, true, s.next.next)
    | _ => (none, true, s.next)
  | _ => (none, false, s)

/-- Whether a node begins with none of these tokens, so that it is there. -/
def isGiven (s : Stream) (without : List Token) : Bool := !without.contains s.head

/-! ## §2. Nodes. -/

mutual

/-- Reads a node.  `block` allows block collections, `hanging` a list without indentation of
its own. -/
def node? : Nat → Bool → Bool → Stream → Option (Node × Stream)
  | 0, _, _, _ => none
  | fuel + 1, block, hanging, s =>
    match s.head with
    | .alias name => (s.anchors.lookup name).map (·, s.next)
    | _ => do
      let (name, tagged, s) := properties s
      let (n, s) ← match s.head, block, hanging with
        | .item, _, true => (hangingItems? fuel s).map fun (ns, s) => (Node.list ns, s)
        | .scalar quoted text, _, _ => some (.scalar quoted (String.ofList text), s.next)
        | .openList, _, _ => (flowItems? fuel true s.next).map fun (ns, s) => (.list ns, s)
        | .openMap, _, _ => (flowEntries? fuel true s.next).map fun (es, s) => (.map es, s)
        | .blockList, true, _ => (blockItems? fuel s.next).map fun (ns, s) => (.list ns, s)
        | .blockMap, true, _ => (blockEntries? fuel s.next).map fun (es, s) => (.map es, s)
        | _, _, _ => if tagged || name.isSome then some (emptyNode, s) else none
      some (n, s.named name n)

/-- Reads a node unless one of some tokens says that it is left out. -/
def nodeUnless? : Nat → List Token → Bool → Bool → Stream → Option (Node × Stream)
  | 0, _, _, _, _ => none
  | fuel + 1, without, block, hanging, s =>
    if isGiven s without then node? fuel block hanging s else some (emptyNode, s)

/-- Reads the items of a block list. -/
def blockItems? : Nat → Stream → Option (List Node × Stream)
  | 0, _ => none
  | fuel + 1, s =>
    match s.head with
    | .item => do
      let (n, s) ← nodeUnless? fuel [.item, .blockEnd] true false s.next
      let (ns, s) ← blockItems? fuel s
      some (n :: ns, s)
    | .blockEnd => some ([], s.next)
    | _ => none

/-- Reads the items of a list without indentation of its own. -/
def hangingItems? : Nat → Stream → Option (List Node × Stream)
  | 0, _ => none
  | fuel + 1, s =>
    match s.head with
    | .item => do
      let (n, s) ← nodeUnless? fuel [.item, .key, .value, .blockEnd] true false s.next
      let (ns, s) ← hangingItems? fuel s
      some (n :: ns, s)
    | _ => some ([], s)

/-- Reads the entries of a block mapping. -/
def blockEntries? : Nat → Stream → Option (List (Node × Node) × Stream)
  | 0, _ => none
  | fuel + 1, s =>
    let without : List Token := [.key, .value, .blockEnd]
    match s.head with
    | .blockEnd => some ([], s.next)
    | .key => do
      let (k, s) ← nodeUnless? fuel without true true s.next
      let (v, s) ← if s.head = .value then nodeUnless? fuel without true true s.next
        else some (emptyNode, s)
      let (es, s) ← blockEntries? fuel s
      some ((k, v) :: es, s)
    | .value => do
      let (v, s) ← nodeUnless? fuel without true true s.next
      let (es, s) ← blockEntries? fuel s
      some ((emptyNode, v) :: es, s)
    | _ => none

/-- Reads the items of a flow list; a key makes an item a mapping of one entry. -/
def flowItems? : Nat → Bool → Stream → Option (List Node × Stream)
  | 0, _, _ => none
  | fuel + 1, first, s =>
    if s.head = .closeList then some ([], s.next)
    else do
      let s ← if first then some s else if s.head = .comma then some s.next else none
      match s.head with
      | .closeList => some ([], s.next)
      | .key => do
        let (k, s) ← nodeUnless? fuel [.value, .comma, .closeList] false false s.next
        let (v, s) ← if s.head = .value then
            nodeUnless? fuel [.comma, .closeList] false false s.next
          else some (emptyNode, s)
        let (ns, s) ← flowItems? fuel false s
        some (.map [(k, v)] :: ns, s)
      | _ => do
        let (n, s) ← node? fuel false false s
        let (ns, s) ← flowItems? fuel false s
        some (n :: ns, s)

/-- Reads the entries of a flow mapping. -/
def flowEntries? : Nat → Bool → Stream → Option (List (Node × Node) × Stream)
  | 0, _, _ => none
  | fuel + 1, first, s =>
    if s.head = .closeMap then some ([], s.next)
    else do
      let s ← if first then some s else if s.head = .comma then some s.next else none
      match s.head with
      | .closeMap => some ([], s.next)
      | .key => do
        let (k, s) ← nodeUnless? fuel [.value, .comma, .closeMap] false false s.next
        let (v, s) ← if s.head = .value then
            nodeUnless? fuel [.comma, .closeMap] false false s.next
          else some (emptyNode, s)
        let (es, s) ← flowEntries? fuel false s
        some ((k, v) :: es, s)
      | _ => do
        let (k, s) ← node? fuel false false s
        let (es, s) ← flowEntries? fuel false s
        some ((k, emptyNode) :: es, s)

end

/-! ## §3. Documents. -/

/-- Leaves out directives. -/
def skipDirectives : List Token → List Token
  | .directive :: ts => skipDirectives ts
  | ts => ts

/-- Leaves out markers of the end of a document. -/
def skipEnds : List Token → List Token
  | .documentEnd :: ts => skipEnds ts
  | ts => ts

/-- Reads the node of the only document. -/
def document? (tokens : List Token) : Option Node := do
  let tokens ← match tokens with
    | .directive :: _ | .documentStart :: _ =>
      match skipDirectives tokens with
      | .documentStart :: ts => some ts
      | _ => none
    | .streamEnd :: _ => none
    | ts => some ts
  let s : Stream := ⟨tokens, []⟩
  let (n, s) ← nodeUnless? (4 * tokens.length + 4)
    [.directive, .documentStart, .documentEnd, .streamEnd] true false s
  match skipEnds s.tokens with
  | [.streamEnd] => some n
  | _ => none

/-- **Reads a text**, in which a byte order mark may stand in front. -/
def read? (text : String) : Option Node :=
  let cs := match text.toList with
    | '\ufeff' :: cs => cs
    | cs => cs
  if cs.all isAllowed then (tokens? (unified cs)).bind document? else none

end CapacityControl.Document.Yaml
