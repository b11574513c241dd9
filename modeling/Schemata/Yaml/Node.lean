import Schemata.Calendar
import Schemata.Yaml.Plain
import Schemata.Yaml.Token

/-!
# YAML documents

The tokens of a text form at most one document: a tree of scalars, sequences and mappings, in which
an alias stands for a copy of the node its anchor marks. `read` turns the tree into a value: plain
scalars mean what their spelling says, quoted ones are texts, later entries of a mapping replace
earlier ones in their place, and a mapping under the merge key lends its entries.

A text can be malformed in two ways: it is no document, or it holds a date that does not exist.
-/

namespace Schemata.Yaml

/-- What a node says about its own type. -/
inductive NodeTag where
  /-- Nothing. -/
  | none
  /-- That its spelling decides. -/
  | open
  /-- A name. -/
  | named (name : String)
  deriving DecidableEq, Inhabited

/-- A node of a document. -/
inductive Node where
  | scalar (tag : NodeTag) (text : String) (plain : Bool)
  | sequence (tag : NodeTag) (items : List Node)
  | mapping (tag : NodeTag) (entries : List (Node × Node))
  deriving Inhabited

/-! ## From tokens to nodes -/

namespace Node

/-- What is left to read, and the nodes under anchors. -/
structure Reading where
  tokens : List Token
  anchors : List (List Char × Node) := []
  /-- What the handles of tags stand for. -/
  handles : List (List Char × List Char) :=
    [("!".toList, "!".toList), ("!!".toList, "tag:yaml.org,2002:".toList)]

/-- Reading can fail. -/
abbrev Reader := StateT Reading Option

/-- The next token. -/
def peek : Reader (Option Token) := return (← get).tokens.head?

/-- Moves past the next token. -/
def skip : Reader Unit := modify fun r ↦ { r with tokens := r.tokens.tail }

/-- Moves past a token if it is the next one. -/
def skipIf (t : Token) : Reader Bool := do
  if (← peek) == some t then
    skip
    return true
  else return false

/-- Moves past a token that has to be the next one. -/
def expect (t : Token) : Reader Unit := do
  if !(← skipIf t) then failure

/-- Whether one of several tokens is next, or no token at all. -/
def sees (ts : List Token) : Reader Bool := do
  match ← peek with
  | some t => return ts.contains t
  | none => return true

/-- A scalar that is not there. -/
def empty : Node := scalar .none "" true

/-- The name of a tag, if its handle is known. -/
def tagNamed (handle : Option (List Char)) (suffix : List Char) : Reader NodeTag := do
  match handle with
  | none => return if suffix == ['!'] then .open else .named (String.ofList suffix)
  | some h =>
    match (← get).handles.lookup h with
    | some beginning => return .named (String.ofList (beginning ++ suffix))
    | none => failure

/-- Anchor and tag of a node, in either order. -/
def properties : Nat → Option (List Char) → NodeTag → Reader (Option (List Char) × NodeTag)
  | 0, anchor, tag => return (anchor, tag)
  | n + 1, anchor, tag => do
    match ← peek with
    | some (.anchor name) =>
      if anchor.isSome then failure
      skip
      properties n (some name) tag
    | some (.tag handle suffix) =>
      if tag != .none then failure
      skip
      properties n anchor (← tagNamed handle suffix)
    | _ => return (anchor, tag)

mutual

/-- A node. In a block, a sequence may be indented like the mapping it stands in. -/
def read : Nat → (block indentless : Bool) → Reader Node
  | 0, _, _ => failure
  | n + 1, block, indentless => do
    if let some (.alias name) ← peek then
      skip
      match (← get).anchors.find? (·.1 == name) with
      | some (_, node) => return node
      | none => failure
    let (anchor, tag) ← properties 2 none .none
    let node ← readContent n block indentless (anchor.isSome || tag != .none) tag
    match anchor with
    | none => return node
    | some name =>
      if (← get).anchors.any (·.1 == name) then failure
      modify fun r ↦ { r with anchors := (name, node) :: r.anchors }
      return node

/-- The content of a node after its properties. -/
def readContent : Nat → (block indentless mayBeEmpty : Bool) → NodeTag → Reader Node
  | 0, _, _, _, _ => failure
  | n + 1, block, indentless, mayBeEmpty, tag => do
    match ← peek with
    | some .entry =>
      if indentless then return sequence tag (← readIndentless n)
      else if mayBeEmpty then return scalar tag "" true
      else failure
    | some (.scalar text plain) =>
      skip
      return scalar tag (String.ofList text) plain
    | some .openSequence =>
      skip
      return sequence tag (← readFlowItems n true)
    | some .openMapping =>
      skip
      return mapping tag (← readFlowEntries n true)
    | some .blockSequence =>
      if block then
        skip
        return sequence tag (← readItems n)
      else if mayBeEmpty then return scalar tag "" true
      else failure
    | some .blockMapping =>
      if block then
        skip
        return mapping tag (← readEntries n)
      else if mayBeEmpty then return scalar tag "" true
      else failure
    | _ => if mayBeEmpty then return scalar tag "" true else failure

/-- A node, or an empty one where one of several tokens follows. -/
def readUnless : Nat → List Token → (block indentless : Bool) → Reader Node
  | 0, _, _, _ => failure
  | n + 1, ends, block, indentless => do
    if ← sees ends then return empty else read n block indentless

/-- The items of a block sequence. -/
def readItems : Nat → Reader (List Node)
  | 0 => failure
  | n + 1 => do
    if ← skipIf .entry then
      let item ← readUnless n [.entry, .blockEnd] true false
      return item :: (← readItems n)
    else
      expect .blockEnd
      return []

/-- The items of a sequence that is indented like the mapping it stands in. -/
def readIndentless : Nat → Reader (List Node)
  | 0 => failure
  | n + 1 => do
    if ← skipIf .entry then
      let item ← readUnless n [.entry, .key, .value, .blockEnd] true false
      return item :: (← readIndentless n)
    else return []

/-- The entries of a block mapping. -/
def readEntries : Nat → Reader (List (Node × Node))
  | 0 => failure
  | n + 1 => do
    if ← skipIf .key then
      let k ← readUnless n [.key, .value, .blockEnd] true true
      let v ← if ← skipIf .value then readUnless n [.key, .value, .blockEnd] true true
        else pure empty
      return (k, v) :: (← readEntries n)
    else
      expect .blockEnd
      return []

/-- The items of a sequence in brackets; a single entry is a mapping of its own. -/
def readFlowItems : Nat → Bool → Reader (List Node)
  | 0, _ => failure
  | n + 1, first => do
    if ← skipIf .closeSequence then return []
    if !first then expect .comma
    if ← skipIf .closeSequence then return []
    if ← skipIf .key then
      let k ← readUnless n [.value, .comma, .closeSequence] false false
      let v ← if ← skipIf .value then readUnless n [.comma, .closeSequence] false false
        else pure empty
      return mapping .none [(k, v)] :: (← readFlowItems n false)
    let item ← read n false false
    return item :: (← readFlowItems n false)

/-- The entries of a mapping in braces; a key may stand alone. -/
def readFlowEntries : Nat → Bool → Reader (List (Node × Node))
  | 0, _ => failure
  | n + 1, first => do
    if ← skipIf .closeMapping then return []
    if !first then expect .comma
    if ← skipIf .closeMapping then return []
    if ← skipIf .key then
      let k ← readUnless n [.value, .comma, .closeMapping] false false
      let v ← if ← skipIf .value then readUnless n [.comma, .closeMapping] false false
        else pure empty
      return (k, v) :: (← readFlowEntries n false)
    let k ← read n false false
    return (k, empty) :: (← readFlowEntries n false)

end

/-- Moves past marks of a document's end. -/
def skipEnds : Nat → Reader Unit
  | 0 => return
  | n + 1 => do if ← skipIf .documentEnd then skipEnds n

/-- Moves past directives; no two may explain the same thing. -/
def readDirectives : Nat → List Directive → Reader (List Directive)
  | 0, found => return found
  | n + 1, found => do
    match ← peek with
    | some (.directive d) =>
      if found.any (sameSubject d) then failure
      skip
      readDirectives n (d :: found)
    | _ => return found
where
  /-- Whether two directives explain the same thing. -/
  sameSubject : Directive → Directive → Bool
    | .version, .version => true
    | .handle a _, .handle b _ => a == b
    | _, _ => false

/-- What a directive says about a handle. -/
def handleOf? : Directive → Option (List Char × List Char)
  | .handle name beginning => some (name, beginning)
  | _ => none

/-- Whether a document ends where its mark stood. -/
def atDocumentEnd : Reader Bool := do
  match ← peek with
  | some (.directive _) => return true
  | some t => return t == .documentStart || t == .documentEnd
  | none => return true

/-- The one document of a text; none if the text is empty. -/
def document (size : Nat) : Reader (Option Node) := do
  let directives ← readDirectives size []
  modify fun r ↦ { r with handles := directives.filterMap handleOf? ++ r.handles }
  let marked ← skipIf .documentStart
  if !directives.isEmpty && !marked then failure
  if (← peek).isNone && !marked then return none
  let absent ← if marked then atDocumentEnd else pure false
  let node ← if absent then pure empty else read (4 * size + 8) true false
  skipEnds size
  if (← peek).isSome then failure
  return some node

/-- The document of a text, if it has one; the outer option is none for malformed texts. -/
def ofText? (text : String) : Option (Option Node) := do
  let tokens ← Token.ofText? text
  let (node, _) ← (document tokens.length).run { tokens }
  return node

end Node

end Schemata.Yaml
