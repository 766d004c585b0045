import EntityScaffold.Value.Yaml.Tag
import EntityScaffold.Value.Yaml.Token

/-!
# Nodes of YAML

The graph that the tokens of a document describe.  Nodes go by numbers, so that an alias is the
number of the node that its anchor has named, even within that node.

* `Graph.ofTokens` — the nodes of the only document, unless the tokens describe none.
-/

set_option autoImplicit false

namespace EntityScaffold.Yaml

open Text

/-- What a node holds; other nodes go by their numbers. -/
inductive Content where
  | scalar (t : Text)
  | list (items : List Nat)
  | map (entries : List (Nat × Nat))
  deriving DecidableEq, Repr

/-- A node of a document. -/
structure Node where
  tag : Tag
  content : Content
  deriving DecidableEq, Repr

/-- The node of nothing. -/
def Node.empty : Node := ⟨.null, .scalar []⟩

instance : Inhabited Node := ⟨.empty⟩

/-- A document. -/
structure Graph where
  nodes : Array Node
  root : Nat

/-- What is left to read, and what has been read and named. -/
structure Reading where
  tokens : List Token
  /-- Why no tokens follow these, if not for the end of the text. -/
  misreading : Option Misreading
  nodes : Array Node := #[]
  anchors : List (Text × Nat) := []
  /-- The name spaces of tags by handle. -/
  handles : List (Text × Text) := []

/-- A step of reading, which fails where the tokens describe nothing. -/
abbrev Read := StateT Reading (Except Misreading)

namespace Read

def malformed {α : Type} : Read α := throw .malformed

/-- The next token, if there is one. -/
def peek : Read (Option Token) := do
  let r ← get
  match r.tokens, r.misreading with
  | t :: _, _ => return some t
  | [], none => return none
  | [], some e => throw e

def advance : Read Unit := modify fun r => { r with tokens := r.tokens.drop 1 }

/-- Takes the next token if it is this one, and tells whether it was. -/
def accept (t : Token) : Read Bool := do
  if (← peek) = some t then
    advance
    return true
  else return false

def expect (t : Token) : Read Unit := do
  if !(← accept t) then malformed

/-- Whether one of these tokens comes next. -/
def isAt (ts : List Token) : Read Bool := do return (← peek).any ts.contains

/-- Adds a node and gives its number. -/
def add (n : Node) : Read Nat := do
  let number := (← get).nodes.size
  modify fun r => { r with nodes := r.nodes.push n }
  return number

/-- Names a node. -/
def name (anchor : Option Text) (number : Nat) : Read Unit :=
  modify fun r => { r with anchors := anchor.toList.map (fun a => (a, number)) ++ r.anchors }

/-- Gives a node its content. -/
def fill (number : Nat) (c : Content) : Read Unit :=
  modify fun r => { r with
    nodes := r.nodes.modify number fun n => { n with content := c } }

/-- A tag in full; a single exclamation mark says nothing. -/
def fullTag (handle : Option Text) (suffix : Text) : Read (Option Text) := do
  match handle with
  | none => return if suffix = ['!'] then none else some suffix
  | some handle =>
    match (← get).handles.lookup handle with
    | some space => return some (space ++ suffix)
    | none =>
      if handle = ['!'] then return some ('!' :: suffix)
      else if handle = "!!" then return some (Tag.coreSpace ++ suffix)
      else malformed

/-- What is said before the content of a node: its anchor, whether there is a tag, and what the
tag says. -/
structure Properties where
  anchor : Option Text := none
  hasTag : Bool := false
  tag : Option Text := none

def anchorOf (p : Properties) : Read Properties := do
  match ← peek with
  | some (.anchor name) =>
    advance
    return { p with anchor := some name }
  | _ => return p

def tagOf (p : Properties) : Read Properties := do
  match ← peek with
  | some (.tag handle suffix) =>
    advance
    return { p with hasTag := true, tag := ← fullTag handle suffix }
  | _ => return p

/-- An anchor and a tag, in either order.  No anchor is given twice. -/
def properties : Read Properties := do
  let p ← tagOf (← anchorOf {})
  let p ← if p.anchor.isNone then anchorOf p else pure p
  match p.anchor with
  | none => return p
  | some anchor =>
    if ((← get).anchors.lookup anchor).isSome then malformed else return p

def Properties.isEmpty (p : Properties) : Bool := p.anchor.isNone && !p.hasTag

/-- What a scalar is taken for.  Without a tag a plain one is taken for what it looks like, and
any other for a text. -/
def Properties.ofScalar (p : Properties) (isPlain : Bool) (t : Text) : Tag :=
  match p.tag with
  | some tag => .ofName tag
  | none => if isPlain || p.hasTag then .ofPlain t else .text

/-- What a collection is taken for. -/
def Properties.ofCollection (p : Properties) (usual : Tag) : Tag := p.tag.elim usual .ofName

/-- A scalar. -/
def scalar (p : Properties) (isPlain : Bool) (t : Text) : Read Nat := do
  let number ← add ⟨p.ofScalar isPlain t, .scalar t⟩
  name p.anchor number
  return number

/-- A collection, which has its name before its content is read. -/
def collection (p : Properties) (usual : Tag) (content : Read Content) : Read Nat := do
  let number ← add ⟨p.ofCollection usual, .list []⟩
  name p.anchor number
  fill number (← content)
  return number

/-- The node of nothing where something may be left out. -/
def absent : Read Nat := add .empty

/-- Where a node stands, which decides what may begin there. -/
inductive Place where
  | block
  /-- Behind a key of a block, where a list needs no further indentation. -/
  | entry
  | flow
  deriving DecidableEq, Repr

mutual

/-- A node; `fuel` bounds the number of steps. -/
def node (fuel : Nat) (place : Place) : Read Nat :=
  match fuel with
  | 0 => malformed
  | fuel + 1 => do
    match ← peek with
    | some (.alias anchor) =>
      advance
      match (← get).anchors.lookup anchor with
      | some number => return number
      | none => malformed
    | _ => content fuel place (← properties)

/-- A node of which the anchor and the tag have been read. -/
def content (fuel : Nat) (place : Place) (p : Properties) : Read Nat :=
  match fuel with
  | 0 => malformed
  | fuel + 1 => do
    match ← peek with
    | some (.scalar text isPlain) =>
      advance
      scalar p isPlain text
    | some .flowListStart =>
      advance
      collection p .list (.list <$> flowItems fuel true)
    | some .flowMapStart =>
      advance
      collection p .map (.map <$> flowEntries fuel true)
    | some .item =>
      if place = .entry then collection p .list (.list <$> innerItems fuel) else missing p
    | some .blockListStart =>
      if place = .flow then missing p
      else
        advance
        collection p .list (.list <$> blockItems fuel)
    | some .blockMapStart =>
      if place = .flow then missing p
      else
        advance
        collection p .map (.map <$> blockEntries fuel)
    | _ => missing p

/-- A node without content; something has to be said before it. -/
def missing (p : Properties) : Read Nat := if p.isEmpty then malformed else scalar p true []

/-- A node, or the empty one before these tokens. -/
def nodeUnless (fuel : Nat) (place : Place) (ends : List Token) : Read Nat :=
  match fuel with
  | 0 => malformed
  | fuel + 1 => do if ← isAt ends then absent else node fuel place

/-- The items of a block up to its end. -/
def blockItems (fuel : Nat) : Read (List Nat) :=
  match fuel with
  | 0 => malformed
  | fuel + 1 => do
    if ← accept .item then
      let n ← nodeUnless fuel .block [.item, .blockEnd]
      return n :: (← blockItems fuel)
    else
      expect .blockEnd
      return []

/-- The items of a list behind a key, which has no end of its own. -/
def innerItems (fuel : Nat) : Read (List Nat) :=
  match fuel with
  | 0 => malformed
  | fuel + 1 => do
    if ← accept .item then
      let n ← nodeUnless fuel .block [.item, .key, .value, .blockEnd]
      return n :: (← innerItems fuel)
    else return []

/-- The entries of a block up to its end. -/
def blockEntries (fuel : Nat) : Read (List (Nat × Nat)) :=
  match fuel with
  | 0 => malformed
  | fuel + 1 => do
    if ← accept .key then
      let k ← nodeUnless fuel .entry [.key, .value, .blockEnd]
      let v ← if ← accept .value then nodeUnless fuel .entry [.key, .value, .blockEnd]
        else absent
      return (k, v) :: (← blockEntries fuel)
    else
      expect .blockEnd
      return []

/-- The value behind a key in a flow collection, before these tokens. -/
def flowValue (fuel : Nat) (ends : List Token) : Read Nat :=
  match fuel with
  | 0 => malformed
  | fuel + 1 => do
    if ← accept .value then nodeUnless fuel .flow ends else absent

/-- The items of a flow list up to its end. -/
def flowItems (fuel : Nat) (isFirst : Bool) : Read (List Nat) :=
  match fuel with
  | 0 => malformed
  | fuel + 1 => do
    if ← accept .flowListEnd then return []
    else
      if !isFirst then expect .comma
      if ← accept .key then
        let k ← nodeUnless fuel .flow [.value, .comma, .flowListEnd]
        let v ← flowValue fuel [.comma, .flowListEnd]
        return (← collection {} .map (pure (.map [(k, v)]))) :: (← flowItems fuel false)
      else if ← accept .flowListEnd then return []
      else
        let n ← node fuel .flow
        return n :: (← flowItems fuel false)

/-- The entries of a flow map up to its end. -/
def flowEntries (fuel : Nat) (isFirst : Bool) : Read (List (Nat × Nat)) :=
  match fuel with
  | 0 => malformed
  | fuel + 1 => do
    if ← accept .flowMapEnd then return []
    else
      if !isFirst then expect .comma
      if ← accept .key then
        let k ← nodeUnless fuel .flow [.value, .comma, .flowMapEnd]
        let v ← flowValue fuel [.comma, .flowMapEnd]
        return (k, v) :: (← flowEntries fuel false)
      else if ← accept .flowMapEnd then return []
      else
        let k ← node fuel .flow
        let v ← absent
        return (k, v) :: (← flowEntries fuel false)

end

/-! ## Documents -/

/-- Takes the directives before a document. -/
def directives (fuel : Nat) (hasVersion : Bool) : Read Unit :=
  match fuel with
  | 0 => malformed
  | fuel + 1 => do
    match ← peek with
    | some (.version major) =>
      advance
      if hasVersion || major ≠ 1 then malformed else directives fuel true
    | some (.handle handle space) =>
      advance
      if ((← get).handles.lookup handle).isSome then malformed
      modify fun r => { r with handles := (handle, space) :: r.handles }
      directives fuel hasVersion
    | some .directive =>
      advance
      directives fuel hasVersion
    | _ => return

/-- Whether a token is a directive. -/
def isDirective : Token → Bool
  | .version _ | .handle .. | .directive => true
  | _ => false

/-- The node of a document, behind its marker. -/
def documentContent (fuel : Nat) : Read Nat := do
  match ← peek with
  | none => absent
  | some t =>
    if t = .documentEnd || t = .documentStart || isDirective t then absent else node fuel .block

/-- Nothing but markers of a document's end may follow. -/
def ending (fuel : Nat) : Read Unit :=
  match fuel with
  | 0 => malformed
  | fuel + 1 => do
    match ← peek with
    | none => return
    | some .documentEnd =>
      advance
      ending fuel
    | some _ => malformed

/-- The only document; its node is empty if there is none. -/
def document (fuel : Nat) : Read Nat := do
  match ← peek with
  | none => absent
  | some t =>
    let number ← if t = .documentStart || isDirective t then do
        directives fuel false
        expect .documentStart
        documentContent fuel
      else node fuel .block
    ending fuel
    return number

end Read

/-- The nodes of the only document. -/
def Graph.ofTokens (ts : Tokens) : Except Misreading Graph := do
  let (root, r) ← (Read.document (4 * ts.tokens.length + 4)).run
    { tokens := ts.tokens, misreading := ts.misreading }
  return ⟨r.nodes, root⟩

end EntityScaffold.Yaml
