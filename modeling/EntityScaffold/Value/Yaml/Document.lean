import EntityScaffold.Value.Yaml.Meaning
import EntityScaffold.Value.Yaml.Node

/-!
# YAML documents

The value of a document.  An alias is the very collection that its anchor has named, so a document
is a graph of collections, which may even hold themselves.  A change of a collection shows wherever
it stands.

Making the collections goes breadth first: all members of one are made before those of the next.
The order decides which of several errors is found.

* `Document.ofGraph` — the collections of a graph of nodes.
* `Document.value` — the value that a document shows when read from its root.
* `Document.withSettings` — a document with settings that take precedence over its own.
-/

set_option autoImplicit false

namespace EntityScaffold.Yaml

open Text

/-- A member of a collection. -/
inductive Item where
  /-- A value of its own. -/
  | value (v : Value)
  /-- The collection of a number. -/
  | part (n : Nat)
  | pair (first second : Item)
  deriving Repr, Inhabited

/-- A collection. -/
inductive Part where
  | list (items : List Item)
  | set (members : List Atom)
  | map (entries : Entries Item)
  deriving Repr, Inhabited

/-- A document: its collections by number, and what it is. -/
structure Document where
  parts : Array Part
  root : Item

/-! ## Making collections -/

/-- What has been made of a graph so far. -/
structure Making where
  nodes : Array Node
  /-- The collections that have been begun, by the numbers of their nodes. -/
  parts : Array (Option Part)
  /-- The numbers of those that have no members yet, the first begun first. -/
  waiting : List Nat := []

/-- A step of making a document. -/
abbrev Make := StateT Making (Except Misreading)

namespace Make

def malformed {α : Type} : Make α := throw .malformed

def nodeOf (n : Nat) : Make Node := do return (← get).nodes.getD n .empty

/-- The entries of a node that is a map. -/
def entriesOf (n : Nat) : Make (List (Nat × Nat)) := do
  match (← nodeOf n).content with
  | .map es => return es
  | _ => malformed

def setEntries (n : Nat) (es : List (Nat × Nat)) : Make Unit :=
  modify fun m => { m with
    nodes := m.nodes.modify n fun node => { node with content := .map es } }

/-- Whether a node has a tag. -/
def hasTag (tag : Tag) (n : Nat) : Make Bool := do return (← nodeOf n).tag = tag

/-- Makes a text of a node that is a key for the scalar of its map. -/
def plainKey (n : Nat) : Make Unit := do
  if ← hasTag .value n then
    modify fun m => { m with nodes := m.nodes.modify n fun node => { node with tag := .text } }

/-- The entries before, the entry of, and the entries behind the first merging key from an index
on. -/
def cutAtMerge (from_ : Nat) (es : List (Nat × Nat)) :
    Make (Option (List (Nat × Nat) × Nat × List (Nat × Nat))) := do
  let m ← get
  match (es.drop from_).findIdx? fun e => (m.nodes.getD e.1 .empty).tag = .merge with
  | none => return none
  | some i =>
    match es.drop (from_ + i) with
    | (_, v) :: behind => return some (es.take (from_ + i), v, behind)
    | [] => return none

mutual

/-- The entries that the merging keys of a map from an index on stand for.  The keys are taken out
of the map one by one, so `fuel` can be a bound on their number. -/
def merged (fuel n from_ : Nat) : Make (List (Nat × Nat)) :=
  match fuel with
  | 0 => malformed
  | fuel + 1 => do
    match ← cutAtMerge from_ (← entriesOf n) with
    | none => return []
    | some (before, source, behind) =>
      setEntries n (before ++ behind)
      let es ← match (← nodeOf source).content with
        | .scalar _ => malformed
        | .map _ => allEntries fuel source
        | .list items => pure (← items.mapM (allEntries fuel)).reverse.flatten
      return es ++ (← merged fuel n before.length)

/-- The entries of a map, those that are merged into it first. -/
def allEntries (fuel n : Nat) : Make (List (Nat × Nat)) :=
  match fuel with
  | 0 => malformed
  | fuel + 1 => do
    let es ← merged fuel n 0
    if !es.isEmpty then setEntries n (es ++ (← entriesOf n))
    let es ← entriesOf n
    es.forM fun e => plainKey e.1
    return es

end

/-- A bound on the steps of merging: twice the number of entries, and two. -/
def mergeFuel : Make Nat := do
  return (← get).nodes.foldl (fun n node => match node.content with
    | .map es => n + 2 * es.length
    | _ => n) 2

/-- The text of a scalar, or of the scalar that a map may stand for. -/
def textOf (fuel n : Nat) : Make Text :=
  match fuel with
  | 0 => malformed
  | fuel + 1 => do
    match (← nodeOf n).content with
    | .scalar t => return t
    | .list _ => malformed
    | .map es =>
      let m ← get
      match es.find? fun e => (m.nodes.getD e.1 .empty).tag = .value with
      | some (_, v) => textOf fuel v
      | none => malformed

/-- Begins a collection, unless it has been begun. -/
def begin_ (n : Nat) (empty : Part) : Make Item := do
  if ((← get).parts.getD n none).isNone then
    modify fun m => { m with
      parts := m.parts.setIfInBounds n (some empty)
      waiting := m.waiting ++ [n] }
  return .part n

/-- What a node is: an atom, or a collection that is begun. -/
def item (n : Nat) : Make Item := do
  let node ← nodeOf n
  match node.tag with
  | .list | .pairs => begin_ n (.list [])
  | .map => begin_ n (.map [])
  | .set => begin_ n (.set [])
  | tag =>
    let t ← textOf ((← get).nodes.size + 1) n
    match tag, node.content with
    | .moment, .map _ => throw (.content .momentOfMap)
    | _, _ => return .value (.atom (← atomOf tag t))

/-- The atom that a key is; no collection is one. -/
def keyOf (n : Nat) : Make Atom := do
  match ← item n with
  | .value (.atom a) => return a
  | _ => malformed

/-- The entries of a map, with what their nodes are. -/
def entryItems (n : Nat) : Make (Entries Item) := do
  let es ← allEntries (← mergeFuel) n
  let es ← es.mapM fun (k, v) => do return (← keyOf k, ← item v)
  return Entries.ofList es

/-- The pair that a map of one entry is. -/
def pairOf (n : Nat) : Make Item := do
  match ← entriesOf n with
  | [(k, v)] => return .pair (← item k) (← item v)
  | _ => malformed

/-- A collection with its members. -/
def partOf (n : Nat) : Make Part := do
  let node ← nodeOf n
  match node.tag, node.content with
  | .list, .list items => return .list (← items.mapM item)
  | .pairs, .list items => return .list (← items.mapM pairOf)
  | .map, _ => return .map (← entryItems n)
  | .set, _ => return .set ((← entryItems n).map (·.1))
  | _, _ => malformed

/-- Gives the collections their members, one after another; `fuel` bounds their number. -/
def partsOf (fuel : Nat) : Make Unit := do
  match (← get).waiting, fuel with
  | [], _ => return
  | _ :: _, 0 => malformed
  | n :: more, fuel + 1 =>
    modify fun m => { m with waiting := more }
    let p ← partOf n
    modify fun m => { m with parts := m.parts.setIfInBounds n (some p) }
    partsOf fuel

end Make

namespace Document

/-- The collections of a graph of nodes. -/
def ofGraph (g : Graph) : Except Misreading Document := do
  let size := g.nodes.size
  let make : Make Item := do
    let root ← Make.item g.root
    Make.partsOf size
    return root
  let (root, m) ← make.run { nodes := g.nodes, parts := Array.replicate size none }
  return ⟨m.parts.map (·.getD (.list [])), root⟩

/-- The only document of a text; nothing is in an empty one. -/
def read (t : Text) : Except Misreading Document := do
  ofGraph (← Graph.ofTokens (Tokens.ofText t))

/-! ## Values -/

/-- A value as far as it is known, and whether it is known in full. -/
abbrev Partial := Value × Bool

/-- A value without its members. -/
def emptied : Part → Partial
  | .list _ => (.list [], false)
  | .set members => (.set members, true)
  | .map _ => (.map [], false)

/-- The value of a member, given those of the collections. -/
def itemValue (known : Array Partial) : Item → Partial
  | .value v => (v, true)
  | .part n => known.getD n (.null, true)
  | .pair first second =>
    let (v, isFull) := itemValue known first
    let (w, isFull') := itemValue known second
    (.list [v, w], isFull && isFull')

/-- The value of a collection, given those of all collections. -/
def partValue (known : Array Partial) : Part → Partial
  | .list items =>
    let vs := items.map (itemValue known)
    (.list (vs.map (·.1)), vs.all (·.2))
  | .set members => (.set members, true)
  | .map es =>
    let vs := es.map fun (k, i) => (k, itemValue known i)
    (.map (vs.map fun (k, v) => (k, v.1)), vs.all (·.2.2))

/-- Looks one level deeper into the collections, as often as `fuel` allows or until the root is
known in full. -/
def deepen (d : Document) (fuel : Nat) (known : Array Partial) : Value :=
  match fuel with
  | 0 => (itemValue known d.root).1
  | fuel + 1 =>
    let (v, isFull) := itemValue known d.root
    if isFull then v else deepen d fuel (d.parts.map (partValue known))

/-- How deep a collection that holds itself is looked into, at least. -/
def leastDepth : Nat := 8

/-- The value of a document.  As many levels are shown as there are collections, so nothing is left
out unless a collection holds itself. -/
def value (d : Document) : Value :=
  d.deepen (d.parts.size + leastDepth) (d.parts.map emptied)

/-! ## Settings -/

/-- The entries of the root, and its number, if it is a map. -/
def root? (d : Document) : Option (Nat × Entries Item) :=
  match d.root with
  | .part n =>
    match d.parts[n]? with
    | some (.map es) => some (n, es)
    | _ => none
  | _ => none

/-- The document with another collection of a number. -/
def setPart (d : Document) (n : Nat) (p : Part) : Document :=
  { d with parts := d.parts.setIfInBounds n p }

/-- A document with settings that take precedence over those in the map under a key of its root.
If there is no map under the key, a new one takes its place. -/
def withSettings (d : Document) (key : Atom) (settings : Entries Value) : Document :=
  let put (es : Entries Item) : Part :=
    .map (settings.foldl (fun es e => es.put e.1 (.value e.2)) es)
  match d.root? with
  | none => d
  | some (n, es) =>
    match (es.find? key).bind fun
        | .part m => (d.parts[m]?).bind fun
          | .map inner => some (m, inner)
          | _ => none
        | _ => none with
    | some (m, inner) => d.setPart m (put inner)
    | none =>
      let d := d.setPart n (.map (es.put key (.part d.parts.size)))
      { d with parts := d.parts.push (put []) }

end Document

end EntityScaffold.Yaml
