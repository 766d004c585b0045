import EntityScaffold.Path
import EntityScaffold.Storage.OsError
import EntityScaffold.Text.Utf8

/-!
# File trees

A file tree as a value: which places hold a directory and which a file with its bytes.  A place
is the list of the names that lead to it from the working directory; the working directory itself
is always there.

Every operation either succeeds with a new tree or is refused with a cause and leaves the tree.
A path is followed name by name, so every directory on the way has to be there.

* `Tree.entryAt` — what a place holds, the view under which trees are compared.
* `entryAt_set`, `entryAt_erase` — what a change does to it.
-/

set_option autoImplicit false

namespace EntityScaffold.Storage

open Text

/-- The names that lead to a file or directory. -/
abbrev Place := List Text

/-- What a place holds. -/
inductive Entry where
  | directory
  | file (bytes : Bytes)
  deriving DecidableEq, Repr

/-- A file tree. -/
structure Tree where
  entries : List (Place × Entry) := []
  deriving Repr

namespace Tree

/-- The name under which places outside of the working directory are kept. -/
def outside : Place := [['/']]

/-- Whether a place holds a directory in every tree. -/
def isFixed (p : Place) : Bool := p = [] || p = outside

/-- What a place holds, if it holds anything. -/
def entryAt (t : Tree) (p : Place) : Option Entry :=
  if isFixed p then some .directory else t.entries.lookup p

/-- The tree with an entry in place of what the place held. -/
def set (t : Tree) (p : Place) (e : Entry) : Tree :=
  ⟨(t.entries.filter fun held => held.1 != p) ++ [(p, e)]⟩

/-- The tree without what the place held. -/
def erase (t : Tree) (p : Place) : Tree := ⟨t.entries.filter fun held => held.1 != p⟩

/-- Looking up among the entries whose places are of `keep`. -/
theorem lookup_filter (keep : Place → Bool) (q : Place) (es : List (Place × Entry)) :
    (es.filter fun held => keep held.1).lookup q = if keep q then es.lookup q else none := by
  induction es with
  | nil => simp
  | cons held es ih =>
    obtain ⟨p, e⟩ := held
    by_cases h : q = p
    · subst h
      cases hk : keep q with
      | true => simp [hk]
      | false =>
        rw [hk] at ih
        simp only [List.filter_cons, hk, ih, Bool.false_eq_true, if_false]
    · have hb : (q == p) = false := beq_eq_false_iff_ne.mpr h
      cases hk : keep p <;> simp only [List.filter_cons, List.lookup_cons, hk, hb, ih, if_true,
        Bool.false_eq_true, if_false]

theorem entryAt_of_isFixed (t : Tree) {p : Place} (h : isFixed p = true) :
    t.entryAt p = some .directory := by
  simp only [entryAt, h, if_true]

theorem entryAt_set (t : Tree) (p q : Place) (e : Entry) :
    (t.set p e).entryAt q =
      if isFixed q then some .directory else if q = p then some e else t.entryAt q := by
  unfold entryAt
  by_cases hf : isFixed q = true
  · simp only [hf, if_true]
  · simp only [hf, if_false, set, List.lookup_append, lookup_filter (fun k => k != p),
      Bool.false_eq_true]
    by_cases h : q = p
    · subst h; simp
    · have hb : (q == p) = false := beq_eq_false_iff_ne.mpr h
      simp [List.lookup_cons, h, hb]

theorem entryAt_erase (t : Tree) (p q : Place) :
    (t.erase p).entryAt q =
      if isFixed q then some .directory else if q = p then none else t.entryAt q := by
  unfold entryAt
  by_cases hf : isFixed q = true
  · simp only [hf, if_true]
  · simp only [hf, if_false, erase, lookup_filter (fun k => k != p), Bool.false_eq_true]
    by_cases h : q = p <;> simp [h]

/-- The names of the entries of a directory, in order. -/
def names (t : Tree) (p : Place) : List Text :=
  Text.sort (t.entries.filterMap fun (q, _) =>
    if q != [] && q.dropLast = p then q.getLast? else none)

/-- The longest name that a file may have, in bytes. -/
def longestName : Nat := 255

/-- Follows one name from a place. -/
def follow (t : Tree) (p : Place) (name : Text) : Except OsCause Place :=
  match t.entryAt p with
  | none => .error .notFound
  | some (.file _) => .error .notADirectory
  | some .directory =>
    if name = ".." then .ok (if isFixed p then outside else p.dropLast)
    else if longestName < (encode name).length then .error .nameTooLong
    else .ok (p ++ [name])

/-- The longest path, in bytes. -/
def longestPath : Nat := 4095

/-- The place that a path leads to, whether or not anything is there. -/
def locate (t : Tree) (p : Path) : Except OsCause Place :=
  if p.hasNul then .error .nulInPath
  else if longestPath < (encode p.text).length then .error .nameTooLong
  else p.parts.foldlM t.follow (if p.root = [] then [] else outside)

/-- What is at the end of a path. -/
def look (t : Tree) (p : Path) : Except OsCause (Place × Option Entry) := do
  let place ← t.locate p
  return (place, t.entryAt place)

/-- Makes a directory. -/
def makeDir (t : Tree) (p : Path) : Except OsCause Tree := do
  match ← t.look p with
  | (_, some _) => .error .exists
  | (place, none) => return t.set place .directory

/-- Writes a file, a new one or one that is there. -/
def write (t : Tree) (p : Path) (bytes : Bytes) : Except OsCause Tree := do
  match ← t.look p with
  | (_, some .directory) => .error .isADirectory
  | (place, _) => return t.set place (.file bytes)

/-- Writes a file that is not there yet. -/
def create (t : Tree) (p : Path) (bytes : Bytes) : Except OsCause Tree := do
  match ← t.look p with
  | (_, some _) => .error .exists
  | (place, none) => return t.set place (.file bytes)

/-- The bytes of a file. -/
def read (t : Tree) (p : Path) : Except OsCause Bytes := do
  match ← t.look p with
  | (_, some (.file bytes)) => return bytes
  | (_, some .directory) => .error .isADirectory
  | (_, none) => .error .notFound

/-- Removes a file. -/
def remove (t : Tree) (p : Path) : Except OsCause Tree := do
  match ← t.look p with
  | (place, some (.file _)) => return t.erase place
  | (_, some .directory) => .error .isADirectory
  | (_, none) => .error .notFound

/-- Moves a file, perhaps over another one.  The target has to end in a name. -/
def rename (t : Tree) (source target : Path) : Except OsCause Tree := do
  match ← t.look source with
  | (place, some (.file bytes)) =>
    let found ← t.look target
    if !target.endsInName then .error .busy
    else match found with
      | (_, some .directory) => .error .isADirectory
      | (goal, _) => return (t.erase place).set goal (.file bytes)
  | (_, some .directory) => .error .isADirectory
  | (_, none) => .error .notFound

end Tree

end EntityScaffold.Storage
