import EntityScaffold.Text.Quoted

/-!
# Paths

Paths in normal form: no empty and no `.` components.  Two dots stay, since what they mean
depends on the directories there are; `Path.collapsed` is where a path leads if none of its
directories is a link.
-/

set_option autoImplicit false

namespace EntityScaffold

open Text

/-- A path: what it begins with (nothing, `/` or `//`), and its components. -/
structure Path where
  root : Text := []
  parts : List Text
  deriving DecidableEq, Repr, Inhabited

namespace Path

/-- The path that a text denotes. -/
def ofText (t : Text) : Path where
  root :=
    let slashes := t.takeWhile (· == '/')
    if slashes.length = 2 then slashes else slashes.take 1
  parts := (splitAt '/' t).filter fun part => part != [] && part != ['.']

/-- The text of a path. -/
def text (p : Path) : Text :=
  if p.root = [] && p.parts = [] then "." else p.root ++ joinWith ['/'] p.parts

/-- Whether the text of a path holds the character NUL, which no file system takes. -/
def hasNul (p : Path) : Bool := p.text.contains '\x00'

/-- The path `q` as seen from `p`. -/
def join (p q : Path) : Path :=
  if q.root = [] then { p with parts := p.parts ++ q.parts } else q

/-- What a path within `p` is called `name`; slashes in the name separate components. -/
def child (p : Path) (name : Text) : Path := p.join (ofText name)

/-- Whether the last component is there and is not two dots. -/
def endsInName (p : Path) : Bool := p.parts.getLast?.any fun part => part != ['.', '.']

/-- The last component. -/
def name (p : Path) : Text := p.parts.getLast?.getD []

/-- The path without its last component. -/
def parent (p : Path) : Path := { p with parts := p.parts.dropLast }

/-- The path with another last component. -/
def withName (p : Path) (name : Text) : Path := { p with parts := p.parts.dropLast ++ [name] }

/-- Where the last dot of a name stands that has characters on both sides. -/
def dotIndex? (name : Text) : Option Nat :=
  let behind := name.reverse.takeWhile (· != '.')
  let index := name.length - behind.length - 1
  if behind.length < name.length && behind != [] && 0 < index then some index else none

/-- The ending of the last component, with its dot. -/
def suffix (p : Path) : Text := (dotIndex? p.name).elim [] fun i => p.name.drop i

/-- The last component without its ending. -/
def stem (p : Path) : Text := (dotIndex? p.name).elim p.name fun i => p.name.take i

/-- Takes one component: two dots lead back. -/
def step (at_ : List Text) (part : Text) : List Text :=
  if part = ".." then at_.dropLast else at_ ++ [part]

/-- The components of the place that a path leads to from the directory `base`. -/
def collapsed (base : List Text) (p : Path) : List Text :=
  p.parts.foldl step (if p.root = [] then base else [])

end Path

end EntityScaffold
