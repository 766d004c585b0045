import EntityScaffold.Source.Declaration
import EntityScaffold.Source.Extent
import EntityScaffold.Naming

/-!
# Attributes

An attribute group `#[A(…), B]` stands in front of a declaration.  `withoutAttributes` blanks the
groups of a masked member, and `attributeNames` lists the short names of the attributes.
-/

set_option autoImplicit false

namespace EntityScaffold.Source

open Text

/-- The inside of a group of which `depth` square brackets are open, and the rest behind the
bracket that closes it.  Without that bracket everything is inside. -/
def groupInside (depth : Nat) : Text → Text × Text
  | [] => ([], [])
  | c :: t =>
    if c = ']' && depth ≤ 1 then ([], t)
    else
      let depth := if c = '[' then depth + 1 else if c = ']' then depth - 1 else depth
      let (inside, rest) := groupInside depth t
      (c :: inside, rest)

theorem length_groupInside (depth : Nat) (t : Text) :
    (groupInside depth t).2.length ≤ t.length := by
  induction t generalizing depth with
  | nil => simp [groupInside]
  | cons c t ih =>
    simp only [groupInside]
    split
    · simp
    · exact Nat.le_succ_of_le (ih _)

/-- The pieces of a group between the commas outside of brackets, each without its comma.  A
comma stands behind the last piece too.  `piece` is what has been read, last character first. -/
def groupPieces (depth : Int) (piece : Text) : Text → List Text
  | [] => if depth = 0 then [piece.reverse] else []
  | c :: t =>
    let depth := if isOpener c then depth + 1 else if isCloser c then depth - 1 else depth
    if c = ',' && depth = 0 then piece.reverse :: groupPieces depth [] t
    else groupPieces depth (c :: piece) t

/-- The short name of the class that a piece of a group begins with. -/
def attributeName? (piece : Text) : Option Text :=
  let t := skipBlanks piece
  (qualifiedName? ((after? "\\" t).getD t)).map fun (name, _) => shortName name

/-- The short names of the attributes of one group. -/
def attributeNames (inside : Text) : List Text :=
  (groupPieces 0 [] inside).filterMap attributeName?

/-- The masked text with its attribute groups blanked, and the names in the groups. -/
def withoutAttributes : Text → Text × List Text
  | [] => ([], [])
  | '#' :: '[' :: t =>
    let inside := (groupInside 1 t).1
    let (more, names) := withoutAttributes (groupInside 1 t).2
    (List.replicate (inside.length + 3) ' ' ++ more, attributeNames inside ++ names)
  | c :: t =>
    let (more, names) := withoutAttributes t
    (c :: more, names)
  termination_by t => t.length
  decreasing_by
  · have := length_groupInside 1 t
    simp only [List.length_cons]
    omega
  · simp

end EntityScaffold.Source
