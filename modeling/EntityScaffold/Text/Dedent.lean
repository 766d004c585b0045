import EntityScaffold.Text.Blank

/-!
# Indentation

* `dedent` removes the longest beginning of spaces and tabs that all lines with content share;
  lines of spaces and tabs only become empty.
* `indentLines` puts an indentation before every line with content; blank lines become empty.
-/

set_option autoImplicit false

namespace EntityScaffold.Text

/-- The longest common beginning of two texts. -/
def commonStart : Text → Text → Text
  | c :: s, d :: t => if c = d then c :: commonStart s t else []
  | _, _ => []

/-- The spaces and tabs at the beginning of a line. -/
def leading (line : Text) : Text := line.takeWhile isSpaceTab

/-- A line of spaces and tabs only, made empty. -/
def emptied (line : Text) : Text := if line.all isSpaceTab then [] else line

/-- What all lines with content begin with. -/
def margin (ls : List Text) : Text :=
  match ls.filter (!·.all isSpaceTab) with
  | [] => []
  | line :: more => more.foldl (fun m l => commonStart m (leading l)) (leading line)

/-- The line without the margin, where it begins with it. -/
def withoutMargin (m line : Text) : Text := (after? m line).getD line

/-- The text moved to the left as far as its lines with content allow. -/
def dedent (t : Text) : Text :=
  let ls := (lines t).map emptied
  ofLines (ls.map (withoutMargin (margin ls)))

/-- The lines of a text behind an indentation; blank lines are empty. -/
def indentLines (indent t : Text) : List Text :=
  (lines t).map fun line => if isBlankText line then [] else indent ++ line

end EntityScaffold.Text
