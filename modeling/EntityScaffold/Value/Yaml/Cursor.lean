import EntityScaffold.Text.Blank
import EntityScaffold.Value.Misreading

/-!
# Positions in a YAML text

A cursor is a position in a text: what stands behind it, and its line and column, which decide
the structure of a YAML document.
-/

set_option autoImplicit false

namespace EntityScaffold.Yaml

open Text

def isBreak (c : Char) : Bool := c == '\n' || c == '\x85' || c == '\u2028' || c == '\u2029'

/-- What stands between tokens. -/
def isSpacing (c : Char) : Bool := isSpaceTab c || isBreak c

/-- Whether a text begins with a space, a tab or a break, or is at its end. -/
def atSpacing (t : Text) : Bool := t.head?.all isSpacing

/-- The mark that a text may begin with; it takes no column. -/
def byteOrderMark : Char := '\ufeff'

/-- Whether a text may hold the character at all. -/
def isAllowed (c : Char) : Bool :=
  c == '\t' || c == '\n' || c == '\x85' || (0x20 ≤ c.toNat && c.toNat ≤ 0x7e) ||
    (0xa0 ≤ c.toNat && c.toNat ≤ 0xfffd) || 0x10000 ≤ c.toNat

/-- A position in a text.  Lines, columns and the index count from zero. -/
structure Cursor where
  rest : Text
  line : Nat := 0
  column : Nat := 0
  index : Nat := 0

namespace Cursor

/-- The position behind the next character. -/
def advance (c : Cursor) : Cursor :=
  match c.rest with
  | [] => c
  | ch :: rest =>
    if isBreak ch then ⟨rest, c.line + 1, 0, c.index + 1⟩
    else ⟨rest, c.line, if ch = byteOrderMark then c.column else c.column + 1, c.index + 1⟩

def advanceBy : Nat → Cursor → Cursor
  | 0, c => c
  | n + 1, c => advanceBy n c.advance

/-- The longest run of characters of `p` that comes next, and the position behind it. -/
def span (p : Char → Bool) (c : Cursor) : Text × Cursor :=
  let run := c.rest.takeWhile p
  (run, c.advanceBy run.length)

/-- The position behind the characters of `p` that come next. -/
def skip (p : Char → Bool) (c : Cursor) : Cursor := (c.span p).2

/-- The line break that comes next, if one does. -/
def lineBreak? (c : Cursor) : Option (Char × Cursor) :=
  match c.rest with
  | ch :: _ => if isBreak ch then some (if ch = '\x85' then '\n' else ch, c.advance) else none
  | [] => none

/-- Whether the marker of a document's beginning or end comes next. -/
def atSeparator (c : Cursor) : Bool :=
  (startsWith "---" c.rest || startsWith "..." c.rest) && atSpacing (c.rest.drop 3)

/-- Whether a character comes next. -/
def isAt (c : Cursor) (ch : Char) : Bool := c.rest.head? == some ch

/-- The end of the line behind a position where nothing but a comment may follow. -/
def endOfLine (c : Cursor) : Except Misreading Cursor :=
  let c := c.skip (· == ' ')
  let c := if c.isAt '#' then c.skip (!isBreak ·) else c
  match c.lineBreak? with
  | some (_, c) => .ok c
  | none => if c.rest.isEmpty then .ok c else .error .malformed

end Cursor

end EntityScaffold.Yaml
