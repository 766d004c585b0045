import EntityScaffold.Text.Basic

/-!
# Brackets and the extent of a member

A member of a class ends with a semicolon outside of all brackets, or with the brace that closes
its first block.  Both functions here run on masked text.
-/

set_option autoImplicit false

namespace EntityScaffold.Source

/-- The bracket that closes `c`, if `c` opens one. -/
def closerOf? (c : Char) : Option Char :=
  if c = '(' then some ')' else if c = '[' then some ']' else if c = '\x7b' then some '\x7d' else none

def isOpener (c : Char) : Bool := c == '(' || c == '[' || c == '\x7b'

def isCloser (c : Char) : Bool := c == ')' || c == ']' || c == '\x7d'

/-- Where a member ends. -/
structure Extent where
  /-- The number of its characters. -/
  size : Nat
  /-- Where its block opens and closes, if it ends with one. -/
  block : Option (Nat × Nat)
  deriving DecidableEq, Repr

/-- The extent of a member of which `pos` characters have been read.  `openers` are the brackets
still open, the innermost first, and `block` is where the first block opens. -/
def extentFrom (openers : List Char) (block : Option Nat) (pos : Nat) : Text → Option Extent
  | [] => none
  | c :: t =>
    if isOpener c then
      let block := if c = '\x7b' && openers.isEmpty && block.isNone then some pos else block
      extentFrom (c :: openers) block (pos + 1) t
    else if isCloser c then
      match openers with
      | [] => none
      | o :: outer =>
        if closerOf? o ≠ some c then none
        else match if c = '\x7d' && outer.isEmpty then block else none with
          | some start => some ⟨pos + 1, some (start, pos)⟩
          | none => extentFrom outer block (pos + 1) t
    else if c = ';' && openers.isEmpty then some ⟨pos + 1, none⟩
    else extentFrom openers block (pos + 1) t

/-- The extent of the member that the masked text begins with; none if the brackets do not match
before its end, or the text runs out. -/
def extent? (m : Text) : Option Extent := extentFrom [] none 0 m

/-- The number of characters up to the brace that closes `depth` open ones, that brace not
counted. -/
def closingBrace? (depth : Nat) : Text → Option Nat
  | [] => none
  | c :: t =>
    if c = '\x7b' then (closingBrace? (depth + 1) t).map (· + 1)
    else if c = '\x7d' then
      if depth ≤ 1 then some 0 else (closingBrace? (depth - 1) t).map (· + 1)
    else (closingBrace? depth t).map (· + 1)

end EntityScaffold.Source
