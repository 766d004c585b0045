import EntityScaffold.Source.Declaration

/-!
# Blank lines and spaces of a file

`normalizeWhitespace` is the last pass over a file's text:

* the declaration of strict types is written in its shortest form, with one blank line behind it
  where only line feeds stood;
* one blank line follows the opening tag, unless the declaration does;
* one blank line stands between an import and the class behind it;
* no line ends in spaces or tabs, and no two blank lines follow each other;
* the file begins with the opening tag and ends with one line feed.
-/

set_option autoImplicit false

namespace EntityScaffold.Source

open Text

/-- A rule of replacement: given the preceding character and a text, what takes the place of the
beginning of the text, and the rest behind that beginning. -/
abbrev Replacement := Option Char → Text → Option (Text × Text)

/-- Replaces wherever the rule applies, from left to right.  `skip` characters belong to the
last place where it did. -/
def replaceFrom (rule : Replacement) (prev : Option Char) (skip : Nat) : Text → Text
  | [] => []
  | c :: t =>
    match skip with
    | skip + 1 => replaceFrom rule (some c) skip t
    | 0 => match rule prev (c :: t) with
      | some (new, rest) => new ++ replaceFrom rule (some c) (t.length - rest.length) t
      | none => c :: replaceFrom rule (some c) 0 t

/-- The text with every replacement that the rule makes. -/
def replaceAll (rule : Replacement) (t : Text) : Text := replaceFrom rule none 0 t

/-- The declaration of strict types, as it is written. -/
def strictTypes : Text := "declare(strict_types=1);"

/-- The opening tag of a file. -/
def openTag : Text := "<?php"

/-- The text behind a piece and the blanks that follow the piece. -/
def loosely? (piece t : Text) : Option Text := (after? piece t).map skipBlanks

/-- The declaration of strict types, with any white space inside; the rest behind it. -/
def looseStrictTypes? (t : Text) : Option Text := do
  let t ← loosely? "declare" t
  let t ← loosely? "(" t
  let t ← loosely? "strict_types" t
  let t ← loosely? "=" t
  let t ← loosely? "1" t
  let t ← loosely? ")" t
  after? ";" t

/-- Writes the declaration of strict types in its shortest form. -/
def tightenStrictTypes : Replacement := fun _ t =>
  (looseStrictTypes? t).map fun rest => (strictTypes, rest)

/-- Spaces and tabs, then at least one line feed, then something that is not blank: that rest. -/
def behindLineFeeds? (t : Text) : Option Text :=
  let t := t.dropWhile isSpaceTab
  let rest := t.dropWhile (· == '\n')
  if t.head? = some '\n' && rest.head?.any (!isBlank ·) then some rest else none

/-- Puts one blank line behind the declaration of strict types. -/
def separateStrictTypes : Replacement := fun _ t => do
  let rest ← behindLineFeeds? (← after? strictTypes t)
  some (strictTypes ++ "\n\n", rest)

/-- Whether the text begins with a word that ends where the word does. -/
def beginsWithWord (word t : Text) : Bool :=
  (after? word t).any fun rest => !rest.head?.any isWord

/-- Puts one blank line behind the opening tag, unless a declaration follows. -/
def separateOpenTag (t : Text) : Text :=
  match (after? openTag t).bind behindLineFeeds? with
  | some rest => if beginsWithWord "declare" rest then t else openTag ++ "\n\n" ++ rest
  | none => t

/-- Whether a class begins here: an attribute, a doc comment, or a class header. -/
def beginsClass (t : Text) : Bool :=
  let t := t.dropWhile isSpaceTab
  startsWith "#[" t || startsWith "/**" t ||
    beginsWithWord "class" (steps (keyword? classModifiers) t)

/-- A line with an import, up to its line feed; the rest behind it. -/
def importLine? (t : Text) : Option Text := do
  let t ← after? "use" t
  let clause := t.takeWhile (· != ';')
  let t ← after? ";" (t.dropWhile (· != ';'))
  let rest ← after? "\n" (t.dropWhile isSpaceTab)
  if clause.head?.any isBlank && 2 ≤ clause.length then some rest else none

/-- Puts one blank line between an import and the class behind it. -/
def separateImport : Replacement := fun prev t =>
  if prev.all (· == '\n') then do
    let rest ← importLine? t
    if beginsClass rest then some (t.take (t.length - rest.length) ++ "\n", rest) else none
  else none

/-- Leaves one of several blank lines. -/
def collapseLineFeeds : Replacement := fun _ t =>
  if startsWith "\n\n\n" t then some ("\n\n", t.dropWhile (· == '\n')) else none

/-- Removes the spaces and tabs at the ends of lines. -/
def trimLines (t : Text) : Text := ofLines ((lines t).map (dropEndWhile isSpaceTab))

/-- The text with its blank lines and spaces in place and one line feed at its end. -/
def formatted (t : Text) : Text :=
  let t := replaceAll tightenStrictTypes t
  let t := replaceAll separateStrictTypes t
  let t := separateOpenTag t
  let t := replaceAll separateImport t
  let t := trimLines t
  let t := replaceAll collapseLineFeeds t
  trimWhile (· == '\n') t ++ "\n"

/-- The text behind an opening tag, its own if it begins with one. -/
def withOpenTag (t : Text) : Text :=
  if startsWith openTag t then t else openTag ++ "\n\n" ++ t

/-- The text in its file layout. -/
def normalizeWhitespace (t : Text) : Text := withOpenTag (formatted t)

end EntityScaffold.Source
