import EntityScaffold.Text.Digit
import EntityScaffold.Value.Yaml.Cursor

/-!
# Scalars of YAML

The text of a scalar in each of the ways to write it.  A line break within a plain or a quoted
scalar stands for a space, and more of them for all but the first; a block scalar keeps its lines
or folds them in the same way.
-/

set_option autoImplicit false

namespace EntityScaffold.Yaml

open Text

/-- What a line break stands for, with the breaks behind it. -/
def folded (first : Char) (more : Text) : Text :=
  if first != '\n' then first :: more else if more.isEmpty then [' '] else more

/-! ## Quoted scalars -/

/-- The line breaks that come next, less the blanks between them. -/
def quotedBreaks (fuel : Nat) (c : Cursor) : Except Misreading (Text × Cursor) :=
  match fuel with
  | 0 => .error .malformed
  | fuel + 1 =>
    if c.atSeparator then .error .malformed
    else
      let c := c.skip isSpaceTab
      match c.lineBreak? with
      | none => .ok ([], c)
      | some (b, c) => (quotedBreaks fuel c).map fun (bs, c) => (b :: bs, c)

/-- The characters that stand behind a backslash for another one. -/
def escapes : List (Char × Char) :=
  [('0', '\x00'), ('a', '\x07'), ('b', '\x08'), ('t', '\t'), ('\t', '\t'), ('n', '\n'),
    ('v', '\x0b'), ('f', '\x0c'), ('r', '\x0d'), ('e', '\x1b'), (' ', ' '), ('"', '"'),
    ('\\', '\\'), ('/', '/'), ('N', '\x85'), ('_', '\xa0'), ('L', '\u2028'), ('P', '\u2029')]

/-- How many hexadecimal digits follow a letter behind a backslash. -/
def escapeWidth? : Char → Option Nat
  | 'x' => some 2
  | 'u' => some 4
  | 'U' => some 8
  | _ => none

/-- The character of a number. -/
def charOf (n : Nat) : Except Misreading Char :=
  if Nat.isValidChar n then .ok (Char.ofNat n)
  else if n ≤ 0x10ffff then .error .malformed
  else if n < Nat.pow 2 31 then .error (.content .notACharacter)
  else .error (.content .hugeCharacter)

/-- The character of the hexadecimal digits that come next, so many of them. -/
def numbered (width : Nat) (c : Cursor) : Except Misreading (Text × Cursor) := do
  let digits := c.rest.take width
  if digits.length = width && digits.all fun d => (hexValue? d).isSome then
    return ([← charOf (natOfDigits 16 digits)], c.advanceBy width)
  else throw .malformed

/-- What stands behind a backslash. -/
def escaped (c : Cursor) : Except Misreading (Text × Cursor) :=
  match c.rest with
  | [] => .error .malformed
  | ch :: _ =>
    match escapes.lookup ch, escapeWidth? ch, c.lineBreak? with
    | some meant, _, _ => .ok ([meant], c.advance)
    | none, some width, _ => numbered width c.advance
    | none, none, some (_, c) => quotedBreaks (c.rest.length + 1) c
    | none, none, none => .error .malformed

/-- The rest of a quoted scalar up to its closing quote; `quote` tells single from double. -/
def quotedRest (quote : Char) (fuel : Nat) (c : Cursor) : Except Misreading (Text × Cursor) :=
  match fuel, c.rest with
  | 0, _ | _, [] => .error .malformed
  | fuel + 1, ch :: t => do
    if ch = quote then
      if quote = '\'' && t.head? = some '\'' then
        let (more, c) ← quotedRest quote fuel (c.advanceBy 2)
        return ('\'' :: more, c)
      else return ([], c.advance)
    else if ch = '\\' && quote = '"' then
      let (piece, c) ← escaped c.advance
      let (more, c) ← quotedRest quote fuel c
      return (piece ++ more, c)
    else if isSpacing ch then
      let (spaces, c) := c.span isSpaceTab
      match c.lineBreak? with
      | none =>
        let (more, c) ← quotedRest quote fuel c
        return (spaces ++ more, c)
      | some (b, c) =>
        let (bs, c) ← quotedBreaks (c.rest.length + 1) c
        let (more, c) ← quotedRest quote fuel c
        return (folded b bs ++ more, c)
    else
      let (more, c) ← quotedRest quote fuel c.advance
      return (ch :: more, c)

/-- A quoted scalar, from its opening quote on. -/
def quotedScalar (quote : Char) (c : Cursor) : Except Misreading (Text × Cursor) :=
  quotedRest quote (c.rest.length + 1) c.advance

/-! ## Plain scalars -/

/-- Whether a colon ends a plain scalar before `t`. -/
def endsKey (inFlow : Bool) (t : Text) : Bool :=
  atSpacing t || (inFlow && t.head?.any fun c => (",[]\x7b\x7d" : Text).contains c)

/-- How many characters a plain scalar goes on without a blank. -/
def plainLength (inFlow : Bool) : Text → Nat
  | [] => 0
  | c :: t =>
    if isSpacing c || (c = ':' && endsKey inFlow t) ||
        (inFlow && (",?[]\x7b\x7d" : Text).contains c) then 0
    else plainLength inFlow t + 1

/-- The line breaks that come next, less the spaces between them; nothing at the marker of a
document's end. -/
def plainBreaks (fuel : Nat) (c : Cursor) : Option Text × Cursor :=
  match fuel with
  | 0 => (none, c)
  | fuel + 1 =>
    if c.atSeparator then (none, c)
    else
      let c := c.skip (· == ' ')
      match c.lineBreak? with
      | none => (some [], c)
      | some (b, c) =>
        let (bs, c) := plainBreaks fuel c
        (bs.map (b :: ·), c)

/-- What stands between two pieces of a plain scalar (nothing if there is no second piece), the
position behind it, and whether it goes across lines. -/
def plainSpaces (c : Cursor) : Text × Cursor × Bool :=
  let (spaces, c) := c.span (· == ' ')
  match c.lineBreak? with
  | none => (spaces, c, false)
  | some (b, c) =>
    match plainBreaks (c.rest.length + 1) c with
    | (some bs, c) => (folded b bs, c, true)
    | (none, c) => ([], c, true)

/-- A plain scalar within a block of an indentation, the position behind it, and whether a key
may begin there. -/
def plainScalar (inFlow : Bool) (indent : Nat) (fuel : Nat) (keyAllowed : Bool) (c : Cursor) :
    Text × Cursor × Bool :=
  match fuel with
  | 0 => ([], c, keyAllowed)
  | fuel + 1 =>
    let length := if c.isAt '#' then 0 else plainLength inFlow c.rest
    if length = 0 then ([], c, keyAllowed)
    else
      let piece := c.rest.take length
      let (spaces, c, crossed) := plainSpaces (c.advanceBy length)
      if spaces.isEmpty || c.isAt '#' || (!inFlow && c.column < indent) then (piece, c, crossed)
      else
        let (more, c, keyAllowed) := plainScalar inFlow indent fuel crossed c
        (piece ++ (if more.isEmpty then [] else spaces) ++ more, c, keyAllowed)

/-! ## Block scalars -/

/-- What becomes of the line breaks at the end of a block scalar. -/
inductive Chomping where
  | strip
  | clip
  | keep
  deriving DecidableEq, Repr

def chomping? : Char → Option Chomping
  | '-' => some .strip
  | '+' => some .keep
  | _ => none

/-- The indicators behind the sign of a block scalar: how it ends, and the indentation of its
lines if that is given. -/
def blockIndicators (t : Text) : Chomping × Option Nat × Text :=
  match t with
  | [] => (.clip, none, [])
  | c :: t =>
    match chomping? c with
    | some chomping =>
      match t with
      | d :: rest =>
        if isAsciiDigit d then (chomping, some (d.toNat - 48), rest) else (chomping, none, t)
      | [] => (chomping, none, [])
    | none =>
      if isAsciiDigit c then
        match t.head?.bind chomping? with
        | some chomping => (chomping, some (c.toNat - 48), t.drop 1)
        | none => (.clip, some (c.toNat - 48), t)
      else (.clip, none, c :: t)

/-- The line breaks before the first line of a block scalar, and the widest indentation among
these lines. -/
def blockStart (fuel widest : Nat) (c : Cursor) : Text × Nat × Cursor :=
  match fuel with
  | 0 => ([], widest, c)
  | fuel + 1 =>
    match c.lineBreak? with
    | some (b, c) =>
      let (bs, widest, c) := blockStart fuel widest c
      (b :: bs, widest, c)
    | none =>
      if c.isAt ' ' then blockStart fuel (max widest c.advance.column) c.advance
      else ([], widest, c)

/-- The position behind the indentation of a line. -/
def indented (indent : Nat) (c : Cursor) : Cursor :=
  c.advanceBy (min (indent - c.column) (c.rest.takeWhile (· == ' ')).length)

/-- The line breaks between the lines of a block scalar. -/
def blockBreaks (fuel indent : Nat) (c : Cursor) : Text × Cursor :=
  let c := indented indent c
  match fuel, c.lineBreak? with
  | fuel + 1, some (b, c) =>
    let (bs, c) := blockBreaks fuel indent c
    (b :: bs, c)
  | _, _ => ([], c)

/-- The lines of a block scalar.  Gives their text, the last line break, and the breaks behind
it. -/
def blockLines (fold : Bool) (indent fuel : Nat) (breaks : Text) (c : Cursor) :
    Text × Text × Text × Cursor :=
  match fuel with
  | 0 => ([], [], breaks, c)
  | fuel + 1 =>
    if c.column != indent || c.rest.isEmpty then ([], [], breaks, c)
    else
      let solid := !c.rest.head?.any isSpaceTab
      let (line, c) := c.span (!isBreak ·)
      let (last, c) := match c.lineBreak? with
        | some (b, c) => ([b], c)
        | none => ([], c)
      let (more, c) := blockBreaks (c.rest.length + 1) indent c
      if c.column != indent || c.rest.isEmpty then (breaks ++ line, last, more, c)
      else
        let glue :=
          if fold && last == ['\n'] && solid && !c.rest.head?.any isSpaceTab then
            if more.isEmpty then [' '] else []
          else last
        let (text, last, after, c) := blockLines fold indent fuel more c
        (breaks ++ line ++ glue ++ text, last, after, c)

/-- A block scalar, from its sign on, within a block of an indentation. -/
def blockScalar (least : Nat) (c : Cursor) : Except Misreading (Text × Cursor) := do
  let fold := c.isAt '>'
  let (chomping, width, rest) := blockIndicators (c.rest.drop 1)
  if width = some 0 || !rest.head?.all fun ch => ch == ' ' || isBreak ch then throw .malformed
  else
    let c ← (c.advanceBy (c.rest.length - rest.length)).endOfLine
    let least := max least 1
    let fuel := c.rest.length + 1
    let (breaks, indent, c) := match width with
      | some width =>
        let indent := least + width - 1
        let (breaks, c) := blockBreaks fuel indent c
        (breaks, indent, c)
      | none =>
        let (breaks, widest, c) := blockStart fuel 0 c
        (breaks, max least widest, c)
    let (text, last, after, c) := blockLines fold indent fuel breaks c
    return (text ++ (if chomping = .strip then [] else last) ++
      (if chomping = .keep then after else []), c)

end EntityScaffold.Yaml
