import EntityScaffold.Text.Utf8
import EntityScaffold.Value.Numeral
import EntityScaffold.Value.Yaml.Scalar

/-!
# Tokens of YAML

A text is cut into tokens: marks, names and scalars, and the beginnings and ends of blocks, which
follow from the columns.  Whether a scalar is a key is known only when the colon behind it comes;
until then it is a candidate, and the token that makes it a key goes before it afterwards.

* `Tokens.ofText` — the tokens of a text, up to where it breaks the rules.
-/

set_option autoImplicit false

namespace EntityScaffold.Yaml

open Text

/-- A token. -/
inductive Token where
  /-- The directive of a version, with the first part of its number. -/
  | version (major : Nat)
  /-- The directive that gives the tags of a handle a name space. -/
  | handle (name space : Text)
  /-- A directive that means nothing. -/
  | directive
  | documentStart
  | documentEnd
  | blockListStart
  | blockMapStart
  | blockEnd
  | flowListStart
  | flowListEnd
  | flowMapStart
  | flowMapEnd
  /-- The hyphen before an item of a block. -/
  | item
  | comma
  | key
  | value
  | alias (name : Text)
  | anchor (name : Text)
  | tag (handle : Option Text) (suffix : Text)
  | scalar (text : Text) (isPlain : Bool)
  deriving DecidableEq, Repr

/-- Where a key may have begun. -/
structure Candidate where
  /-- The number of tokens before it. -/
  position : Nat
  /-- Whether nothing else than a key may stand there. -/
  isRequired : Bool
  start : Cursor

/-- The state of cutting a text into tokens. -/
structure Lexer where
  cursor : Cursor
  tokens : Array Token := #[]
  /-- The column of the innermost block; -1 if there is none. -/
  indent : Int := -1
  /-- The columns of the blocks around it. -/
  outer : List Int := []
  keyAllowed : Bool := true
  /-- The candidate on each level of flow collections, the innermost first. -/
  candidates : List (Option Candidate) := [none]
  isDone : Bool := false

namespace Lexer

/-- Whether the position is within a flow collection. -/
def inFlow (l : Lexer) : Bool := 1 < l.candidates.length

def emit (t : Token) (l : Lexer) : Lexer := { l with tokens := l.tokens.push t }

def advanceBy (n : Nat) (l : Lexer) : Lexer := { l with cursor := l.cursor.advanceBy n }

/-- A longest key, in characters. -/
def longestKey : Nat := 1024

/-- A key ends on the line it begins on. -/
def isStale (l : Lexer) (c : Candidate) : Bool :=
  c.start.line != l.cursor.line || longestKey < l.cursor.index - c.start.index

/-- A candidate that can be a key no more is given up, unless it has to be one. -/
def refreshed (l : Lexer) : Option Candidate → Except Misreading (Option Candidate)
  | some c => if !l.isStale c then .ok (some c) else if c.isRequired then .error .malformed else .ok none
  | none => .ok none

/-- Gives up the candidates that can be keys no more. -/
def dropStale (l : Lexer) : Except Misreading Lexer := do
  return { l with candidates := ← l.candidates.mapM l.refreshed }

/-- Gives up the innermost candidate. -/
def dropCandidate (l : Lexer) : Except Misreading Lexer :=
  match l.candidates with
  | some c :: more =>
    if c.isRequired then .error .malformed else .ok { l with candidates := none :: more }
  | _ => .ok l

/-- Makes the position a candidate, if a key may begin there. -/
def saveCandidate (l : Lexer) : Except Misreading Lexer := do
  if l.keyAllowed then
    let l ← l.dropCandidate
    let candidate : Candidate :=
      ⟨l.tokens.size, !l.inFlow && l.indent == (l.cursor.column : Int), l.cursor⟩
    return { l with candidates := some candidate :: l.candidates.drop 1 }
  else return l

/-- Ends the blocks that are indented further than a column. -/
def closeBlocks (column : Int) : Int → List Int → Array Token → Int × List Int × Array Token
  | indent, [], tokens => (indent, [], tokens)
  | indent, around :: outer, tokens =>
    if column < indent then closeBlocks column around outer (tokens.push .blockEnd)
    else (indent, around :: outer, tokens)

/-- Ends the blocks that are indented further than a column, unless within a flow collection. -/
def unwind (column : Int) (l : Lexer) : Lexer :=
  if l.inFlow then l
  else
    let (indent, outer, tokens) := closeBlocks column l.indent l.outer l.tokens
    { l with indent := indent, outer := outer, tokens := tokens }

/-- Begins a block at a column, unless it has begun there; its token goes to a position. -/
def openBlock (column position : Nat) (t : Token) (l : Lexer) : Lexer :=
  if l.indent < column then
    { l with
      indent := column
      outer := l.indent :: l.outer
      tokens := l.tokens.insertIdxIfInBounds position t }
  else l

/-- Skips spaces, comments and line breaks.  Behind a break a key may begin, except within a flow
collection. -/
def toNextToken (fuel : Nat) (l : Lexer) : Lexer :=
  match fuel with
  | 0 => l
  | fuel + 1 =>
    let c := l.cursor.skip (· == ' ')
    let c := if c.isAt '#' then c.skip (!isBreak ·) else c
    match c.lineBreak? with
    | some (_, c) => toNextToken fuel { l with cursor := c, keyAllowed := l.keyAllowed || !l.inFlow }
    | none => { l with cursor := c }

/-! ### Names and tags -/

def isNameChar (c : Char) : Bool := isAsciiLetter c || isAsciiDigit c || c == '-' || c == '_'

def isTagChar (c : Char) : Bool :=
  isNameChar c || (";/?:@&=+$,.!~*'()[]%" : Text).contains c

/-- The name of an anchor or of an alias, behind its sign. -/
def name (l : Lexer) : Except Misreading (Text × Lexer) :=
  let (name, c) := (l.cursor.advance).span isNameChar
  if name.isEmpty ||
      !(atSpacing c.rest || c.rest.head?.any fun ch => ("?:,]\x7d%@`" : Text).contains ch) then
    .error .malformed
  else .ok (name, { l with cursor := c })

/-- Whether a space or a break comes next, or nothing. -/
def atWordEnd (c : Cursor) : Bool := atSpacing c.rest && !c.isAt '\t'

/-- A position where a word has to end. -/
def wordEnd (c : Cursor) : Except Misreading Cursor :=
  if atWordEnd c then .ok c else .error .malformed

/-- The text of bytes that percent signs have stood for. -/
def octetText (bs : Bytes) : Except Misreading Text := (decode bs).mapError fun _ => .malformed

/-- The text that a text with percent signs stands for: behind each are the two digits of a byte,
and bytes in a row encode a text.  `pending` are the bytes before. -/
def unescapedFrom (pending : Bytes) : Text → Except Misreading Text
  | '%' :: a :: b :: t =>
    match hexValue? a, hexValue? b with
    | some high, some low => unescapedFrom (pending ++ [UInt8.ofNat (16 * high + low)]) t
    | _, _ => .error .malformed
  | '%' :: _ => .error .malformed
  | c :: t => do
    let before ← octetText pending
    let more ← unescapedFrom [] t
    return before ++ c :: more
  | [] => octetText pending

/-- The part of a tag behind its handle; it has at least one character. -/
def tagSuffix (c : Cursor) : Except Misreading (Text × Cursor) := do
  let (suffix, c) := c.span isTagChar
  if suffix.isEmpty then throw .malformed
  return (← unescapedFrom [] suffix, c)

/-- A handle: an exclamation mark before a space, or a name between two. -/
def tagHandle (c : Cursor) : Except Misreading (Text × Cursor) :=
  if !c.isAt '!' then .error .malformed
  else
    let c := c.advance
    if c.isAt ' ' then .ok (['!'], c)
    else
      let (name, c) := c.span isNameChar
      if c.isAt '!' then .ok ('!' :: name ++ ['!'], c.advance) else .error .malformed

/-- Whether a word goes on with an exclamation mark in it. -/
def hasMark (c : Cursor) : Bool := (c.rest.takeWhile fun ch => ch != ' ' && !isBreak ch).contains '!'

/-- A tag: verbatim between angle brackets, or behind the handle of its name space. -/
def tag (c : Cursor) : Except Misreading (Token × Cursor) := do
  let behind := c.advance
  if behind.isAt '<' then
    let (suffix, c) ← tagSuffix behind.advance
    if c.isAt '>' then return (.tag none suffix, c.advance) else throw .malformed
  else if atSpacing behind.rest then return (.tag none ['!'], behind)
  else
    let (handle, c) ← if hasMark behind then tagHandle c else pure (['!'], behind)
    let (suffix, c) ← tagSuffix c
    return (.tag (some handle) suffix, c)

/-- A number in a directive. -/
def versionNumber (c : Cursor) : Except Misreading (Nat × Cursor) :=
  let (digits, c) := c.span isAsciiDigit
  if digits.isEmpty then .error .malformed
  else if Numeral.longest < digits.length then .error (.content (.longInteger digits.length))
  else .ok (natOfDigits 10 digits, c)

/-- What a directive of a name says. -/
def directiveValue (name : Text) (c : Cursor) : Except Misreading (Token × Cursor) := do
  if name = "YAML" then
    let (major, c) ← versionNumber (c.skip (· == ' '))
    if !c.isAt '.' then throw .malformed
    let (_, c) ← versionNumber c.advance
    return (.version major, ← wordEnd c)
  else if name = "TAG" then
    let (handle, c) ← tagHandle (c.skip (· == ' '))
    if !c.isAt ' ' then throw .malformed
    let (space, c) ← tagSuffix (c.skip (· == ' '))
    return (.handle handle space, ← wordEnd c)
  else return (.directive, c.skip (!isBreak ·))

/-- A directive up to the end of its line. -/
def directive (c : Cursor) : Except Misreading (Token × Cursor) := do
  let (name, c) := c.advance.span isNameChar
  if name.isEmpty then throw .malformed
  let (t, c) ← directiveValue name (← wordEnd c)
  return (t, ← c.endOfLine)

/-! ### One token after another -/

/-- Ends the text. -/
def finish (l : Lexer) : Except Misreading Lexer := do
  let l ← (l.unwind (-1)).dropCandidate
  return { l with isDone := true }

def atDirective (l : Lexer) : Except Misreading Lexer := do
  let l ← (l.unwind (-1)).dropCandidate
  let (t, c) ← directive l.cursor
  return { l.emit t with cursor := c, keyAllowed := false }

/-- The marker of a document's beginning or end. -/
def atMarker (t : Token) (l : Lexer) : Except Misreading Lexer := do
  let l ← (l.unwind (-1)).dropCandidate
  return { (l.emit t).advanceBy 3 with keyAllowed := false }

def atFlowStart (t : Token) (l : Lexer) : Except Misreading Lexer := do
  let l ← l.saveCandidate
  return { (l.emit t).advanceBy 1 with candidates := none :: l.candidates, keyAllowed := true }

def atFlowEnd (t : Token) (l : Lexer) : Except Misreading Lexer := do
  let l ← l.dropCandidate
  if l.inFlow then
    return { (l.emit t).advanceBy 1 with candidates := l.candidates.drop 1, keyAllowed := false }
  else throw .malformed

def atComma (l : Lexer) : Except Misreading Lexer := do
  let l ← l.dropCandidate
  return { (l.emit .comma).advanceBy 1 with keyAllowed := true }

/-- The hyphen of an item; the first of a block begins it. -/
def atItem (l : Lexer) : Except Misreading Lexer := do
  if !l.inFlow && !l.keyAllowed then throw .malformed
  else
    let l := if l.inFlow then l
      else l.openBlock l.cursor.column l.tokens.size .blockListStart
    let l ← l.dropCandidate
    return { (l.emit .item).advanceBy 1 with keyAllowed := true }

/-- The question mark before a key. -/
def atKey (l : Lexer) : Except Misreading Lexer := do
  if !l.inFlow && !l.keyAllowed then throw .malformed
  else
    let l := if l.inFlow then l
      else l.openBlock l.cursor.column l.tokens.size .blockMapStart
    let l ← l.dropCandidate
    return { (l.emit .key).advanceBy 1 with keyAllowed := !l.inFlow }

/-- The colon before a value.  A candidate before it is a key now. -/
def atValue (l : Lexer) : Except Misreading Lexer := do
  match l.candidates with
  | some c :: more =>
    let l := { l with
      candidates := none :: more
      tokens := l.tokens.insertIdxIfInBounds c.position .key }
    let l := if l.inFlow then l else l.openBlock c.start.column c.position .blockMapStart
    return { (l.emit .value).advanceBy 1 with keyAllowed := false }
  | _ =>
    if !l.inFlow && !l.keyAllowed then throw .malformed
    else
      let l := if l.inFlow then l
        else l.openBlock l.cursor.column l.tokens.size .blockMapStart
      let l ← l.dropCandidate
      return { (l.emit .value).advanceBy 1 with keyAllowed := !l.inFlow }

def atAlias (l : Lexer) : Except Misreading Lexer := do
  let l ← l.saveCandidate
  let (name, l) ← l.name
  return { l.emit (.alias name) with keyAllowed := false }

def atAnchor (l : Lexer) : Except Misreading Lexer := do
  let l ← l.saveCandidate
  let (name, l) ← l.name
  return { l.emit (.anchor name) with keyAllowed := false }

def atTag (l : Lexer) : Except Misreading Lexer := do
  let l ← l.saveCandidate
  let (t, c) ← tag l.cursor
  return { l.emit t with cursor := ← wordEnd c, keyAllowed := false }

def atBlockScalar (l : Lexer) : Except Misreading Lexer := do
  let l ← l.dropCandidate
  let (text, c) ← blockScalar (l.indent + 1).toNat l.cursor
  return { l.emit (.scalar text false) with cursor := c, keyAllowed := true }

def atQuoted (quote : Char) (l : Lexer) : Except Misreading Lexer := do
  let l ← l.saveCandidate
  let (text, c) ← quotedScalar quote l.cursor
  return { l.emit (.scalar text false) with cursor := c, keyAllowed := false }

def atPlain (l : Lexer) : Except Misreading Lexer := do
  let l ← l.saveCandidate
  let (text, c, keyAllowed) :=
    plainScalar l.inFlow (l.indent + 1).toNat (l.cursor.rest.length + 1) false l.cursor
  return { l.emit (.scalar text true) with cursor := c, keyAllowed := keyAllowed }

/-- Whether a plain scalar may begin with `c` before `t`. -/
def beginsPlain (inFlow : Bool) (c : Char) (t : Text) : Bool :=
  if isSpacing c then false
  else if !("-?:,[]\x7b\x7d#&*!|>'\"%@`" : Text).contains c then true
  else !atSpacing t && (c == '-' || (!inFlow && (c == '?' || c == ':')))

/-- Takes the next token. -/
def step (l : Lexer) : Except Misreading Lexer := do
  let l ← (l.toNextToken (l.cursor.rest.length + 1)).dropStale
  let l := l.unwind l.cursor.column
  let first := l.cursor.column == 0
  match l.cursor.rest with
  | [] => l.finish
  | c :: t =>
    if first && c = '%' then l.atDirective
    else if first && l.cursor.atSeparator then
      l.atMarker (if c = '-' then .documentStart else .documentEnd)
    else if c = '[' then l.atFlowStart .flowListStart
    else if c = '\x7b' then l.atFlowStart .flowMapStart
    else if c = ']' then l.atFlowEnd .flowListEnd
    else if c = '\x7d' then l.atFlowEnd .flowMapEnd
    else if c = ',' then l.atComma
    else if c = '-' && atSpacing t then l.atItem
    else if c = '?' && (l.inFlow || atSpacing t) then l.atKey
    else if c = ':' && (l.inFlow || atSpacing t) then l.atValue
    else if c = '*' then l.atAlias
    else if c = '&' then l.atAnchor
    else if c = '!' then l.atTag
    else if (c = '|' || c = '>') && !l.inFlow then l.atBlockScalar
    else if c = '\'' || c = '"' then l.atQuoted c
    else if beginsPlain l.inFlow c t then l.atPlain
    else throw .malformed

/-- The tokens that are settled: those before the first candidate, which may yet become a key. -/
def settled (l : Lexer) : Array Token :=
  let live := l.candidates.filterMap fun c => c.filter (!l.isStale ·)
  l.tokens.take ((live.map (·.position)).foldl min l.tokens.size)

end Lexer

/-- The tokens of a text, and why there are no more of them if not for its end. -/
structure Tokens where
  tokens : List Token
  misreading : Option Misreading := none

namespace Tokens

/-- Takes all tokens. -/
def take (fuel : Nat) (l : Lexer) : Tokens :=
  match fuel with
  | 0 => { tokens := l.tokens.toList, misreading := some .malformed }
  | fuel + 1 =>
    match l.step with
    | .ok l => if l.isDone then { tokens := l.tokens.toList } else take fuel l
    | .error e => { tokens := l.settled.toList, misreading := some e }

/-- The tokens of a text. -/
def ofText (t : Text) : Tokens :=
  if t.all isAllowed then
    let cursor : Cursor := { rest := t }
    let cursor := if cursor.isAt byteOrderMark then cursor.advance else cursor
    take (t.length + 2) { cursor := cursor }
  else { tokens := [], misreading := some .malformed }

end Tokens

end EntityScaffold.Yaml
