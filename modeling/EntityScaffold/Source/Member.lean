import EntityScaffold.RelationKind
import EntityScaffold.Source.Attribute
import EntityScaffold.Text.Dedent
import EntityScaffold.Text.Quoted

/-!
# Members of a class

A class body is a list of members, each kept as its own text, with gaps between some of them.
`itemsOf` cuts a body into items; `Member.ofText` tells what a member declares.

The cutting works on cells: the characters of the text, each with what the mask shows of it.
-/

set_option autoImplicit false

namespace EntityScaffold.Source

open Text

/-- A declared property, with the comments and attributes in front of it. -/
structure Property where
  name : Text
  text : Text
  /-- The short names of its attributes. -/
  attributes : List Text
  deriving DecidableEq, Repr

/-- A method, cut around the braces of its body. -/
structure Method where
  name : Text
  /-- Up to and with the opening brace; the whole text if there is no body. -/
  head : Text
  body : Option Text := none
  /-- From the closing brace on. -/
  tail : Text := []
  deriving DecidableEq, Repr

/-- A member of a class. -/
inductive Member where
  | property (p : Property)
  | method (m : Method)
  /-- Constants, trait uses, enum cases, and comments behind the last member. -/
  | verbatim (text : Text)
  deriving DecidableEq, Repr

/-- What a class body consists of. -/
inductive Item where
  /-- Blank lines between two members. -/
  | gap
  | member (m : Member)
  deriving DecidableEq, Repr

/-- Whether the property is a scalar field. -/
def Property.isField (p : Property) : Bool := p.attributes.contains ("Field" : Text)

/-- Whether the property is one side of a relation. -/
def Property.isRelation (p : Property) : Bool :=
  p.attributes.any fun a => RelationKind.all.any (·.attributeClass == a)

/-- The name of constructors. -/
def constructorName : Text := "__construct"

def Method.isConstructor (m : Method) : Bool := lower m.name == constructorName

def Method.text (m : Method) : Text :=
  match m.body with
  | none => m.head
  | some body => m.head ++ body ++ m.tail

def Member.text : Member → Text
  | .property p => p.text
  | .method m => m.text
  | .verbatim text => text

/-- The names of the properties that the body assigns to. -/
def Method.assigned (m : Method) : Except ParseError (List Text) :=
  match m.body with
  | none => .ok []
  | some body => (mask body).map assignments

/-- The method with one more statement at the end of its body. -/
def Method.addStatement (m : Method) (statement indent : Text) : Except ParseError Method :=
  match m.body with
  | none => .error (Defect.noBody m.name).anywhere
  | some body =>
    .ok { m with body := some (stripEnd body ++ "\n" ++ indent ++ statement ++ "\n") }

/-- The method without the lines of its body that consist of the statement; none if there are
no such lines. -/
def Method.dropStatement? (m : Method) (statement : Text) : Option Method :=
  match m.body with
  | none | some [] => none
  | some body =>
    let kept := (lines body).filter fun line => strip line != statement
    if kept.length = (lines body).length then none
    else some { m with body := some (ofLines kept) }

/-- The lines of a member behind an indentation. -/
def Member.render (m : Member) (indent : Text) : List Text := indentLines indent m.text

/-- The lines of an item. -/
def Item.render (indent : Text) : Item → List Text
  | .gap => [[]]
  | .member m => m.render indent

/-- The first sixty characters of the first line with content. -/
def excerpt (t : Text) : Text := ((strip t).takeWhile (· != '\n')).take 60

/-- What a member's text declares.  `line` is where the member begins. -/
def Member.ofText (raw : Text) (line : Nat) : Except ParseError Member :=
  match mask raw with
  | .error e => .error e
  | .ok m =>
    let (bare, attributes) := withoutAttributes m
    match methodName? bare with
    | some name =>
      match extent? m with
      | none => .error ((Defect.unterminatedMethod name).atLine line)
      | some ⟨_, none⟩ => .ok (.method { name := name, head := raw })
      | some ⟨_, some (opening, closing)⟩ =>
        .ok (.method {
          name := name
          head := raw.take (opening + 1)
          body := some ((raw.take closing).drop (opening + 1))
          tail := raw.drop closing })
    | none =>
      match propertyName? bare with
      | some name => .ok (.property ⟨name, raw, attributes⟩)
      | none =>
        if isConstantLike bare || isBlankText bare then .ok (.verbatim raw)
        else .error ((Defect.unsupportedMember (excerpt bare)).atLine line)

/-- A character and what the mask shows of it. -/
abbrev Cell := Char × Char

/-- The characters of cells. -/
def rawText (cells : List Cell) : Text := cells.map Prod.fst

/-- What the mask shows of cells. -/
def shownText (cells : List Cell) : Text := cells.map Prod.snd

/-- The cells of the member that begins the cells, which begin with no gap: up to its extent and
with a comment behind it on the same line, or, where only comments are left, all of them but the
gap at the end. -/
def memberCells? (cells : List Cell) : Option (List Cell) :=
  match extent? (shownText cells) with
  | some e =>
    let behind := (cells.drop e.size).takeWhile fun cell => cell.1 != '\n'
    let comment := !isBlankText (rawText behind) && isBlankText (shownText behind)
    some (cells.take e.size ++ if comment then behind else [])
  | none =>
    if isBlankText (shownText cells) then
      some (cells.reverse.dropWhile fun cell => isGap cell.1).reverse
    else none

/-- What stands on the last line of a text. -/
def lastLine (t : Text) : Text := (t.reverse.takeWhile (· != '\n')).reverse

/-- A member's text, moved to the left together with the blanks `before` in front of it. -/
def memberText (before raw : Text) : Text :=
  let before := if isBlankText before then before else []
  stripEnd (trimWhile (· == '\n') (dedent (before ++ raw)))

/-- The items of a class body.  `line` is the number of the line where the cells begin, `before`
what stands in front of them on that line, and `inside` tells whether a member precedes.  `fuel`
bounds the number of members. -/
def itemsFrom (fuel : Nat) (line : Nat) (before : Text) (inside : Bool) (cells : List Cell) :
    Except ParseError (List Item) :=
  match fuel with
  | 0 => .ok []
  | fuel + 1 =>
    let blanks := rawText (cells.takeWhile fun cell => isGap cell.1)
    let cells := cells.dropWhile fun cell => isGap cell.1
    if cells.isEmpty then .ok []
    else
      let line := line + countChar '\n' blanks
      let before := lastLine (before ++ blanks)
      match memberCells? cells with
      | none => .error (Defect.unterminatedMember.atLine line)
      | some member => do
        let raw := rawText member
        let m ← Member.ofText (memberText before raw) line
        let more ← itemsFrom fuel (line + countChar '\n' raw) (lastLine (before ++ raw)) true
          (cells.drop member.length)
        let gap := if inside && 2 ≤ countChar '\n' blanks then [Item.gap] else []
        return gap ++ .member m :: more

/-- The items of a class body that begins on line `line`. -/
def itemsOf (line : Nat) (cells : List Cell) : Except ParseError (List Item) :=
  itemsFrom (cells.length + 1) line [] false cells

/-- The members among items. -/
def membersOf (items : List Item) : List Member :=
  items.filterMap fun
    | .gap => none
    | .member m => some m

/-- The members declared by a fragment of a class body. -/
def parseMembers (t : Text) : Except ParseError (List Member) :=
  match mask t with
  | .error e => .error e
  | .ok m => (itemsOf 1 (t.zip m)).map membersOf

/-- The only member declared by a fragment. -/
def parseMember (t : Text) : Except ParseError Member :=
  match parseMembers t with
  | .error e => .error e
  | .ok [m] => .ok m
  | .ok ms => .error (Defect.notOneMember ms.length).anywhere

end EntityScaffold.Source
