import EntityScaffold.Source.Member
import EntityScaffold.Source.Layout
import EntityScaffold.Log

/-!
# Class files

A file with exactly one class, as the list of the items in the class body between two pieces of
text that are kept as they are.

* `ClassFile.parse` — reads a file's text.
* `insertProperty`, `insertMethod`, `withConstructor`, `removeProperty`, `removeMethod`,
  `replaceProperty`, `replaceMethod` — edits of the list of items.
* `ClassFile.render`, `ClassFile.serialize` — the text, as it stands and in file layout.
-/

set_option autoImplicit false

namespace EntityScaffold.Source

open Text

/-- A file with one class. -/
structure ClassFile where
  className : Text
  /-- Everything up to and with the brace that opens the class. -/
  opening : Text
  items : List Item
  /-- Everything from the brace that closes the class on. -/
  closing : Text
  /-- The indentation of members. -/
  indent : Text
  path : Option Text
  deriving DecidableEq, Repr

namespace ClassFile

/-- The indentation of the first line with content; four spaces if there is none. -/
def detectIndent (body : Text) : Text :=
  match (lines body).find? (!isBlankText ·) with
  | none => "    "
  | some line => if leading line = [] then "    " else leading line

/-- The number of the line on which position `pos` of a text is. -/
def lineOf (t : Text) (pos : Nat) : Nat := countChar '\n' (t.take pos) + 1

/-- Reads a class file; defects have no path. -/
def parseText (t : Text) : Except ParseError ClassFile := do
  let m ← mask t
  match classHeaders m with
  | [] => .error Defect.noClass.anywhere
  | _ :: second :: more =>
    .error ((Defect.severalClasses (more.length + 2)).atLine (lineOf t second.start))
  | [header] =>
    match closingBrace? 1 (m.drop (header.brace + 1)) with
    | none => .error ((Defect.unbalancedClass header.className).atLine (lineOf t header.brace))
    | some size =>
      let close := header.brace + 1 + size
      if !isBlankText (m.drop (close + 1)) then
        .error (Defect.codeAfterClass.atLine (lineOf t (close + 1)))
      else
        let body := ((t.zip m).drop (header.brace + 1)).take size
        let items ← itemsOf (lineOf t (header.brace + 1)) body
        return {
          className := header.className
          opening := t.take (header.brace + 1)
          items := items
          closing := t.drop close
          indent := detectIndent (rawText body)
          path := none }

/-- Reads the class file at a path. -/
def parse (t : Text) (path : Option Text) : Except ParseError ClassFile :=
  match parseText t, path with
  | .ok f, _ => .ok { f with path := path }
  | .error e, none => .error e
  | .error e, some path => .error { e with path := some path }

def members (f : ClassFile) : List Member := membersOf f.items

def properties (f : ClassFile) : List Property :=
  f.members.filterMap fun
    | .property p => some p
    | _ => none

def methods (f : ClassFile) : List Method :=
  f.members.filterMap fun
    | .method m => some m
    | _ => none

/-- The names of the scalar fields. -/
def fields (f : ClassFile) : List Text := (f.properties.filter (·.isField)).map (·.name)

/-- The names of the relations. -/
def relations (f : ClassFile) : List Text := (f.properties.filter (·.isRelation)).map (·.name)

def findProperty? (f : ClassFile) (name : Text) : Option Property :=
  f.properties.find? (·.name == name)

/-- Whether a method has a name; names of methods differ in more than letter case. -/
def isMethodNamed (name : Text) (m : Method) : Bool := lower m.name == lower name

def findMethod? (f : ClassFile) (name : Text) : Option Method :=
  f.methods.find? (isMethodNamed name)

/-- The record of a file read. -/
def parsedRecord (f : ClassFile) : Log.Record :=
  ⟨.debug, .source, "Parsed class " ++ f.className ++ ": " ++ ofNat f.properties.length ++
    " properties, " ++ ofNat f.methods.length ++ " methods."⟩

/-- A class in a few words. -/
def describe (f : ClassFile) : Text :=
  "<ClassSource " ++ f.className ++ ": " ++ ofNat f.properties.length ++ " properties, " ++
    ofNat f.methods.length ++ " methods>"

end ClassFile

/-! ### Edits of the items -/

def Item.isGap : Item → Bool
  | .gap => true
  | .member _ => false

def Item.isMethod : Item → Bool
  | .member (.method _) => true
  | _ => false

def Item.isProperty : Item → Bool
  | .member (.property _) => true
  | _ => false

/-- Whether an item is the property of that name. -/
def Item.isPropertyNamed (name : Text) : Item → Bool
  | .member (.property p) => p.name == name
  | _ => false

/-- Whether an item is a method of that name. -/
def Item.isMethodNamed (name : Text) : Item → Bool
  | .member (.method m) => ClassFile.isMethodNamed name m
  | _ => false

/-- The items up to the last one that satisfies `p`, and the items behind it. -/
def splitAfterLast (p : Item → Bool) (items : List Item) : List Item × List Item :=
  let behind := (items.reverse.takeWhile (!p ·)).reverse
  (items.take (items.length - behind.length), behind)

/-- Replaces the first item that satisfies `p` by what `f` makes of it. -/
def modifyFirst (p : Item → Bool) (f : Item → Item) : List Item → List Item
  | [] => []
  | item :: more => if p item then f item :: more else item :: modifyFirst p f more

/-- Puts a property behind the last property or verbatim member that precedes all methods.  A
gap separates it from a property in front and from what follows. -/
def insertPropertyItem (new : Item) (items : List Item) : List Item :=
  let early := items.takeWhile (!·.isMethod)
  let (front, behind) := splitAfterLast (!·.isGap) early
  let rest := behind ++ items.dropWhile (!·.isMethod)
  let rest := if rest.head?.any (·.isGap) then rest.drop 1 else rest
  front ++ (if front.getLast?.any (·.isProperty) then [.gap] else []) ++ [new] ++
    (if rest.head?.any (·.isGap) then [] else [.gap]) ++ rest

/-- Puts a method behind the last method, or at the end if there is none. -/
def insertMethodItem (new : Item) (items : List Item) : List Item :=
  if items.any (·.isMethod) then
    let (front, behind) := splitAfterLast (·.isMethod) items
    front ++ [new] ++ behind
  else items ++ [new]

/-- Puts an item in front of the first method, or at the end if there is none. -/
def insertBeforeMethods (new : Item) (items : List Item) : List Item :=
  items.takeWhile (!·.isMethod) ++ [new] ++ items.dropWhile (!·.isMethod)

/-- One gap between neighbouring members and none elsewhere. -/
def spaced : List Member → List Item
  | [] => []
  | [m] => [.member m]
  | m :: more => .member m :: .gap :: spaced more

/-- A constructor without parameters and statements. -/
def emptyConstructor : Method where
  name := constructorName
  head := "public function " ++ constructorName ++ "()\n\x7b"
  body := some ['\n']
  tail := "\x7d"

namespace ClassFile

def insertProperty (f : ClassFile) (p : Property) : ClassFile :=
  { f with items := insertPropertyItem (.member (.property p)) f.items }

def insertMethod (f : ClassFile) (m : Method) : ClassFile :=
  { f with items := insertMethodItem (.member (.method m)) f.items }

/-- The class without the properties of that name. -/
def removeProperty (f : ClassFile) (name : Text) : ClassFile :=
  { f with items := f.items.filter (!·.isPropertyNamed name) }

/-- The class without the methods of that name. -/
def removeMethod (f : ClassFile) (name : Text) : ClassFile :=
  { f with items := f.items.filter (!·.isMethodNamed name) }

/-- The class with another member in place of the first property of that name. -/
def replaceProperty (f : ClassFile) (name : Text) (new : Member) : ClassFile :=
  { f with items := modifyFirst (·.isPropertyNamed name) (fun _ => .member new) f.items }

/-- The class with another member in place of the first method of that name. -/
def replaceMethod (f : ClassFile) (name : Text) (new : Member) : ClassFile :=
  { f with items := modifyFirst (·.isMethodNamed name) (fun _ => .member new) f.items }

def constructor? (f : ClassFile) : Option Method := f.findMethod? constructorName

/-- The class with a constructor: its own, or else an empty one in front of its methods. -/
def withConstructor (f : ClassFile) : ClassFile :=
  if f.constructor?.isSome then f
  else { f with items := insertBeforeMethods (.member (.method emptyConstructor)) f.items }

/-- The text of the class as its items stand. -/
def render (f : ClassFile) : Text :=
  let body := ofLines (f.items.flatMap (·.render f.indent))
  f.opening ++ (if body = [] then ['\n'] else '\n' :: body ++ ['\n']) ++ f.closing

/-- The class with one gap between neighbouring members and none elsewhere. -/
def normalized (f : ClassFile) : ClassFile := { f with items := spaced f.members }

/-- The text of the class in file layout. -/
def serialize (f : ClassFile) : Text := normalizeWhitespace f.normalized.render

end ClassFile

end EntityScaffold.Source
