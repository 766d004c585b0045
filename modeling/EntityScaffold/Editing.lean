import EntityScaffold.Failure
import EntityScaffold.Render
import EntityScaffold.Resolution
import EntityScaffold.Source.ClassFile
import EntityScaffold.Value.Basic

/-!
# Adding fields and relations to a class

Each addition writes a property, its accessors, and for a collection the statement of the
constructor that makes it empty.  A property that is there already is replaced where it stands,
and the accessors of its former definition go, unless they are written anew.

An edit that fails may have changed the class already: `Edit` keeps the class, and the records of
what has been done, beside the failure.
-/

set_option autoImplicit false

namespace EntityScaffold

open Text Source

/-- The class with another member in place of the property of that name, or else of the method
of that name. -/
def Source.ClassFile.replaceMember (f : ClassFile) (name : Text) (new : Member) :
    Except Failure ClassFile :=
  if (f.findProperty? name).isSome then .ok (f.replaceProperty name new)
  else if (f.findMethod? name).isSome then .ok (f.replaceMethod name new)
  else .error (.notAMember new f.className)

/-- A class being edited, and the records of the edits. -/
structure Desk where
  file : ClassFile
  log : List Log.Record := []

/-- An edit of a class. -/
abbrev Edit (α : Type) := ExceptT Failure (StateM Desk) α

namespace Edit

variable {α : Type}

/-- The class as it stands. -/
def file : Edit ClassFile := do return (← get).file

def change (f : ClassFile → ClassFile) : Edit Unit :=
  modify fun d => { d with file := f d.file }

def record (r : Log.Record) : Edit Unit := modify fun d => { d with log := d.log ++ [r] }

/-- Fails where reading a fragment does. -/
def parsed : Except ParseError α → Edit α
  | .ok a => return a
  | .error e => throw (.unparsable e)

def refuse (r : Refusal) : Edit α := throw (.refused r)

/-- The property that a fragment declares. -/
def propertyOf (t : Text) : Except ParseError Property :=
  match parseMember t with
  | .ok (.property p) => .ok p
  | .ok _ => .error Defect.notAProperty.anywhere
  | .error e => .error e

/-- The method that a fragment declares. -/
def methodOf (t : Text) : Except ParseError Method :=
  match parseMember t with
  | .ok (.method m) => .ok m
  | .ok _ => .error Defect.notAMethod.anywhere
  | .error e => .error e

/-- Puts the property in place of the one called `name`, or else among the properties. -/
def placeProperty (name : Text) (p : Property) (f : ClassFile) : ClassFile :=
  if (f.findProperty? name).isSome then f.replaceProperty name (.property p)
  else f.insertProperty p

/-- Puts the method in place of the one with its name, or else behind the methods. -/
def placeMethod (f : ClassFile) (m : Method) : ClassFile :=
  if (f.findMethod? m.name).isSome then f.replaceMethod m.name (.method m) else f.insertMethod m

/-- Puts the methods in their places and removes the stale ones that are not among them. -/
def placeMethods (methods : List Method) (stale : List Text) (f : ClassFile) : ClassFile :=
  let gone := stale.filter fun name => !methods.any (ClassFile.isMethodNamed name)
  methods.foldl placeMethod (gone.foldl ClassFile.removeMethod f)

/-- Whether the property is declared as a collection. -/
def isCollection (p : Property) : Bool := declaresArray p.name none p.text

/-- The names of the accessors that belong to the definition of a property. -/
def accessorNames (p : Property) : List Text :=
  if p.isRelation then
    if isCollection p then
      Render.getterName p.name :: (match firstTargetEntity? p.text with
        | some target => [Render.addName (shortName target), Render.removeName (shortName target)]
        | none => [])
    else [Render.getterName p.name, Render.setterName p.name, Render.clearName p.name]
  else if p.isField then [Render.getterName p.name, Render.setterName p.name]
  else []

/-- The names of the accessors of the property that now goes by that name. -/
def staleAccessors (f : ClassFile) (name : Text) : List Text :=
  (f.findProperty? name).elim [] accessorNames

/-- The class without the statement that makes the collection empty. -/
def dropCollectionInit (property : Text) (f : ClassFile) : ClassFile :=
  match f.constructor?.bind (·.dropStatement? (Render.collectionInit property)) with
  | some m => f.replaceMethod constructorName (.method m)
  | none => f

/-- Sees to it that the constructor makes the collection empty, unless it assigns to it. -/
def ensureCollectionInit (property : Text) : Edit Unit := do
  if (← file).constructor?.isNone then
    change ClassFile.withConstructor
    record ⟨.debug, .source, "Synthesised constructor in " ++ (← file).className ++ "."⟩
  match (← file).constructor? with
  | none => return
  | some m =>
    if (← parsed m.assigned).contains property then return
    let m ← parsed (m.addStatement (Render.collectionInit property) (← file).indent)
    change fun f => f.replaceMethod constructorName (.method m)

/-- Adds a scalar field.  Its native type follows from the database type unless it is given. -/
def addField (indent name : Text) (type : FieldType) (phpType : Option Text) (nullable : Bool) :
    Edit Unit := do
  if !isIdentifier name then refuse (.invalidFieldName name)
  let php := (given? phpType).getD type.phpType
  let stale := staleAccessors (← file) name
  change (dropCollectionInit name)
  let p ← parsed (propertyOf (Render.fieldProperty name type.name php nullable))
  change (placeProperty name p)
  let ms ← parsed ((Render.fieldAccessors indent name php nullable).mapM methodOf)
  change (placeMethods ms stale)
  record ⟨.info, .editing, "Field " ++ (← file).className ++ "::$" ++ name ++ " (" ++ type.name ++
    ") written."⟩

/-- The field type of a name. -/
def requireFieldType : Value → Except Failure FieldType
  | .atom a =>
    match (match a with
      | .text t => FieldType.ofName? t
      | _ => none) with
    | some type => .ok type
    | none => .error (.refused (.unknownFieldType a.message))
  | v => .error (.unhashable v.typeName)

/-- Adds a scalar field whose database type is given by name. -/
def addFieldOf (indent name : Text) (type : Value) (phpType : Option Text) (nullable : Bool) :
    Edit Unit := do
  if !isIdentifier name then refuse (.invalidFieldName name)
  match requireFieldType type with
  | .ok type => addField indent name type phpType nullable
  | .error e => throw e

/-- The relation's property, behind its attribute. -/
def relationText (r : Relation) (property target : Text) : Text :=
  Render.relationProperty property r.kind target
    (Render.relationAttribute r.kind target r.isOwningSide r.otherProperty r.joinTable
      (r.kind = .oneToOne && !r.isOwningSide) r.nullable)

/-- Adds a resolved relation.  The target may go by another name in the class. -/
def addRelation (indent : Text) (r : Relation) (targetName : Option Text) : Edit Unit := do
  let target := (given? targetName).getD r.targetName
  if !isClassName target then refuse (.invalidTargetName target)
  match given? r.property with
  | none => refuse (.invalidPropertyName r.property)
  | some property =>
    if !isIdentifier property then refuse (.invalidPropertyName r.property)
    let stale := staleAccessors (← file) property
    let p ← parsed (propertyOf (relationText r property target))
    change (placeProperty property p)
    if r.kind.isCollection then ensureCollectionInit property
    else change (dropCollectionInit property)
    let accessors :=
      if r.kind.isCollection then Render.collectionAccessors indent property target
      else Render.referenceAccessors indent property target
    let ms ← parsed (accessors.mapM methodOf)
    change (placeMethods ms stale)
    record ⟨.info, .editing, "Relation " ++ (← file).className ++ "::$" ++ property ++ " (" ++
      r.kind.keyword ++ " -> " ++ target ++ ", " ++ sideWord r.isOwningSide ++ ") written."⟩

end Edit

end EntityScaffold
