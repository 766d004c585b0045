import EntityScaffold.Config
import EntityScaffold.Relation

/-!
# Rendered code

The text of every piece of code that is generated: properties with their attributes, accessors,
and the files of new entities and repositories.  A piece is one member of a class, without
indentation; statements in methods stand behind the given `indent`.
-/

set_option autoImplicit false

namespace EntityScaffold.Render

open Text

/-- A declared type that admits null, if it shall. -/
def nullableType (type : Text) (nullable : Bool) : Text :=
  if nullable && !startsWith "?" type && type != "mixed" then '?' :: type else type

/-- A public method. -/
def method (indent name params returns : Text) (statements : List Text) : Text :=
  ofLines (("public function " ++ name ++ "(" ++ params ++ "): " ++ returns) :: ['\x7b'] ::
    statements.map (indent ++ ·) ++ [['\x7d']])

def getterName (property : Text) : Text := "get" ++ upperFirst property

def setterName (property : Text) : Text := "set" ++ upperFirst property

/-- The method that empties a reference. -/
def clearName (property : Text) : Text := "remove" ++ upperFirst property

def addName (target : Text) : Text := "add" ++ target

def removeName (target : Text) : Text := "remove" ++ target

def getter (indent property returns : Text) : Text :=
  method indent (getterName property) [] returns ["return $this->" ++ property ++ ";"]

def setter (indent property param : Text) : Text :=
  method indent (setterName property) (param ++ " $" ++ property) "self"
    ["$this->" ++ property ++ " = $" ++ property ++ ";", "return $this;"]

/-- The property of a scalar field, behind its attribute. -/
def fieldProperty (name dbType phpType : Text) (nullable : Bool) : Text :=
  ofLines [
    "#[Field(type: '" ++ dbType ++ "'" ++ (if nullable then (", nullable: true" : Text) else []) ++ ")]",
    "public " ++ nullableType phpType nullable ++ " $" ++ name ++
      (if nullable then (" = null" : Text) else []) ++ ";"]

def fieldAccessors (indent name phpType : Text) (nullable : Bool) : List Text :=
  [getter indent name (nullableType phpType nullable),
    setter indent name (nullableType phpType nullable)]

/-- The arguments of a relation's attribute. -/
def relationArguments (kind : RelationKind) (target : Text) (isOwningSide : Bool)
    (other : Option Text) (joinTable : Option JoinTable) (inverseOneToOne nullable : Bool) :
    List Text :=
  ("targetEntity: " ++ target ++ "::class") ::
  (match other with
    | none | some [] => []
    | some other =>
      let mapped := (kind = .oneToOne && inverseOneToOne) || !isOwningSide
      [(if mapped then ("mappedBy: '" : Text) else "inversedBy: '") ++ other ++ "'"]) ++
  (match joinTable with
    | some j =>
      if kind = .manyToMany && isOwningSide then
        ["joinTable: new JoinTable(name: '" ++ j.name ++ "', joinColumn: '" ++ j.joinColumn ++
          "', inverseColumn: '" ++ j.inverseColumn ++ "')"]
      else []
    | none => []) ++
  (if nullable && !kind.isCollection then [("nullable: true" : Text)] else [])

/-- The attribute of a relation. -/
def relationAttribute (kind : RelationKind) (target : Text) (isOwningSide : Bool)
    (other : Option Text) (joinTable : Option JoinTable) (inverseOneToOne nullable : Bool) :
    Text :=
  "#[" ++ kind.attributeClass ++ "(" ++ joinWith ", "
    (relationArguments kind target isOwningSide other joinTable inverseOneToOne nullable) ++ ")]"

/-- The property of a relation, behind its attribute: an array for a collection, a reference that
may be null otherwise. -/
def relationProperty (property : Text) (kind : RelationKind) (target attribute_ : Text) : Text :=
  if kind.isCollection then
    ofLines ["/** @var " ++ target ++ "[] */", attribute_, "public array $" ++ property ++ ";"]
  else ofLines [attribute_, "public ?" ++ target ++ " $" ++ property ++ " = null;"]

def collectionAccessors (indent property target : Text) : List Text :=
  [method indent (addName target) (target ++ " $item") "self"
      ["$this->" ++ property ++ "[] = $item;", "return $this;"],
    method indent (removeName target) (target ++ " $item") "self"
      ["$this->" ++ property ++ " = array_values(array_filter($this->" ++ property ++
        ", fn($i) => $i !== $item));", "return $this;"],
    getter indent property "array"]

def referenceAccessors (indent property target : Text) : List Text :=
  [getter indent property ('?' :: target), setter indent property ('?' :: target),
    method indent (clearName property) [] "self"
      ["$this->" ++ property ++ " = null;", "return $this;"]]

/-- The statement that makes a collection empty. -/
def collectionInit (property : Text) : Text := "$this->" ++ property ++ " = [];"

/-- The attributes that every entity imports. -/
def importedAttributes : List Text :=
  ["Entity", "Field", "OneToOne", "OneToMany", "ManyToOne", "ManyToMany", "JoinTable"]

/-- The namespace of a new entity: the given one, unless there is none or it is empty. -/
def stubNamespace (c : Config) : Option Text → Text
  | none | some [] => c.entityNamespace
  | some ns => ns

/-- The class of a new entity. -/
def entityClassLines (i name : Text) : List Text := [
  "#[Entity]",
  "class " ++ name,
  "\x7b",
  i ++ "#[Field(type: 'INT', autoIncrement: true, primaryKey: true)]",
  i ++ "public int $id;",
  [],
  i ++ "public function __construct()",
  i ++ "\x7b",
  i ++ "\x7d",
  [],
  i ++ "public function getId(): int",
  i ++ "\x7b",
  i ++ i ++ "return $this->id;",
  i ++ "\x7d",
  "\x7d",
  []]

/-- What stands before a class: the opening tag, the namespace and the imports. -/
def headerLines (ns : Text) (imports : List Text) : List Text :=
  ("<?php" : Text) :: "declare(strict_types=1);" :: [] :: ("namespace " ++ ns ++ ";") :: [] ::
    imports.map (fun class_ => "use " ++ class_ ++ ";") ++ [[]]

/-- The file of a new entity, which has a numeric key. -/
def entityStub (c : Config) (name : Text) (ns : Option Text) : Text :=
  ofLines (headerLines (stubNamespace c ns)
      (importedAttributes.map fun a => c.attributeNamespace ++ "\\" ++ a) ++
    entityClassLines c.indent name)

/-- The method of a repository that finds all entities. -/
def findAllLines (i entity : Text) : List Text := [
  i ++ "/**",
  i ++ " * @param array<string,mixed> $criteria",
  i ++ " * @return " ++ entity ++ "[]",
  i ++ " */",
  i ++ "public function findAll(",
  i ++ i ++ "array $criteria = [],",
  i ++ i ++ "bool $loadRelations = true",
  i ++ "): array \x7b",
  i ++ i ++ "/** @var " ++ entity ++ "[] $rows */",
  i ++ i ++ "$rows = parent::findAll($criteria, $loadRelations);",
  i ++ i ++ "return $rows;",
  i ++ "\x7d"]

/-- The method of a repository that finds one entity. -/
def findOneLines (i entity : Text) : List Text := [
  i ++ "/**",
  i ++ " * @param array<string,mixed> $criteria",
  i ++ " */",
  i ++ "public function findOneBy(",
  i ++ i ++ "array $criteria,",
  i ++ i ++ "bool $loadRelations = true",
  i ++ "): ?" ++ entity ++ " \x7b",
  i ++ i ++ "/** @var ?" ++ entity ++ " $row */",
  i ++ i ++ "$row = parent::findOneBy($criteria, $loadRelations);",
  i ++ i ++ "return $row;",
  i ++ "\x7d"]

/-- The beginning of a repository's class. -/
def repositoryClassLines (i entity base : Text) : List Text := [
  "/**",
  " * @extends " ++ base ++ "<" ++ entity ++ ">",
  " */",
  "class " ++ entity ++ "Repository extends " ++ base,
  "\x7b",
  i ++ "/** @var non-empty-string */",
  i ++ "protected string $table = '" ++ lower entity ++ "';",
  i ++ "protected string $entityClass = " ++ entity ++ "::class;"]

/-- The file of a new repository. -/
def repositoryStub (c : Config) (entity : Text) : Text :=
  ofLines (headerLines c.repositoryNamespace [c.repositoryBaseClass, c.entityClass entity] ++
    repositoryClassLines c.indent entity (shortName c.repositoryBaseClass) ++
    [] :: findAllLines c.indent entity ++ [] :: findOneLines c.indent entity ++
    [['\x7d'], []])

end EntityScaffold.Render
