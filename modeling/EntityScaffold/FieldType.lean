import EntityScaffold.Text.Basic

/-!
# Types of scalar fields

The database types that a field may declare, their names, and the native type of the property
that holds such a field.
-/

set_option autoImplicit false

namespace EntityScaffold

/-- A database type. -/
inductive FieldType where
  | string | char | text | mediumText | longText
  | integer | tinyInt | smallInt | bigInt | unsignedBigInt | decimal | float | boolean
  | date | time | datetime | datetimetz | timestamp | timestamptz | year
  | uuid | binary | json | simpleJson | array | simpleArray | enum | set
  | geometry | point | linestring | polygon | ipAddress | macAddress
  deriving DecidableEq, Repr

namespace FieldType

/-- The types in the order in which they are listed. -/
def all : List FieldType :=
  [.string, .char, .text, .mediumText, .longText,
    .integer, .tinyInt, .smallInt, .bigInt, .unsignedBigInt, .decimal, .float, .boolean,
    .date, .time, .datetime, .datetimetz, .timestamp, .timestamptz, .year,
    .uuid, .binary, .json, .simpleJson, .array, .simpleArray, .enum, .set,
    .geometry, .point, .linestring, .polygon, .ipAddress, .macAddress]

/-- The name under which a type is written. -/
def name : FieldType → Text
  | .string => "string"
  | .char => "char"
  | .text => "text"
  | .mediumText => "mediumText"
  | .longText => "longText"
  | .integer => "integer"
  | .tinyInt => "tinyInt"
  | .smallInt => "smallInt"
  | .bigInt => "bigInt"
  | .unsignedBigInt => "unsignedBigInt"
  | .decimal => "decimal"
  | .float => "float"
  | .boolean => "boolean"
  | .date => "date"
  | .time => "time"
  | .datetime => "datetime"
  | .datetimetz => "datetimetz"
  | .timestamp => "timestamp"
  | .timestamptz => "timestamptz"
  | .year => "year"
  | .uuid => "uuid"
  | .binary => "binary"
  | .json => "json"
  | .simpleJson => "simple_json"
  | .array => "array"
  | .simpleArray => "simple_array"
  | .enum => "enum"
  | .set => "set"
  | .geometry => "geometry"
  | .point => "point"
  | .linestring => "linestring"
  | .polygon => "polygon"
  | .ipAddress => "ipAddress"
  | .macAddress => "macAddress"

/-- The native type of a property with this database type. -/
def phpType : FieldType → Text
  | .integer | .tinyInt | .smallInt | .bigInt | .unsignedBigInt | .year => "int"
  | .decimal | .float => "float"
  | .boolean => "bool"
  | .date | .time | .datetime | .datetimetz | .timestamp | .timestamptz => "\\DateTimeImmutable"
  | .json | .simpleJson | .array | .simpleArray | .set => "array"
  | _ => "string"

/-- The type of that name. -/
def ofName? (n : Text) : Option FieldType := all.find? fun t => t.name = n

theorem mem_all (t : FieldType) : t ∈ all := by cases t <;> decide

/-- Every type is found under its own name, so no two types share one. -/
theorem ofName?_name (t : FieldType) : ofName? t.name = some t := by cases t <;> decide

theorem ofName?_eq_some_iff {n : Text} {t : FieldType} : ofName? n = some t ↔ n = t.name := by
  constructor
  · intro h
    have := List.find?_some h
    simpa [eq_comm] using this
  · rintro rfl
    exact ofName?_name t

/-- The native type for a name that is no database type. -/
def phpTypeOfUnknown : Text := "mixed"

end FieldType

end EntityScaffold
