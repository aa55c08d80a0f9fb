import RecordApi.Schema.ColumnType
import RecordApi.Schema.Declaration

/-!
# Schemas

A schema holds models. A model has attributes in order: columns, then relationships, then
properties. An index leads from the name of each to its place (`Model.index`). One of the columns is
the primary key. Foreign keys say which column refers to which.
-/

namespace RecordApi

/-- A column of a model. -/
structure Column where
  name : String
  type : ColumnType
  sqlType : String
  nullable : Bool
  unique : Bool
  primaryKey : Bool
  deriving DecidableEq

/-- A way from the records of one model to those of another: those whose `remoteColumn` is the same
as the `localColumn` of the record. -/
structure Relationship where
  name : String
  target : String
  cardinality : Cardinality
  localColumn : String
  remoteColumn : String
  deriving DecidableEq

/-- Whether a record may have several records behind a relationship. -/
def Relationship.isToMany (r : Relationship) : Bool :=
  r.cardinality == .toMany

/-- A named part of a model. -/
inductive Attribute where
  | column (c : Column)
  | relationship (r : Relationship)
  | property (p : Property)
  deriving DecidableEq

/-- The name of an attribute. -/
def Attribute.name : Attribute → String
  | .column c => c.name
  | .relationship r => r.name
  | .property p => p.name

/-- The column that an attribute is. -/
def Attribute.column? : Attribute → Option Column
  | .column c => some c
  | _ => none

/-- The relationship that an attribute is. -/
def Attribute.relationship? : Attribute → Option Relationship
  | .relationship r => some r
  | _ => none

/-- The place of every attribute under its name. Of several with one name the last is kept. -/
def Attribute.places (attributes : List Attribute) : Keyed Nat :=
  Keyed.ofList (attributes.zipIdx.map fun (a, i) => (a.name, i))

/-- The models of which records are kept. -/
structure Model where
  name : String
  tableName : String
  schemaName : Option String
  attributes : List Attribute
  primaryKey : Column
  unique : List (List String)
  versionColumn : Option String
  deriving DecidableEq

namespace Model

/-- The place of every attribute under its name. -/
def index (m : Model) : Keyed Nat :=
  Attribute.places m.attributes

/-- The attribute with a name, at the place to which the index leads. -/
def attribute? (m : Model) (name : String) : Option Attribute :=
  (m.index.get? name).bind (m.attributes[·]?)

/-- The column with a name. -/
def column? (m : Model) (name : String) : Option Column :=
  (m.attribute? name).bind Attribute.column?

/-- The relationship with a name. -/
def relationship? (m : Model) (name : String) : Option Relationship :=
  (m.attribute? name).bind Attribute.relationship?

/-- Whether a name is that of a column. -/
def isColumn (m : Model) (name : String) : Bool :=
  (m.column? name).isSome

/-- The columns in the order of their declaration. -/
def columns (m : Model) : List Column :=
  m.attributes.filterMap Attribute.column?

/-- The relationships in the order of their declaration. -/
def relationships (m : Model) : List Relationship :=
  m.attributes.filterMap Attribute.relationship?

end Model

/-- A column that refers to a column: every value in it is null or stands in the other one. -/
structure ForeignKey where
  fromModel : String
  fromColumn : String
  toModel : String
  toColumn : String
  deriving DecidableEq

/-- The text of a foreign key. -/
def ForeignKey.text (k : ForeignKey) : String :=
  k.fromModel ++ "." ++ k.fromColumn ++ " -> " ++ k.toModel ++ "." ++ k.toColumn

/-- All models with their foreign keys. -/
structure Schema where
  models : List Model
  foreignKeys : List ForeignKey

namespace Schema

/-- The model with a name. -/
def model? (s : Schema) (name : String) : Option Model :=
  s.models.find? (·.name == name)

/-- The foreign keys that the records of a model hold. -/
def foreignKeysFrom (s : Schema) (model : String) : List ForeignKey :=
  s.foreignKeys.filter (·.fromModel == model)

/-- The foreign keys that refer to the records of a model. -/
def foreignKeysTo (s : Schema) (model : String) : List ForeignKey :=
  s.foreignKeys.filter (·.toModel == model)

end Schema

end RecordApi
