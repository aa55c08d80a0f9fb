import RecordApi.Json.Reader

/-!
# Declarations of models

A description of models as it is written: models with columns, relationships and properties, and
their JSON form (`SchemaDecl.ofJson?`, and `SchemaDecl.ofText?` for a text). A structure is an
object of its fields, in which others are passed over, or an array of them in order. A field that
may be left out takes its default. The type of a column is read in full, since its form is only
known from its content.
-/

namespace RecordApi

/-- A column type as it is written, with its parameters. -/
structure TypeDecl where
  name : String
  params : List Nat
  deriving DecidableEq

/-- A column as it is written. -/
structure ColumnDecl where
  name : String
  type : TypeDecl
  nullable : Bool
  unique : Bool
  geometryType : Option String
  dimension : Option Nat
  comment : Option String
  deriving DecidableEq

/-- Which side of a relationship holds the foreign key: with `toOne` the owner does, with `toMany`
the target. -/
inductive Cardinality where
  | toOne
  | toMany
  deriving DecidableEq

/-- A relationship as it is written. -/
structure RelationshipDecl where
  name : String
  target : String
  cardinality : Cardinality
  localColumn : Option String
  remoteColumn : Option String
  deriving DecidableEq

/-- An attribute that is only written. It may be kept in a column. -/
structure Property where
  name : String
  writes : Option String
  deriving DecidableEq

/-- A model as it is written. -/
structure ModelDecl where
  name : String
  table : Option String
  schema : Option String
  primaryKey : String
  columns : List ColumnDecl
  relationships : List RelationshipDecl
  properties : List Property
  unique : List (List String)
  versionColumn : Option String
  comment : Option String
  deriving DecidableEq

/-- All models of a description. -/
structure SchemaDecl where
  models : List ModelDecl
  deriving DecidableEq

/-- A type as it stands in a table definition, such as `numeric(12,4)`. -/
def TypeDecl.sql (t : TypeDecl) : String :=
  if t.params.isEmpty then t.name
  else t.name ++ "(" ++ ",".intercalate (t.params.map Nat.repr) ++ ")"

namespace Json

/-! ## Parts -/

/-- The truth value that a JSON value is. -/
def asBool? : Json → Option Bool
  | .bool b => some b
  | _ => none

/-- The whole number below a bound that a JSON value is. -/
def asNatBelow? (bound : Nat) : Json → Option Nat
  | .int n => if 0 ≤ n ∧ n < bound then some n.toNat else none
  | _ => none

/-- A list, item by item. -/
def asListOf? {α : Type} (item : Json → Option α) (v : Json) : Option (List α) :=
  v.asArray?.bind (·.mapM item)

/-- Something or null. -/
def asOptionOf? {α : Type} (item : Json → Option α) : Json → Option (Option α)
  | .null => some none
  | v => (item v).map some

/-! ## Structures -/

/-- The fields that an object gives, if it gives none of `names` twice. -/
def objectFields? (names : List String) (members : Members) : Option (String → Option Json) :=
  if names.all fun name => (members.filter (·.1 == name)).length ≤ 1 then
    some (Keyed.get? members)
  else none

/-- The fields of a structure that a JSON value gives, by name in an object or in order in an
array. -/
def fields? (shape : Shape) : Json → Option (String → Option Json)
  | .object members => objectFields? shape.names members
  | .array items =>
    if items.length ≤ shape.names.length then some (Keyed.get? (shape.names.zip items)) else none
  | _ => none

/-- A field that has to be there. -/
def required? {α : Type} (fields : String → Option Json) (name : String)
    (read : Json → Option α) : Option α :=
  (fields name).bind read

/-- A field that may be left out. -/
def defaulted? {α : Type} (fields : String → Option Json) (name : String) (value : α)
    (read : Json → Option α) : Option α :=
  match fields name with
  | some v => read v
  | none => some value

/-- A field that may be left out or null. -/
def optional? {α : Type} (fields : String → Option Json) (name : String)
    (read : Json → Option α) : Option (Option α) :=
  defaulted? fields name none (asOptionOf? read)

end Json

open Json

/-! ## Reading declarations -/

/-- A type is a name, or an object with a name and parameters. -/
def TypeDecl.ofJson? : Json → Option TypeDecl
  | .string name => some ⟨name, []⟩
  | .object members => do
    let fields ← objectFields? ["name", "params"] members
    let name ← required? fields "name" asString?
    let params ← optional? fields "params" (asListOf? (asNatBelow? (2 ^ 32)))
    pure ⟨name, params.getD []⟩
  | _ => none

/-- The fields of a column. -/
def ColumnDecl.shape : Shape :=
  .record [("name", .any), ("type", .any), ("nullable", .any), ("unique", .any),
    ("geometry_type", .any), ("dimension", .any), ("comment", .any)]

/-- Reads a column. -/
def ColumnDecl.ofJson? (v : Json) : Option ColumnDecl := do
  let fields ← v.fields? shape
  pure {
    name := ← required? fields "name" asString?
    type := ← required? fields "type" TypeDecl.ofJson?
    nullable := ← defaulted? fields "nullable" true asBool?
    unique := ← defaulted? fields "unique" false asBool?
    geometryType := ← optional? fields "geometry_type" asString?
    dimension := ← optional? fields "dimension" (asNatBelow? (2 ^ 8))
    comment := ← optional? fields "comment" asString? }

/-- The cardinality of a name. -/
def Cardinality.ofName? (name : String) : Option Cardinality :=
  if name = "to_one" then some .toOne
  else if name = "to_many" then some .toMany
  else none

/-- A cardinality is its name, or an object with null under the name. -/
def Cardinality.ofJson? : Json → Option Cardinality
  | .string name => ofName? name
  | .object [(name, .null)] => ofName? name
  | _ => none

/-- The fields of a relationship. -/
def RelationshipDecl.shape : Shape :=
  .record [("name", .any), ("target", .any), ("cardinality", .any), ("local_column", .any),
    ("remote_column", .any)]

/-- Reads a relationship. -/
def RelationshipDecl.ofJson? (v : Json) : Option RelationshipDecl := do
  let fields ← v.fields? shape
  pure {
    name := ← required? fields "name" asString?
    target := ← required? fields "target" asString?
    cardinality := ← required? fields "cardinality" Cardinality.ofJson?
    localColumn := ← optional? fields "local_column" asString?
    remoteColumn := ← optional? fields "remote_column" asString? }

/-- The fields of a property. -/
def Property.shape : Shape :=
  .record [("name", .any), ("writes", .any)]

/-- Reads a property. -/
def Property.ofJson? (v : Json) : Option Property := do
  let fields ← v.fields? shape
  pure {
    name := ← required? fields "name" asString?
    writes := ← optional? fields "writes" asString? }

/-- The fields of a model. -/
def ModelDecl.shape : Shape :=
  .record [("name", .any), ("table", .any), ("schema", .any), ("primary_key", .any),
    ("columns", .list ColumnDecl.shape), ("relationships", .list RelationshipDecl.shape),
    ("properties", .list Property.shape), ("unique", .any), ("version_column", .any),
    ("comment", .any)]

/-- Reads a model. -/
def ModelDecl.ofJson? (v : Json) : Option ModelDecl := do
  let fields ← v.fields? shape
  pure {
    name := ← required? fields "name" asString?
    table := ← optional? fields "table" asString?
    schema := ← optional? fields "schema" asString?
    primaryKey := ← required? fields "primary_key" asString?
    columns := ← required? fields "columns" (asListOf? ColumnDecl.ofJson?)
    relationships := ← defaulted? fields "relationships" [] (asListOf? RelationshipDecl.ofJson?)
    properties := ← defaulted? fields "properties" [] (asListOf? Property.ofJson?)
    unique := ← defaulted? fields "unique" [] (asListOf? (asListOf? asString?))
    versionColumn := ← optional? fields "version_column" asString?
    comment := ← optional? fields "comment" asString? }

/-- The fields of a description of models. -/
def SchemaDecl.shape : Shape :=
  .record [("models", .list ModelDecl.shape)]

/-- Reads a description of models. -/
def SchemaDecl.ofJson? (v : Json) : Option SchemaDecl := do
  let fields ← v.fields? shape
  pure { models := ← required? fields "models" (asListOf? ModelDecl.ofJson?) }

/-- Reads the text of a description of models. -/
def SchemaDecl.ofText? (s : String) : Option SchemaDecl :=
  (document? shape s.toList).bind ofJson?

end RecordApi
