import RecordApi.Schema.Basic
import RecordApi.Schema.Validate
import RecordApi.Text.Blank
import RecordApi.Text.Case

/-!
# From declarations to schemas

`SchemaDecl.resolve` checks a description and works out what it leaves open: the types of columns
from their names, the columns of relationships, and the foreign keys, of which the two directions
of one relationship share one.
-/

namespace RecordApi

namespace ColumnDecl

/-- The shape and the number of ordinates that a geometry type says, by its name in capitals. -/
def geometryOfName? (name : String) : Option (GeometryKind × Nat) :=
  Keyed.get?
    [("POINT", (GeometryKind.point, 2)), ("POINTZ", (.point, 3)),
      ("LINESTRING", (.lineString, 2)), ("LINESTRINGZ", (.lineString, 3)),
      ("POLYGON", (.polygon, 2)), ("POLYGONZ", (.polygon, 3))] name

/-- The type of a geometry column. -/
def geometryType? (c : ColumnDecl) : Except SchemaError ColumnType := do
  let (kind, implied) ←
    match c.geometryType.map Text.uppercased with
    | none => .ok (GeometryKind.any, 2)
    | some name =>
      match geometryOfName? name with
      | some shape => .ok shape
      | none => .error (.geometryType c.name name)
  let dimension := c.dimension.getD implied
  if 2 ≤ dimension ∧ dimension ≤ 3 then .ok (.geometry kind dimension)
  else .error (.geometryDimension c.name)

/-- The type that the name of a type stands for. The first rule that applies decides. -/
def resolveType (c : ColumnDecl) : Except SchemaError ColumnType :=
  let lower := Text.lowercase (Text.trim c.type.name.toList)
  let is (name : String) : Bool := lower == name.toList
  let starts (start : String) : Bool := start.toList.isPrefixOf lower
  let has (part : String) : Bool := part.toList <:+: lower
  if is "timestamptz" || is "timestamp with time zone" then .ok (.dateTime true)
  else if is "timestamp" || starts "timestamp " || is "datetime" then .ok (.dateTime false)
  else if is "date" then .ok .date
  else if is "time" || starts "time " then .ok .time
  else if has "uuid" then .ok .uuid
  else if has "int" || has "serial" then .ok .integer
  else if is "real" || starts "double" || starts "float" then .ok .float
  else if starts "bool" then .ok .boolean
  else if is "numeric" || is "decimal" then .ok .decimal
  else if is "text" || has "char" || is "string" then .ok .string
  else if is "json" || is "jsonb" then .ok .json
  else if is "geometry" then c.geometryType?
  else .ok (.other c.type.name)

/-- The column of a model with the given primary key. A key is never null. -/
def resolve (primaryKey : String) (c : ColumnDecl) : Except SchemaError Column := do
  let type ← c.resolveType
  pure {
    name := c.name
    type := type
    sqlType := c.type.sql
    nullable := c.nullable && c.name != primaryKey
    unique := c.unique
    primaryKey := c.name == primaryKey }

end ColumnDecl

/-- The columns of a relationship that are not named are the primary keys: that of the target for
`toOne`, that of the owner for `toMany`. -/
def RelationshipDecl.resolve (models : List ModelDecl) (owner : ModelDecl) (r : RelationshipDecl) :
    Relationship :=
  let targetKey := ((models.find? (·.name == r.target)).map (·.primaryKey)).getD ""
  match r.cardinality with
  | .toOne => ⟨r.name, r.target, .toOne, r.localColumn.getD "", r.remoteColumn.getD targetKey⟩
  | .toMany =>
    ⟨r.name, r.target, .toMany, r.localColumn.getD owner.primaryKey, r.remoteColumn.getD ""⟩

/-- The foreign key that a relationship of a model implies. -/
def Relationship.foreignKey (owner : String) (r : Relationship) : ForeignKey :=
  match r.cardinality with
  | .toOne => ⟨owner, r.localColumn, r.target, r.remoteColumn⟩
  | .toMany => ⟨r.target, r.remoteColumn, owner, r.localColumn⟩

namespace ModelDecl

/-- The relationships of a model of a description. -/
def resolvedRelationships (models : List ModelDecl) (m : ModelDecl) : List Relationship :=
  m.relationships.map (·.resolve models m)

/-- The attributes of a model of a description that has the given columns. -/
def attributes (models : List ModelDecl) (m : ModelDecl) (columns : List Column) :
    List Attribute :=
  columns.map .column ++ (m.resolvedRelationships models).map .relationship ++
    m.properties.map .property

/-- The model that a declaration describes. Its primary key stands at the place to which the index
of the attributes leads. -/
def resolve (models : List ModelDecl) (m : ModelDecl) : Except SchemaError Model := do
  let columns ← m.columns.mapM (ColumnDecl.resolve m.primaryKey)
  let attributes := m.attributes models columns
  let some place := (Attribute.places attributes).get? m.primaryKey
    | .error (.invalidPrimaryKey m.name m.primaryKey)
  let some (.column key) := attributes[place]?
    | .error (.invalidPrimaryKey m.name m.primaryKey)
  pure {
    name := m.name
    tableName := m.table.getD m.name
    schemaName := m.schema
    attributes := attributes
    primaryKey := key
    unique := m.unique
    versionColumn := m.versionColumn }

end ModelDecl

/-- The list with an element at its end, unless it is there. -/
def addNew {α : Type} [DecidableEq α] (xs : List α) (x : α) : List α :=
  if x ∈ xs then xs else xs ++ [x]

namespace SchemaDecl

/-- The foreign keys that the relationships imply, in order, each once. -/
def foreignKeys (d : SchemaDecl) : List ForeignKey :=
  (d.models.flatMap fun m =>
    (m.resolvedRelationships d.models).map (Relationship.foreignKey m.name)).foldl addNew []

/-- The schema that a description describes. -/
def resolve (d : SchemaDecl) : Except SchemaError Schema := do
  d.validate
  let models ← d.models.mapM (ModelDecl.resolve d.models)
  pure ⟨models, d.foreignKeys⟩

end SchemaDecl

/-- The schema of a description, if it could be read. -/
def Schema.ofDecl (d : Option SchemaDecl) : Except SchemaError Schema :=
  match d with
  | some d => d.resolve
  | none => .error .unreadable

/-- The schema of the JSON form of a description. -/
def Schema.ofJson (v : Json) : Except SchemaError Schema :=
  ofDecl (SchemaDecl.ofJson? v)

/-- The schema of the text of a description. -/
def Schema.ofText (s : String) : Except SchemaError Schema :=
  ofDecl (SchemaDecl.ofText? s)

end RecordApi
