import RecordApi.Schema.Declaration
import RecordApi.Schema.Error

/-!
# Checking declarations

`SchemaDecl.validate` says the first thing that is wrong with a description: names that are given
twice, and names that refer to nothing.
-/

namespace RecordApi

/-- The first name of a list that stands in it before. -/
def firstRepeated? (seen : List String) : List String → Option String
  | [] => none
  | name :: rest => if name ∈ seen then some name else firstRepeated? (name :: seen) rest

namespace ModelDecl

/-- The names of the columns. -/
def columnNames (m : ModelDecl) : List String :=
  m.columns.map (·.name)

/-- The names of all attributes in order. -/
def attributeNames (m : ModelDecl) : List String :=
  m.columnNames ++ m.relationships.map (·.name) ++ m.properties.map (·.name)

/-- Refuses a name that is not among `names`. -/
def refer (kind : Reference) (names : List String) (model name : String) :
    Except SchemaError Unit :=
  if name ∈ names then .ok () else .error (.missingReference kind (model ++ "." ++ name))

/-- Checks one list of columns that are unique together. -/
def validateUnique (m : ModelDecl) (columns : List String) : Except SchemaError Unit :=
  if columns.isEmpty then .error (.emptyUnique m.name)
  else columns.forM (refer .uniqueColumn m.columnNames m.name)

/-- Checks one relationship: its target is among the models, the foreign key is named, and the
named columns are there. -/
def validateRelationship (models : List ModelDecl) (m : ModelDecl) (r : RelationshipDecl) :
    Except SchemaError Unit := do
  let some target := models.find? (·.name == r.target)
    | .error (.missingReference .relationshipTarget
        (m.name ++ "." ++ r.name ++ " -> " ++ r.target))
  match r.cardinality with
  | .toOne => if r.localColumn.isNone then .error (.localColumnRequired m.name r.name)
  | .toMany => if r.remoteColumn.isNone then .error (.remoteColumnRequired m.name r.name)
  r.localColumn.forM (refer .relationshipColumn m.columnNames m.name)
  r.remoteColumn.forM (refer .relationshipColumn target.columnNames target.name)

/-- Checks one model of a description. -/
def validate (models : List ModelDecl) (m : ModelDecl) : Except SchemaError Unit := do
  if let some name := firstRepeated? [] m.attributeNames then
    .error (.duplicateName (m.name ++ "." ++ name))
  unless m.primaryKey ∈ m.columnNames do
    .error (.invalidPrimaryKey m.name m.primaryKey)
  m.versionColumn.forM (refer .versionColumn m.columnNames m.name)
  m.unique.forM m.validateUnique
  m.properties.forM fun p => p.writes.forM (refer .propertyTarget m.columnNames m.name)
  m.relationships.forM (m.validateRelationship models)

end ModelDecl

/-- Checks a description. -/
def SchemaDecl.validate (d : SchemaDecl) : Except SchemaError Unit := do
  if let some name := firstRepeated? [] (d.models.map (·.name)) then
    .error (.duplicateName name)
  d.models.forM (ModelDecl.validate d.models)

end RecordApi
