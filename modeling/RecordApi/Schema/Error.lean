/-!
# Errors in schemas

Why a description of models is no schema.
-/

namespace RecordApi

/-- What a description refers to by name. -/
inductive Reference where
  | model
  | relationship
  | versionColumn
  | uniqueColumn
  | propertyTarget
  | relationshipTarget
  | relationshipColumn
  deriving DecidableEq

/-- The words for a kind of reference. -/
def Reference.words : Reference → String
  | .model => "model"
  | .relationship => "relationship"
  | .versionColumn => "version column"
  | .uniqueColumn => "unique column"
  | .propertyTarget => "property target column"
  | .relationshipTarget => "relationship target"
  | .relationshipColumn => "relationship column"

/-- Why a description is refused. -/
inductive SchemaError where
  | unreadable
  | missingReference (kind : Reference) (id : String)
  | invalidPrimaryKey (model column : String)
  | duplicateName (name : String)
  | emptyUnique (model : String)
  | localColumnRequired (model relationship : String)
  | remoteColumnRequired (model relationship : String)
  | geometryType (column given : String)
  | geometryDimension (column : String)
  deriving DecidableEq

/-- The text of the reason. -/
def SchemaError.message : SchemaError → String
  | .unreadable => "config load: not a description of models"
  | .missingReference kind id => "missing reference: " ++ kind.words ++ " '" ++ id ++ "'"
  | .invalidPrimaryKey model column =>
    "invalid primary key: model " ++ model ++ " column " ++ column
  | .duplicateName name => "duplicate name: " ++ name
  | .emptyUnique model => "validation: " ++ model ++ ": empty unique constraint"
  | .localColumnRequired model relationship =>
    "validation: " ++ model ++ "." ++ relationship ++ ": to_one relationship requires local_column"
  | .remoteColumnRequired model relationship =>
    "validation: " ++ model ++ "." ++ relationship ++
      ": to_many relationship requires remote_column"
  | .geometryType column given =>
    "validation: " ++ column ++ ": unsupported geometry_type " ++ given
  | .geometryDimension column => "validation: " ++ column ++ ": geometry dimension must be 2 or 3"

end RecordApi
