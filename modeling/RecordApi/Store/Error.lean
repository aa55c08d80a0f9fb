import RecordApi.Schema.Basic
import RecordApi.Value.Coerce

/-!
# Errors of a store

Why a store refuses an operation, and the text of the reason.
-/

namespace RecordApi

/-- Why a value is not taken into a record. -/
inductive ValueFault where
  | notCoercible (model column : String) (reason : CoerceError)
  | keyRequired (model column : String)
  | null (model column : String)
  | described (detail : String)

/-- The text of the reason. -/
def ValueFault.message : ValueFault → String
  | .notCoercible model column reason => model ++ "." ++ column ++ ": " ++ reason.message
  | .keyRequired model column => model ++ "." ++ column ++ " requires a value"
  | .null model column => model ++ "." ++ column ++ " may not be null"
  | .described detail => detail

/-- Why a record is not the one that was read. -/
inductive Staleness where
  | gone (model : String) (key : Value)
  | changed (model : String) (key : Value)
  | described (detail : String)

/-- The text of the reason, with the key of the record. -/
def Staleness.message : Staleness → String
  | .gone model key => model ++ " " ++ key.inspect ++ " no longer exists"
  | .changed model key => model ++ " " ++ key.inspect
  | .described detail => detail

/-- What a statement needs and cannot have. -/
inductive Unsupported where
  | noColumn (model column : String)
  | noRelationship (model relationship : String)
  | described (detail : String)

/-- The text of the reason. -/
def Unsupported.message : Unsupported → String
  | .noColumn model column => model ++ " has no column " ++ column
  | .noRelationship model relationship => model ++ " has no relationship " ++ relationship
  | .described detail => detail

/-- Why a store refuses an operation. -/
inductive StoreError where
  | uniqueViolation (constraint : String)
  | foreignKeyViolation (constraint : String)
  | stale (reason : Staleness)
  | invalidValue (reason : ValueFault)
  | unknownModel (model : String)
  | unsupported (reason : Unsupported)

namespace StoreError

/-- The violation of a list of columns that are unique together. -/
def notUnique (model : String) (columns : List String) : StoreError :=
  .uniqueViolation (model ++ "(" ++ ", ".intercalate columns ++ ")")

/-- The violation of a foreign key. -/
def dangling (key : ForeignKey) : StoreError :=
  .foreignKeyViolation key.text

/-- The text of the reason. -/
def message : StoreError → String
  | .uniqueViolation constraint => "unique constraint violated: " ++ constraint
  | .foreignKeyViolation constraint => "foreign key constraint violated: " ++ constraint
  | .stale reason => "stale version: " ++ reason.message
  | .invalidValue reason => "invalid value: " ++ reason.message
  | .unknownModel model => "unknown model: " ++ model
  | .unsupported reason => "unsupported by store: " ++ reason.message

end StoreError

end RecordApi
