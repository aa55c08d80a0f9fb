import RecordApi.Resource.Session

/-!
# Included records

The records behind a relationship, as a request for one record may include them.
-/

namespace RecordApi

/-- The records behind a relationship of a model. -/
structure LinkedRecords where
  relationship : Relationship
  target : Model

namespace LinkedRecords

/-- The records behind the relationship of a model of a schema. -/
def ofNames (schema : Schema) (model relationship : String) :
    Except SchemaError LinkedRecords :=
  match schema.model? model with
  | none => .error (.missingReference .model model)
  | some owner =>
    match owner.relationship? relationship with
    | none => .error (.missingReference .relationship (model ++ "." ++ relationship))
    | some r =>
      match schema.model? r.target with
      | none => .error (.missingReference .model r.target)
      | some target => .ok ⟨r, target⟩

/-- The records that belong to a record in some transaction. A null refers to nothing. -/
def resolve (l : LinkedRecords) (tx : Transaction) (row : Row) : List Record :=
  let v := row.record.get l.relationship.localColumn
  if v.isNull then []
  else
    (tx.fetch ((Plan.ofModel l.target).filter (.eq l.relationship.remoteColumn v))).map (·.record)

/-- The records as they may be included in an answer. -/
def spec (l : LinkedRecords) (fields : ResponseFields) (axes : AxisNames) : IncludedSpec where
  target := l.target
  resolve _ tx row := .ok (l.resolve tx row)
  fields := fields
  axes := axes

end LinkedRecords

end RecordApi
