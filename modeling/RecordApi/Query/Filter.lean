import RecordApi.Error
import RecordApi.Query.Predicate
import RecordApi.Text.Split

/-!
# Filters of requests

A query parameter `column__operator=value` is a condition on a column. `FilterClause.ofParam` reads
its name, and an `OperatorTable` turns the clause into a predicate. A parameter without an operator
asks for equality, and names that begin with two underscores are kept for other uses.
-/

namespace RecordApi

/-- One condition of a request. -/
structure FilterClause where
  column : String
  operator : String
  raw : String
  deriving DecidableEq

/-- The clause of a parameter, if its name is not reserved. -/
def FilterClause.ofParam (key raw : String) : Except ApiError (Option FilterClause) :=
  match key.toList with
  | '_' :: '_' :: _ => .ok none
  | chars =>
    match Text.splitOnPair '_' chars with
    | [column] => .ok (some ⟨String.ofList column, "=", raw⟩)
    | [column, operator] => .ok (some ⟨String.ofList column, String.ofList operator, raw⟩)
    | _ => .error (.badRequest .filterAttribute)

/-- The items of a list in brackets. It has at least one character, and no closing bracket but the
last. -/
def bracketedItems (raw : String) : Except ApiError (List String) :=
  match raw.toList with
  | '[' :: rest =>
    match rest.reverse with
    | ']' :: inner =>
      if inner.isEmpty || inner.contains ']' then .error (.badRequest .listValue)
      else .ok ((Text.splitOn ',' inner.reverse).map String.ofList)
    | _ => .error (.badRequest .listValue)
  | _ => .error (.badRequest .listValue)

/-- The value of a column that a text of a request means. -/
def Column.typed (c : Column) (raw : String) : Except ApiError Value :=
  match (Value.text raw).coerce c.type with
  | .ok v => .ok v
  | .error reason => .error (.badRequest (.filterValue c.name reason))

/-- What an operator makes of a column and the text of a request. -/
abbrev Operator := Column → String → Except ApiError Predicate

/-- Operators by name. -/
abbrev OperatorTable := Keyed Operator

namespace Operator

/-- Equality. -/
def equal : Operator := fun c raw =>
  (c.typed raw).map (.eq c.name)

/-- Null, or not null for the text `0`. -/
def null : Operator := fun c raw =>
  .ok (if raw = "0" then .notNull c.name else .isNull c.name)

/-- A pattern made of the text. -/
def pattern (ignoresCase : Bool) (before after : String) : Operator := fun c raw =>
  .ok (.like c.name (before ++ raw ++ after) ignoresCase)

/-- A comparison. -/
def comparing (comparison : Comparison) : Operator := fun c raw =>
  (c.typed raw).map (.compare c.name comparison)

/-- One of a list in brackets. -/
def oneOf : Operator := fun c raw => do
  let items ← bracketedItems raw
  let values ← items.mapM c.typed
  pure (.isIn c.name values)

end Operator

namespace OperatorTable

/-- The operators that every resource has. -/
def standard : OperatorTable :=
  Keyed.ofList
    [("=", .equal), ("null", .null),
      ("startswith", .pattern false "" "%"), ("istartswith", .pattern true "" "%"),
      ("endswith", .pattern false "%" ""), ("iendswith", .pattern true "%" ""),
      ("contains", .pattern false "%" "%"), ("icontains", .pattern true "%" "%"),
      ("lt", .comparing .less), ("lte", .comparing .lessOrEqual),
      ("gt", .comparing .greater), ("gte", .comparing .greaterOrEqual),
      ("in", .oneOf)]

/-- The predicate of a clause on a model. Its name has to be that of a column. -/
def compile (table : OperatorTable) (m : Model) (clause : FilterClause) :
    Except ApiError Predicate :=
  match m.column? clause.column with
  | none => .error (.badRequest .filterAttribute)
  | some c =>
    match table.get? clause.operator with
    | none => .error (.badRequest (.filterOperator clause.operator))
    | some operator => operator c clause.raw

/-- The predicates of one parameter: one, or none for a reserved name. -/
def ofParam (table : OperatorTable) (m : Model) (param : String × String) :
    Except ApiError (List Predicate) := do
  match ← FilterClause.ofParam param.1 param.2 with
  | some clause => (table.compile m clause).map ([·])
  | none => pure []

/-- The predicates of the parameters of a request, in order. -/
def ofParams (table : OperatorTable) (m : Model) (params : List (String × String)) :
    Except ApiError (List Predicate) :=
  (params.mapM (table.ofParam m)).map List.flatten

end OperatorTable

end RecordApi
