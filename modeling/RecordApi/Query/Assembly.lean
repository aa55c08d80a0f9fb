import RecordApi.Query.Filter
import RecordApi.Query.Plan
import RecordApi.Resource.Context

/-!
# Plans of requests

What the path of a request and its parameters `__sort`, `__offset` and `__limit` add to a plan.
-/

namespace RecordApi

/-- What a parameter of a path stands for: a column, nothing, or a condition of its own making,
which names no value of a record. -/
inductive PathTarget where
  | column (name : String)
  | ignore
  | lookup (condition : String → Except ApiError Predicate)

/-- What the parameters of paths stand for. -/
abbrev PathMap := Keyed PathTarget

/-- What a parameter stands for; one that is not listed stands for the column of its name. -/
def PathMap.target (map : PathMap) (name : String) : PathTarget :=
  (map.get? name).getD (.column name)

/-- The condition that one parameter of a path is. A text that is no value of its column can name no
record. -/
def PathMap.condition (map : PathMap) (m : Model) (param : String × String) :
    Except ApiError (List Predicate) :=
  match map.target param.1 with
  | .ignore => .ok []
  | .lookup condition => (condition param.2).map ([·])
  | .column name =>
    match m.column? name with
    | none => .error (.misconfigured (.lookupAttribute m.name name))
    | some c =>
      match c.typed param.2 with
      | .ok value => .ok [.eq name value]
      | .error _ => .error .notFound

/-- The plan for the records that a path names. -/
def Plan.filterByPath (p : Plan) (map : PathMap) (params : List (String × String)) :
    Except ApiError Plan :=
  (params.mapM (map.condition p.model)).map fun conditions => p.filters conditions.flatten

/-- The keys that names mean, each of which has to be a column. -/
def Model.sortKeys (m : Model) (fault : String → ApiError) (fields : List String) :
    Except ApiError (List SortKey) :=
  fields.mapM fun field =>
    let key := SortKey.ofText field
    if m.isColumn key.column then .ok key else .error (fault key.column)

/-- The plan in the order that a request asks for, else in the default order. A name that is no
column is the fault of whoever gave it. -/
def Plan.sortFor (p : Plan) (m : Model) (ctx : Context) (standard : Option (List String)) :
    Except ApiError Plan :=
  match ctx.paramList? "__sort", standard with
  | some fields, _ =>
    (m.sortKeys (fun _ => .badRequest .sortAttribute) fields).map p.orderBy
  | none, some fields =>
    (m.sortKeys (fun name => .misconfigured (.defaultSort m.name name)) fields).map
      p.orderBy
  | none, none => .ok p

/-- The part of a collection that a request asks for. -/
structure Pagination where
  offset : Option Nat
  limit : Option Nat
  deriving DecidableEq

namespace Pagination

/-- The part that the parameters of a request say. -/
def ofContext (ctx : Context) : Except ApiError Pagination := do
  let offset ← ctx.paramNat? "__offset"
  let limit ← ctx.paramNat? "__limit"
  pure ⟨offset, limit⟩

/-- Whether a part is asked for, and so the number of all records is told. -/
def requested (p : Pagination) : Bool :=
  p.offset.isSome || p.limit.isSome

end Pagination

end RecordApi
