import RecordApi.Query.Predicate
import RecordApi.Schema.Basic

/-!
# Plans

A plan says which records of a model to fetch, in what order, which part of them, and what to fetch
beside each. `Plan.counting` is what the number of all matches is counted by, and `Plan.forOne` is
enough to tell one match from several.
-/

namespace RecordApi

/-- A column to sort by. -/
structure SortKey where
  column : String
  descending : Bool
  deriving DecidableEq

/-- The key that a name means; a minus in front of it asks for descending order. -/
def SortKey.ofText (s : String) : SortKey :=
  match s.toList with
  | '-' :: name => ⟨String.ofList name, true⟩
  | _ => ⟨s, false⟩

/-- A value to fetch beside a record: a column of what is behind a relationship, or how many records
that is. -/
inductive Projection where
  | related (relationship column : String)
  | count (relationship : String)
  deriving DecidableEq

/-- What to fetch. -/
structure Plan where
  model : Model
  predicates : List Predicate
  sort : List SortKey
  offset : Option Nat
  limit : Option Nat
  extra : List Projection

namespace Plan

/-- All records of a model. -/
def ofModel (model : Model) : Plan :=
  ⟨model, [], [], none, none, []⟩

/-- The plan with a further condition. -/
def filter (p : Plan) (predicate : Predicate) : Plan :=
  { p with predicates := p.predicates ++ [predicate] }

/-- The plan with further conditions. -/
def filters (p : Plan) (predicates : List Predicate) : Plan :=
  { p with predicates := p.predicates ++ predicates }

/-- The plan with another order. -/
def orderBy (p : Plan) (sort : List SortKey) : Plan :=
  { p with sort := sort }

/-- The plan with other values beside each record. -/
def withExtra (p : Plan) (extra : List Projection) : Plan :=
  { p with extra := extra }

/-- The plan for another part of the records. -/
def window (p : Plan) (offset limit : Option Nat) : Plan :=
  { p with offset := offset, limit := limit }

/-- The conditions of a plan, without order, part and further values. -/
def counting (p : Plan) : Plan :=
  (ofModel p.model).filters p.predicates

/-- The plan for two records at most. -/
def forOne (p : Plan) : Plan :=
  p.window none (some 2)

end Plan

/-- What looking up one record may find. -/
inductive Resolution where
  | nothing
  | one (row : Row)
  | several

/-- What some rows amount to. -/
def Resolution.ofRows : List Row → Resolution
  | [] => .nothing
  | [row] => .one row
  | _ => .several

end RecordApi
