import RecordApi.Query.Like
import RecordApi.Record
import RecordApi.Value.Order

/-!
# Predicates

Conditions on records. `Predicate.holds` decides one for a record, where `links` says which records
are behind a relationship.
-/

namespace RecordApi

/-- A comparison by order. -/
inductive Comparison where
  | less
  | lessOrEqual
  | greater
  | greaterOrEqual
  deriving DecidableEq

namespace Comparison

/-- The sign of a comparison. -/
def sign : Comparison → String
  | .less => "<"
  | .lessOrEqual => "<="
  | .greater => ">"
  | .greaterOrEqual => ">="

/-- Whether values that stand in an order satisfy a comparison. -/
def accepts : Comparison → Ordering → Bool
  | .less, o => o == .lt
  | .lessOrEqual, o => o != .gt
  | .greater, o => o == .gt
  | .greaterOrEqual, o => o != .lt

end Comparison

/-- A condition on a record. Equality with null asks for null. -/
inductive Predicate where
  | eq (column : String) (value : Value)
  | isNull (column : String)
  | notNull (column : String)
  | like (column pattern : String) (ignoresCase : Bool)
  | compare (column : String) (comparison : Comparison) (value : Value)
  | isIn (column : String) (values : List Value)
  | all (conditions : List Predicate)
  | any (conditions : List Predicate)
  | not (condition : Predicate)
  | linked (relationship : String) (condition : Predicate)

/-- The records behind a relationship of a record. -/
abbrev Links := String → Record → List Record

/-- No record is behind any relationship. -/
def Links.none : Links := fun _ _ => []

/-- The text of a value that patterns are matched with: a string as it is, any other value as
JSON. -/
def Value.likeText (v : Value) : String :=
  match v.plain with
  | .string s => s
  | j => j.write

namespace Predicate

mutual

/-- Whether a record satisfies a condition. Conditions on the records behind a relationship see no
further relationships. -/
def holds (links : Links) (r : Record) : Predicate → Bool
  | .eq column value =>
    if value.isNull then (r.get column).isNull else (r.get column).same value
  | .isNull column => (r.get column).isNull
  | .notNull column => !(r.get column).isNull
  | .like column pattern ignoresCase =>
    !(r.get column).isNull && RecordApi.like ignoresCase pattern (r.get column).likeText
  | .compare column comparison value =>
    !(r.get column).isNull && !value.isNull &&
      (((r.get column).compare value).map comparison.accepts).getD false
  | .isIn column values =>
    !(r.get column).isNull && values.any (r.get column).same
  | .all conditions => holdAll links r conditions
  | .any conditions => holdAny links r conditions
  | .not condition => !holds links r condition
  | .linked relationship condition =>
    (links relationship r).any fun target => holds Links.none target condition

/-- Whether a record satisfies every one of some conditions. -/
def holdAll (links : Links) (r : Record) : List Predicate → Bool
  | [] => true
  | p :: rest => holds links r p && holdAll links r rest

/-- Whether a record satisfies one of some conditions. -/
def holdAny (links : Links) (r : Record) : List Predicate → Bool
  | [] => false
  | p :: rest => holds links r p || holdAny links r rest

end

end Predicate

end RecordApi
