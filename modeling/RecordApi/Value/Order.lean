import RecordApi.Value.Basic

/-!
# Order and sameness of values

`Value.compare` orders two values of one kind; numbers of different kinds are compared by value,
and values of unrelated kinds are not ordered. `Value.same` is the equality that keys, unique
columns and filters use. `Value.sortOrder` orders any two values for sorting: nulls come last.
-/

namespace RecordApi.Value

/-- False before true. -/
def compareBool (a b : Bool) : Ordering :=
  match a, b with
  | false, true => .lt
  | true, false => .gt
  | _, _ => .eq

/-- The order of two values, if they are of related kinds. -/
def compare : Value → Value → Option Ordering
  | .null, .null => some .eq
  | .bool a, .bool b => some (compareBool a b)
  | .int a, .int b => some (Ord.compare a.toInt b.toInt)
  | .int a, .float b => (Binary64.ofInt a.toInt).compare b
  | .float a, .int b => a.compare (.ofInt b.toInt)
  | .float a, .float b => a.compare b
  | .decimal a, .decimal b => some (a.compare b)
  | .decimal a, .int b => some (a.compare (.ofInt64 b))
  | .int a, .decimal b => some ((Decimal.ofInt64 a).compare b)
  | .decimal a, .float b => a.toBinary64.compare b
  | .float a, .decimal b => a.compare b.toBinary64
  | .text a, .text b => some (Ord.compare a b)
  | .dateTime a, .dateTime b => some (a.compare b)
  | .date a, .date b => some (a.compare b)
  | .time a, .time b => some (a.compare b)
  | .uuid a, .uuid b => some (a.compare b)
  | _, _ => none

mutual

/-- Equality as a store sees it. Null is the same as null; JSON values, geometries and lists are
compared part by part, and all other values by their order. -/
def same : Value → Value → Bool
  | .json a, .json b => Json.same a b
  | .geometry a, .geometry b => a.same b
  | .list a, .list b => sameItems a b
  | a, b => compare a b == some .eq

/-- Equality of lists item by item. -/
def sameItems : List Value → List Value → Bool
  | [], [] => true
  | a :: as, b :: bs => same a b && sameItems as bs
  | _, _ => false

end

/-- The order for sorting. Null comes after every value; values that have no order are equal. -/
def sortOrder (a b : Value) : Ordering :=
  match a.isNull, b.isNull with
  | true, true => .eq
  | true, false => .gt
  | false, true => .lt
  | false, false => (compare a b).getD .eq

end RecordApi.Value
