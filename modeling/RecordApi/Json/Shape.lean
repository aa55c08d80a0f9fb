import RecordApi.Json.Basic

/-!
# Shapes of JSON values

A shape says which parts of a value are of interest. A structure has named fields and is written as
an object or as an array of its fields in order; members of the object that are none of the fields
are not of interest.
-/

namespace RecordApi.Json

/-- The parts of a value that are of interest: all of it, the fields of a structure, or the items of
a list. -/
inductive Shape where
  | any
  | record (fields : List (String × Shape))
  | list (item : Shape)

namespace Shape

/-- The names of the fields of a structure, in order. -/
def names : Shape → List String
  | .record fields => fields.map (·.1)
  | _ => []

/-- The shape of a member of an object, if the member is of interest. -/
def member? : Shape → String → Option Shape
  | .record fields, name => fields.lookup name
  | _, _ => some .any

/-- The shape of the first item of an array. -/
def head : Shape → Shape
  | .list item => item
  | .record (field :: _) => field.2
  | _ => .any

/-- The shape of what follows the first item of an array. -/
def tail : Shape → Shape
  | .record (_ :: fields) => .record fields
  | shape => shape

end Shape

end RecordApi.Json
