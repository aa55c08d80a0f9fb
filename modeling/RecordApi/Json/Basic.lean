import RecordApi.Keyed
import RecordApi.Number.Binary64

/-!
# JSON values

A JSON value as a tree. Numbers are whole numbers or finite double-precision numbers. An object is
a list of members; `Json.object` keeps the members as they are given, and `Json.ofMembers` puts them
in the order of their names with one member to a name, which is the form of every value that is read
or built here.
-/

namespace RecordApi

/-- A JSON value. -/
inductive Json where
  | null
  | bool (b : Bool)
  | int (n : Int)
  | float (x : Binary64.Finite)
  | string (s : String)
  | array (items : List Json)
  | object (members : List (String × Json))

namespace Json

instance : Inhabited Json := ⟨.null⟩

/-- The members of an object. -/
abbrev Members := Keyed Json

/-- The object with the given members. -/
def ofMembers (members : Members) : Json :=
  .object (Keyed.ofList members)

/-- The member of an object with a name; none for any other value. -/
def get? : Json → String → Option Json
  | .object members, name => Keyed.get? members name
  | _, _ => none

/-- The text of a string. -/
def asString? : Json → Option String
  | .string s => some s
  | _ => none

/-- The items of an array. -/
def asArray? : Json → Option (List Json)
  | .array items => some items
  | _ => none

/-- The members of an object. -/
def asObject? : Json → Option Members
  | .object members => some members
  | _ => none

/-- The number nearest to a numeric value. -/
def asNumber? : Json → Option Binary64
  | .int n => some (.ofInt n)
  | .float x => some x.val
  | _ => none

/-- A number as a JSON value; infinities and `nan` become null. -/
def ofBinary64 (x : Binary64) : Json :=
  match x.finite? with
  | some f => .float f
  | none => .null

mutual

/-- Equality of values. Whole and other numbers differ even when they denote one number; the two
zeros do not. -/
def same : Json → Json → Bool
  | .null, .null => true
  | .bool a, .bool b => a == b
  | .int a, .int b => a == b
  | .float a, .float b => a.val.same b.val
  | .string a, .string b => a == b
  | .array a, .array b => sameItems a b
  | .object a, .object b => sameMembers a b
  | _, _ => false

/-- Equality of arrays. -/
def sameItems : List Json → List Json → Bool
  | [], [] => true
  | a :: as, b :: bs => same a b && sameItems as bs
  | _, _ => false

/-- Equality of members in order. -/
def sameMembers : List (String × Json) → List (String × Json) → Bool
  | [], [] => true
  | (k, a) :: as, (l, b) :: bs => k == l && same a b && sameMembers as bs
  | _, _ => false

end

mutual

/-- The value with all members of all objects in order. -/
def normalize : Json → Json
  | .array items => .array (normalizeItems items)
  | .object members => .object (normalizeMembers members)
  | .null => .null
  | .bool b => .bool b
  | .int n => .int n
  | .float x => .float x
  | .string s => .string s

/-- Items with all members of all objects in order. -/
def normalizeItems : List Json → List Json
  | [] => []
  | a :: as => normalize a :: normalizeItems as

/-- Members in order, sorted from the last to the first so that later ones win. -/
def normalizeMembers : List (String × Json) → List (String × Json)
  | [] => []
  | (k, a) :: as =>
    let rest := normalizeMembers as
    if rest.any (·.1 == k) then rest else Keyed.insert k (normalize a) rest

end

end Json

end RecordApi
