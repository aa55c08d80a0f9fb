import RecordApi.Calendar.DateTime
import RecordApi.Geometry
import RecordApi.Number.Decimal
import RecordApi.Uuid

/-!
# Values

A value is what one column of a record holds. `Value.plain` is its JSON form without any
configuration, `Value.ofJson` the value of a JSON form where no column type is known, and
`Value.inspect` the text that messages show.
-/

namespace RecordApi

/-- A stored value. -/
inductive Value where
  | null
  | bool (b : Bool)
  | int (n : Int64)
  | float (x : Binary64)
  | text (s : String)
  | dateTime (d : DateTime)
  | date (d : Date)
  | time (t : Time)
  | decimal (d : Decimal)
  | uuid (u : Uuid)
  | json (v : Json)
  | geometry (g : Geometry)
  | list (items : List Value)

namespace Value

instance : Inhabited Value := ⟨.null⟩

/-- Whether a value is null. -/
def isNull : Value → Bool
  | .null => true
  | _ => false

@[simp] theorem isNull_null : isNull .null = true := rfl

theorem isNull_eq_true_iff {v : Value} : v.isNull = true ↔ v = .null := by
  cases v <;> simp [isNull]

/-- Whether a whole number fits 64 bits with a sign. -/
def fitsInt64 (n : Int) : Bool :=
  -(2 ^ 63) ≤ n && n < 2 ^ 63

/-- The value of a JSON value of which nothing else is known: arrays and objects stay JSON, and a
whole number that does not fit 64 bits is rounded. -/
def ofJson : Json → Value
  | .null => .null
  | .bool b => .bool b
  | .int n => if fitsInt64 n then .int (Int64.ofInt n) else .float (.ofInt n)
  | .float x => .float x.val
  | .string s => .text s
  | v => .json v

/-- A whole number of 64 bits as text. -/
def int64Text (n : Int64) : String :=
  String.ofList (Text.intDigits n.toInt)

mutual

/-- The JSON form of a value. Temporal values, decimals and identifiers are strings. -/
def plain : Value → Json
  | .null => .null
  | .bool b => .bool b
  | .int n => .int n.toInt
  | .float x => .ofBinary64 x
  | .text s => .string s
  | .dateTime d => .string d.write
  | .date d => .string d.write
  | .time t => .string t.write
  | .decimal d => .string d.write
  | .uuid u => .string u.write
  | .json v => v
  | .geometry g => g.toGeoJson
  | .list items => .array (plainItems items)

/-- The JSON forms of the items of a list. -/
def plainItems : List Value → List Json
  | [] => []
  | v :: rest => plain v :: plainItems rest

end

mutual

/-- A value with its kind. -/
def inspect : Value → String
  | .null => "Null"
  | .bool b => if b then "Bool(true)" else "Bool(false)"
  | .int n => "Int(" ++ int64Text n ++ ")"
  | .float x => "Float(" ++ Binary64.inspectLayout.write x ++ ")"
  | .text s => "Text(" ++ Text.quoted s ++ ")"
  | .dateTime d => "DateTime(" ++ d.write ++ ")"
  | .date d => "Date(" ++ d.write ++ ")"
  | .time t => "Time(" ++ t.write ++ ")"
  | .decimal d => "Decimal(" ++ d.write ++ ")"
  | .uuid u => "Uuid(" ++ u.write ++ ")"
  | .json v => "Json(" ++ v.inspect ++ ")"
  | .geometry g => "Geometry(" ++ g.inspect ++ ")"
  | .list items => "List([" ++ ", ".intercalate (inspectItems items) ++ "])"

/-- The items of a list with their kinds. -/
def inspectItems : List Value → List String
  | [] => []
  | v :: rest => inspect v :: inspectItems rest

end

end Value

end RecordApi
