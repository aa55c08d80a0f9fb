import RecordApi.Schema.ColumnType
import RecordApi.Value.Basic

/-!
# Bound values

The values that a statement is given beside its text, and the database types that they are sent as.
-/

namespace RecordApi.Sql

/-- A value bound to a statement. -/
inductive Bound where
  | null
  | bool (b : Bool)
  | int (n : Int64)
  | float (x : Binary64)
  | text (s : String)
  | timestamp (d : DateTime)
  | timestampWithZone (d : DateTime)
  | date (d : Date)
  | time (t : Time)
  | decimal (d : Decimal)
  | uuid (u : Uuid)
  | json (v : Json)

namespace Bound

/-- The type that a value is sent as. -/
def typeName : Bound → String
  | .null | .text _ => "TEXT"
  | .bool _ => "BOOL"
  | .int _ => "INT8"
  | .float _ => "FLOAT8"
  | .timestamp _ => "TIMESTAMP"
  | .timestampWithZone _ => "TIMESTAMPTZ"
  | .date _ => "DATE"
  | .time _ => "TIME"
  | .decimal _ => "NUMERIC"
  | .uuid _ => "UUID"
  | .json _ => "JSONB"

/-- The form in which a value goes to a column of a type. -/
def ofValue (type : ColumnType) : Value → Bound
  | .null => .null
  | .bool b => .bool b
  | .int n => .int n
  | .float x => .float x
  | .text s => .text s
  | .dateTime d => if type = .dateTime true then .timestampWithZone d else .timestamp d
  | .date d => .date d
  | .time t => .time t
  | .decimal d => .decimal d
  | .uuid u => .uuid u
  | .json v => if type = .json then .json v else .text v.write
  | .geometry g => .text g.toGeoJson.write
  | .list items => .json (Value.list items).plain

end Bound

end RecordApi.Sql
