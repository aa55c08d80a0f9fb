import RecordApi.Text.Quoted

/-!
# Column types

What a column holds. A type that is not known is kept by name and takes any value.
-/

namespace RecordApi

/-- The shape that a geometry column declares. -/
inductive GeometryKind where
  | point
  | lineString
  | polygon
  | any
  deriving DecidableEq

/-- The type of the values of a column. -/
inductive ColumnType where
  | integer
  | float
  | boolean
  | string
  | dateTime (timezone : Bool)
  | date
  | time
  | decimal
  | uuid
  | json
  | geometry (kind : GeometryKind) (dimension : Nat)
  | other (name : String)
  deriving DecidableEq

namespace ColumnType

/-- The database type that values of this type are cast to. -/
def cast : ColumnType → String
  | .integer => "bigint"
  | .float => "double precision"
  | .boolean => "boolean"
  | .string => "text"
  | .dateTime true => "timestamptz"
  | .dateTime false => "timestamp"
  | .date => "date"
  | .time => "time"
  | .decimal => "numeric"
  | .uuid => "uuid"
  | .json => "jsonb"
  | .geometry _ _ => "geometry"
  | .other name => name

/-- The name of a shape. -/
def kindText : GeometryKind → String
  | .point => "Point"
  | .lineString => "LineString"
  | .polygon => "Polygon"
  | .any => "Any"

/-- A type with its parameters. -/
def inspect : ColumnType → String
  | .integer => "Integer"
  | .float => "Float"
  | .boolean => "Boolean"
  | .string => "String"
  | .dateTime timezone =>
    "DateTime \x7b timezone: " ++ (if timezone then "true" else "false") ++ " \x7d"
  | .date => "Date"
  | .time => "Time"
  | .decimal => "Decimal"
  | .uuid => "Uuid"
  | .json => "Json"
  | .geometry kind dimension =>
    "Geometry \x7b kind: " ++ kindText kind ++ ", dimension: " ++ dimension.repr ++ " \x7d"
  | .other name => "Other(" ++ Text.quoted name ++ ")"

end ColumnType

end RecordApi
