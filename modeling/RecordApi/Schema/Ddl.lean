import RecordApi.Schema.Basic
import RecordApi.Sql.Statement
import RecordApi.Text.Case

/-!
# Table definitions

The statement that creates the table of a model, without foreign keys.
-/

namespace RecordApi

/-- The type of a column in a table definition. Keys that are whole numbers or identifiers are
generated, unless the type does so by itself. -/
def Column.definedType (c : Column) : String :=
  match c.type, c.primaryKey with
  | .integer, true =>
    if "serial".toList <:+: Text.lowercase c.sqlType.toList then c.sqlType
    else c.sqlType ++ " GENERATED BY DEFAULT AS IDENTITY"
  | .uuid, true => c.sqlType ++ " DEFAULT gen_random_uuid()"
  | _, _ => c.sqlType

/-- The definition of a column of a model. -/
def Column.definition (m : Model) (c : Column) : String :=
  Sql.quoteName c.name ++ " " ++ c.definedType ++
    (if c.nullable then "" else " NOT NULL") ++
    (if c.unique && !c.primaryKey then " UNIQUE" else "") ++
    (if m.versionColumn = some c.name then " DEFAULT 1" else "")

/-- The statement that creates the table of a model. -/
def Model.createTable (m : Model) : String :=
  let definitions :=
    m.columns.map (Column.definition m) ++
      ["PRIMARY KEY (" ++ Sql.quoteName m.primaryKey.name ++ ")"] ++
      m.unique.map fun columns =>
        "UNIQUE (" ++ ", ".intercalate (columns.map Sql.quoteName) ++ ")"
  "CREATE TABLE IF NOT EXISTS " ++ (Sql.Statement.table m).text ++ " (\n  " ++
    ",\n  ".intercalate definitions ++ "\n)"

end RecordApi
