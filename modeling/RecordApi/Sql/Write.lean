import RecordApi.Record
import RecordApi.Sql.Query

/-!
# Statements that write

Inserting, changing and deleting one record. Only columns that are set are written; a record is
found by its key, and by the version that was read where its model has one.
-/

namespace RecordApi.Sql

/-- The columns of a model that an insertion writes: those that are set, but no key that is null. -/
def insertedColumns (m : Model) (values : Record) : List Column :=
  m.columns.filter fun c =>
    values.contains c.name && !(c.primaryKey && (values.get c.name).isNull)

/-- The statement that inserts a record. -/
def insert (m : Model) (values : Record) : Prepared :=
  let columns := insertedColumns m values
  let returning := [Piece.words " RETURNING "] ++ selectList (fun name => [.name name]) m
  Draft.prepare do
    let placeholders ← columns.mapM fun c => placeholder c (values.get c.name)
    if columns.isEmpty then
      pure ([.words "INSERT INTO "] ++ Statement.table m ++ [.words " DEFAULT VALUES"] ++ returning)
    else
      pure ([.words "INSERT INTO "] ++ Statement.table m ++ [.words " ("] ++
        Statement.join ", " (columns.map fun c => [.name c.name]) ++ [.words ") VALUES ("] ++
        Statement.join ", " placeholders ++ [.words ")"] ++ returning)

/-- The columns that a change writes: those that are set, but neither the key nor the version. -/
def updatedColumns (m : Model) (changes : Record) : List Column :=
  m.columns.filter fun c =>
    !c.primaryKey && m.versionColumn != some c.name && changes.contains c.name

/-- A column, as `reference` refers to it, that is equal to a value or gets it. -/
def equation (reference : String → Statement) (c : Column) (value : Value) : Draft Statement := do
  let operand ← placeholder c value
  pure (reference c.name ++ [.words " = "] ++ operand)

/-- What a change sets: the columns and the next version, or nothing but the key to itself. -/
def assignments (m : Model) (changes : Record) : Draft (List Statement) := do
  let columns ← (updatedColumns m changes).mapM fun c =>
    equation (fun name => [.name name]) c (changes.get c.name)
  let version := m.versionColumn.toList.map fun v =>
    [Piece.name v, .words " = "] ++ qualified .main v ++ [.words " + 1"]
  if (columns ++ version).isEmpty then
    pure [[.name m.primaryKey.name, .words " = "] ++ qualified .main m.primaryKey.name]
  else pure (columns ++ version)

/-- The conditions for the record that was read, where `reference` says how to refer to a column. -/
def identity (reference : String → Statement) (m : Model) (current : Record) :
    Except StoreError (Draft Statement) := do
  let version ← m.versionColumn.toList.mapM (columnOf m)
  pure do
    let conditions ← (m.primaryKey :: version).mapM fun c =>
      equation reference c (current.get c.name)
    pure (Statement.join " AND " conditions)

/-- The statement that changes the record that was read as `current`. -/
def update (m : Model) (current changes : Record) : Except StoreError Prepared := do
  let identity ← identity (qualified .main) m current
  pure (Draft.prepare do
    let sets ← assignments m changes
    let conditions ← identity
    pure ([.words "UPDATE "] ++ Statement.table m ++ [.words " AS main SET "] ++
      Statement.join ", " sets ++ [.words " WHERE "] ++ conditions ++
      [.words " RETURNING "] ++ selectList (qualified .main) m))

/-- The statement that deletes the record that was read as `current`. -/
def delete (m : Model) (current : Record) : Except StoreError Prepared := do
  let identity ← identity (fun name => [.name name]) m current
  pure (Draft.prepare do
    let conditions ← identity
    pure ([.words "DELETE FROM "] ++ Statement.table m ++ [.words " WHERE "] ++ conditions))

end RecordApi.Sql
