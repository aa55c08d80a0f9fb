import RecordApi.Store.Transaction

/-!
# Committing

The operations of a transaction are replayed on the tables as they are by then, and the result is
checked for records that are not unique and for foreign keys that refer to nothing. Only models that
were written to, and foreign keys from or to them, are checked.
-/

namespace RecordApi

/-! ## Replaying -/

/-- Refuses a record whose version is not the one that was read. -/
def Model.checkVersion (m : Model) (row : Record) (expected : Option Value) :
    Except StoreError Unit :=
  match m.versionColumn, expected with
  | some version, some value =>
    if (row.get version).same value then .ok () else .error (.stale (.changed m.name (m.keyOf row)))
  | _, _ => .ok ()

/-- The place of the record with a key, whose version has to be the one that was read. -/
def Tables.placeFor (t : Tables) (m : Model) (key : Value) (expected : Option Value) :
    Except StoreError Place :=
  match m.locate? key (t.rows m.name) with
  | none => .error (.stale (.gone m.name key))
  | some place =>
    match m.checkVersion place.row expected with
    | .error e => .error e
    | .ok () => .ok place

/-- One operation on the tables. -/
def Operation.replay (schema : Schema) (t : Tables) (operation : Operation) :
    Except StoreError Tables :=
  match schema.model? operation.model with
  | none => .error (.unknownModel operation.model)
  | some m =>
    match operation with
    | .insert _ record => .ok (t.setRows m.name (t.rows m.name ++ [record]))
    | .update _ key expected changes =>
      match t.placeFor m key expected with
      | .error e => .error e
      | .ok place => .ok (t.setRows m.name (place.replace (place.row.merge changes)))
    | .delete _ key expected =>
      match t.placeFor m key expected with
      | .error e => .error e
      | .ok place => .ok (t.setRows m.name place.remove)

/-! ## Checking -/

/-- The lists of columns that are unique together: the key, the unique columns, and those that are
declared so. -/
def Model.uniqueLists (m : Model) : List (List String) :=
  ((m.columns.filter fun c => c.unique || c.primaryKey).map fun c => [c.name]) ++ m.unique

/-- Whether two records agree in some columns, none of which is null. -/
def clash (columns : List String) (a b : Record) : Bool :=
  columns.all (fun c => !(a.get c).isNull) && columns.all fun c => (a.get c).same (b.get c)

/-- Whether a record of a list clashes with a later one. -/
def hasClash (columns : List String) : List Record → Bool
  | [] => false
  | a :: rest => rest.any (clash columns a) || hasClash columns rest

/-- Refuses records of a model that are not unique. -/
def Tables.checkUnique (t : Tables) (m : Model) : Except StoreError Unit :=
  match m.uniqueLists.find? fun columns => hasClash columns (t.rows m.name) with
  | some columns => .error (.notUnique m.name columns)
  | none => .ok ()

/-- Whether the column that a foreign key refers to has the value that a record gives to it. -/
def Tables.refers (t : Tables) (key : ForeignKey) (r : Record) : Bool :=
  (r.get key.fromColumn).isNull ||
    (t.rows key.toModel).any fun other => (other.get key.toColumn).same (r.get key.fromColumn)

/-- Refuses records whose foreign key refers to nothing. -/
def Tables.checkForeignKey (t : Tables) (key : ForeignKey) : Except StoreError Unit :=
  if (t.rows key.fromModel).all (t.refers key) then .ok () else .error (.dangling key)

/-- Checks the models with the given names, and the foreign keys from or to them. -/
def Tables.check (t : Tables) (schema : Schema) (touched : List String) :
    Except StoreError Unit := do
  (touched.filterMap schema.model?).forM t.checkUnique
  (schema.foreignKeys.filter fun key =>
    touched.contains key.fromModel || touched.contains key.toModel).forM t.checkForeignKey

/-! ## Stores -/

/-- The tables that are committed, with the source of keys. -/
structure Store where
  schema : Schema
  tables : Tables
  keys : KeySource

namespace Store

/-- A store without records. -/
def empty (schema : Schema) (supply : Nat → Uuid) : Store :=
  ⟨schema, [], .ofSupply supply⟩

/-- A transaction on the tables as they are. -/
def begin (s : Store) : Transaction :=
  ⟨s.schema, s.tables, []⟩

/-- The store after the operations of a transaction, if they can be replayed and what comes of them
is in order. -/
def commit (s : Store) (tx : Transaction) : Except StoreError Store :=
  if tx.log.isEmpty then .ok s
  else do
    let tables ← tx.log.foldlM (Operation.replay tx.schema) s.tables
    tables.check tx.schema (tx.log.map (·.model)).eraseDups
    pure { s with tables := tables }

end Store

end RecordApi
