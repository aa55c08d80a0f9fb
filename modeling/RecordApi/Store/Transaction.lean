import RecordApi.Query.Plan
import RecordApi.Store.Keys
import RecordApi.Store.Row
import RecordApi.Store.Sorting

/-!
# Transactions

A transaction works on the tables as they were when it began, and keeps a log of what it does.
Constraints between records are not its business: they are checked when the log is replayed.
-/

namespace RecordApi

/-- One write of a transaction. The version is the one that was read, where the model has one. -/
inductive Operation where
  | insert (model : String) (record : Record)
  | update (model : String) (key : Value) (version : Option Value) (changes : Record)
  | delete (model : String) (key : Value) (version : Option Value)

/-- The model that an operation writes to. -/
def Operation.model : Operation → String
  | .insert model _ => model
  | .update model _ _ _ => model
  | .delete model _ _ => model

/-- A transaction: its own tables and what it did to them. -/
structure Transaction where
  schema : Schema
  working : Tables
  log : List Operation

/-! ## Relationships -/

/-- The records of some tables behind a relationship of a record of a model. A null refers to
nothing. -/
def Tables.links (t : Tables) (m : Model) : Links := fun relationship r =>
  match m.relationship? relationship with
  | none => []
  | some link =>
    if (r.get link.localColumn).isNull then []
    else
      (t.rows link.target).filter fun other =>
        (other.get link.remoteColumn).same (r.get link.localColumn)

/-- The value of a projection for a record of a model. -/
def Tables.project (t : Tables) (m : Model) (r : Record) : Projection → Value
  | .related relationship column =>
    let linked := t.links m relationship r
    if (m.relationship? relationship).any Relationship.isToMany then
      .list (linked.map (·.get column))
    else ((linked.head?).map (·.get column)).getD .null
  | .count relationship => .int (Int64.ofNat (t.links m relationship r).length)

/-! ## Reading -/

/-- The order of two records by some keys, of which the first that tells them apart decides. -/
def SortKey.order (keys : List SortKey) (a b : Record) : Ordering :=
  keys.foldr
    (fun key rest =>
      let o := Value.sortOrder (a.get key.column) (b.get key.column)
      (if key.descending then o.swap else o).then rest)
    .eq

namespace Plan

/-- The order of a plan, with the primary key of the model as its last key. -/
def order (p : Plan) (a b : Record) : Ordering :=
  SortKey.order (p.sort ++ [⟨p.model.primaryKey.name, false⟩]) a b

/-- Whether a record of some tables satisfies all conditions of a plan. -/
def accepts (p : Plan) (t : Tables) (r : Record) : Bool :=
  p.predicates.all (·.holds (t.links p.model) r)

/-- The records of some tables that satisfy the conditions of a plan. -/
def matching (p : Plan) (t : Tables) : List Record :=
  (t.rows p.model.name).filter (p.accepts t)

/-- The part of some records that a plan asks for. -/
def slice (p : Plan) (records : List Record) : List Record :=
  let rest := records.drop (p.offset.getD 0)
  match p.limit with
  | some n => rest.take n
  | none => rest

/-- What a plan fetches from some tables. -/
def fetch (p : Plan) (t : Tables) : List Row :=
  (p.slice (Sorting.sort (fun a b => p.order a b == .lt) (p.matching t))).map fun r =>
    ⟨r, p.extra.map (t.project p.model r)⟩

/-- The number of records of some tables that satisfy the conditions of a plan. -/
def count (p : Plan) (t : Tables) : Nat :=
  (p.matching t).length

end Plan

namespace Transaction

/-- What a plan fetches. -/
def fetch (tx : Transaction) (p : Plan) : List Row :=
  p.fetch tx.working

/-- The number of records that satisfy the conditions of a plan. -/
def count (tx : Transaction) (p : Plan) : Nat :=
  p.count tx.working

/-- Looks up the one record of a plan. -/
def one (tx : Transaction) (p : Plan) : Resolution :=
  .ofRows (tx.fetch p.forOne)

/-! ## Writing -/

/-- The model of the schema with a name. -/
def modelNamed (tx : Transaction) (name : String) : Except StoreError Model :=
  match tx.schema.model? name with
  | some m => .ok m
  | none => .error (.unknownModel name)

/-- The transaction with other records for a model and one more operation in the log. -/
def wrote (tx : Transaction) (m : Model) (rows : List Record) (operation : Operation) :
    Transaction :=
  { tx with working := tx.working.setRows m.name rows, log := tx.log ++ [operation] }

/-- Puts a completed record at the end of its table. -/
def append (tx : Transaction) (m : Model) (r : Record) : Except StoreError (Record × Transaction) :=
  let r := m.withFirstVersion r
  match m.checkNotNull r with
  | .error e => .error e
  | .ok () => .ok (r, tx.wrote m (tx.working.rows m.name ++ [r]) (.insert m.name r))

/-- Inserts a record. It gets a key and a first version where it has none. A key that is given out
is used up even if the record is refused. -/
def insert (tx : Transaction) (keys : KeySource) (model : String) (values : Record) :
    KeySource × Except StoreError (Record × Transaction) :=
  match tx.modelNamed model with
  | .error e => (keys, .error e)
  | .ok m =>
    match m.normalize values with
    | .error e => (keys, .error e)
    | .ok r =>
      match keys.complete m r with
      | (keys, .error e) => (keys, .error e)
      | (keys, .ok r) => (keys, tx.append m r)

/-- The place of the record that was read as `current`, which has to have the version that was
read. -/
def placeOf (tx : Transaction) (m : Model) (current : Record) : Except StoreError Place :=
  match m.locate? (m.keyOf current) (tx.working.rows m.name) with
  | none => .error (.stale (.gone m.name (m.keyOf current)))
  | some place =>
    match m.versionColumn with
    | none => .ok place
    | some version =>
      if (place.row.get version).same (current.get version) then .ok place
      else .error (.stale (.changed m.name (m.keyOf current)))

/-- The version that was read, where the model has one. -/
def expectedVersion (m : Model) (current : Record) : Option Value :=
  m.versionColumn.map current.get

/-- Changes with the version that follows the one that was read. -/
def withNextVersion (m : Model) (current changes : Record) : Record :=
  match m.versionColumn with
  | some version => changes.insert version (current.get version).nextVersion
  | none => changes

/-- Changes the record that was read as `current`. -/
def update (tx : Transaction) (model : String) (current changes : Record) :
    Except StoreError (Record × Transaction) := do
  let m ← tx.modelNamed model
  let changes ← m.normalize changes
  let place ← tx.placeOf m current
  let changes := withNextVersion m current changes
  let updated := place.row.merge changes
  m.checkNotNull updated
  pure (updated, tx.wrote m (place.replace updated)
    (.update m.name (m.keyOf current) (expectedVersion m current) changes))

/-- Deletes the record that was read as `current`. -/
def delete (tx : Transaction) (model : String) (current : Record) :
    Except StoreError Transaction := do
  let m ← tx.modelNamed model
  let place ← tx.placeOf m current
  pure (tx.wrote m place.remove
    (.delete m.name (m.keyOf current) (expectedVersion m current)))

end Transaction

end RecordApi
