import RecordApi.Resource.Body
import RecordApi.Store.Commit

/-!
# Sessions

What handles a request works in a session: a transaction on the store, and the state of the hooks.
A request that fails leaves the tables of the store as they are, since only a commit changes them,
but keys that were given out and the state of the hooks stay. What a store refuses becomes an error
of the request, by what the session is for.
-/

namespace RecordApi

/-- What a session is for. -/
inductive Purpose where
  | read
  | write
  | delete
  deriving DecidableEq

/-- The error of a request for what a store refuses. -/
def ApiError.ofStore (purpose : Purpose) : StoreError → ApiError
  | .uniqueViolation _ => .conflict .unique
  | .foreignKeyViolation _ =>
    .conflict (if purpose = .delete then .linkedContent else .foreignKey)
  | .stale _ => .conflict .conditions
  | .invalidValue _ => .badRequest .storedValue
  | other => .store other

/-- What outlives a request: the store and the state of the hooks. -/
structure Server (σ : Type) where
  store : Store
  hooks : σ

/-- A transaction on a store, with the state of the hooks. -/
structure Session (σ : Type) where
  store : Store
  tx : Transaction
  purpose : Purpose
  hooks : σ

/-- Work in a session, which may fail. -/
abbrev SessionM (σ : Type) := ExceptT ApiError (StateM (Session σ))

/-- Work on a server, which may fail. -/
abbrev ServerM (σ : Type) := ExceptT ApiError (StateM (Server σ))

/-- The values of the columns of a model; others do not get to the store. -/
def Model.columnValues (m : Model) (values : Record) : Record :=
  values.restrict m.isColumn

namespace SessionM

variable {σ α : Type}

/-- The outcome of an operation of the store. -/
def ofStore (result : Except StoreError α) : SessionM σ α := do
  match result with
  | .ok a => pure a
  | .error e => throw (.ofStore (← get).purpose e)

/-- A hook. -/
def hook (h : HookM σ α) : SessionM σ α := fun s =>
  let (result, hooks) := h.run s.hooks
  (result, { s with hooks := hooks })

/-- A hook that reads from the transaction. -/
def hookWith (h : Transaction → HookM σ α) : SessionM σ α := do
  hook (h (← get).tx)

/-- What a plan fetches. -/
def fetch (plan : Plan) : SessionM σ (List Row) := do
  return (← get).tx.fetch plan

/-- The number of records that satisfy the conditions of a plan. -/
def count (plan : Plan) : SessionM σ Nat := do
  return (← get).tx.count plan

/-- Looks up the one record of a plan. -/
def one (plan : Plan) : SessionM σ Resolution := do
  return (← get).tx.one plan

/-- Inserts a record and returns it as it is stored. -/
def insert (m : Model) (values : Record) : SessionM σ Record := do
  let s ← get
  let (keys, result) := s.tx.insert s.store.keys m.name (m.columnValues values)
  set { s with store := { s.store with keys := keys } }
  let (r, tx) ← ofStore result
  modify fun s => { s with tx := tx }
  return r

/-- Changes the record that was read as `current` and returns it as it is stored. -/
def update (m : Model) (current changes : Record) : SessionM σ Record := do
  let (r, tx) ← ofStore ((← get).tx.update m.name current (m.columnValues changes))
  modify fun s => { s with tx := tx }
  return r

/-- Deletes the record that was read as `current`. -/
def delete (m : Model) (current : Record) : SessionM σ Unit := do
  let tx ← ofStore ((← get).tx.delete m.name current)
  modify fun s => { s with tx := tx }

/-- Makes what the transaction did the state of the store. -/
def commit : SessionM σ Unit := do
  let s ← get
  let store ← ofStore (s.store.commit s.tx)
  modify fun s => { s with store := store }

/-- Runs work in a session on a server. -/
def onServer (purpose : Purpose) (work : SessionM σ α) : ServerM σ α := fun server =>
  let (result, s) := work.run ⟨server.store, server.store.begin, purpose, server.hooks⟩
  (result, ⟨s.store, s.hooks⟩)

end SessionM

namespace Config

variable {σ : Type}

/-- Creates one record behind a relationship of a stored record. Where several may be behind it, it
gets the value that refers to the stored record; else the stored record is changed to refer to
it. -/
def createLinked (m target : Model) (r : Relationship) (parent : Record) (child : ParsedBody) :
    SessionM σ Record := do
  if r.isToMany then
    let _ ← SessionM.insert target
      (child.attributes.insert r.remoteColumn (parent.get r.localColumn))
    return parent
  else
    let stored ← SessionM.insert target child.attributes
    SessionM.update m parent
      (Record.empty.insert r.localColumn (stored.get r.remoteColumn))

/-- Creates the records behind one relationship of a stored record. -/
def createGroup (config : Config σ) (m : Model) (parent : Record) (group : LinkedGroup) :
    SessionM σ Record := do
  match m.relationship? group.relationship with
  | none => throw (.misconfigured (.noRelationship m.name group.relationship))
  | some r =>
    match config.schema.model? r.target with
    | none => throw (.misconfigured (.unknownModel r.target))
    | some target => group.records.foldlM (createLinked m target r) parent

/-- Creates the records behind the relationships of a stored record, and returns that as it is then
stored. -/
def link (config : Config σ) (m : Model) (parent : Record) (groups : List LinkedGroup) :
    SessionM σ Record :=
  groups.foldlM (config.createGroup m) parent

end Config

end RecordApi
