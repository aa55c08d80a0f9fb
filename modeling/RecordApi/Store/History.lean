import RecordApi.Store.Commit

/-!
# Histories

Steps of any number of transactions, which are told apart by name, in any order. A step that is
refused leaves its transaction as it was, and a commit closes it whether it succeeds or not.
-/

namespace RecordApi

/-- One step of a transaction. -/
inductive Step where
  | begin (tx : String)
  | insert (tx model : String) (values : Record)
  | update (tx model : String) (current changes : Record)
  | delete (tx model : String) (current : Record)
  | fetch (tx : String) (plan : Plan)
  | count (tx : String) (plan : Plan)
  | commit (tx : String)
  | abandon (tx : String)

/-- What a step answers. -/
inductive StepResult where
  | done
  | record (r : Record)
  | rows (rows : List Row)
  | number (n : Nat)
  | failed (reason : StoreError)
  | notOpen (tx : String)

/-- A store with the transactions that are open on it. -/
structure Sessions where
  store : Store
  opened : Keyed Transaction

namespace Sessions

/-- A store without records and without transactions. -/
def empty (schema : Schema) (supply : Nat → Uuid) : Sessions :=
  ⟨.empty schema supply, []⟩

/-- The sessions with a transaction under a name. -/
def put (s : Sessions) (name : String) (tx : Transaction) : Sessions :=
  { s with opened := s.opened.insert name tx }

/-- The sessions without the transaction of a name. -/
def close (s : Sessions) (name : String) : Sessions :=
  { s with opened := s.opened.erase name }

/-- One step of an open transaction. -/
def stepOpen (s : Sessions) (name : String) (tx : Transaction) : Step → StepResult × Sessions
  | .begin _ | .abandon _ => (.done, s.close name)
  | .insert _ model values =>
    match tx.insert s.store.keys model values with
    | (keys, .error e) => (.failed e, { s with store := { s.store with keys := keys } })
    | (keys, .ok (r, tx)) =>
      (.record r, { s.put name tx with store := { s.store with keys := keys } })
  | .update _ model current changes =>
    match tx.update model current changes with
    | .error e => (.failed e, s)
    | .ok (r, tx) => (.record r, s.put name tx)
  | .delete _ model current =>
    match tx.delete model current with
    | .error e => (.failed e, s)
    | .ok tx => (.done, s.put name tx)
  | .fetch _ plan => (.rows (tx.fetch plan), s)
  | .count _ plan => (.number (tx.count plan), s)
  | .commit _ =>
    match s.store.commit tx with
    | .error e => (.failed e, s.close name)
    | .ok store => (.done, { s.close name with store := store })

/-- The name of the transaction of a step. -/
def nameOf : Step → String
  | .begin tx | .commit tx | .abandon tx => tx
  | .insert tx _ _ | .update tx _ _ _ | .delete tx _ _ => tx
  | .fetch tx _ | .count tx _ => tx

/-- One step. -/
def step (s : Sessions) (st : Step) : StepResult × Sessions :=
  match st with
  | .begin name => (.done, s.put name s.store.begin)
  | st =>
    match s.opened.get? (nameOf st) with
    | none => (.notOpen (nameOf st), s)
    | some tx => s.stepOpen (nameOf st) tx st

/-- Steps one after the other, with their answers. -/
def run (s : Sessions) : List Step → List StepResult × Sessions
  | [] => ([], s)
  | st :: rest =>
    let (result, s) := s.step st
    let (results, s) := s.run rest
    (result :: results, s)

end Sessions

end RecordApi
