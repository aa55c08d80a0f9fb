import RecordApi.Store.Error
import RecordApi.Store.Tables

/-!
# Keys

Where the keys of new records come from: for whole numbers one more than the greatest key that was
given out or seen, for identifiers the next one of a supply. Keys are used up as soon as they are
given out.
-/

namespace RecordApi

/-- The greatest whole-number key of each model so far, and a supply of identifiers with the number
of those that are used up. -/
structure KeySource where
  last : Keyed Int64
  drawn : Nat
  supply : Nat → Uuid

namespace KeySource

/-- Nothing is given out yet. -/
def ofSupply (supply : Nat → Uuid) : KeySource :=
  ⟨[], 0, supply⟩

/-- The greatest key of a model so far. -/
def lastOf (k : KeySource) (model : String) : Int64 :=
  (k.last.get? model).getD 0

/-- Takes note of a key that a client chose. -/
def observe (k : KeySource) (model : String) : Value → KeySource
  | .int n => if k.lastOf model < n then { k with last := k.last.insert model n } else k
  | _ => k

/-- A key for a new record of a model. -/
def issue (k : KeySource) (m : Model) : KeySource × Except StoreError Value :=
  match m.primaryKey.type with
  | .integer =>
    let next := k.lastOf m.name + 1
    ({ k with last := k.last.insert m.name next }, .ok (.int next))
  | .uuid => ({ k with drawn := k.drawn + 1 }, .ok (.uuid (k.supply k.drawn)))
  | _ => (k, .error (.invalidValue (.keyRequired m.name m.primaryKey.name)))

/-- A record with its key: the one it has, else a new one. -/
def complete (k : KeySource) (m : Model) (r : Record) : KeySource × Except StoreError Record :=
  if (m.keyOf r).isNull then
    match k.issue m with
    | (k, .ok key) => (k, .ok (r.insert m.primaryKey.name key))
    | (k, .error e) => (k, .error e)
  else (k.observe m.name (m.keyOf r), .ok r)

end KeySource

end RecordApi
