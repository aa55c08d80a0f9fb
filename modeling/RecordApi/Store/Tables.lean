import RecordApi.Record
import RecordApi.Schema.Basic
import RecordApi.Value.Order

/-!
# Tables

The records of each model in the order in which they came. `locate?` finds the first record with a
key and what stands before and after it.
-/

namespace RecordApi

/-- Records by model. -/
abbrev Tables := Keyed (List Record)

namespace Tables

/-- The records of a model; none where the model has no table yet. -/
def rows (t : Tables) (model : String) : List Record :=
  (t.get? model).getD []

/-- The tables with other records for a model. -/
def setRows (t : Tables) (model : String) (rows : List Record) : Tables :=
  t.insert model rows

@[simp] theorem rows_nil (model : String) : rows [] model = [] := rfl

theorem rows_setRows (t : Tables) (model : String) (records : List Record) (name : String) :
    (t.setRows model records).rows name = if name = model then records else t.rows name := by
  unfold rows setRows
  rw [Keyed.get?_insert]
  split <;> rfl

end Tables

/-- The key of a record. -/
def Model.keyOf (m : Model) (r : Record) : Value :=
  r.get m.primaryKey.name

/-- A list of records around one of them. -/
structure Place where
  before : List Record
  row : Record
  after : List Record

namespace Place

/-- The list with another record in the place. -/
def replace (p : Place) (row : Record) : List Record :=
  p.before ++ row :: p.after

/-- The list without the record in the place. -/
def remove (p : Place) : List Record :=
  p.before ++ p.after

end Place

/-- The place of the first record with a key. -/
def Model.locate? (m : Model) (key : Value) : List Record → Option Place
  | [] => none
  | row :: rest =>
    if (m.keyOf row).same key then some ⟨[], row, rest⟩
    else (m.locate? key rest).map fun p => { p with before := row :: p.before }

theorem Model.locate?_eq_some {m : Model} {key : Value} {rows : List Record} {p : Place}
    (h : m.locate? key rows = some p) :
    rows = p.replace p.row ∧ (m.keyOf p.row).same key = true ∧
      ∀ r ∈ p.before, (m.keyOf r).same key = false := by
  induction rows generalizing p with
  | nil => simp [Model.locate?] at h
  | cons row rest ih =>
    unfold Model.locate? at h
    split at h
    · next hk => cases h; simp [Place.replace, hk]
    · next hk =>
      obtain ⟨q, hq, rfl⟩ := Option.map_eq_some_iff.1 h
      obtain ⟨he, hs, hb⟩ := ih hq
      refine ⟨by simp [Place.replace, he], hs, ?_⟩
      intro r hr
      rcases List.mem_cons.1 hr with rfl | hr
      · simpa using hk
      · exact hb r hr

theorem Model.locate?_eq_none_iff {m : Model} {key : Value} {rows : List Record} :
    m.locate? key rows = none ↔ ∀ r ∈ rows, (m.keyOf r).same key = false := by
  induction rows with
  | nil => simp [Model.locate?]
  | cons row rest ih =>
    unfold Model.locate?
    split
    · next hk => simp [hk]
    · next hk => simp [ih, hk]

end RecordApi
