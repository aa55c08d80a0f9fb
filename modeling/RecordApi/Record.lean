import RecordApi.Keyed
import RecordApi.Value.Basic

/-!
# Records

A record gives values to columns. A column that is not set reads as null, but `Record.contains`
tells a column that is set to null from one that is not set. Two records with the same columns and
values are equal (`Record.ext_get?`).
-/

namespace RecordApi

/-- Values of columns. -/
structure Record where
  entries : Keyed Value
  sorted : entries.Sorted

namespace Record

/-- The record without columns. -/
def empty : Record := ⟨[], Keyed.sorted_nil⟩

instance : Inhabited Record := ⟨empty⟩

/-- The value of a column, if it is set. -/
def get? (r : Record) (column : String) : Option Value :=
  r.entries.get? column

/-- The value of a column, null where it is not set. -/
def get (r : Record) (column : String) : Value :=
  (r.get? column).getD .null

/-- Whether a column is set. -/
def contains (r : Record) (column : String) : Bool :=
  r.entries.contains column

/-- The record with a column set. -/
def insert (r : Record) (column : String) (value : Value) : Record :=
  ⟨r.entries.insert column value, Keyed.sorted_insert column value r.sorted⟩

/-- The record with every column of `changes` set as it is there. -/
def merge (r changes : Record) : Record :=
  ⟨Keyed.merge r.entries changes.entries, Keyed.sorted_merge r.sorted changes.entries⟩

/-- The record of the given columns. Of several with one name the last is kept. -/
def ofList (entries : List (String × Value)) : Record :=
  ⟨Keyed.ofList entries, Keyed.sorted_ofList entries⟩

/-- The columns that satisfy a condition on their names. -/
def restrict (r : Record) (keep : String → Bool) : Record :=
  ⟨r.entries.filter fun e => keep e.1, List.Pairwise.filter _ r.sorted⟩

/-- The number of columns that are set. -/
def size (r : Record) : Nat :=
  r.entries.length

theorem ext_get? {r s : Record} (h : ∀ column, r.get? column = s.get? column) : r = s := by
  obtain ⟨re, rs⟩ := r
  obtain ⟨se, ss⟩ := s
  have : re = se := rs.ext ss h
  subst this
  rfl

theorem get_insert (r : Record) (column : String) (value : Value) (name : String) :
    (r.insert column value).get name = if name = column then value else r.get name := by
  unfold get get? insert
  rw [Keyed.get?_insert]
  split <;> rfl

theorem contains_insert (r : Record) (column : String) (value : Value) (name : String) :
    (r.insert column value).contains name = (name == column || r.contains name) := by
  unfold contains insert Keyed.contains
  rw [Keyed.get?_insert]
  by_cases h : name = column <;> simp [h]

theorem get_eq_null_of_not_contains {r : Record} {column : String}
    (h : r.contains column = false) : r.get column = .null := by
  have : r.get? column = none := by
    simpa [contains, Keyed.contains, get?] using h
  simp [get, this]

end Record

/-- A record that was fetched, with the further values that were asked for. -/
structure Row where
  record : Record
  extra : List Value

end RecordApi
