import RecordApi.Store.Error
import RecordApi.Store.Tables

/-!
# Records in a store

What a store makes of the values it is given: they are turned into values of their columns
(`Model.normalize`), and a record has to have a value where its model asks for one
(`Model.checkNotNull`).
-/

namespace RecordApi

namespace Model

/-- Columns with the values that their types make of them, without those that the model lacks. -/
def normalizeEntries (m : Model) : Keyed Value → Except StoreError (Keyed Value)
  | [] => .ok []
  | (name, v) :: rest =>
    match m.column? name with
    | none => m.normalizeEntries rest
    | some c =>
      match v.coerce c.type with
      | .error reason => .error (.invalidValue (.notCoercible m.name name reason))
      | .ok v =>
        match m.normalizeEntries rest with
        | .error e => .error e
        | .ok rest => .ok ((name, v) :: rest)

theorem mem_of_mem_normalizeEntries {m : Model} {entries out : Keyed Value}
    (h : m.normalizeEntries entries = .ok out) {e : String × Value} (he : e ∈ out) :
    ∃ v, (e.1, v) ∈ entries := by
  induction entries generalizing out with
  | nil => cases h; cases he
  | cons d rest ih =>
    obtain ⟨name, v⟩ := d
    unfold normalizeEntries at h
    split at h
    · obtain ⟨w, hw⟩ := ih h he
      exact ⟨w, List.mem_cons_of_mem _ hw⟩
    · split at h
      · cases h
      · split at h
        · cases h
        · next hrest =>
          cases h
          rcases List.mem_cons.1 he with rfl | he
          · exact ⟨v, List.mem_cons_self⟩
          · obtain ⟨w, hw⟩ := ih hrest he
            exact ⟨w, List.mem_cons_of_mem _ hw⟩

theorem sorted_normalizeEntries {m : Model} {entries out : Keyed Value} (hs : entries.Sorted)
    (h : m.normalizeEntries entries = .ok out) : out.Sorted := by
  induction entries generalizing out with
  | nil => cases h; exact Keyed.sorted_nil
  | cons d rest ih =>
    obtain ⟨name, v⟩ := d
    have hs := List.pairwise_cons.1 hs
    unfold normalizeEntries at h
    split at h
    · exact ih hs.2 h
    · split at h
      · cases h
      · split at h
        · cases h
        · next hrest =>
          cases h
          refine List.pairwise_cons.2 ⟨fun e he => ?_, ih hs.2 hrest⟩
          obtain ⟨w, hw⟩ := mem_of_mem_normalizeEntries hrest he
          exact show name < e.1 from hs.1 (e.1, w) hw

/-- A record of values of the columns of a model. -/
def normalize (m : Model) (values : Record) : Except StoreError Record :=
  match h : m.normalizeEntries values.entries with
  | .error e => .error e
  | .ok entries => .ok ⟨entries, sorted_normalizeEntries values.sorted h⟩

/-- Refuses a record that is null in a column which may not be. -/
def checkNotNull (m : Model) (r : Record) : Except StoreError Unit :=
  match m.columns.find? fun c => !c.nullable && (r.get c.name).isNull with
  | some c => .error (.invalidValue (.null m.name c.name))
  | none => .ok ()

/-- A new record with its version, which is one unless it is given. -/
def withFirstVersion (m : Model) (r : Record) : Record :=
  match m.versionColumn with
  | some version => if (r.get version).isNull then r.insert version (.int 1) else r
  | none => r

end Model

/-- The version after another one. -/
def Value.nextVersion : Value → Value
  | .int n => .int (n + 1)
  | _ => .int 1

end RecordApi
