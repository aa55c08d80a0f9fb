import RecordApi.Proofs.Query.Guarded
import RecordApi.Proofs.Sql.Written
import RecordApi.Proofs.Store.Edited
import RecordApi.Proofs.Store.Generated
import RecordApi.Proofs.Store.LostUpdate

/-!
# Columns that both stores write

A transaction and the statement for the same write agree on the columns that they write, but for
two of them. A new record whose version is null gets a version from a transaction, while the
statement binds the null; and a change that has a value for the primary key sets it in a
transaction, while the statement leaves the key as it is (`writes_columns`).
-/

namespace RecordApi

/-! ## What a transaction takes over -/

section

variable {m : Model}

/-- Values that fit their columns are left as they are. -/
theorem Model.get?_of_normalize {values given : Record} (h : m.normalize values = .ok given)
    (ht : values.Typed m) (name : String) :
    given.get? name = if (m.column? name).isSome then values.get? name else none := by
  cases normalizedAt h name with
  | absent habsent hout =>
      rcases habsent with hc | hv
      · rw [hout, hc]
        rfl
      · rw [hout, hv, ite_self]
  | column c v w hc hv hcoerce hout =>
      have hfits := ht name c hc
      rw [Record.get, hv, Option.getD_some, Value.fits_iff, hcoerce] at hfits
      rw [hout, hc, hv, Except.ok.inj hfits]
      rfl

/-- A new record has what is given for a column, if that is not a null for the key or for the
version, which are filled in then. -/
theorem Transaction.Writes.takes_over_iff {tx : Transaction} {name model : String}
    {values r : Record} {op : Operation} {rows : List Record}
    (h : tx.Writes m (.insert name model values) (.record r) op rows) (ht : values.Typed m)
    {c : Column} (hc : m.column? c.name = some c) {v : Value} (hv : values.get? c.name = some v) :
    r.get? c.name = some v ↔
      ¬((c.name = m.primaryKey.name ∨ m.versionColumn = some c.name) ∧ v = .null) := by
  constructor
  · rintro hr ⟨hfilled, rfl⟩
    have hnull : r.get c.name = .null := by
      rw [Record.get, hr]
      rfl
    cases h with
    | insert _ normalized keyed _ =>
        rcases hfilled with hkey | hversion
        · have hcompleted := (KeySource.keyOf_complete keyed).1
          rw [hkey] at hnull
          exact hcompleted ((Model.keyOf_withFirstVersion hcompleted).symm.trans hnull)
        · exact Model.withFirstVersion_ne_null hversion _ hnull
  · intro hfilled
    have hfits := ht c.name c hc
    rw [Record.get, hv, Option.getD_some, Value.fits_iff] at hfits
    obtain ⟨w, hw, hget⟩ := h.get?_of_insert hc hv
    obtain rfl : w = v := Except.ok.inj (hw.symm.trans hfits)
    exact hget fun hnull => ⟨fun hkey => hfilled ⟨.inl hkey, hnull⟩,
      fun hversion => hfilled ⟨.inr hversion, hnull⟩⟩

/-- What a change writes: the version, and what is given for the other columns of the model. -/
theorem Transaction.contains_withNextVersion {current changes given : Record}
    (h : m.normalize changes = .ok given) (ht : changes.Typed m) (name : String) :
    (withNextVersion m current given).contains name = true ↔
      m.versionColumn = some name ∨
        ((m.column? name).isSome = true ∧ changes.contains name = true) := by
  rw [Record.contains_iff, Record.contains_iff, get?_withNextVersion, Model.get?_of_normalize h ht]
  by_cases hversion : m.versionColumn = some name
  · simp [hversion]
  · simp only [hversion, false_or]
    cases (m.column? name).isSome <;> simp

end

namespace Sql

section

variable {d : SchemaDecl} {schema : Schema} {m : Model}

theorem mem_insertedColumns_iff (hd : d.resolve = .ok schema) (hm : m ∈ schema.models)
    {values : Record} {c : Column} (hc : c ∈ m.columns) :
    c ∈ insertedColumns m values ↔
      ∃ v, values.get? c.name = some v ∧ ¬(c.name = m.primaryKey.name ∧ v = .null) := by
  have hflag := SchemaDecl.flag_eq_true_iff hd hm hc
  unfold insertedColumns
  rw [List.mem_filter, Bool.and_eq_true, Record.contains_iff]
  unfold Record.get
  cases values.get? c.name with
  | none => simp
  | some v =>
      rw [← hflag]
      cases c.primaryKey <;> simp [hc, ← Value.isNull_eq_true_iff]

theorem exists_updatedColumns_iff (hd : d.resolve = .ok schema) (hm : m ∈ schema.models)
    {changes : Record} {name : String} :
    (∃ c ∈ updatedColumns m changes, c.name = name) ↔
      name ≠ m.primaryKey.name ∧ m.versionColumn ≠ some name ∧
        (m.column? name).isSome = true ∧ changes.contains name = true := by
  have hwf := (SchemaDecl.wellFormed hd).models m hm
  constructor
  · rintro ⟨c, hc, rfl⟩
    obtain ⟨hc, hwritten⟩ := List.mem_filter.1 hc
    have hflag := SchemaDecl.flag_eq_true_iff hd hm hc
    rw [hwf.column?_of_mem hc, ne_eq, ← hflag]
    simpa [and_assoc] using hwritten
  · rintro ⟨hkey, hversion, hcolumn, hset⟩
    obtain ⟨c, hcolumn⟩ := Option.isSome_iff_exists.1 hcolumn
    have hc := Model.mem_of_column? hcolumn
    obtain rfl := Model.name_of_column? hcolumn
    have hflag := SchemaDecl.flag_eq_true_iff hd hm hc
    refine ⟨c, List.mem_filter.2 ⟨hc, ?_⟩, rfl⟩
    rw [ne_eq, ← hflag] at hkey
    simp [hkey, hversion, hset]

/-- The statement that inserts a record binds the values of some columns, which are those whose
values a transaction has taken over into the record, and a version that is null, which it has filled
in. -/
structure InsertedAlike (m : Model) (values r : Record) (columns : List Column) : Prop where
  text : ∃ numbers, readInserted (insert m values).text = some (columns.map Column.name, numbers) ∧
    Binds columns values (insert m values).params numbers
  taken : ∀ c, c ∈ columns ↔ c ∈ m.columns ∧
    ((values.contains c.name = true ∧ r.get? c.name = values.get? c.name) ∨
      (m.versionColumn = some c.name ∧ c.name ≠ m.primaryKey.name ∧
        values.get? c.name = some .null))

/-- The statement of a change has some settings. What it does not set to itself is what a
transaction has written, but for a primary key, which only the transaction writes; and it sets each
column to the value that the transaction has written, the version to the next one. -/
structure ChangedAlike (m : Model) (current changes written : Record) (q : Prepared)
    (settings : List (String × Setting)) : Prop where
  text : update m current changes = .ok q ∧ readChanged q.text = some settings
  sets : ∀ name, written.contains name = true ↔ (∃ s, (name, s) ∈ settings ∧ s ≠ .own) ∨
    (name = m.primaryKey.name ∧ changes.contains name = true)
  bound : ∀ name n, (name, .bound n) ∈ settings → ∃ c, m.column? name = some c ∧
    bound? q.params n = some (.ofValue c.type (written.get name))
  next : ∀ name, (name, .next) ∈ settings → written.get name = (current.get name).nextVersion

theorem insertedAlike (hd : d.resolve = .ok schema) (hm : m ∈ schema.models) {tx : Transaction}
    {name : String} {values r : Record} {op : Operation} {rows : List Record}
    (h : tx.Writes m (.insert name m.name values) (.record r) op rows) (ht : values.Typed m) :
    InsertedAlike m values r (insertedColumns m values) := by
  refine ⟨readInserted_insert hd hm values, fun c => ?_⟩
  by_cases hc : c ∈ m.columns
  swap
  · exact iff_of_false (fun h => hc (List.mem_filter.1 h).1) fun h => hc h.1
  have hcolumn := ((SchemaDecl.wellFormed hd).models m hm).column?_of_mem hc
  rw [mem_insertedColumns_iff hd hm hc, Record.contains_iff]
  simp only [hc, true_and]
  cases hv : values.get? c.name with
  | none => simp
  | some v =>
      simp only [Option.some.injEq, exists_eq_left', Option.isSome_some, true_and]
      rw [h.takes_over_iff ht hcolumn hv]
      tauto

theorem changedAlike (hd : d.resolve = .ok schema) (hm : m ∈ schema.models)
    {current changes given : Record} (h : m.normalize changes = .ok given) (ht : changes.Typed m) :
    ∃ q settings, ChangedAlike m current changes
      (Transaction.withNextVersion m current given) q settings := by
  obtain ⟨q, settings, hq, hread, hsets⟩ := readChanged_update hd hm current changes
  refine ⟨q, settings, ⟨hq, hread⟩, fun name => ?_, fun name n hn => ?_, fun name hn => ?_⟩
  · rw [Transaction.contains_withNextVersion h ht, hsets.exists_iff,
      exists_updatedColumns_iff hd hm]
    have hkey : name = m.primaryKey.name → (m.column? name).isSome = true := by
      rintro rfl
      rw [((SchemaDecl.wellFormed hd).models m hm).column?_key]
      rfl
    tauto
  · obtain ⟨c, hc, rfl, k, hk, hvalue⟩ | ⟨-, hbound⟩ | hbound := hsets.cases_of_mem hn
    · cases hk
      obtain ⟨-, hversion, hcolumn, -⟩ := (exists_updatedColumns_iff hd hm).1 ⟨c, hc, rfl⟩
      have hsame : (Transaction.withNextVersion m current given).get c.name =
          changes.get c.name := by
        rw [Record.get, Transaction.get?_withNextVersion, if_neg hversion,
          Model.get?_of_normalize h ht, if_pos hcolumn]
        rfl
      rw [hsame]
      exact ⟨c, ((SchemaDecl.wellFormed hd).models m hm).column?_of_mem (List.mem_filter.1 hc).1,
        hvalue⟩
    · cases hbound
    · cases hbound
  · obtain ⟨-, -, -, n, hnext, -⟩ | ⟨hversion, -⟩ | hnext := hsets.cases_of_mem hn
    · cases hnext
    · rw [Record.get, Transaction.get?_withNextVersion, if_pos hversion]
      rfl
    · cases hnext

/-- A transaction and the statement for the same write agree on the columns that they write, but for
a version that is null in a new record, and for a primary key that a change sets. -/
theorem writes_columns (hd : d.resolve = .ok schema) (hm : m ∈ schema.models) {tx : Transaction}
    (htx : tx.schema = schema) :
    (∀ (keys keys' : KeySource) (values r : Record) (tx' : Transaction), values.Typed m →
      tx.insert keys m.name values = (keys', .ok (r, tx')) →
        ∃ columns, InsertedAlike m values r columns) ∧
    ∀ (current changes r : Record) (tx' : Transaction), changes.Typed m →
      tx.update m.name current changes = .ok (r, tx') →
        ∃ row ∈ tx.working.rows m.name, (m.keyOf row).same (m.keyOf current) = true ∧
          ∃ written q settings, r = row.merge written ∧
            tx'.log = tx.log ++
              [.update m.name (m.keyOf current) (Transaction.expectedVersion m current) written] ∧
            ChangedAlike m current changes written q settings := by
  have hnamed : tx.schema.model? m.name = some m :=
    htx ▸ (SchemaDecl.wellFormed hd).model?_name hm
  constructor
  · intro keys keys' values r tx' ht h
    obtain ⟨n, op, rows, hwrites, -⟩ := Transaction.insert_eq_ok "" h
    have hsame : n = m := by
      cases hwrites with
      | insert named => exact Option.some.inj (named.symm.trans hnamed)
    subst hsame
    exact ⟨_, insertedAlike hd hm hwrites ht⟩
  · intro current changes r tx' ht h
    obtain ⟨n, op, rows, hwrites, rfl⟩ := Transaction.update_eq_ok "" h
    cases hwrites with
    | @update _ _ _ _ given p named normalized place notNull =>
        obtain rfl : n = m := Option.some.inj (named.symm.trans hnamed)
        obtain ⟨hrows, hplace⟩ := Transaction.placeOf_eq_ok place
        obtain ⟨q, settings, halike⟩ := changedAlike hd hm normalized ht
        have hrow : p.row ∈ tx.working.rows n.name := by
          rw [hrows]
          exact List.mem_append_right _ List.mem_cons_self
        exact ⟨p.row, hrow, hplace.found, _, q, settings, rfl, rfl, halike⟩

end

end Sql

/-! ## A version that is null, and a note that is numbered anew -/

/-- A transaction in which there is one note. -/
def Transaction.note : Transaction :=
  ⟨.notes, [("note", [.note])], []⟩

/-- A new note, with a null for its version. -/
def Record.unversioned : Record := .ofList [("id", .int 2), ("version", .null)]

/-- Another number for a note. -/
def Record.renumbered : Record := .ofList [("id", .int 3)]

theorem Record.typed_note {r : Record} (hid : (r.get "id").Fits .integer)
    (hversion : (r.get "version").Fits .integer) (htext : (r.get "text").Fits .string) :
    r.Typed .note := by
  intro name c hc
  have hcolumn : c ∈ [_, _, _] := Model.mem_of_column? hc
  obtain rfl := Model.name_of_column? hc
  simp only [List.mem_cons, List.not_mem_nil, or_false] at hcolumn
  rcases hcolumn with rfl | rfl | rfl
  · exact hid
  · exact hversion
  · exact htext

namespace Sql

/-- The statement for the new note binds the null, where the transaction has put the first version,
and that for the change leaves the number as it is, where the transaction has put the other one. -/
theorem writes_columns_note :
    (∃ columns, InsertedAlike .note .unversioned
      (.ofList [("id", .int 2), ("version", .int 1)]) columns) ∧
    (insert .note .unversioned).text = "INSERT INTO \"note\" (\"id\", \"version\") VALUES " ++
      "($1::bigint, $2::bigint) RETURNING \"id\"::bigint AS \"id\", " ++
      "\"version\"::bigint AS \"version\", \"text\"::text AS \"text\"" ∧
    ∃ written q settings, ChangedAlike .note .note .renumbered written q settings ∧
      Record.note.merge written = .ofList [("id", .int 3), ("version", .int 2)] ∧
      q.text = "UPDATE \"note\" AS main SET \"version\" = main.\"version\" + 1 " ++
        "WHERE main.\"id\" = $1::bigint AND main.\"version\" = $2::bigint " ++
        "RETURNING main.\"id\"::bigint AS \"id\", main.\"version\"::bigint AS \"version\", " ++
        "main.\"text\"::text AS \"text\"" := by
  have hunversioned : Record.unversioned.Typed .note :=
    Record.typed_note (.inr rfl) (.inl rfl) (.inl rfl)
  have hrenumbered : Record.renumbered.Typed .note :=
    Record.typed_note (.inr rfl) (.inl rfl) (.inl rfl)
  obtain ⟨hinserts, hchanges⟩ := writes_columns SchemaDecl.resolve_notes (List.mem_singleton.2 rfl)
    (rfl : Transaction.note.schema = .notes)
  refine ⟨hinserts (.ofSupply fun _ => default) _ .unversioned _ _ hunversioned rfl,
    by decide +kernel, ?_⟩
  obtain ⟨row, hrow, -, written, q, settings, hr, -, halike⟩ :=
    hchanges .note .renumbered (.ofList [("id", .int 3), ("version", .int 2)]) _ hrenumbered rfl
  obtain rfl := List.mem_singleton.1 hrow
  obtain rfl := Except.ok.inj (halike.text.1.symm.trans rfl)
  exact ⟨written, _, settings, halike, hr.symm, by decide +kernel⟩

end Sql

end RecordApi
