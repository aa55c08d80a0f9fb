import RecordApi.Proofs.Store.Replay
import RecordApi.Proofs.Value.Coerce

/-!
# What is written

What a transaction puts into its log is in order by itself: every column that is set is a column of
the model, its value is one that the column holds or a version, and it is not null where the model
asks for a value (`Writes.valid`). Operations of this kind keep the records of their model so
(`Operation.Acts.valid`), no matter on which records they act. What a new record is given for a
column is stored there as the column takes it (`Writes.get?_of_insert`).
-/

namespace RecordApi

/-- What a column takes: values of its type, and versions where it is the version column. -/
def Model.Takes (m : Model) (name : String) (v : Value) : Prop :=
  (∃ c, m.column? name = some c ∧ v.Fits c.type) ∨
    (m.versionColumn = some name ∧ ∃ n, v = .int n)

/-- All columns that a record sets are columns of the model and take their values. -/
def Model.TakesAll (m : Model) (r : Record) : Prop :=
  ∀ name, r.contains name = true → m.Takes name (r.get name)

/-- Values for columns of a model, none of them null where the model asks for a value. -/
structure Record.Changes (m : Model) (r : Record) : Prop where
  takes : m.TakesAll r
  notNull : ∀ c ∈ m.columns, c.nullable = false → r.contains c.name = true → r.get c.name ≠ .null

/-- Values for columns of a model, among them all for which the model asks. -/
structure Record.Valid (m : Model) (r : Record) : Prop where
  takes : m.TakesAll r
  notNull : ∀ c ∈ m.columns, c.nullable = false → r.get c.name ≠ .null

/-- An operation that inserts a valid record, changes columns to what they take, or deletes. -/
def Operation.Valid (m : Model) : Operation → Prop
  | .insert _ r => r.Valid m
  | .update _ _ _ changes => changes.Changes m
  | .delete _ _ _ => True

variable {m : Model}

/-- A column of a valid record that is not the version holds its value. -/
theorem Record.Valid.fits_of_ne {r : Record} (h : r.Valid m) {name : String} {c : Column}
    (hc : m.column? name = some c) (hversion : m.versionColumn ≠ some name) :
    (r.get name).Fits c.type := by
  cases hset : r.contains name with
  | false =>
      rw [get_eq_null_of_not_contains hset]
      exact .inl rfl
  | true =>
      rcases h.takes name hset with ⟨d, hd, hfits⟩ | ⟨hv, -⟩
      · obtain rfl := Option.some.inj (hc.symm.trans hd)
        exact hfits
      · exact absurd hv hversion

theorem Record.Valid.merge {r changes : Record} (hr : r.Valid m) (hc : changes.Changes m) :
    (r.merge changes).Valid m := by
  constructor
  · intro name hname
    rw [get_merge]
    split
    · next h => exact hc.takes name h
    · next h =>
      rw [contains_merge] at hname
      exact hr.takes name (by simpa [h] using hname)
  · intro c hcol hnull
    rw [get_merge]
    split
    · next h => exact hc.notNull c hcol hnull h
    · exact hr.notNull c hcol hnull

theorem Operation.Acts.valid {op : Operation} {rows next : List Record} (hop : op.Valid m)
    (h : op.Acts m rows next) (hrows : ∀ r ∈ rows, r.Valid m) : ∀ r ∈ next, r.Valid m := by
  intro r hr
  rcases h.of_mem hr with hr | ⟨name, rfl⟩ | ⟨name, key, expected, changes, q, rfl, hq, -, -, rfl⟩
  · exact hrows r hr
  · exact hop
  · exact (hrows q hq).merge hop

/-! ## Parts of a write -/

namespace Model

/-- What is under a name in a record that is made of another one: nothing if the name is no column
or has no value, else what the column makes of the value. -/
inductive NormalizedAt (m : Model) (name : String) (given out : Option Value) : Prop
  | absent (h : m.column? name = none ∨ given = none) (hout : out = none)
  | column (c : Column) (v w : Value) (hc : m.column? name = some c) (hgiven : given = some v)
      (hcoerce : v.coerce c.type = .ok w) (hout : out = some w)

theorem normalizedAt_of_entries {entries out : Keyed Value}
    (h : m.normalizeEntries entries = .ok out) (name : String) :
    m.NormalizedAt name (entries.get? name) (out.get? name) := by
  induction entries generalizing out with
  | nil =>
      cases h
      exact .absent (.inr rfl) rfl
  | cons e rest ih =>
      obtain ⟨key, v⟩ := e
      unfold normalizeEntries at h
      rw [Keyed.get?_cons]
      split at h
      · next hc =>
        split
        · next hkey =>
          subst hkey
          cases ih h with
          | absent _ hout => exact .absent (.inl hc) hout
          | column c _ _ hcol => rw [hc] at hcol; cases hcol
        · exact ih h
      · next c hc =>
        split at h
        · cases h
        · next w hw =>
          split at h
          · cases h
          · next rest' hrest =>
            cases h
            rw [Keyed.get?_cons]
            split
            · next hkey =>
              subst hkey
              exact .column c v w hc rfl hw rfl
            · exact ih hrest

theorem normalizedAt {values given : Record} (h : m.normalize values = .ok given)
    (name : String) : m.NormalizedAt name (values.get? name) (given.get? name) := by
  unfold normalize at h
  split at h
  · cases h
  · next entries he =>
    cases h
    exact normalizedAt_of_entries he name

/-- What is given for a column is kept as the column takes it. -/
theorem exists_of_normalize {values given : Record} {name : String} {c : Column} {v : Value}
    (h : m.normalize values = .ok given) (hc : m.column? name = some c)
    (hv : values.get? name = some v) :
    ∃ w, v.coerce c.type = .ok w ∧ given.get? name = some w := by
  cases normalizedAt h name with
  | absent habsent =>
      rw [hc, hv] at habsent
      simp at habsent
  | column c' v' w hc' hv' hcoerce hout =>
      obtain rfl := Option.some.inj (hc.symm.trans hc')
      obtain rfl := Option.some.inj (hv.symm.trans hv')
      exact ⟨w, hcoerce, hout⟩

theorem normalize_takes {values given : Record} (h : m.normalize values = .ok given) :
    m.TakesAll given := by
  intro name hname
  cases normalizedAt h name with
  | absent _ hout =>
      rw [Record.contains_iff, hout] at hname
      cases hname
  | column c v w hc _ hcoerce hout =>
      have hget : given.get name = w := by
        unfold Record.get
        rw [hout]
        rfl
      rw [hget]
      exact .inl ⟨c, hc, Value.fits_of_coerce hcoerce⟩

theorem checkNotNull_eq_ok_iff {r : Record} :
    m.checkNotNull r = .ok () ↔ ∀ c ∈ m.columns, c.nullable = false → r.get c.name ≠ .null := by
  unfold checkNotNull
  cases hf : m.columns.find? fun c => !c.nullable && (r.get c.name).isNull with
  | some c =>
      have hc := List.find?_some hf
      simp only [Bool.and_eq_true, Bool.not_eq_true', Value.isNull_eq_true_iff] at hc
      simp only [reduceCtorEq, false_iff]
      exact fun h => h c (List.mem_of_find?_eq_some hf) hc.1 hc.2
  | none =>
      simp only [true_iff]
      intro c hc hnull hv
      have := List.find?_eq_none.1 hf c hc
      simp [hnull, hv] at this

theorem TakesAll.insert {r : Record} {column : String} {v : Value} (hr : m.TakesAll r)
    (hv : m.Takes column v) : m.TakesAll (r.insert column v) := by
  intro name hname
  rw [Record.get_insert]
  split
  · next h => exact h ▸ hv
  · next h =>
    rw [Record.contains_insert] at hname
    exact hr name (by simpa [h] using hname)

theorem TakesAll.withFirstVersion {r : Record} (hr : m.TakesAll r) :
    m.TakesAll (m.withFirstVersion r) := by
  unfold Model.withFirstVersion
  split
  · next version hversion =>
    split
    · exact hr.insert (.inr ⟨hversion, 1, rfl⟩)
    · exact hr
  · exact hr

end Model

namespace Value

theorem nextVersion_eq_int (v : Value) : ∃ n, v.nextVersion = .int n := by
  cases v with
  | int n => exact ⟨n + 1, rfl⟩
  | _ => exact ⟨1, rfl⟩

end Value

/-- A key that is issued is one that the key column holds. -/
theorem KeySource.complete_takes {keys keys' : KeySource} {r completed : Record}
    (hm : m.WellFormed) (h : keys.complete m r = (keys', .ok completed)) (hr : m.TakesAll r) :
    m.TakesAll completed := by
  unfold complete at h
  split at h
  · split at h
    · next key hk =>
      cases h
      refine hr.insert (.inl ⟨m.primaryKey, hm.column?_key, ?_⟩)
      unfold issue at hk
      split at hk
      · next ht =>
        cases hk
        exact .inr (by rw [ht]; rfl)
      · next ht =>
        cases hk
        exact .inr (by rw [ht]; rfl)
      · cases hk
    · cases h
  · cases h
    exact hr

namespace Transaction

/-- Changes with the next version set what was given, and the version column to a version. -/
theorem withNextVersion_takes {current given : Record} (hr : m.TakesAll given) :
    m.TakesAll (withNextVersion m current given) := by
  unfold withNextVersion
  split
  · next version hversion =>
    exact hr.insert (.inr ⟨hversion, Value.nextVersion_eq_int (current.get version)⟩)
  · exact hr

theorem Writes.valid {tx : Transaction} {st : Step} {result : StepResult} {op : Operation}
    {rows : List Record} (hm : m.WellFormed) (h : tx.Writes m st result op rows) :
    op.Valid m := by
  cases h with
  | insert _ normalized keyed notNull =>
      constructor
      · have htakes := KeySource.complete_takes hm keyed (Model.normalize_takes normalized)
        exact htakes.withFirstVersion
      · exact Model.checkNotNull_eq_ok_iff.1 notNull
  | @update _ _ current _ given p _ normalized _ notNull =>
      refine ⟨withNextVersion_takes (Model.normalize_takes normalized), ?_⟩
      intro c hc hnull hset
      have hv := Model.checkNotNull_eq_ok_iff.1 notNull c hc hnull
      rw [Record.get_merge, if_pos hset] at hv
      exact hv
  | delete => trivial

theorem Writes.valid_of_insert {tx : Transaction} {name model : String} {values r : Record}
    {op : Operation} {rows : List Record} (hm : m.WellFormed)
    (h : tx.Writes m (.insert name model values) (.record r) op rows) : r.Valid m := by
  have hvalid := h.valid hm
  cases h with
  | insert => exact hvalid

end Transaction

/-! ## What a new record holds -/

/-- Only a null for the key is filled in with a key. -/
theorem KeySource.get?_of_complete {keys keys' : KeySource} {r completed : Record} {column : String}
    (h : keys.complete m r = (keys', .ok completed))
    (hgiven : column ≠ m.primaryKey.name ∨ r.get column ≠ .null) :
    completed.get? column = r.get? column := by
  unfold complete at h
  split at h
  · next hkey =>
    split at h
    · cases h
      have hne : column ≠ m.primaryKey.name := by
        rintro rfl
        exact hgiven.resolve_left (fun hne => hne rfl) (Value.isNull_eq_true_iff.1 hkey)
      rw [Record.get?_insert, if_neg hne]
    · cases h
  · cases h
    rfl

/-- Only a null for the version is filled in with a version. -/
theorem Model.get?_withFirstVersion {r : Record} {column : String}
    (hgiven : m.versionColumn ≠ some column ∨ r.get column ≠ .null) :
    (m.withFirstVersion r).get? column = r.get? column := by
  unfold withFirstVersion
  split
  · next version hversion =>
    split
    · next hnull =>
      have hne : column ≠ version := by
        rintro rfl
        exact hgiven.resolve_left (fun hne => hne hversion) (Value.isNull_eq_true_iff.1 hnull)
      rw [Record.get?_insert, if_neg hne]
    · rfl
  · rfl

/-- A value that is given for a column is stored as the column takes it, unless it is a null for the
key or for the version. -/
theorem Transaction.Writes.get?_of_insert {tx : Transaction} {name model column : String}
    {values r : Record} {op : Operation} {rows : List Record} {c : Column} {v : Value}
    (h : tx.Writes m (.insert name model values) (.record r) op rows)
    (hc : m.column? column = some c) (hv : values.get? column = some v) :
    ∃ w, v.coerce c.type = .ok w ∧
      ((w = .null → column ≠ m.primaryKey.name ∧ m.versionColumn ≠ some column) →
        r.get? column = some w) := by
  cases h with
  | @insert _ _ _ given completed _ _ _ normalized keyed _ =>
      obtain ⟨w, hcoerce, hout⟩ := Model.exists_of_normalize normalized hc hv
      have hget : given.get column = w := by rw [Record.get, hout, Option.getD_some]
      refine ⟨w, hcoerce, fun hfilled => ?_⟩
      have hcompleted : completed.get? column = some w := by
        refine (KeySource.get?_of_complete keyed ?_).trans hout
        rw [hget]
        exact (em (w = .null)).imp (fun hnull => (hfilled hnull).1) id
      refine (Model.get?_withFirstVersion ?_).trans hcompleted
      rw [Record.get, hcompleted, Option.getD_some]
      exact (em (w = .null)).imp (fun hnull => (hfilled hnull).2) id

end RecordApi
