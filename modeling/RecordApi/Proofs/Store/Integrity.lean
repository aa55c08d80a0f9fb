import RecordApi.Proofs.Store.Kept
import RecordApi.Proofs.Store.Written
import RecordApi.Proofs.Value.Same

/-!
# Integrity of committed tables

What the constraints of a schema ask of its tables is said by `Tables.Sound`. The parts that concern
one record alone are kept by every operation that is logged, those that concern several records are
checked at every commit, for the models and foreign keys that it touches. Both hold of the committed
tables after every run that starts without records (`Sessions.sound_after`).
-/

namespace RecordApi

/-! ## Constraints -/

/-- The lists of columns on which no two records of a model agree: its primary key, its unique
columns, and the lists of columns that are unique together. -/
inductive Model.Unique (m : Model) : List String → Prop
  | key : Unique m [m.primaryKey.name]
  | column {c : Column} (hc : c ∈ m.columns) (hu : c.unique = true) : Unique m [c.name]
  | together {columns : List String} (h : columns ∈ m.unique) : Unique m columns

/-- Two records have the same values in some columns, and none of them is null. -/
def Record.Agree (columns : List String) (a b : Record) : Prop :=
  ∀ c ∈ columns, a.get c ≠ .null ∧ b.get c ≠ .null ∧ (a.get c).same (b.get c) = true

/-- What a schema asks of tables. -/
structure Tables.Sound (schema : Schema) (t : Tables) : Prop where
  unique : ∀ m ∈ schema.models, ∀ columns, m.Unique columns →
    ∀ i j (hi : i < (t.rows m.name).length) (hj : j < (t.rows m.name).length), i ≠ j →
      ¬Record.Agree columns (t.rows m.name)[i] (t.rows m.name)[j]
  refers : ∀ key ∈ schema.foreignKeys, ∀ r ∈ t.rows key.fromModel,
    r.get key.fromColumn ≠ .null →
      ∃ other ∈ t.rows key.toModel, (other.get key.toColumn).same (r.get key.fromColumn) = true
  notNull : ∀ m ∈ schema.models, ∀ r ∈ t.rows m.name,
    r.get m.primaryKey.name ≠ .null ∧ ∀ c ∈ m.columns, c.nullable = false → r.get c.name ≠ .null
  typed : ∀ m ∈ schema.models, ∀ r ∈ t.rows m.name, ∀ name, r.contains name = true →
    ∃ c, m.column? name = some c ∧ (r.get name).Fits c.type

theorem Record.Agree.symm {columns : List String} {a b : Record} (h : Agree columns a b) :
    Agree columns b a := by
  intro c hc
  obtain ⟨ha, hb, hs⟩ := h c hc
  rw [Value.same_comm] at hs
  exact ⟨hb, ha, hs⟩

/-! ## Unique columns -/

theorem clash_of_agree {columns : List String} {a b : Record} (h : Record.Agree columns a b) :
    clash columns a b = true := by
  unfold clash
  rw [Bool.and_eq_true, List.all_eq_true, List.all_eq_true]
  constructor
  · intro c hc
    have hn : (a.get c).isNull ≠ true := fun hn => (h c hc).1 (Value.isNull_eq_true_iff.1 hn)
    simpa using hn
  · exact fun c hc => (h c hc).2.2

/-- Two records clash on the key if they have the same one. -/
theorem clash_key_iff {m : Model} {a b : Record} :
    clash [m.primaryKey.name] a b = true ↔
      m.keyOf a ≠ .null ∧ (m.keyOf a).same (m.keyOf b) = true := by
  have hnull : ∀ v : Value, v.isNull = false ↔ v ≠ .null := fun v => by
    rw [← Bool.not_eq_true, Value.isNull_eq_true_iff]
  simp [clash, Model.keyOf, hnull]

theorem hasClash_eq_false_iff {columns : List String} {rows : List Record} :
    hasClash columns rows = false ↔ rows.Pairwise fun a b => clash columns a b = false := by
  induction rows with
  | nil => simp [hasClash]
  | cons a rest ih =>
      unfold hasClash
      rw [List.pairwise_cons, Bool.or_eq_false_iff, ih, List.any_eq_false]
      simp only [Bool.not_eq_true]

theorem Model.WellFormed.mem_uniqueLists {m : Model} (h : m.WellFormed) {columns : List String}
    (hu : m.Unique columns) : columns ∈ m.uniqueLists := by
  unfold Model.uniqueLists
  cases hu with
  | key =>
      refine List.mem_append_left _ (List.mem_map.2 ⟨m.primaryKey, ?_, rfl⟩)
      exact List.mem_filter.2 ⟨h.key_mem, by simp [h.key_flag]⟩
  | @column c hc hu =>
      refine List.mem_append_left _ (List.mem_map.2 ⟨c, ?_, rfl⟩)
      exact List.mem_filter.2 ⟨hc, by simp [hu]⟩
  | together h => exact List.mem_append_right _ h

theorem Tables.hasClash_of_checkUnique {t : Tables} {m : Model} (hm : m.WellFormed)
    (h : t.checkUnique m = .ok ()) {columns : List String} (hu : m.Unique columns) :
    hasClash columns (t.rows m.name) = false := by
  unfold checkUnique at h
  split at h
  · cases h
  · next hf => simpa using List.find?_eq_none.1 hf columns (hm.mem_uniqueLists hu)

theorem Tables.not_agree_of_checkUnique {t : Tables} {m : Model} (hm : m.WellFormed)
    (h : t.checkUnique m = .ok ()) {columns : List String} (hu : m.Unique columns)
    {i j : Nat} (hi : i < (t.rows m.name).length) (hj : j < (t.rows m.name).length)
    (hij : i ≠ j) : ¬Record.Agree columns (t.rows m.name)[i] (t.rows m.name)[j] := by
  have hclash := hasClash_of_checkUnique hm h hu
  have hpairs := List.pairwise_iff_getElem.1 (hasClash_eq_false_iff.1 hclash)
  intro ha
  rcases Nat.lt_or_gt_of_ne hij with hlt | hgt
  · have hc := hpairs i j hi hj hlt
    rw [clash_of_agree ha] at hc
    cases hc
  · have hc := hpairs j i hj hi hgt
    rw [clash_of_agree ha.symm] at hc
    cases hc

/-! ## Foreign keys -/

theorem Tables.refers_of_checkForeignKey {t : Tables} {key : ForeignKey}
    (h : t.checkForeignKey key = .ok ()) {r : Record} (hr : r ∈ t.rows key.fromModel)
    (hn : r.get key.fromColumn ≠ .null) :
    ∃ other ∈ t.rows key.toModel,
      (other.get key.toColumn).same (r.get key.fromColumn) = true := by
  unfold checkForeignKey at h
  split at h
  · next hall =>
    have hrefers := List.all_eq_true.1 hall r hr
    unfold refers at hrefers
    rcases Bool.or_eq_true_iff.1 hrefers with hnull | hany
    · exact absurd (Value.isNull_eq_true_iff.1 hnull) hn
    · exact List.any_eq_true.1 hany
  · cases h

/-! ## Checks at a commit -/

/-- All that is checked of records together holds. -/
structure Tables.Checked (schema : Schema) (t : Tables) : Prop where
  unique : ∀ m ∈ schema.models, t.checkUnique m = .ok ()
  refers : ∀ key ∈ schema.foreignKeys, t.checkForeignKey key = .ok ()

namespace Tables

variable {schema : Schema} {t t' : Tables}

theorem checked_nil (schema : Schema) : Checked schema [] := by
  constructor
  · intro m _
    unfold checkUnique
    have hnone : m.uniqueLists.find? (fun columns => hasClash columns (rows [] m.name)) = none :=
      List.find?_eq_none.2 fun columns _ => by simp [hasClash]
    rw [hnone]
  · exact fun key _ => rfl

theorem checkUnique_congr {m : Model} (h : t'.rows m.name = t.rows m.name) :
    t'.checkUnique m = t.checkUnique m := by
  unfold checkUnique
  rw [h]

theorem checkForeignKey_congr {key : ForeignKey} (hf : t'.rows key.fromModel = t.rows key.fromModel)
    (ht : t'.rows key.toModel = t.rows key.toModel) :
    t'.checkForeignKey key = t.checkForeignKey key := by
  unfold checkForeignKey
  have hrefers : t'.refers key = t.refers key := by
    funext r
    unfold refers
    rw [ht]
  rw [hf, hrefers]

/-- A check of what was touched is enough where the rest is as it was. -/
theorem Checked.of_check (hs : schema.WellFormed) (h : Checked schema t) {touched : List String}
    (hrest : ∀ name, name ∉ touched → t'.rows name = t.rows name)
    (hc : t'.check schema touched = .ok ()) : Checked schema t' := by
  obtain ⟨_, hunique, hrefers⟩ := bind_eq_ok_iff.1 hc
  have hunique := forM_eq_ok_iff.1 hunique
  have hrefers := forM_eq_ok_iff.1 hrefers
  constructor
  · intro m hm
    by_cases ht : m.name ∈ touched
    · exact hunique m (List.mem_filterMap.2 ⟨m.name, ht, hs.model?_name hm⟩)
    · rw [checkUnique_congr (hrest m.name ht)]
      exact h.unique m hm
  · intro key hkey
    by_cases ht : key.fromModel ∈ touched ∨ key.toModel ∈ touched
    · exact hrefers key (List.mem_filter.2 ⟨hkey, by simpa using ht⟩)
    · obtain ⟨hf, ht⟩ := not_or.1 ht
      rw [checkForeignKey_congr (hrest _ hf) (hrest _ ht)]
      exact h.refers key hkey

end Tables

/-- A commit that changes the records at one of its ends checks a foreign key. -/
theorem Store.checkForeignKey_of_commit {s s' : Store} {tx : Transaction}
    (h : s.commit tx = .ok s') {key : ForeignKey} (hkey : key ∈ tx.schema.foreignKeys)
    (hchanged : s'.tables.rows key.fromModel ≠ s.tables.rows key.fromModel ∨
      s'.tables.rows key.toModel ≠ s.tables.rows key.toModel) :
    s'.tables.checkForeignKey key = .ok () := by
  have htouched : ∀ name, s'.tables.rows name ≠ s.tables.rows name →
      name ∈ (tx.log.map (·.model)).eraseDups := by
    intro name hname
    rw [List.mem_eraseDups, List.mem_map]
    by_contra hnone
    exact hname (Operation.rows_of_replay (replay_of_commit h) fun op hop he => hnone ⟨op, hop, he⟩)
  rcases commit_eq_ok h with ⟨-, rfl⟩ | ⟨tables, -, hcheck, rfl⟩
  · exact absurd hchanged (by simp)
  · obtain ⟨_, -, hrefers⟩ := bind_eq_ok_iff.1 hcheck
    refine forM_eq_ok_iff.1 hrefers key (List.mem_filter.2 ⟨hkey, ?_⟩)
    simpa using hchanged.imp (htouched _) (htouched _)

/-! ## Runs -/

namespace Sessions

variable {schema : Schema} {supply : Nat → Uuid}

theorem checked_step {s : Sessions} (hs : schema.WellFormed) (hof : s.Of schema)
    (h : s.store.tables.Checked schema) (st : Step) :
    (s.step st).2.store.tables.Checked schema := by
  rcases (s.moves_step st).store_cases with ⟨-, -, ht⟩ | ⟨name, tx, -, ho, -, hc⟩
  · rw [ht]
    exact h
  · rcases Store.commit_eq_ok hc with ⟨-, hstore⟩ | ⟨tables, hreplay, hcheck, hstore⟩
    · rw [hstore]
      exact h
    · rw [hof.opened name tx ho] at hreplay hcheck
      rw [hstore]
      refine h.of_check hs (fun model hmodel => ?_) hcheck
      refine Operation.rows_of_replay hreplay fun op hop he => hmodel ?_
      exact List.mem_eraseDups.2 (List.mem_map.2 ⟨op, hop, he⟩)

theorem checked_after (hs : schema.WellFormed) (steps : List Step) :
    ((empty schema supply).after steps).store.tables.Checked schema := by
  have hstart : (empty schema supply).Of schema ∧
      (empty schema supply).store.tables.Checked schema :=
    ⟨of_empty schema supply, Tables.checked_nil schema⟩
  exact (after_induct (P := fun s => s.Of schema ∧ s.store.tables.Checked schema) hstart
    (fun s st h => ⟨h.1.step st, checked_step hs h.1 h.2 st⟩) steps).2

/-- All records that are committed or worked on are valid, and so is all that is logged. -/
theorem keeps_valid (hs : schema.WellFormed) {m : Model} (hm : m ∈ schema.models)
    (steps : List Step) :
    ((empty schema supply).after steps).Keeps m (Record.Valid m) (Operation.Valid m) := by
  have hname := hs.model?_name hm
  refine (kept_after hname (fun _ _ _ hop ha => ha.valid hop) steps ?_).keeps
  intro front st _ _ tx op rows _ hw
  exact hw.valid (hs.models m hm)

/-- After every run that starts without records the committed tables are as the schema asks. -/
theorem sound_after {d : SchemaDecl} (hd : d.resolve = .ok schema)
    (hversion : ∀ m ∈ schema.models, ∀ name c, m.versionColumn = some name →
      m.column? name = some c → c.type = .integer)
    (supply : Nat → Uuid) (steps : List Step) :
    ((empty schema supply).after steps).store.tables.Sound schema := by
  have hs := SchemaDecl.wellFormed hd
  have hchecked : ((empty schema supply).after steps).store.tables.Checked schema :=
    checked_after hs steps
  have hvalid : ∀ m ∈ schema.models,
      ∀ r ∈ ((empty schema supply).after steps).store.tables.rows m.name, r.Valid m :=
    fun m hm => (keeps_valid hs hm steps).committed
  refine ⟨?_, ?_, ?_, ?_⟩
  · intro m hm columns hu i j hi hj hij
    exact Tables.not_agree_of_checkUnique (hs.models m hm) (hchecked.unique m hm) hu hi hj hij
  · intro key hkey r hr hn
    exact Tables.refers_of_checkForeignKey (hchecked.refers key hkey) hr hn
  · intro m hm r hr
    have hkey := hs.models m hm
    have hv := hvalid m hm r hr
    exact ⟨hv.notNull m.primaryKey hkey.key_mem hkey.key_not_null, hv.notNull⟩
  · intro m hm r hr name hset
    rcases (hvalid m hm r hr).takes name hset with h | ⟨hv, n, hn⟩
    · exact h
    · obtain ⟨c, hc, rfl⟩ := (hs.models m hm).version name hv
      have hcol := (hs.models m hm).column?_of_mem hc
      refine ⟨c, hcol, ?_⟩
      rw [hn, hversion m hm c.name c hv hcol]
      exact .inr rfl

theorem sound_after_insert :
    SchemaDecl.notes.resolve = .ok .notes ∧
      (∀ m ∈ Schema.notes.models, ∀ name c, m.versionColumn = some name →
        m.column? name = some c → c.type = .integer) ∧
      ((empty .notes fun _ => default).after
        [.begin "a", .insert "a" "note" .empty, .commit "a"]).store.tables.Sound .notes := by
  have hversion : ∀ m ∈ Schema.notes.models, ∀ name c, m.versionColumn = some name →
      m.column? name = some c → c.type = .integer := by
    intro m hm name c hv hc
    obtain rfl := List.mem_singleton.1 hm
    obtain rfl := Option.some.inj hv
    obtain rfl := Option.some.inj hc
    rfl
  exact ⟨SchemaDecl.resolve_notes, hversion,
    sound_after SchemaDecl.resolve_notes hversion _ _⟩

end Sessions

end RecordApi
