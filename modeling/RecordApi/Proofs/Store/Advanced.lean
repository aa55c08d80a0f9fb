import Mathlib.Data.List.Find
import RecordApi.Proofs.Store.Edited
import RecordApi.Proofs.Store.LostUpdate

/-!
# Records that are written back

An update that gives a record the values that it has takes its version to the next one, and changes
nothing else (`Transaction.exists_update`). Where a version stands in no constraint, the tables
meet all constraints after such an update if they did before, so that its commit succeeds
(`Store.commit_of_advances`).
-/

namespace RecordApi

variable {m : Model} {schema : Schema} {r r' attributes : Record}

/-- A record is another one with the next version, where its model has versions. -/
structure Record.Advances (m : Model) (r r' : Record) : Prop where
  version : ∀ v, m.versionColumn = some v → ∃ n, r.get v = .int n ∧ r'.get v = .int (n + 1)
  kept : ∀ name, m.versionColumn ≠ some name → r'.get name = r.get name

/-- A value that a column holds as that of a record. -/
def Record.RestoresAt (attributes r : Record) (c : Column) : Prop :=
  ∃ v, attributes.get? c.name = some v ∧ v.coerce c.type = .ok (r.get c.name)

/-- Values that the columns of a model hold as those of a record. -/
def Record.Restores (m : Model) (attributes r : Record) : Prop :=
  ∀ c ∈ m.columns, attributes.RestoresAt r c

/-- The versions of a model are whole numbers, and nothing but versions: no constraint mentions
them. -/
structure Model.PlainVersion (m : Model) (schema : Schema) (v : String) : Prop where
  integer : ∀ c, m.column? v = some c → c.type = .integer
  unconstrained : ∀ columns, m.Unique columns → v ∉ columns
  unlinked : ∀ key ∈ schema.foreignKeys,
    ¬(key.fromModel = m.name ∧ key.fromColumn = v) ∧ ¬(key.toModel = m.name ∧ key.toColumn = v)

/-! ## Versions that are there -/

namespace Operation

/-- An operation leaves no record without a whole number as its version. -/
def SetsVersion (v : String) : Operation → Prop
  | .insert _ r => r.Versioned v
  | .update _ _ _ changes => changes.Versioned v
  | .delete _ _ _ => True

theorem Acts.versioned_of_setsVersion {v : String} {op : Operation} {rows next : List Record}
    (hop : op.SetsVersion v) (h : op.Acts m rows next) (hrows : ∀ r ∈ rows, r.Versioned v) :
    ∀ r ∈ next, r.Versioned v := by
  intro r hr
  rcases h.of_mem hr with hr | ⟨name, rfl⟩ | ⟨name, key, expected, changes, q, rfl, -, -, -, rfl⟩
  · exact hrows r hr
  · exact hop
  · obtain ⟨n, hn⟩ := hop
    have hset : changes.contains v = true := Record.contains_of_get_ne_null (by simp [hn])
    exact ⟨n, by rw [Record.get_merge, if_pos hset, hn]⟩

end Operation

theorem Transaction.Writes.setsVersion {tx : Transaction} {v : String} {c : Column} {st : Step}
    {result : StepResult} {op : Operation} {rows : List Record} (hm : m.WellFormed)
    (hv : m.versionColumn = some v) (hc : m.column? v = some c) (ht : c.type = .integer)
    (h : tx.Writes m st result op rows) : op.SetsVersion v := by
  have hvalid := h.valid hm
  cases h with
  | @insert _ _ _ _ completed =>
      have hn := m.withFirstVersion_ne_null hv completed
      exact (hvalid.takes v (Record.contains_of_get_ne_null hn)).exists_int hc ht hn
  | @update _ _ current _ given =>
      obtain ⟨n, hn⟩ := (current.get v).nextVersion_eq_int
      refine ⟨n, ?_⟩
      simp only [withNextVersion, hv]
      rw [Record.get_insert, if_pos rfl, hn]
  | delete => trivial

/-- After any steps on an empty store, committed records have whole numbers as versions. -/
theorem Sessions.versioned_after (hs : schema.WellFormed) (hm : m ∈ schema.models) {v : String}
    {c : Column} (hv : m.versionColumn = some v) (hc : m.column? v = some c)
    (ht : c.type = .integer) (supply : Nat → Uuid) (steps : List Step) :
    ∀ r ∈ ((empty schema supply).after steps).store.tables.rows m.name, r.Versioned v :=
  (kept_after (hs.model?_name hm) (fun _ _ _ hop ha => ha.versioned_of_setsVersion hop) steps
    fun _ _ _ _ _ _ _ _ hw => hw.setsVersion (hs.models m hm) hv hc ht).keeps.committed

/-! ## Updating -/

theorem Model.exists_normalize
    (h : ∀ name v c, attributes.get? name = some v → m.column? name = some c →
      ∃ w, v.coerce c.type = .ok w) : ∃ given, m.normalize attributes = .ok given := by
  have hentries : ∀ entries : Keyed Value, (∀ e ∈ entries, e ∈ attributes.entries) →
      ∃ out, m.normalizeEntries entries = .ok out := by
    intro entries
    induction entries with
    | nil => exact fun _ => ⟨[], rfl⟩
    | cons e rest ih =>
        intro hsub
        obtain ⟨out, hout⟩ := ih fun d hd => hsub d (List.mem_cons_of_mem _ hd)
        obtain ⟨name, v⟩ := e
        have hget : attributes.get? name = some v :=
          Keyed.get?_of_mem attributes.sorted.nodup (hsub _ List.mem_cons_self)
        unfold normalizeEntries
        cases hc : m.column? name with
        | none => exact ⟨out, hout⟩
        | some c =>
            obtain ⟨w, hw⟩ := h name v c hget hc
            exact ⟨(name, w) :: out, by simp [hw, hout]⟩
  obtain ⟨out, hout⟩ := hentries attributes.entries fun _ he => he
  unfold normalize
  split
  · next e he => rw [hout] at he; cases he
  · exact ⟨_, rfl⟩

/-- A column of a valid record holds its value, if versions are whole numbers. -/
theorem Record.Valid.fits (hm : m.WellFormed) (h : r.Valid m)
    (hversion : ∀ v c, m.versionColumn = some v → m.column? v = some c → c.type = .integer)
    {c : Column} (hc : c ∈ m.columns) : (r.get c.name).Fits c.type := by
  have hfound := hm.column?_of_mem hc
  by_cases hv : m.versionColumn = some c.name
  · by_cases hn : r.get c.name = .null
    · exact .inl hn
    · have htype := hversion _ c hv hfound
      obtain ⟨n, hint⟩ := (h.takes _ (contains_of_get_ne_null hn)).exists_int hfound htype hn
      rw [hint, htype]
      exact .inr rfl
  · exact h.fits_of_ne hfound hv

/-- What is given its own values advances. -/
theorem Record.Patched.advances (hm : m.WellFormed)
    (hversion : ∀ v, m.versionColumn = some v → r.Versioned v)
    (hrestores : attributes.Restores m r) (h : Record.Patched m r attributes r') :
    r.Advances m r' := by
  constructor
  · intro v hv
    obtain ⟨n, hn⟩ := hversion v hv
    refine ⟨n, hn, ?_⟩
    rw [get, h.version v hv, hn]
    rfl
  · intro name hname
    cases hc : m.column? name with
    | none =>
        rw [get, h.kept name hname (.inl hc)]
        rfl
    | some c =>
        obtain ⟨hmem, rfl⟩ := (Model.column?_eq_some_iff hm.names).1 hc
        obtain ⟨v, hv, hcoerce⟩ := hrestores c hmem
        obtain ⟨w, hw, hset⟩ := h.given c.name c v hname hc hv
        rw [get, hset, Option.getD_some]
        exact Except.ok.inj (hw.symm.trans hcoerce)

theorem Record.Advances.notNull (h : r.Advances m r') {name : String} (hr : r.get name ≠ .null) :
    r'.get name ≠ .null := by
  by_cases hv : m.versionColumn = some name
  · obtain ⟨n, -, hn⟩ := h.version name hv
    rw [hn]
    exact Value.noConfusion
  · rw [h.kept name hv]
    exact hr

/-- A record that is there can be given its own values. -/
theorem Transaction.exists_update {tx : Transaction} (hm : m.WellFormed)
    (hmodel : tx.schema.model? m.name = some m) (hunique : m.KeyUnique (tx.working.rows m.name))
    (hr : r ∈ tx.working.rows m.name) (hvalid : r.Valid m)
    (hkey : (m.keyOf r).same (m.keyOf r) = true)
    (hversion : ∀ v, m.versionColumn = some v → r.Versioned v)
    (hrestores : attributes.Restores m r) (name : String) :
    ∃ r' op rows, tx.Writes m (.update name m.name r attributes) (.record r') op rows ∧
      tx.update m.name r attributes = .ok (r', tx.wrote m rows op) := by
  obtain ⟨given, hgiven⟩ : ∃ given, m.normalize attributes = .ok given := by
    refine Model.exists_normalize fun name v c hv hc => ?_
    obtain ⟨hmem, rfl⟩ := (Model.column?_eq_some_iff hm.names).1 hc
    obtain ⟨w, hw, hcoerce⟩ := hrestores c hmem
    obtain rfl := Option.some.inj (hv.symm.trans hw)
    exact ⟨_, hcoerce⟩
  obtain ⟨p, hp⟩ : ∃ p, m.locate? (m.keyOf r) (tx.working.rows m.name) = some p := by
    cases hl : m.locate? (m.keyOf r) (tx.working.rows m.name) with
    | some p => exact ⟨p, rfl⟩
    | none =>
        have hnone := Model.locate?_eq_none_iff.1 hl r hr
        rw [hkey] at hnone
        cases hnone
  have hrow : p.row = r := by
    obtain ⟨hrows, hfound, -⟩ := Model.locate?_eq_some hp
    refine hunique.eq_of_same hr ?_ hfound
    rw [hrows]
    exact List.mem_append_right _ List.mem_cons_self
  have hplace : tx.placeOf m r = .ok p := by
    unfold placeOf
    rw [hp]
    cases hv : m.versionColumn with
    | none => rfl
    | some v =>
        obtain ⟨n, hn⟩ := hversion v hv
        simp [hrow, hn, Value.same_int_iff]
  have hadvances := (Record.patched_merge hgiven).advances (r := r) hm hversion hrestores
  have hnull : m.checkNotNull (p.row.merge (withNextVersion m r given)) = .ok () := by
    rw [hrow, Model.checkNotNull_eq_ok_iff]
    exact fun c hc hnullable => hadvances.notNull (hvalid.notNull c hc hnullable)
  refine ⟨_, _, _, .update hmodel hgiven hplace hnull, ?_⟩
  simp only [update, bind_eq_ok_iff, pure_eq_ok_iff]
  exact ⟨m, modelNamed_eq_ok_iff.2 hmodel, given, hgiven, p, hplace, (), hnull, rfl⟩

/-! ## Committing -/

/-- Two tables differ in nothing but one column of one model, if at all. -/
def Tables.SameBut (model : String) (column : Option String) (t u : Tables) : Prop :=
  ∀ name, List.Forall₂ (fun r q => ∀ c, ¬(name = model ∧ column = some c) → q.get c = r.get c)
    (t.rows name) (u.rows name)

theorem any_eq_of_forall₂ {α β : Type} {R : α → β → Prop} {p : α → Bool} {q : β → Bool}
    {xs : List α} {ys : List β} (h : List.Forall₂ R xs ys) (hpq : ∀ x y, R x y → q y = p x) :
    ys.any q = xs.any p := by
  induction h with
  | nil => rfl
  | cons hxy _ ih => rw [List.any_cons, List.any_cons, hpq _ _ hxy, ih]

theorem hasClash_congr {columns : List String} {rows others : List Record}
    (h : List.Forall₂ (fun r q => ∀ c ∈ columns, q.get c = r.get c) rows others) :
    hasClash columns others = hasClash columns rows := by
  have hclash : ∀ {a a' b b' : Record}, (∀ c ∈ columns, a'.get c = a.get c) →
      (∀ c ∈ columns, b'.get c = b.get c) → clash columns a' b' = clash columns a b := by
    intro a a' b b' ha hb
    rw [Bool.eq_iff_iff]
    simp only [clash, Bool.and_eq_true, List.all_eq_true]
    exact and_congr (forall₂_congr fun c hc => by rw [ha c hc])
      (forall₂_congr fun c hc => by rw [ha c hc, hb c hc])
  induction h with
  | nil => rfl
  | cons ha hrest ih =>
      rw [hasClash, hasClash, any_eq_of_forall₂ hrest fun _ _ hb => hclash ha hb, ih]

namespace Tables

variable {t u : Tables} {model : String} {column : Option String}

theorem SameBut.checkUnique (h : t.SameBut model column u) {n : Model}
    (hcolumn : n.name = model → ∀ v, column = some v → ∀ columns ∈ n.uniqueLists, v ∉ columns) :
    u.checkUnique n = t.checkUnique n := by
  have hclash : ∀ columns ∈ n.uniqueLists,
      hasClash columns (u.rows n.name) = hasClash columns (t.rows n.name) := by
    intro columns hcolumns
    refine hasClash_congr ((h n.name).imp fun r q hrq c hc => hrq c ?_)
    rintro ⟨hname, hv⟩
    exact hcolumn hname c hv columns hcolumns hc
  unfold Tables.checkUnique
  rw [List.find?_congr hclash]

theorem SameBut.checkForeignKey (h : t.SameBut model column u) {key : ForeignKey}
    (hfrom : ¬(key.fromModel = model ∧ column = some key.fromColumn))
    (hto : ¬(key.toModel = model ∧ column = some key.toColumn)) :
    u.checkForeignKey key = t.checkForeignKey key := by
  have hall : (u.rows key.fromModel).all (u.refers key) =
      (t.rows key.fromModel).all (t.refers key) := by
    rw [List.all_eq_not_any_not, List.all_eq_not_any_not]
    refine congrArg (!·) (any_eq_of_forall₂ (h key.fromModel) fun r q hrq => ?_)
    have hany : ∀ v, (u.rows key.toModel).any (fun other => (other.get key.toColumn).same v) =
        (t.rows key.toModel).any fun other => (other.get key.toColumn).same v :=
      fun v => any_eq_of_forall₂ (h key.toModel) fun a b hab => by rw [hab _ hto]
    unfold refers
    rw [hrq _ hfrom, hany]
  unfold Tables.checkForeignKey
  rw [hall]

/-- Tables in which everything is in order pass every check. -/
theorem Checked.check (h : t.Checked schema) (touched : List String) :
    t.check schema touched = .ok () := by
  unfold Tables.check
  rw [bind_eq_ok_iff]
  refine ⟨(), forM_eq_ok_iff.2 fun m hm => ?_, forM_eq_ok_iff.2 fun key hkey => ?_⟩
  · obtain ⟨name, -, hname⟩ := List.mem_filterMap.1 hm
    exact h.unique m (Schema.mem_of_model? hname)
  · exact h.refers key (List.mem_filter.1 hkey).1

end Tables

/-- The version of a model stands in none of its lists of unique columns. -/
theorem Model.PlainVersion.not_mem_uniqueLists {d : SchemaDecl} (hd : d.resolve = .ok schema)
    (hm : m ∈ schema.models) {v : String} (h : m.PlainVersion schema v) :
    ∀ columns ∈ m.uniqueLists, v ∉ columns := by
  intro columns hcolumns
  refine h.unconstrained columns ?_
  rcases List.mem_append.1 hcolumns with hcolumns | hcolumns
  · obtain ⟨c, hc, rfl⟩ := List.mem_map.1 hcolumns
    obtain ⟨hmem, hflags⟩ := List.mem_filter.1 hc
    rcases Bool.or_eq_true_iff.1 hflags with hunique | hkey
    · exact .column hmem hunique
    · rw [SchemaDecl.eq_key_of_flag hd hm hmem hkey]
      exact .key
  · exact .together hcolumns

/-- Records of a model that is in order may advance. -/
theorem Tables.Checked.advances {d : SchemaDecl} (hd : d.resolve = .ok schema)
    (hm : m ∈ schema.models) (hplain : ∀ v, m.versionColumn = some v → m.PlainVersion schema v)
    {t : Tables} (h : t.Checked schema) {before after : List Record}
    (hrows : t.rows m.name = before ++ r :: after) (hr : r.Advances m r') :
    (t.setRows m.name (before ++ r' :: after)).Checked schema := by
  have hs := SchemaDecl.wellFormed hd
  have hsame : t.SameBut m.name m.versionColumn (t.setRows m.name (before ++ r' :: after)) := by
    have hrefl : ∀ (rows : List Record) (P : String → Prop),
        List.Forall₂ (fun r q => ∀ c, ¬P c → q.get c = r.get c) rows rows :=
      fun rows P => List.forall₂_same.2 fun _ _ _ _ => rfl
    intro name
    rw [Tables.rows_setRows]
    split
    · next hname =>
      rw [hname, hrows]
      refine List.rel_append (hrefl before _) (.cons (fun c hc => ?_) (hrefl after _))
      exact hr.kept c fun hv => hc ⟨rfl, hv⟩
    · exact hrefl _ _
  constructor
  · intro n hn
    rw [hsame.checkUnique, h.unique n hn]
    intro hname v hv
    obtain rfl : n = m := by
      have hfound := hs.model?_name hn
      rw [hname, hs.model?_name hm] at hfound
      exact (Option.some.inj hfound).symm
    exact (hplain v hv).not_mem_uniqueLists hd hm
  · intro key hkey
    rw [hsame.checkForeignKey, h.refers key hkey]
    · exact fun ⟨hmodel, hv⟩ => ((hplain _ hv).unlinked key hkey).1 ⟨hmodel, rfl⟩
    · exact fun ⟨hmodel, hv⟩ => ((hplain _ hv).unlinked key hkey).2 ⟨hmodel, rfl⟩

/-- A transaction that does nothing but such an update is committed. -/
theorem Store.commit_of_advances {d : SchemaDecl} {s : Store} (hd : d.resolve = .ok s.schema)
    (hm : m ∈ s.schema.models)
    (hplain : ∀ v, m.versionColumn = some v → m.PlainVersion s.schema v)
    (hchecked : s.tables.Checked s.schema) {st : Step} {result : StepResult} {op : Operation}
    {before after : List Record} (hrows : s.tables.rows m.name = before ++ r :: after)
    (hr : r.Advances m r') (hw : s.begin.Writes m st result op (before ++ r' :: after)) :
    s.commit (s.begin.wrote m (before ++ r' :: after) op) =
      .ok { s with tables := s.tables.setRows m.name (before ++ r' :: after) } := by
  have hreplay : op.replay s.schema s.tables =
      .ok (s.tables.setRows m.name (before ++ r' :: after)) :=
    Operation.replay_eq_ok_iff.2 ⟨m, _, hw.model?.2, hw.acts, rfl⟩
  have hcheck := (hchecked.advances hd hm hplain hrows hr).check [op.model].eraseDups
  change (do
    let tables ← [op].foldlM (Operation.replay s.schema) s.tables
    tables.check s.schema [op.model].eraseDups
    pure { s with tables := tables }) = _
  rw [List.foldlM_cons, hreplay]
  change (do
    (s.tables.setRows m.name (before ++ r' :: after)).check s.schema [op.model].eraseDups
    pure _) = _
  rw [hcheck]
  rfl

end RecordApi
