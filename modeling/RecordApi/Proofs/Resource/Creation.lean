import RecordApi.Proofs.Resource.Effects
import RecordApi.Proofs.Resource.FailedRequest
import RecordApi.Proofs.Store.Integrity

/-!
# Requests that create records

A request to a collection inserts records, and updates those that are to refer to a record behind
them. Such an update goes to the first record with the key of the one that it is meant for, which
may be a record that was there before. Two records have the key then, so that the request is refused
unless an update gives one of them another key, as it may where a relationship is joined on the
key. Otherwise what was there stays as it is, and new records follow (`Endpoint.keeps_or_rekeys`).
-/

namespace RecordApi

variable {σ : Type} {m : Model}

/-! ## Keys that two records have -/

theorem hasClash_append {columns : List String} {front back : List Record} {a b : Record}
    (ha : a ∈ front) (hb : b ∈ back) (h : clash columns a b = true) :
    hasClash columns (front ++ back) = true := by
  by_contra hn
  rw [Bool.not_eq_true, hasClash_eq_false_iff] at hn
  have hnone := (List.pairwise_append.1 hn).2.2 a ha b hb
  rw [h] at hnone
  cases hnone

theorem hasClash_mono {columns : List String} {rows more : List Record} (h : rows.Sublist more)
    (hc : hasClash columns rows = true) : hasClash columns more = true := by
  by_contra hn
  rw [Bool.not_eq_true, hasClash_eq_false_iff] at hn
  rw [hasClash_eq_false_iff.2 (hn.sublist h)] at hc
  cases hc

/-- Whether two records have the same key depends on the keys alone. -/
theorem hasClash_key_congr {rows others : List Record}
    (h : rows.map m.keyOf = others.map m.keyOf) :
    hasClash [m.primaryKey.name] rows = hasClash [m.primaryKey.name] others := by
  have hpairs : ∀ records : List Record, hasClash [m.primaryKey.name] records = false ↔
      (records.map m.keyOf).Pairwise fun a b => ¬(a ≠ .null ∧ a.same b = true) := by
    intro records
    rw [hasClash_eq_false_iff, List.pairwise_map]
    exact List.Pairwise.iff fun a b => by rw [← clash_key_iff, Bool.not_eq_true]
  have hiff : hasClash [m.primaryKey.name] rows = false ↔
      hasClash [m.primaryKey.name] others = false := by
    rw [hpairs, hpairs, h]
  exact Bool.eq_iff_iff.2 (by simpa using not_congr hiff)

/-! ## Updates of records that were there -/

/-- An update by a key that one of some records has. -/
def Operation.Hits (m : Model) (old : List Record) : Operation → Prop
  | .update _ key _ _ => ∃ r ∈ old, (m.keyOf r).same key = true
  | _ => False

theorem Place.map_keyOf_replace {p : Place} {changes : Record}
    (h : changes.contains m.primaryKey.name = false) :
    (p.replace (p.row.merge changes)).map m.keyOf = (p.replace p.row).map m.keyOf := by
  have hrow : m.keyOf (p.row.merge changes) = m.keyOf p.row := by
    rw [m.keyOf_merge, if_neg (by simp [h])]
  unfold Place.replace
  rw [List.map_append, List.map_append, List.map_cons, List.map_cons, hrow]

/-- An update by the key of one of the records that follow some others changes one of those that
follow, or it is by a key that one of the others has, which then two records have unless the update
sets it. -/
theorem Place.Named.update_cases {p : Place} {key : Value} {expected : Option Value}
    {changes : Record} {old new : List Record} (hp : p.Named m key expected)
    (hrows : p.replace p.row = old ++ new) (hkey : key ∈ new.map m.keyOf)
    (hnull : m.keyOf (p.row.merge changes) ≠ .null) :
    (∃ new', p.replace (p.row.merge changes) = old ++ new' ∧
        m.keyOf (p.row.merge changes) ∈ new'.map m.keyOf) ∨
      (∃ r ∈ old, (m.keyOf r).same key = true) ∧
        (changes.contains m.primaryKey.name = true ∨
          hasClash [m.primaryKey.name] (p.replace (p.row.merge changes)) = true) := by
  obtain ⟨before, row, after⟩ := p
  change before ++ row :: after = old ++ new at hrows
  change (∃ new', before ++ row.merge changes :: after = old ++ new' ∧ _) ∨ _
  rcases List.append_eq_append_iff.1 hrows with ⟨gap, rfl, hgap⟩ | ⟨gap, rfl, rfl⟩
  · cases gap with
    | nil =>
        refine .inl ⟨row.merge changes :: after, by rw [List.append_nil], ?_⟩
        exact List.mem_map_of_mem List.mem_cons_self
    | cons r gap =>
        obtain ⟨rfl, rfl⟩ := List.cons.inj hgap
        have hold : row ∈ before ++ row :: gap := List.mem_append_right _ List.mem_cons_self
        refine .inr ⟨⟨row, hold, hp.found⟩, ?_⟩
        cases hset : changes.contains m.primaryKey.name with
        | true => exact .inl rfl
        | false =>
            obtain ⟨other, hother, rfl⟩ := List.mem_map.1 hkey
            have hrow : m.keyOf row ≠ .null := by
              rw [m.keyOf_merge, if_neg (by simp [hset])] at hnull
              exact hnull
            refine .inr ((hasClash_key_congr (Place.map_keyOf_replace hset)).trans ?_)
            change hasClash _ (before ++ row :: (gap ++ new)) = true
            rw [← List.cons_append, ← List.append_assoc]
            exact hasClash_append hold hother (clash_key_iff.2 ⟨hrow, hp.found⟩)
  · refine .inl ⟨gap ++ row.merge changes :: after, by rw [List.append_assoc], ?_⟩
    exact List.mem_map_of_mem (List.mem_append_right _ List.mem_cons_self)

/-- What an update sets beside the version is among the values that it is given. -/
theorem Transaction.withNextVersion_sets {current changes given : Record} {name : String}
    (hn : m.normalize changes = .ok given)
    (h : (withNextVersion m current given).contains name = true) :
    m.versionColumn = some name ∨ changes.contains name = true := by
  have hgiven : given.contains name = true → changes.contains name = true := by
    intro hc
    cases Model.normalizedAt hn name with
    | absent _ hout =>
        rw [Record.contains_iff, hout] at hc
        cases hc
    | column c v w _ hv => rw [Record.contains_iff, hv]; rfl
  unfold withNextVersion at h
  split at h
  · next version hversion =>
    rw [Record.contains_insert, Bool.or_eq_true, beq_iff_eq] at h
    exact h.imp (fun hname => by rw [hname, hversion]) hgiven
  · exact .inr (hgiven h)

/-- An update leaves two records with a key where two have one, unless it may set the key. -/
theorem Transaction.Writes.hasClash_of_update {tx : Transaction} {name model : String}
    {current changes r : Record} {op : Operation} {rows : List Record} {rekeys : Prop}
    (h : tx.Writes m (.update name model current changes) (.record r) op rows)
    (hversion : m.versionColumn = some m.primaryKey.name → rekeys)
    (hset : changes.contains m.primaryKey.name = true → rekeys)
    (hclash : hasClash [m.primaryKey.name] (tx.working.rows m.name) = true) :
    rekeys ∨ hasClash [m.primaryKey.name] rows = true := by
  cases h with
  | @update _ _ _ _ given p _ normalized place _ =>
      obtain ⟨hrows, -⟩ := Transaction.placeOf_eq_ok place
      cases hc : (Transaction.withNextVersion m current given).contains m.primaryKey.name with
      | true => exact .inl ((Transaction.withNextVersion_sets normalized hc).elim hversion hset)
      | false =>
          rw [hrows] at hclash
          exact .inr ((hasClash_key_congr (Place.map_keyOf_replace hc)).trans hclash)

/-! ## Following writes -/

/-- A transaction has left the records of a model as a condition says; or it has updated one of some
old records, and two records have a key unless records may get other keys. -/
structure Model.Follows (m : Model) (old : List Record) (Good : List Record → Prop) (rekeys : Prop)
    (schema : Schema) (tables : Tables) (tx : Transaction) : Prop where
  begun : tx.From schema tables
  cases : Good (tx.working.rows m.name) ∨ (∃ op ∈ m.writes tx.log, op.Hits m old) ∧
    (rekeys ∨ hasClash [m.primaryKey.name] (tx.working.rows m.name) = true)

namespace Model.Follows

variable {old : List Record} {Good Good' : List Record → Prop} {rekeys : Prop} {schema : Schema}
  {tables : Tables} {tx : Transaction} {n : Model} {op : Operation} {rows : List Record}

/-- A write to another model. -/
theorem wrote_other (h : m.Follows old Good rekeys schema tables tx) {st : Step}
    {result : StepResult} (hw : tx.Writes n st result op rows) (hn : n.name ≠ m.name) :
    m.Follows old Good rekeys schema tables (tx.wrote n rows op) := by
  have hop : ¬(op.model == m.name) = true := by simpa [hw.model?.1] using hn
  refine ⟨h.begun.wrote hw, ?_⟩
  simp only [Transaction.wrote, Tables.rows_setRows, if_neg hn.symm, Model.writes_append]
  rw [show m.writes [op] = [] from List.filter_cons_of_neg hop, List.append_nil]
  exact h.cases

/-- A write to the model, to old records or to others. -/
theorem wrote_self (h : m.Follows old Good rekeys schema tables tx) {st : Step}
    {result : StepResult} (hw : tx.Writes m st result op rows)
    (hgood : Good (tx.working.rows m.name) → Good' rows ∨
      op.Hits m old ∧ (rekeys ∨ hasClash [m.primaryKey.name] rows = true))
    (hkeeps : hasClash [m.primaryKey.name] (tx.working.rows m.name) = true →
      rekeys ∨ hasClash [m.primaryKey.name] rows = true) :
    m.Follows old Good' rekeys schema tables (tx.wrote m rows op) := by
  refine ⟨h.begun.wrote hw, ?_⟩
  simp only [Transaction.wrote, Tables.rows_setRows, if_pos, Model.writes_append]
  rw [show m.writes [op] = [op] from List.filter_cons_of_pos (by simp [hw.model?.1])]
  rcases h.cases with hrows | ⟨⟨hit, hin, hhits⟩, hclash⟩
  · refine (hgood hrows).imp_right fun ⟨hhits, hclash⟩ => ⟨⟨op, ?_, hhits⟩, hclash⟩
    exact List.mem_append_right _ (List.mem_singleton.2 rfl)
  · exact .inr ⟨⟨hit, List.mem_append_left _ hin, hhits⟩, hclash.elim .inl hkeeps⟩

theorem eq_of_name (hm : schema.model? m.name = some m)
    (h : m.Follows old Good rekeys schema tables tx) {st : Step} {result : StepResult}
    (hw : tx.Writes n st result op rows) (hn : n.name = m.name) : n = m := by
  have hnamed := hw.model?.2
  rw [hw.model?.1, hn, h.begun.of, hm] at hnamed
  exact (Option.some.inj hnamed).symm

/-- A record is inserted. -/
theorem insert (hm : schema.model? m.name = some m)
    (h : m.Follows old Good rekeys schema tables tx) {name model : String} {values r : Record}
    (hw : tx.Writes n (.insert name model values) (.record r) op rows)
    (hself : model = m.name → ∀ rows, Good rows → Good' (rows ++ [r]))
    (hother : model ≠ m.name → ∀ rows, Good rows → Good' rows) :
    m.Follows old Good' rekeys schema tables (tx.wrote n rows op) := by
  have hn : n.name = model := Schema.name_of_model? hw.model?_of_insert
  by_cases hmodel : model = m.name
  · obtain rfl := h.eq_of_name hm hw (hn.trans hmodel)
    refine h.wrote_self hw (fun hgood => .inl ?_) fun hclash => .inr ?_
    · cases hw with
      | insert => exact hself hmodel _ hgood
    · cases hw with
      | insert => exact hasClash_mono (List.sublist_append_left _ _) hclash
  · obtain ⟨begun, cases⟩ := h.wrote_other hw (by rw [hn]; exact hmodel)
    exact ⟨begun, cases.imp_left (hother hmodel _)⟩

end Model.Follows

/-! ## Creating -/

/-- A transaction that creates records has added some to those of a model, among them some with the
given keys; or it has updated one that was there, and two records have a key unless records may get
other keys. -/
structure Model.Creates (m : Model) (rekeys : Prop) (schema : Schema) (tables : Tables)
    (keys : List Value) (tx : Transaction) : Prop where
  begun : tx.From schema tables
  cases : (∃ new, tx.working.rows m.name = tables.rows m.name ++ new ∧
      ∀ k ∈ keys, k ∈ new.map m.keyOf) ∨
    (∃ op ∈ m.writes tx.log, op.Hits m (tables.rows m.name)) ∧
      (rekeys ∨ hasClash [m.primaryKey.name] (tx.working.rows m.name) = true)

/-- The key of a record under the name of a model, if that is the model. -/
def Model.keysUnder (m : Model) (name : String) (r : Record) : List Value :=
  if name = m.name then [m.keyOf r] else []

namespace Model.Creates

variable {rekeys : Prop} {schema : Schema} {tables : Tables} {keys more : List Value}
  {tx : Transaction} {n : Model} {name model : String} {op : Operation} {rows : List Record}
  {r : Record}

theorem start (s : Store) : m.Creates rekeys s.schema s.tables [] s.begin :=
  ⟨Transaction.from_begin s, .inl ⟨[], (List.append_nil _).symm, fun _ h => by cases h⟩⟩

theorem mono (h : m.Creates rekeys schema tables keys tx) (hsub : more ⊆ keys) :
    m.Creates rekeys schema tables more tx := by
  refine ⟨h.begun, h.cases.imp_left ?_⟩
  rintro ⟨new, hrows, hkeys⟩
  exact ⟨new, hrows, fun k hk => hkeys k (hsub hk)⟩

/-- To create records is to add them to the old ones. -/
theorem iff_follows : m.Creates rekeys schema tables keys tx ↔
    m.Follows (tables.rows m.name)
      (fun rows => ∃ new, rows = tables.rows m.name ++ new ∧ ∀ k ∈ keys, k ∈ new.map m.keyOf)
      rekeys schema tables tx :=
  ⟨fun h => ⟨h.begun, h.cases⟩, fun h => ⟨h.begun, h.cases⟩⟩

/-- A record is inserted. -/
theorem insert (hm : schema.model? m.name = some m) (h : m.Creates rekeys schema tables keys tx)
    {values : Record} (hw : tx.Writes n (.insert name model values) (.record r) op rows) :
    m.Creates rekeys schema tables (m.keysUnder model r ++ keys) (tx.wrote n rows op) := by
  refine iff_follows.2 ((iff_follows.1 h).insert hm hw ?_ ?_)
  · rintro hmodel rows ⟨new, rfl, hkeys⟩
    refine ⟨new ++ [r], List.append_assoc _ _ _, fun k hk => ?_⟩
    rw [keysUnder, if_pos hmodel] at hk
    rw [List.map_append]
    rcases List.mem_append.1 hk with hk | hk
    · exact List.mem_append_right _ hk
    · exact List.mem_append_left _ (hkeys k hk)
  · rintro hmodel rows ⟨new, rfl, hkeys⟩
    refine ⟨new, rfl, fun k hk => hkeys k ?_⟩
    rw [keysUnder, if_neg hmodel] at hk
    exact hk

/-- A record that was created is updated. -/
theorem update (hs : schema.WellFormed) (hm : schema.model? m.name = some m)
    (hversion : m.versionColumn = some m.primaryKey.name → rekeys) {current changes : Record}
    (hset : model = m.name → changes.contains m.primaryKey.name = true → rekeys)
    (h : m.Creates rekeys schema tables (m.keysUnder model current) tx)
    (hw : tx.Writes n (.update name model current changes) (.record r) op rows) :
    m.Creates rekeys schema tables (m.keysUnder model r) (tx.wrote n rows op) := by
  obtain hn : n.name = model := by
    cases hw with
    | update named => exact Schema.name_of_model? named
  rw [iff_follows] at h ⊢
  unfold keysUnder at h ⊢
  split
  · next hmodel =>
    obtain rfl := h.eq_of_name hm hw (hn.trans hmodel)
    rw [if_pos hmodel] at h
    have hwf := hs.models n (Schema.mem_of_model? hm)
    refine h.wrote_self hw ?_ (hw.hasClash_of_update hversion (hset hmodel))
    rintro ⟨new, hnew, hkeys⟩
    cases hw with
    | @update _ _ _ _ given p _ normalized place notNull =>
        obtain ⟨hrows, hplace⟩ := Transaction.placeOf_eq_ok place
        have hnull := Model.checkNotNull_eq_ok_iff.1 notNull n.primaryKey hwf.key_mem
          hwf.key_not_null
        rw [hrows] at hnew
        rcases hplace.update_cases hnew (hkeys _ (List.mem_singleton.2 rfl)) hnull with
          ⟨new', hnew', hkey⟩ | hbad
        · exact .inl ⟨new', hnew', fun k hk => List.mem_singleton.1 hk ▸ hkey⟩
        · exact .inr (hbad.imp_right fun h => h.imp_left fun hc =>
            (Transaction.withNextVersion_sets normalized hc).elim hversion (hset hmodel))
  · next hmodel =>
    rw [if_neg hmodel] at h
    exact h.wrote_other hw (by rw [hn]; exact hmodel)

end Model.Creates

/-! ## Work that creates records -/

/-- A model with the name of `m` has a relationship to one record that is joined on the key of
`m`. -/
def Model.JoinsOnKey (m n : Model) : Prop :=
  n.name = m.name ∧ ∃ r ∈ n.relationships, r.isToMany = false ∧ r.localColumn = m.primaryKey.name

/-- A change of one column sets no other. -/
theorem Model.eq_of_contains_columnValues {column name : String} {v : Value}
    (h : (m.columnValues (Record.empty.insert column v)).contains name = true) : name = column := by
  rw [Record.contains_iff, columnValues, Record.get?_restrict] at h
  split at h
  · rw [Record.get?_insert] at h
    split at h
    · assumption
    · cases h
  · cases h

/-- A reference that sets the key is one of a relationship that is joined on the key. -/
theorem Model.JoinsOnKey.of_sets {n : Model} {r : Relationship} (hname : n.name = m.name)
    (hr : r ∈ n.relationships) (hone : r.isToMany = false) {v : Value}
    (hc : (n.columnValues (Record.empty.insert r.localColumn v)).contains
      m.primaryKey.name = true) : m.JoinsOnKey n :=
  ⟨hname, r, hr, hone, (Model.eq_of_contains_columnValues hc).symm⟩

/-- Creating records of a collection may give records of a model other keys: as versions, or since
a relationship is joined on the key. -/
def Config.MayRekey (config : Config σ) (m : Model) : Prop :=
  m.versionColumn = some m.primaryKey.name ∨
    ∃ n ∈ config.model :: config.patchTargets.map Prod.snd, m.JoinsOnKey n

section Work

open SessionM

variable {schema : Schema} {tables : Tables} {config : Config σ} {ctx : Context} {rekeys : Prop}

theorem Config.creates_link (config : Config σ) (hs : schema.WellFormed)
    (hm : schema.model? m.name = some m)
    (hversion : m.versionColumn = some m.primaryKey.name → rekeys) {n : Model}
    (hjoin : m.JoinsOnKey n → rekeys) (parent : Record) (groups : List LinkedGroup) :
    Yields (m.Creates rekeys schema tables (m.keysUnder n.name parent))
      (config.link n parent groups)
      fun record => m.Creates rekeys schema tables (m.keysUnder n.name record) := by
  refine Yields.link (Q := fun record => m.Creates rekeys schema tables (m.keysUnder n.name record))
    (fun parent target values => ?_) (fun r hr hone parent v => ?_) config parent groups
  · exact .insert fun _ _ _ _ _ h hw => (h.insert hm hw).mono (List.subset_append_right _ _)
  · exact .update fun _ _ _ _ _ h hw =>
      h.update hs hm hversion (fun hname hc => hjoin (.of_sets hname hr hone hc)) hw

theorem Collection.creates_create (hs : schema.WellFormed) (hm : schema.model? m.name = some m)
    (hversion : m.versionColumn = some m.primaryKey.name → rekeys) {n : Model}
    (hjoin : m.JoinsOnKey n → rekeys) (attributes : Record) (linked : List LinkedGroup) :
    Yields (m.Creates rekeys schema tables []) (create config n attributes linked)
      fun _ => m.Creates rekeys schema tables [] := by
  have hinserted : Yields (m.Creates rekeys schema tables [])
      (SessionM.insert n attributes : SessionM σ _)
      fun record => m.Creates rekeys schema tables (m.keysUnder n.name record) :=
    .insert fun _ _ _ _ _ h hw => (h.insert hm hw).mono (List.subset_append_left _ _)
  intro s h r t hrun
  have hlinked := hinserted.bind fun record =>
    config.creates_link hs hm hversion hjoin record linked
  exact (hlinked s h r t hrun).mono (List.nil_subset _)

theorem Collection.creates_posting (hs : schema.WellFormed) (hm : schema.model? m.name = some m) :
    Yields (m.Creates (config.MayRekey m) schema tables []) (posting config ctx)
      fun _ => m.Creates (config.MayRekey m) schema tables [] := by
  have hjoin : m.JoinsOnKey config.model → config.MayRekey m :=
    fun hj => .inr ⟨config.model, List.mem_cons_self, hj⟩
  exact Yields.lift_bind fun _ _ =>
    (Yields.mapM fun _ _ => creates_create hs hm .inl hjoin _ _).bind fun _ => .pure fun _ h => h

theorem Collection.mem_patchTargets {patch : Json} {n : Model} {b : ParsedBody}
    (h : addition config ctx patch = .ok (n, b)) : n ∈ config.patchTargets.map Prod.snd := by
  unfold addition at h
  dsimp only at h
  split at h
  · split at h
    · split at h
      · next target htarget =>
        split at h
        · simp only [bind_eq_ok_iff, pure_eq_ok_iff, Prod.mk.injEq] at h
          obtain ⟨_, -, _, -, rfl, -⟩ := h
          obtain ⟨front, back, htargets, -⟩ := List.lookup_eq_some_iff.1 htarget
          rw [htargets]
          simp
        · cases h
      · cases h
    · cases h
  · cases h

theorem Collection.creates_patching (hs : schema.WellFormed) (hm : schema.model? m.name = some m) :
    Yields (m.Creates (config.MayRekey m) schema tables []) (patching config ctx)
      fun _ => m.Creates (config.MayRekey m) schema tables [] := by
  refine Yields.lift_bind fun parsed hparsed =>
    (Yields.mapM fun ⟨n, b⟩ hmem => ?_).bind fun _ => .pure fun _ h => h
  have htarget : n ∈ config.patchTargets.map Prod.snd := by
    unfold additions at hparsed
    split at hparsed
    · cases hparsed
    · obtain ⟨patch, -, hpatch⟩ := mem_of_mapM_eq_ok hparsed hmem
      exact mem_patchTargets hpatch
  exact (creates_create hs hm .inl (fun hj => .inr ⟨n, List.mem_cons_of_mem _ htarget, hj⟩)
    b.attributes b.linked).map

end Work

/-! ## Requests -/

/-- What passes a check after a commit has no key twice, if the transaction wrote to the model. -/
theorem Store.hasClash_of_commit {s s' : Store} {tx : Transaction} (hwf : m.WellFormed)
    (hm : tx.schema.model? m.name = some m) (h : s.commit tx = .ok s') {op : Operation}
    (hop : op ∈ m.writes tx.log) :
    hasClash [m.primaryKey.name] (s'.tables.rows m.name) = false := by
  obtain ⟨hlog, hmodel⟩ := List.mem_filter.1 hop
  rcases Store.commit_eq_ok h with ⟨hnil, -⟩ | ⟨tables, -, hcheck, rfl⟩
  · rw [hnil] at hlog
    cases hlog
  · have htouched : m.name ∈ (tx.log.map (·.model)).eraseDups :=
      List.mem_eraseDups.2 (List.mem_map.2 ⟨op, hlog, by simpa using hmodel⟩)
    obtain ⟨_, hunique, -⟩ := bind_eq_ok_iff.1 hcheck
    exact Tables.hasClash_of_checkUnique hwf
      (forM_eq_ok_iff.1 hunique m (List.mem_filterMap.2 ⟨m.name, htouched, hm⟩)) .key

/-- A transaction that is committed has left the records of a model as the condition says, unless
records may get other keys. -/
theorem Model.Follows.of_commit {old : List Record} {Good : List Record → Prop} {rekeys : Prop}
    {schema : Schema} {s s' : Store} {tx : Transaction} (hwf : m.WellFormed)
    (hm : schema.model? m.name = some m) (h : m.Follows old Good rekeys schema s.tables tx)
    (hc : s.commit tx = .ok s') :
    Good (s'.tables.rows m.name) ∨ (∃ op ∈ m.writes tx.log, op.Hits m old) ∧ rekeys := by
  have hworking := h.begun.tables_of_commit hc
  rcases h.cases with hgood | ⟨hhits, hrekeys | hclash⟩
  · exact .inl (hworking ▸ hgood)
  · exact .inr ⟨hhits, hrekeys⟩
  · obtain ⟨op, hop, -⟩ := hhits
    have hnone := Store.hasClash_of_commit hwf (h.begun.of ▸ hm) hc hop
    rw [hworking, hclash] at hnone
    cases hnone

namespace Endpoint

variable {config : Config σ} {ctx : Context} {server : Server σ}

/-- The operations of the transaction in which an endpoint does the work of a request. -/
def log (e : Endpoint σ) (ctx : Context) (server : Server σ) : List Operation :=
  match e.config.receive e.methods ctx with
  | .error _ => []
  | .ok admitted =>
    match e.writing admitted with
    | none => []
    | some (purpose, work) =>
      (work ⟨server.store, server.store.begin, purpose, server.hooks⟩).2.tx.log

theorem log_of_writing {e : Endpoint σ} {admitted : Context} {purpose : Purpose}
    {work : SessionM σ Written} {s : Session σ} {result : Except ApiError Written}
    (hadmitted : e.config.receive e.methods ctx = .ok admitted)
    (hwriting : e.writing admitted = some (purpose, work))
    (hrun : work ⟨server.store, server.store.begin, purpose, server.hooks⟩ = (result, s)) :
    e.log ctx server = s.tx.log := by
  simp only [log, hadmitted, hwriting, hrun]

theorem creates_of_writing {schema : Schema} {tables : Tables} (hs : schema.WellFormed)
    (hm : schema.model? m.name = some m) {purpose : Purpose} {work : SessionM σ Written}
    (h : (collection config).writing ctx = some (purpose, work)) :
    work.Yields (m.Creates (config.MayRekey m) schema tables [])
      fun _ => m.Creates (config.MayRekey m) schema tables [] := by
  unfold writing at h
  split at h
  case h_1 he _ =>
    cases he
    cases h
    exact Collection.creates_posting hs hm
  case h_2 he _ =>
    cases he
    cases h
    exact Collection.creates_patching hs hm
  case h_3 he _ | h_4 he _ | h_5 he _ => cases he
  case h_6 => cases h

/-- After a request to a collection, the records of every model that were committed before stand as
they were, with new ones behind them; or the request has updated a record by a key that one of those
had, and creating records may give records of the model other keys. -/
theorem keeps_or_rekeys {d : SchemaDecl} (config : Config σ) (ctx : Context) (server : Server σ)
    (hooks : config.hooks = .none σ) (hd : d.resolve = .ok server.store.schema)
    (hm : m ∈ server.store.schema.models) :
    server.store.tables.rows m.name <+: ((collection config).tablesAfter ctx server).rows m.name ∨
      (∃ op ∈ m.writes ((collection config).log ctx server),
          op.Hits m (server.store.tables.rows m.name)) ∧ config.MayRekey m := by
  have hs := SchemaDecl.wellFormed hd
  have hname := hs.model?_name hm
  have hooks : (collection config).config.hooks = .none σ := hooks
  by_cases hw : ∃ w store, (collection config).Writes ctx server w store
  · obtain ⟨w, store, hw⟩ := hw
    rw [(handle_of_writes hooks hw).2]
    obtain ⟨admits, writes, works, commits⟩ := hw
    rename_i admitted purpose work s
    have hlog : (collection config).log ctx server = s.tx.log :=
      log_of_writing admits writes works
    have htables : s.store.tables = server.store.tables := (keeps_of_writing writes).tables_eq works
    have hcreates := creates_of_writing hs hname writes
      ⟨server.store, server.store.begin, purpose, server.hooks⟩ (.start server.store) w s works
    have hworking : store.tables = s.tx.working :=
      Transaction.From.tables_of_commit (htables ▸ hcreates.begun) commits
    rw [hlog, hworking]
    rcases hcreates.cases with ⟨new, hrows, -⟩ | ⟨hhits, hrekeys | hclash⟩
    · exact .inl ⟨new, hrows.symm⟩
    · exact .inr ⟨hhits, hrekeys⟩
    · obtain ⟨op, hop, -⟩ := hhits
      have hnone := Store.hasClash_of_commit (hs.models m hm) (hcreates.begun.of ▸ hname) commits
        hop
      rw [hworking, hclash] at hnone
      cases hnone
  · have hsame := tablesAfter_of_not_writes hooks fun w store h => hw ⟨w, store, h⟩
    exact .inl (hsame.symm ▸ List.prefix_refl (server.store.tables.rows m.name))

end Endpoint

/-! ## A relationship that is joined on the key -/

/-- A model of persons, which have a number, a name, and a passport with the same number. -/
def Model.person : Model where
  name := "person"
  tableName := "person"
  schemaName := none
  attributes := [.column ⟨"id", .integer, "integer", false, false, true⟩,
    .column ⟨"name", .string, "text", true, false, false⟩,
    .relationship ⟨"passport", "passport", .toOne, "id", "id"⟩]
  primaryKey := ⟨"id", .integer, "integer", false, false, true⟩
  unique := []
  versionColumn := none

/-- A model of passports, which have a number. -/
def Model.passport : Model where
  name := "passport"
  tableName := "passport"
  schemaName := none
  attributes := [.column ⟨"id", .integer, "integer", false, false, true⟩]
  primaryKey := ⟨"id", .integer, "integer", false, false, true⟩
  unique := []
  versionColumn := none

/-- A schema of persons with their passports. -/
def Schema.persons : Schema :=
  ⟨[.person, .passport], [⟨"person", "id", "passport", "id"⟩]⟩

/-- The description of a schema of persons with their passports. -/
def SchemaDecl.persons : SchemaDecl where
  models := [{
    name := "person"
    table := none
    schema := none
    primaryKey := "id"
    columns := [⟨"id", ⟨"integer", []⟩, false, false, none, none, none⟩,
      ⟨"name", ⟨"text", []⟩, true, false, none, none, none⟩]
    relationships := [⟨"passport", "passport", .toOne, some "id", none⟩]
    properties := []
    unique := []
    versionColumn := none
    comment := none }, {
    name := "passport"
    table := none
    schema := none
    primaryKey := "id"
    columns := [⟨"id", ⟨"integer", []⟩, false, false, none, none, none⟩]
    relationships := []
    properties := []
    unique := []
    versionColumn := none
    comment := none }]

theorem SchemaDecl.resolve_persons : SchemaDecl.persons.resolve = .ok .persons :=
  resolve_eq_of_parts (by decide +kernel)

/-- A server with one person. -/
def Server.onePerson : Server Unit :=
  ⟨⟨.persons, [("passport", [.ofList [("id", .int 1)]]),
    ("person", [.ofList [("id", .int 1), ("name", .text "old")]])], .ofSupply fun _ => default⟩, ()⟩

/-- The collection of all persons, to which persons are added with their passports. -/
def Config.people : Config Unit :=
  { Config.ofModel Unit .persons .person with allowSubresources := true }

/-- A request to create a person with the number of another one and with a new passport. -/
def Context.createPerson : Context :=
  { Context.ofMethod .post with
    body := some (.object [("id", .int 1), ("name", .string "new"),
      ("passport", .object [("id", .int 2)])]) }

namespace Endpoint

/-- The person that was there gets the number of the new passport. -/
theorem keeps_or_rekeys_createPerson :
    (collection .people).status .createPerson .onePerson = 201 ∧
      ¬Server.onePerson.store.tables.rows "person" <+:
        ((collection .people).tablesAfter .createPerson .onePerson).rows "person" ∧
      (∃ op ∈ Model.person.writes ((collection .people).log .createPerson .onePerson),
        op.Hits .person (Server.onePerson.store.tables.rows "person")) ∧
      Config.people.MayRekey .person := by
  have hstatus : (collection .people).status .createPerson .onePerson = 201 := by decide +kernel
  have hlost : ¬Server.onePerson.store.tables.rows "person" <+:
      ((collection .people).tablesAfter .createPerson .onePerson).rows "person" := by
    have hkeys : (((collection .people).tablesAfter .createPerson .onePerson).rows "person").map
        (fun r => (Model.person.keyOf r).same (.int 1)) = [false, true] := by decide +kernel
    rintro ⟨new, hnew⟩
    rw [← hnew] at hkeys
    exact absurd (List.cons.inj hkeys).1 (by decide)
  exact ⟨hstatus, hlost, (keeps_or_rekeys .people .createPerson .onePerson rfl
    SchemaDecl.resolve_persons List.mem_cons_self).resolve_left hlost⟩

end Endpoint

end RecordApi
