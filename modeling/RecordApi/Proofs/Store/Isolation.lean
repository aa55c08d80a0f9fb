import RecordApi.Proofs.Store.Kept
import RecordApi.Proofs.Store.Span
import RecordApi.Proofs.Store.Within
import RecordApi.Proofs.Store.Written
import RecordApi.Proofs.Value.Same

/-!
# Transactions that do not meet

The keys of a transaction are those that it inserts, updates, deletes or assigns. If nothing that
was committed since it began has one of its keys, its commit finds every record that it found, and
leaves the records with its keys as they are for the transaction and all others as they were
committed (`Span.isolated`). The log acts in the same way on the snapshot and on the committed
tables, since it stays within the records with its keys, of which both have the same.
-/

namespace RecordApi

/-! ## Keys of operations -/

/-- The keys that an operation on a model has: those that it inserts, updates, deletes or
assigns. -/
def Operation.keys (m : Model) : Operation → List Value
  | .insert _ r => [m.keyOf r]
  | .update _ key _ changes =>
    key :: if changes.contains m.primaryKey.name then [m.keyOf changes] else []
  | .delete _ key _ => [key]

namespace Model

/-- The keys of the operations on a model. -/
def keysOf (m : Model) (ops : List Operation) : List Value :=
  (m.writes ops).flatMap (Operation.keys m)

/-- Whether a record has one of some keys. -/
def owns (m : Model) (keys : List Value) (r : Record) : Bool :=
  keys.any fun k => (m.keyOf r).same k

/-- The primary key is a whole number, a text or an identifier. -/
def KeyTyped (m : Model) : Prop :=
  m.primaryKey.type = .integer ∨ m.primaryKey.type = .string ∨ m.primaryKey.type = .uuid

variable {m : Model}

theorem owns_iff {keys : List Value} {r : Record} (hr : (m.keyOf r).IsKey)
    (hkeys : ∀ k ∈ keys, k.IsKey) : m.owns keys r = true ↔ m.keyOf r ∈ keys := by
  unfold owns
  rw [List.any_eq_true]
  constructor
  · rintro ⟨k, hk, hs⟩
    rw [(hr.same_iff (hkeys k hk)).1 hs]
    exact hk
  · exact fun h => ⟨m.keyOf r, h, hr.same_self⟩

theorem KeyTyped.isKey_of_fits (hk : m.KeyTyped) {v : Value} (hf : v.Fits m.primaryKey.type)
    (hn : v ≠ .null) : v.IsKey := by
  have hkind := hf.ofKind hn
  rcases hk with ht | ht | ht
  all_goals
    rw [ht] at hkind
    cases hkind
    trivial

theorem KeyTyped.isKey (hm : m.WellFormed) (hk : m.KeyTyped) {v : Value}
    (h : m.Takes m.primaryKey.name v) (hn : v ≠ .null) : v.IsKey := by
  rcases h with ⟨c, hc, hf⟩ | ⟨-, n, rfl⟩
  · rw [hm.column?_key] at hc
    obtain rfl := Option.some.inj hc
    exact hk.isKey_of_fits hf hn
  · trivial

end Model

/-! ## Operations within keys -/

namespace Operation

variable {m : Model}

theorem Acts.isKey {op : Operation} {rows next : List Record} (hop : ∀ k ∈ op.keys m, k.IsKey)
    (h : op.Acts m rows next) (hrows : ∀ r ∈ rows, (m.keyOf r).IsKey) :
    ∀ r ∈ next, (m.keyOf r).IsKey := by
  intro r hr
  rcases h.of_mem hr with hr | ⟨name, rfl⟩ | ⟨name, key, expected, changes, q, rfl, hq, -, -, rfl⟩
  · exact hrows r hr
  · exact hop _ List.mem_cons_self
  · rw [m.keyOf_merge]
    split
    · next hset =>
      exact hop _ (List.mem_cons_of_mem _ (by rw [if_pos hset]; exact List.mem_cons_self))
    · exact hrows q hq

/-- Operations whose keys satisfy a condition stay within the records whose key does. -/
theorem staysWithin_of_keys {P : Record → Bool} {K : Value → Prop}
    (hP : ∀ r, (m.keyOf r).IsKey → (P r = true ↔ K (m.keyOf r))) :
    StaysWithin m P (fun r => (m.keyOf r).IsKey) fun op => ∀ k ∈ op.keys m, k.IsKey ∧ K k := by
  constructor
  · intro op rows next hop ha hrows
    exact ha.isKey (fun k hk => (hop k hk).1) hrows
  · intro op rows hop hrows
    have hfound : ∀ key ∈ op.keys m, ∀ r ∈ rows, (m.keyOf r).same key = true →
        P r = true ∧ K (m.keyOf r) := by
      intro key hkey r hr hs
      obtain ⟨hk, hK⟩ := hop key hkey
      rw [((hrows r hr).same_iff hk).1 hs, hP r (hrows r hr), ((hrows r hr).same_iff hk).1 hs]
      exact ⟨hK, hK⟩
    cases op with
    | insert name r =>
        obtain ⟨hk, hK⟩ := hop _ List.mem_cons_self
        exact (hP r hk).2 hK
    | update name key expected changes =>
        intro r hr hs
        obtain ⟨hin, hK⟩ := hfound key List.mem_cons_self r hr hs
        refine ⟨hin, ?_⟩
        have hmerged := m.keyOf_merge r changes
        split at hmerged
        · next hset =>
          obtain ⟨hk', hK'⟩ := hop (m.keyOf changes)
            (List.mem_cons_of_mem _ (by rw [if_pos hset]; exact List.mem_cons_self))
          rw [← hmerged] at hk' hK'
          exact (hP _ hk').2 hK'
        · rw [← hmerged] at hK
          exact (hP _ (hmerged ▸ hrows r hr)).2 hK
    | delete name key expected =>
        exact fun r hr hs => (hfound key List.mem_cons_self r hr hs).1

end Operation

theorem Transaction.Writes.isKey {tx : Transaction} {m : Model} {st : Step} {result : StepResult}
    {op : Operation} {rows : List Record} (hm : m.WellFormed) (hk : m.KeyTyped)
    (h : tx.Writes m st result op rows)
    (hcurrent : ∀ current, st.current? = some (m.name, current) → (m.keyOf current).IsKey) :
    ∀ k ∈ op.keys m, k.IsKey := by
  have hv := h.valid hm
  have hread : ∀ model current, tx.schema.model? model = some m →
      st.current? = some (model, current) → (m.keyOf current).IsKey := by
    intro model current hn hst
    obtain rfl := Schema.name_of_model? hn
    exact hcurrent current hst
  intro k hkey
  cases h with
  | insert =>
      obtain rfl := List.mem_singleton.1 hkey
      have hn := hv.notNull m.primaryKey hm.key_mem hm.key_not_null
      exact hk.isKey hm (hv.takes _ (Record.contains_of_get_ne_null hn)) hn
  | @update _ _ current _ given _ named =>
      rcases List.mem_cons.1 hkey with rfl | hkey
      · exact hread _ current named rfl
      · split at hkey
        · next hset =>
          obtain rfl := List.mem_singleton.1 hkey
          have hn := hv.notNull m.primaryKey hm.key_mem hm.key_not_null hset
          exact hk.isKey hm (hv.takes _ hset) hn
        · cases hkey
  | @delete _ _ current _ named =>
      obtain rfl := List.mem_singleton.1 hkey
      exact hread _ current named rfl

/-! ## Commits -/

theorem Tables.check_ne_stale {t : Tables} {schema : Schema} {touched : List String}
    {reason : Staleness} : t.check schema touched ≠ .error (.stale reason) := by
  intro h
  unfold check at h
  cases hu : (touched.filterMap schema.model?).forM t.checkUnique with
  | error e =>
      rw [hu] at h
      cases h
      obtain ⟨m, -, hm⟩ := exists_of_forM_eq_error hu
      unfold checkUnique at hm
      split at hm <;> cases hm
  | ok _ =>
      rw [hu] at h
      obtain ⟨key, -, hk⟩ := exists_of_forM_eq_error h
      unfold checkForeignKey at hk
      split at hk <;> cases hk

/-- A commit whose log can be replayed does not fail for a record that changed meanwhile. -/
theorem Store.commit_ne_stale {s : Store} {tx : Transaction} {tables : Tables}
    {reason : Staleness} (h : tx.log.foldlM (Operation.replay tx.schema) s.tables = .ok tables) :
    s.commit tx ≠ .error (.stale reason) := by
  unfold commit
  split
  · exact fun hc => by cases hc
  · rw [h]
    intro hc
    change (tables.check tx.schema (tx.log.map (·.model)).eraseDups >>= fun _ => _) = _ at hc
    cases hcheck : tables.check tx.schema (tx.log.map (·.model)).eraseDups with
    | error e =>
        rw [hcheck] at hc
        cases hc
        exact Tables.check_ne_stale hcheck
    | ok _ =>
        rw [hcheck] at hc
        cases hc

/-! ## Isolation -/

namespace Sessions

variable {schema : Schema} {supply : Nat → Uuid} {m : Model}

theorem kept_isKey (hs : schema.WellFormed) (hm : m ∈ schema.models) (hk : m.KeyTyped)
    {steps : List Step} (hgives : (empty schema supply).GivesBack m.name steps) :
    (empty schema supply).Kept steps m (fun r => (m.keyOf r).IsKey)
      fun op => ∀ k ∈ op.keys m, k.IsKey := by
  refine kept_after (hs.model?_name hm) (fun _ _ _ hop ha => ha.isKey hop) steps ?_
  intro front st hp hreturned tx op rows _ hw
  exact hw.isKey (hs.models m hm) hk fun current hst =>
    hreturned current (hgives front st hp current hst)

end Sessions

namespace Span

open Sessions

variable {schema : Schema} {supply : Nat → Uuid} {m : Model} {t : Span} {tx : Transaction}

/-- On every model the log of a transaction whose keys nothing meanwhile has runs on the committed
tables as it does on the snapshot. -/
theorem runs_apart (hs : schema.WellFormed) (hm : m ∈ schema.models) (hk : m.KeyTyped)
    (hgives : (empty schema supply).GivesBack m.name t.ahead)
    (ho : t.Opens (empty schema supply) tx)
    (hapart : (m.keysOf tx.log).Disjoint (m.keysOf (t.between (empty schema supply)))) :
    ∃ final, Operation.Runs m (m.writes tx.log)
        ((t.committedAhead (empty schema supply)).rows m.name) final ∧
      final.filter (m.owns (m.keysOf tx.log)) =
        (tx.working.rows m.name).filter (m.owns (m.keysOf tx.log)) ∧
      (final.filter fun r => !m.owns (m.keysOf tx.log) r) =
        ((t.committedAhead (empty schema supply)).rows m.name).filter
          fun r => !m.owns (m.keysOf tx.log) r := by
  have hname := hs.model?_name hm
  have hof := of_empty schema supply
  have hahead := kept_isKey hs hm hk hgives
  have hbefore : (empty schema supply).Kept t.before m (fun r => (m.keyOf r).IsKey)
      fun op => ∀ k ∈ op.keys m, k.IsKey :=
    kept_isKey hs hm hk fun front st hp =>
      hgives front st (hp.trans (List.prefix_append t.before _))
  have hlog : ∀ op ∈ m.writes tx.log, ∀ k ∈ op.keys m, k.IsKey := by
    intro op hop
    obtain ⟨hop, hmodel⟩ := List.mem_filter.1 hop
    exact hahead.keeps.logged t.name tx ho op hop (by simpa using hmodel)
  have hkeys : ∀ k ∈ m.keysOf tx.log, k.IsKey := by
    intro k hkey
    obtain ⟨op, hop, hkey⟩ := List.mem_flatMap.1 hkey
    exact hlog op hop k hkey
  -- what was committed meanwhile stays outside the keys of the transaction
  have hbetween := Operation.runs_of_replay hname (t.replay_between hof)
  have hsame : ((t.committedAhead (empty schema supply)).rows m.name).filter
      (m.owns (m.keysOf tx.log)) =
        ((t.snapshot (empty schema supply)).rows m.name).filter (m.owns (m.keysOf tx.log)) := by
    have hout := Operation.staysWithin_of_keys (m := m)
      (P := fun r => !m.owns (m.keysOf tx.log) r) (K := fun k => k ∉ m.keysOf tx.log)
      fun r hr => by rw [Bool.not_eq_true', ← Bool.not_eq_true, Model.owns_iff hr hkeys]
    have hfilter := hbetween.filter_not hout ?_ hbefore.keeps.committed
    · simpa only [Bool.not_not] using hfilter
    · intro op hop k hkey
      have hhistory := (List.mem_filter.1 hop)
      refine ⟨hahead.history op ?_ (by simpa using hhistory.2) k hkey, fun hin => ?_⟩
      · rw [history_ahead]
        exact List.mem_append_right _ hhistory.1
      · exact hapart hin (List.mem_flatMap.2 ⟨op, hop, hkey⟩)
  -- its own operations stay within them
  have hin := Operation.staysWithin_of_keys (m := m) (P := m.owns (m.keysOf tx.log))
    (K := fun k => k ∈ m.keysOf tx.log) fun r hr => Model.owns_iff hr hkeys
  have hops : ∀ op ∈ m.writes tx.log, ∀ k ∈ op.keys m, k.IsKey ∧ k ∈ m.keysOf tx.log :=
    fun op hop k hkey => ⟨hlog op hop k hkey, List.mem_flatMap.2 ⟨op, hop, hkey⟩⟩
  have hown := Operation.runs_of_replay hname (t.replay_log hof ho)
  obtain ⟨final, hrun, hfinal⟩ := hown.transfer hin hsame hops hbefore.keeps.committed
    hahead.keeps.committed
  exact ⟨final, hrun, hfinal, hrun.filter_not hin hops hahead.keeps.committed⟩

/-- If nothing that was committed since a transaction began has one of its keys, its commit does not
fail for a record that changed meanwhile, and a commit that succeeds leaves the records with its
keys as the transaction has them, and all others as they were. -/
theorem isolated {d : SchemaDecl} (hd : d.resolve = .ok schema)
    (hk : ∀ m ∈ schema.models, m.KeyTyped) (supply : Nat → Uuid) (t : Span)
    (hgives : ∀ m ∈ schema.models, (empty schema supply).GivesBack m.name t.ahead)
    (tx : Transaction) (ho : t.Opens (empty schema supply) tx)
    (hapart : ∀ m ∈ schema.models,
      (m.keysOf tx.log).Disjoint (m.keysOf (t.between (empty schema supply)))) :
    (∀ reason, ((empty schema supply).after t.ahead).store.commit tx ≠ .error (.stale reason)) ∧
      ∀ store, ((empty schema supply).after t.ahead).store.commit tx = .ok store →
        ∀ m ∈ schema.models,
          (store.tables.rows m.name).filter (m.owns (m.keysOf tx.log)) =
              (tx.working.rows m.name).filter (m.owns (m.keysOf tx.log)) ∧
            ((store.tables.rows m.name).filter fun r => !m.owns (m.keysOf tx.log) r) =
              ((t.committedAhead (empty schema supply)).rows m.name).filter
                fun r => !m.owns (m.keysOf tx.log) r := by
  have hs := SchemaDecl.wellFormed hd
  have hof := of_empty schema supply
  have hschema : tx.schema = schema := (hof.after t.ahead).opened t.name tx ho
  have hruns := fun m hm => runs_apart hs hm (hk m hm) (hgives m hm) ho (hapart m hm)
  constructor
  · intro reason
    have hmodels := Operation.model?_of_replay (t.replay_log hof ho)
    obtain ⟨tables, htables⟩ := Operation.replay_of_runs hmodels fun m hm => by
      obtain ⟨final, hrun, -⟩ := hruns m (Schema.mem_of_model? hm)
      exact ⟨final, hrun⟩
    have hreplay : tx.log.foldlM (Operation.replay tx.schema)
        ((empty schema supply).after t.ahead).store.tables = .ok tables := by
      rw [hschema]
      exact htables
    exact Store.commit_ne_stale hreplay
  · intro store hc m hm
    have hreplay := Store.replay_of_commit hc
    rw [hschema] at hreplay
    obtain ⟨final, hrun, hown, hother⟩ := hruns m hm
    rw [← hrun.unique (Operation.runs_of_replay (hs.model?_name hm) hreplay)]
    exact ⟨hown, hother⟩

/-- A transaction changes a note while another one inserts a note. -/
def besideInsert : Span where
  name := "a"
  before := [.begin "c", .insert "c" "note" .empty, .commit "c"]
  during := [.begin "b", .insert "b" "note" .empty, .commit "b",
    .update "a" "note" (.ofList [("id", .int 1), ("version", .int 1)])
      (.ofList [("text", .text "x")])]
  stays := by simp

theorem isolated_besideInsert :
    ∃ tx, besideInsert.Opens (empty .notes fun _ => default) tx ∧
      Model.note.keysOf tx.log = [.int 1] ∧
      Model.note.keysOf (besideInsert.between (empty .notes fun _ => default)) = [.int 2] ∧
      ∀ reason, ((empty .notes fun _ => default).after besideInsert.ahead).store.commit tx ≠
        .error (.stale reason) := by
  have hk : ∀ m ∈ Schema.notes.models, m.KeyTyped := by
    intro m hm
    obtain rfl := List.mem_singleton.1 hm
    exact .inl rfl
  have hgives : ∀ m ∈ Schema.notes.models,
      (empty .notes fun _ => default).GivesBack m.name besideInsert.ahead := by
    intro m hm
    obtain rfl := List.mem_singleton.1 hm
    have hbefore : (empty .notes fun _ => default).GivesBack "note" [.begin "c",
        .insert "c" "note" .empty, .commit "c", .begin "a", .begin "b",
        .insert "b" "note" .empty, .commit "b"] :=
      givesBack_of_current?_eq_none (by simp [Step.current?])
    refine hbefore.concat ?_
    intro current hcurrent
    cases hcurrent
    exact ⟨[.begin "c"], .insert "c" "note" .empty, ⟨_, rfl⟩, rfl, List.mem_singleton.2 rfl⟩
  refine ⟨_, rfl, rfl, rfl, ?_⟩
  refine (isolated SchemaDecl.resolve_notes hk _ besideInsert hgives _ rfl ?_).1
  intro m hm
  obtain rfl := List.mem_singleton.1 hm
  change List.Disjoint [Value.int 1] [Value.int 2]
  simp

end Span

end RecordApi
