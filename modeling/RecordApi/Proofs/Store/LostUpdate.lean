import RecordApi.Proofs.Store.LogRuns
import RecordApi.Proofs.Store.Span
import RecordApi.Proofs.Store.Written

/-!
# No update is lost

In a careful history (`Sessions.Careful`) a transaction that changes a record of its snapshot is
committed only if the committed record is still the one of the snapshot, what its last update
returned is what is committed, and of the transactions that read one version of a record only one
commits a change to it (`Sessions.no_lost_update`).
-/

namespace RecordApi

open Operation

/-! ## Versions of what is written -/

theorem Model.Takes.exists_int {m : Model} {v : String} {c : Column} {x : Value}
    (h : m.Takes v x) (hc : m.column? v = some c) (ht : c.type = .integer) (hx : x ≠ .null) :
    ∃ n, x = .int n := by
  rcases h with ⟨c', hc', hf⟩ | ⟨-, hn⟩
  · rw [hc] at hc'
    obtain rfl := Option.some.inj hc'
    rw [ht] at hf
    cases hf.ofKind hx with | integer n
    exact ⟨n, rfl⟩
  · exact hn

theorem Model.withFirstVersion_ne_null {m : Model} {v : String} (hv : m.versionColumn = some v)
    (r : Record) : (m.withFirstVersion r).get v ≠ .null := by
  unfold withFirstVersion
  simp only [hv]
  split
  · rw [Record.get_insert, if_pos rfl]
    exact Value.noConfusion
  · next hn => exact fun h => hn (Value.isNull_eq_true_iff.2 h)

/-- A write takes versions to the next ones, if what it is given as read has a version that can be
counted on. -/
theorem Transaction.Writes.bumps {tx : Transaction} {m : Model} {v : String} {c : Column}
    {st : Step} {result : StepResult} {op : Operation} {rows : List Record} (hm : m.WellFormed)
    (hv : m.versionColumn = some v) (hc : m.column? v = some c) (ht : c.type = .integer)
    (h : tx.Writes m st result op rows)
    (hcurrent : ∀ current, st.current? = some (m.name, current) → current.Versioned v)
    (hmax : ∀ name current changes, st = .update name m.name current changes →
      current.get v ≠ .int Int64.maxValue) : op.Bumps v := by
  have hvalid := h.valid hm
  cases h with
  | @insert _ _ _ _ completed =>
      have hn := m.withFirstVersion_ne_null hv completed
      exact (hvalid.takes v (Record.contains_of_get_ne_null hn)).exists_int hc ht hn
  | @update _ _ current _ given p named =>
      obtain rfl := Schema.name_of_model? named
      obtain ⟨n, hn⟩ := hcurrent current rfl
      have hne : n ≠ Int64.maxValue := fun he => hmax _ current _ rfl (he ▸ hn)
      refine ⟨n, hne, ?_, ?_, ?_⟩
      · rw [expectedVersion, hv, Option.map_some, hn]
      · simp only [withNextVersion, hv]
        rw [Record.contains_insert, beq_self_eq_true, Bool.true_or]
      · simp only [withNextVersion, hv]
        rw [Record.get_insert, if_pos rfl, hn]
        rfl
  | @delete _ _ current _ named =>
      obtain rfl := Schema.name_of_model? named
      obtain ⟨n, hn⟩ := hcurrent current rfl
      exact ⟨n, by rw [expectedVersion, hv, Option.map_some, hn]⟩

/-! ## Whole histories -/

namespace Sessions

variable {schema : Schema} {supply : Nat → Uuid} {m : Model} {v : String} {c : Column}
  {steps front : List Step}

/-- A history in which what is committed inserts no key of a model twice, no update changes a key or
takes a version beyond the greatest number, and updates and deletes are given records that were
given out. -/
structure Careful (s : Sessions) (m : Model) (v : String) (steps : List Step) : Prop where
  once : Once (m.inserted (s.history steps))
  keepsKeys : s.KeepsKeys m steps
  belowMax : ∀ front name current changes,
    front ++ [.update name m.name current changes] <+: steps →
      current.get v ≠ .int Int64.maxValue
  givesBack : s.GivesBack m.name steps

theorem kept_bumps (hs : schema.WellFormed) (hm : m ∈ schema.models)
    (hv : m.versionColumn = some v) (hc : m.column? v = some c) (ht : c.type = .integer)
    (h : (empty schema supply).Careful m v steps) (hp : front <+: steps) :
    (empty schema supply).Kept front m (Record.Versioned v) (Operation.Bumps v) := by
  refine kept_after (hs.model?_name hm) (fun _ _ _ hop ha => ha.versioned hop) front ?_
  intro first st hfirst hreturned tx op rows _ hw
  refine hw.bumps (hs.models m hm) hv hc ht ?_ ?_
  · exact fun current hst =>
      hreturned current (h.givesBack first st (hfirst.trans hp) current hst)
  · intro name current changes hst
    subst hst
    exact h.belowMax first name current changes (hfirst.trans hp)

theorem known_of_careful (hs : schema.WellFormed) (hm : m ∈ schema.models)
    (h : (empty schema supply).Careful m v steps) (hp : front <+: steps) :
    ((empty schema supply).after front).Known m ((empty schema supply).history front) :=
  known_after (hs.model?_name hm) front fun first name current changes hfirst =>
    h.keepsKeys first name current changes (hfirst.trans hp)

theorem history_sublist {s : Sessions} (hp : front <+: steps) :
    (s.history front).Sublist (s.history steps) := by
  obtain ⟨rest, rfl⟩ := hp
  rw [history_append]
  exact List.sublist_append_left _ _

/-- In a careful history everything that is committed takes versions to the next ones and keeps
keys. -/
theorem steady_history (hs : schema.WellFormed) (hm : m ∈ schema.models)
    (hv : m.versionColumn = some v) (hc : m.column? v = some c) (ht : c.type = .integer)
    (h : (empty schema supply).Careful m v steps) :
    ∀ op ∈ m.writes ((empty schema supply).history steps),
      op.Steady m v (m.inserted ((empty schema supply).history steps)) := by
  intro op hop
  have hhistory := List.mem_filter.1 hop
  have hp := List.prefix_refl steps
  refine ⟨?_, (known_of_careful hs hm h hp).history op hop, fun k hk => mem_inserted hop hk⟩
  exact (kept_bumps hs hm hv hc ht h hp).history op hhistory.1 (by simpa using hhistory.2)

end Sessions

namespace Span

open Sessions

variable {schema : Schema} {supply : Nat → Uuid} {m : Model} {v : String} {c : Column}
  {steps : List Step} {t : Span} {tx : Transaction} {store : Store}

theorem Commits.logRuns (hs : schema.WellFormed) (hm : m ∈ schema.models)
    (hv : m.versionColumn = some v) (hc : m.column? v = some c) (ht : c.type = .integer)
    (h : (empty schema supply).Careful m v steps) (hp : t.steps <+: steps)
    (hcommits : t.Commits (empty schema supply) tx store) :
    LogRuns m v (m.inserted ((empty schema supply).history steps))
      (m.writes ((empty schema supply).history t.before))
      (m.writes (t.between (empty schema supply))) (m.writes tx.log)
      ((t.snapshot (empty schema supply)).rows m.name)
      ((t.committedAhead (empty schema supply)).rows m.name) (tx.working.rows m.name)
      (store.tables.rows m.name) := by
  have hname := hs.model?_name hm
  have hof := of_empty schema supply
  have hsub := history_sublist (s := empty schema supply) hp
  rw [hcommits.history_steps] at hsub
  refine ⟨hv, h.once, ?_, ?_, ?_, ?_, ?_, ?_, ?_⟩
  · have hinserted := Model.inserted_mono (m := m) hsub
    rw [Model.inserted_append, Model.inserted_append] at hinserted
    exact hinserted
  · intro op hop
    rw [← Model.writes_append, ← Model.writes_append] at hop
    exact steady_history hs hm hv hc ht h op ((hsub.filter _).subset hop)
  · exact fun op hop => by simpa using (List.mem_filter.1 hop).2
  · exact runs_of_replay hname (replay_history hof t.before)
  · exact runs_of_replay hname (t.replay_between hof)
  · exact runs_of_replay hname (t.replay_log hof hcommits.opens)
  · have hreplay := Store.replay_of_commit hcommits.committed
    rw [(hof.after t.ahead).opened t.name tx hcommits.opens] at hreplay
    exact runs_of_replay hname hreplay

theorem mem_writes_of_changes {ops : List Operation} {op : Operation} {r : Record} (hop : op ∈ ops)
    (hc : op.changes m r = true) : op ∈ m.writes ops := by
  refine List.mem_filter.2 ⟨hop, ?_⟩
  cases op with
  | insert => cases hc
  | update | delete => exact (Bool.and_eq_true_iff.1 hc).1

theorem exists_key_of_changes {op : Operation} {r : Record} (hc : op.changes m r = true) :
    ∃ key, (m.keyOf r).same key = true := by
  cases op with
  | insert => cases hc
  | update | delete => exact ⟨_, (Bool.and_eq_true_iff.1 hc).2⟩

/-- Two transactions that read one version of a record and change it are not committed one after the
other. -/
theorem not_steps_prefix_ahead (hs : schema.WellFormed) (hm : m ∈ schema.models)
    (hv : m.versionColumn = some v) (hc : m.column? v = some c) (ht : c.type = .integer)
    (h : (empty schema supply).Careful m v steps) {t₁ t₂ : Span} {tx₁ tx₂ : Transaction}
    {store₁ store₂ : Store} (hp₁ : t₁.steps <+: steps) (hp₂ : t₂.steps <+: steps)
    (h₁ : t₁.Commits (empty schema supply) tx₁ store₁)
    (h₂ : t₂.Commits (empty schema supply) tx₂ store₂) {r₁ r₂ : Record}
    (hr₁ : r₁ ∈ (t₁.snapshot (empty schema supply)).rows m.name)
    (hr₂ : r₂ ∈ (t₂.snapshot (empty schema supply)).rows m.name)
    (hkey : m.keyOf r₁ = m.keyOf r₂) (hversion : r₁.get v = r₂.get v) {op₁ op₂ : Operation}
    (hop₁ : op₁ ∈ tx₁.log) (hc₁ : op₁.changes m r₁ = true) (hop₂ : op₂ ∈ tx₂.log)
    (hc₂ : op₂.changes m r₂ = true) : ¬t₁.steps <+: t₂.ahead := by
  rintro ⟨rest, hrest⟩
  obtain ⟨key, hk⟩ := exists_key_of_changes hc₁
  have hlog₁ := h₁.logRuns hs hm hv hc ht h hp₁
  have hlog₂ := h₂.logRuns hs hm hv hc ht h hp₂
  have hname := hs.model?_name hm
  have hof := (of_empty schema supply).after t₁.steps
  -- from the first commit to the second the history runs on
  have hhistory : (empty schema supply).history t₂.ahead =
      (empty schema supply).history t₁.steps ++
        ((empty schema supply).after t₁.steps).history rest := by
    rw [← hrest, history_append]
  have hmore := runs_of_replay hname (replay_history hof rest)
  rw [h₁.after_steps, ← after_append, hrest] at hmore
  have hsub := history_sublist (s := empty schema supply)
    ((List.prefix_append t₂.ahead [.commit t₂.name]).trans hp₂)
  rw [hhistory] at hsub
  have hlater := hlog₁.lt_of_later hr₁ (mem_writes_of_changes hop₁ hc₁) hc₁ hk hmore ?_ ?_ r₂ ?_
    hkey.symm
  · obtain ⟨i, j, hi, hj, hij⟩ := hlater
    rw [hi, hj, Value.int.injEq] at hversion
    subst hversion
    exact Int64.lt_irrefl hij
  · intro o ho
    refine steady_history hs hm hv hc ht h o ((hsub.filter _).subset ?_)
    change o ∈ m.writes _
    rw [Model.writes_append]
    exact List.mem_append_right _ ho
  · intro o ho k hins
    have honce := h.once.sublist (Model.inserted_mono (m := m) hsub)
    rw [Model.inserted_append] at honce
    refine honce.not_same_of_append ?_ hk (mem_inserted ho hins)
    have hbefore : ((empty schema supply).history t₁.before).Sublist
        ((empty schema supply).history t₁.steps) := by
      rw [h₁.history_steps]
      exact List.sublist_append_left _ _
    exact (Model.inserted_mono hbefore).subset
      (hlog₁.snapshot_keys.subset (List.mem_map_of_mem hr₁))
  · have hahead := hlog₂.ahead_eq hr₂ (mem_writes_of_changes hop₂ hc₂) hc₂ (hkey ▸ hk)
    have hin : r₂ ∈ m.withKey key ((t₂.committedAhead (empty schema supply)).rows m.name) := by
      rw [hahead]
      exact List.mem_singleton_self r₂
    exact (List.mem_filter.1 hin).1

/-- The last write of a transaction to a record that it read as `current` is an update, which
returns `updated`. -/
def UpdatesLast (t : Span) (s : Sessions) (m : Model) (tx : Transaction)
    (current updated : Record) : Prop :=
  ∃ front changes back tx' rest,
    t.during = front ++ .update t.name m.name current changes :: back ∧
    ((s.after (t.before ++ .begin t.name :: front)).step
      (.update t.name m.name current changes)).1 = .record updated ∧
    (s.after (t.before ++
      .begin t.name :: (front ++ [.update t.name m.name current changes]))).opened.get? t.name =
        some tx' ∧
    tx.log = tx'.log ++ rest ∧ ∀ op ∈ rest, op.changes m updated = false

end Span

namespace Sessions

variable {schema : Schema} {supply : Nat → Uuid} {m : Model} {v : String} {c : Column}
  {steps : List Step}

theorem writes_of_update {s : Sessions} {name model : String} {current changes updated : Record}
    (h : (s.step (.update name model current changes)).1 = .record updated) :
    ∃ tx n op rows, s.opened.get? name = some tx ∧
      tx.Writes n (.update name model current changes) (.record updated) op rows ∧
      (s.step (.update name model current changes)).2.opened.get? name =
        some (tx.wrote n rows op) := by
  have hmoves := s.moves_step (.update name model current changes)
  rw [h] at hmoves
  generalize (s.step (.update name model current changes)).2 = s' at hmoves
  cases hmoves with
  | write _ opened writes =>
      refine ⟨_, _, _, _, opened, writes, ?_⟩
      change (s.put name _).opened.get? name = _
      rw [get?_put, if_pos rfl]
  | close ends => rcases ends with ends | ends <;> cases ends
  | idle _ silent => cases silent

/-- What the last update of a record of the snapshot returns is what is committed. -/
theorem final_of_updatesLast (hs : schema.WellFormed) (hm : m ∈ schema.models)
    (hv : m.versionColumn = some v) (hc : m.column? v = some c) (ht : c.type = .integer)
    (h : (empty schema supply).Careful m v steps) {t : Span} {tx : Transaction} {store : Store}
    (hp : t.steps <+: steps) (hcommits : t.Commits (empty schema supply) tx store)
    {r current updated : Record}
    (hr : r ∈ (t.snapshot (empty schema supply)).rows m.name)
    (hlast : t.UpdatesLast (empty schema supply) m tx current updated)
    (hk : (m.keyOf r).same (m.keyOf current) = true) :
    m.withKey (m.keyOf current) (store.tables.rows m.name) = [updated] := by
  obtain ⟨front, changes, back, tx', rest, hduring, hresult, hopened, hlog, hrest⟩ := hlast
  have hname := hs.model?_name hm
  have hof := of_empty schema supply
  have hpart : front ++ [.update t.name m.name current changes] <+: t.during :=
    ⟨back, by rw [hduring, List.append_assoc]; rfl⟩
  have hupto : (t.before ++ .begin t.name :: front) ++ [.update t.name m.name current changes] <+:
      steps := by
    refine List.IsPrefix.trans ?_ ((List.prefix_append t.ahead [.commit t.name]).trans hp)
    unfold Span.ahead
    rw [List.append_assoc, List.cons_append]
    exact (List.prefix_append_right_inj _).2 ((List.prefix_cons_inj _).2 hpart)
  -- the step has written the record to the model
  obtain ⟨tx₀, n, op, rows, ho, hw, hafter⟩ := writes_of_update hresult
  obtain rfl : n = m := by
    obtain ⟨hmodel, hn⟩ := hw.model?
    cases hw with
    | update named =>
        rw [hof.after _ |>.opened t.name tx₀ ho, hname] at named
        exact (Option.some.inj named).symm
  have htx' : tx' = tx₀.wrote n rows op := by
    rw [← List.cons_append, ← List.append_assoc, after_append, after_cons, after_nil, hafter]
      at hopened
    exact (Option.some.inj hopened).symm
  have hrows : tx'.working.rows n.name = rows := by
    rw [htx']
    change (tx₀.working.setRows n.name rows).rows n.name = rows
    rw [Tables.rows_setRows, if_pos rfl]
  have hop : op ∈ tx'.log := by
    rw [htx']
    exact List.mem_append_right _ List.mem_cons_self
  have hwritten : updated ∈ rows ∧ (n.keyOf updated).same (n.keyOf current) = true ∧
      op.changes n r = true := by
    cases hw with
    | @update _ _ _ _ _ p _ _ place =>
        have hkey := h.keepsKeys _ _ _ _ hupto tx₀ p _ ho place hresult
        obtain ⟨-, hplace⟩ := Transaction.placeOf_eq_ok place
        refine ⟨List.mem_append_right _ List.mem_cons_self, ?_, ?_⟩
        · rw [hkey]
          exact hplace.found
        · change (n.name == n.name && (n.keyOf r).same (n.keyOf current)) = true
          rw [hk, beq_self_eq_true, Bool.true_and]
  obtain ⟨hmem, hk', hchanges⟩ := hwritten
  have hrun := runs_of_replay hname (t.replay_log_of_prefix hof hpart hopened)
  rw [hrows] at hrun
  have hlogRuns := hcommits.logRuns hs hm hv hc ht h hp
  have hwrites : n.writes tx.log = n.writes tx'.log ++ n.writes rest := by
    rw [hlog, Model.writes_append]
  refine hlogRuns.final_eq hr (Span.mem_writes_of_changes ?_ hchanges) hchanges hk hwrites hrun hmem
    hk' ?_
  · rw [hlog]
    exact List.mem_append_left _ hop
  · exact fun o ho => hrest o (List.mem_filter.1 ho).1

/-- In a careful history the record that a committed transaction changes was right before the commit
the one that it began with, its last update returned what is committed, and no other transaction
that read the same version committed a change to it. -/
theorem no_lost_update {d : SchemaDecl} (hd : d.resolve = .ok schema) (hm : m ∈ schema.models)
    (hv : m.versionColumn = some v) (hc : m.column? v = some c) (ht : c.type = .integer)
    (supply : Nat → Uuid) (steps : List Step) (h : (empty schema supply).Careful m v steps) :
    (∀ t tx store, t.steps <+: steps → Span.Commits t (empty schema supply) tx store →
      ∀ r ∈ (t.snapshot (empty schema supply)).rows m.name,
        (∀ op ∈ tx.log, op.changes m r = true → ∀ key, (m.keyOf r).same key = true →
          m.withKey key ((t.committedAhead (empty schema supply)).rows m.name) = [r]) ∧
        ∀ current updated, t.UpdatesLast (empty schema supply) m tx current updated →
          (m.keyOf r).same (m.keyOf current) = true →
            m.withKey (m.keyOf current) (store.tables.rows m.name) = [updated]) ∧
    ∀ t₁ t₂ tx₁ tx₂ store₁ store₂, t₁.steps <+: steps → t₂.steps <+: steps →
      Span.Commits t₁ (empty schema supply) tx₁ store₁ →
      Span.Commits t₂ (empty schema supply) tx₂ store₂ →
      ∀ r₁ ∈ (t₁.snapshot (empty schema supply)).rows m.name,
      ∀ r₂ ∈ (t₂.snapshot (empty schema supply)).rows m.name,
        m.keyOf r₁ = m.keyOf r₂ → r₁.get v = r₂.get v →
        (∃ op ∈ tx₁.log, op.changes m r₁ = true) → (∃ op ∈ tx₂.log, op.changes m r₂ = true) →
          t₁ = t₂ := by
  have hs := SchemaDecl.wellFormed hd
  constructor
  · intro t tx store hp hcommits r hr
    constructor
    · intro op hop hchanges key hk
      exact (hcommits.logRuns hs hm hv hc ht h hp).ahead_eq hr
        (Span.mem_writes_of_changes hop hchanges) hchanges hk
    · intro current updated hlast hk
      exact final_of_updatesLast hs hm hv hc ht h hp hcommits hr hlast hk
  · rintro t₁ t₂ tx₁ tx₂ store₁ store₂ hp₁ hp₂ h₁ h₂ r₁ hr₁ r₂ hr₂ hkey hversion
      ⟨op₁, hop₁, hc₁⟩ ⟨op₂, hop₂, hc₂⟩
    rcases List.prefix_or_prefix_of_prefix hp₁ hp₂ with hbefore | hbefore
    · rcases List.prefix_concat_iff.1 hbefore with he | hahead
      · exact Span.eq_of_steps he
      · exact absurd hahead (Span.not_steps_prefix_ahead hs hm hv hc ht h hp₁ hp₂ h₁ h₂ hr₁ hr₂
          hkey hversion hop₁ hc₁ hop₂ hc₂)
    · rcases List.prefix_concat_iff.1 hbefore with he | hahead
      · exact (Span.eq_of_steps he).symm
      · exact absurd hahead (Span.not_steps_prefix_ahead hs hm hv hc ht h hp₂ hp₁ h₂ h₁ hr₂ hr₁
          hkey.symm hversion.symm hop₂ hc₂ hop₁ hc₁)

end Sessions

/-! ## A note that is changed -/

/-- The first note. -/
def Record.note : Record := .ofList [("id", .int 1), ("version", .int 1)]

/-- A note is inserted, and another transaction changes its text. -/
def Span.edit : Span where
  name := "a"
  before := [.begin "c", .insert "c" "note" .empty, .commit "c"]
  during := [.update "a" "note" .note (.ofList [("text", .text "x")])]
  stays := by simp

theorem Span.eq_of_prefix_edit {front : List Step} {st : Step}
    (h : front ++ [st] <+: Span.edit.steps) {model : String} {current : Record}
    (hst : st.current? = some (model, current)) :
    front = Span.edit.before ++ [.begin "a"] ∧
      st = .update "a" "note" .note (.ofList [("text", .text "x")]) := by
  obtain ⟨back, h⟩ := h
  rw [List.append_assoc] at h
  rcases front with _ | ⟨_, _ | ⟨_, _ | ⟨_, _ | ⟨_, _ | ⟨_, _ | ⟨_, front⟩⟩⟩⟩⟩⟩
  case cons.cons.cons.cons.nil =>
    cases h
    exact ⟨rfl, rfl⟩
  case cons.cons.cons.cons.cons.cons =>
    have hlen := congrArg List.length h
    simp [Span.edit, Span.steps, Span.ahead] at hlen
  all_goals
    cases h
    cases hst

namespace Sessions

theorem careful_edit :
    (empty .notes fun _ => default).Careful .note "version" Span.edit.steps := by
  constructor
  · have hinserted : Model.note.inserted ((empty .notes fun _ => default).history Span.edit.steps) =
        [.int 1] := rfl
    rw [hinserted]
    exact fun k => List.countP_le_length
  · intro front name current changes hp tx p r ho hplace hr
    obtain ⟨rfl, he⟩ := Span.eq_of_prefix_edit hp rfl
    cases he
    cases ho
    cases hplace
    cases hr
    rfl
  · intro front name current changes hp h
    obtain ⟨-, he⟩ := Span.eq_of_prefix_edit hp rfl
    cases he
    have hone : (1 : Int64) = Int64.maxValue := Value.int.inj h
    exact absurd hone (by decide)
  · intro front st hp current hst
    obtain ⟨rfl, rfl⟩ := Span.eq_of_prefix_edit hp hst
    cases hst
    exact ⟨[.begin "c"], .insert "c" "note" .empty, ⟨_, rfl⟩, rfl, List.mem_singleton.2 rfl⟩

theorem no_lost_update_edit : ∃ tx store,
    (empty .notes fun _ => default).Careful .note "version" Span.edit.steps ∧
      Span.edit.Commits (empty .notes fun _ => default) tx store ∧
      Model.note.withKey (.int 1) (store.tables.rows "note") =
        [.ofList [("id", .int 1), ("text", .text "x"), ("version", .int 2)]] := by
  refine ⟨_, _, careful_edit, ⟨rfl, rfl⟩, ?_⟩
  have h := no_lost_update SchemaDecl.resolve_notes (List.mem_singleton.2 rfl) rfl rfl rfl _ _
    careful_edit
  refine (h.1 Span.edit _ _ (List.prefix_refl _) ⟨rfl, rfl⟩ .note (List.mem_singleton.2 rfl)).2
    .note _ ⟨[], _, [], _, [], rfl, rfl, rfl, (List.append_nil _).symm, ?_⟩ ?_
  · exact fun op hop => by cases hop
  · exact Value.same_int_iff.2 rfl

end Sessions

end RecordApi
