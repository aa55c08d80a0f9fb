import Mathlib.Data.List.Induction
import Mathlib.Data.List.Infix
import Mathlib.Tactic.FinCases
import RecordApi.Proofs.Store.Deletion
import RecordApi.Proofs.Store.Versions

/-!
# Keys that are generated

The key of a record was given to it by an operation of the history or of the log of the transaction
that works on it (`Sessions.assigned_of_committed`, `Sessions.assigned_of_working`). Of the
operations only inserts count: the greatest key so far is no less than any whole number that was
inserted as a key, until it starts again from the smallest number (`Sessions.counted_after`). So a
record that already has the key which is generated for a new one got it from an update
(`Sessions.generated_fresh_or_rekeyed`).
-/

namespace RecordApi

variable {schema : Schema} {supply : Nat → Uuid} {m : Model}

/-! ## Where keys come from -/

/-- An update sets the key of a record of a model to another one. -/
def Operation.Rekeys (m : Model) (key : Value) : Operation → Prop
  | .update _ _ _ changes => changes.contains m.primaryKey.name = true ∧ m.keyOf changes = key
  | _ => False

namespace Operation

variable {op : Operation} {ops : List Operation} {rows next final : List Record} {key : Value}

/-- What gives a key to a record inserts the record or changes its key. -/
theorem inserted_or_rekeys_of_assigns (h : key ∈ op.assigns m) :
    op.inserted? m = some key ∨ op.Rekeys m key := by
  cases op with
  | insert name r => exact .inl (by rw [List.mem_singleton.1 h]; rfl)
  | update name k expected changes =>
      simp only [assigns] at h
      split at h
      · next hset => exact .inr ⟨hset, (List.mem_singleton.1 h).symm⟩
      · cases h
  | delete => cases h

theorem Acts.assigned {ops : List Operation} (h : op.Acts m rows next) (hop : op ∈ ops)
    (hrows : ∀ r ∈ rows, ∃ o ∈ ops, m.keyOf r ∈ o.assigns m) :
    ∀ r ∈ next, ∃ o ∈ ops, m.keyOf r ∈ o.assigns m := by
  intro r hr
  rcases h.of_mem hr with hr | ⟨name, rfl⟩ | ⟨name, key, expected, changes, q, rfl, hq, -, -, rfl⟩
  · exact hrows r hr
  · exact ⟨_, hop, List.mem_cons_self⟩
  · rw [m.keyOf_merge]
    split
    · next hset => exact ⟨_, hop, by simp [assigns, hset]⟩
    · exact hrows q hq

/-- The keys that a run leaves behind are given by its operations. -/
theorem Runs.assigned (h : Runs m ops [] final) :
    ∀ r ∈ final, ∃ op ∈ ops, m.keyOf r ∈ op.assigns m :=
  h.all (fun _ _ _ hop ha => ha.assigned hop) (fun _ hop => hop) fun _ hr => by cases hr

end Operation

namespace Sessions

/-- An open transaction works on what its log makes of the tables that were committed when it
began. -/
theorem replay_opened {s : Sessions} (hof : s.Of schema) (hs : s.opened = [])
    (steps : List Step) {name : String} {tx : Transaction}
    (ho : (s.after steps).opened.get? name = some tx) :
    ∃ front, front <+: steps ∧
      tx.log.foldlM (Operation.replay schema) (s.after front).store.tables = .ok tx.working := by
  induction steps using List.reverseRecOn generalizing name tx with
  | nil =>
      rw [after_nil, hs] at ho
      cases ho
  | append_singleton steps st ih =>
      rw [after_append] at ho
      rcases (moves_step (s.after steps) st).opened_cases ho with
        hold | ⟨-, rfl⟩ | ⟨old, n, op, rows, -, hold, hw, rfl⟩
      · obtain ⟨front, hp, hreplay⟩ := ih hold
        exact ⟨front, hp.trans (List.prefix_append steps [st]), hreplay⟩
      · exact ⟨steps, List.prefix_append steps [st], rfl⟩
      · obtain ⟨front, hp, hreplay⟩ := ih hold
        exact ⟨front, hp.trans (List.prefix_append steps [st]),
          Operation.replay_wrote hw ((hof.after steps).opened _ old hold) hreplay⟩

theorem runs_history (hm : schema.model? m.name = some m) (steps : List Step) :
    Operation.Runs m (m.writes ((empty schema supply).history steps)) []
      (((empty schema supply).after steps).store.tables.rows m.name) :=
  Operation.runs_of_replay hm (replay_history (of_empty schema supply) steps)

/-- The key of a committed record is given to it by an operation of the history. -/
theorem assigned_of_committed (hm : schema.model? m.name = some m) (steps : List Step) {r : Record}
    (hr : r ∈ ((empty schema supply).after steps).store.tables.rows m.name) :
    ∃ op ∈ m.writes ((empty schema supply).history steps), m.keyOf r ∈ op.assigns m :=
  (runs_history hm steps).assigned r hr

/-- The key of a record in the working tables of a transaction is given to it by an operation of
the history or of the log of the transaction. -/
theorem assigned_of_working (hm : schema.model? m.name = some m) (steps : List Step)
    {name : String} {tx : Transaction}
    (ho : ((empty schema supply).after steps).opened.get? name = some tx) {r : Record}
    (hr : r ∈ tx.working.rows m.name) :
    ∃ op ∈ m.writes ((empty schema supply).history steps ++ tx.log),
      m.keyOf r ∈ op.assigns m := by
  obtain ⟨front, ⟨rest, rfl⟩, hreplay⟩ := replay_opened (of_empty schema supply) rfl steps ho
  have hrun := Operation.Runs.append_iff.2
    ⟨_, runs_history hm front, Operation.runs_of_replay hm hreplay⟩
  obtain ⟨op, hop, hkey⟩ := hrun.assigned r hr
  refine ⟨op, ?_, hkey⟩
  rw [history_append, Model.writes_append, Model.writes_append]
  rcases List.mem_append.1 hop with hop | hop
  · exact List.mem_append_left _ (List.mem_append_left _ hop)
  · exact List.mem_append_right _ hop

end Sessions

/-! ## The greatest key so far -/

namespace KeySource

variable {keys keys' : KeySource} {r completed : Record}

theorem lastOf_observe (keys : KeySource) (model : String) (n : Int64) (name : String) :
    (keys.observe model (.int n)).lastOf name =
      if name = model ∧ keys.lastOf model < n then n else keys.lastOf name := by
  simp only [observe]
  split
  · next hlt =>
    unfold lastOf at hlt ⊢
    rw [Keyed.get?_insert]
    by_cases hname : name = model
    · rw [if_pos hname, if_pos ⟨hname, hlt⟩]
      rfl
    · rw [if_neg hname, if_neg fun h => hname h.1]
  · next hlt => rw [if_neg fun h => hlt h.2]

theorem lastOf_issue (keys : KeySource) (m : Model) (name : String) :
    (keys.issue m).1.lastOf name =
      if name = m.name ∧ m.primaryKey.type = .integer then keys.lastOf m.name + 1
      else keys.lastOf name := by
  unfold issue
  split
  · next ht =>
    unfold lastOf
    rw [Keyed.get?_insert]
    by_cases hname : name = m.name
    · rw [if_pos hname, if_pos ⟨hname, ht⟩]
      rfl
    · rw [if_neg hname, if_neg fun h => hname h.1]
  · next ht =>
    rw [if_neg fun h => by rw [ht] at h; cases h.2]
    rfl
  · next hi _ => rw [if_neg fun h => hi h.2]

theorem le_lastOf_observe (keys : KeySource) (model : String) (v : Value) (name : String) :
    keys.lastOf name ≤ (keys.observe model v).lastOf name := by
  cases v with
  | int n =>
      rw [lastOf_observe]
      split
      · next h => exact h.1 ▸ Int64.le_of_lt h.2
      · exact Int64.le_refl _
  | _ => exact Int64.le_refl _

theorem complete_fst (keys : KeySource) (m : Model) (r : Record) :
    (keys.complete m r).1 =
      if (m.keyOf r).isNull then (keys.issue m).1 else keys.observe m.name (m.keyOf r) := by
  unfold complete
  split
  · split <;> next h => rw [h]
  · rfl

/-- The greatest key so far goes up, unless it is the greatest number. -/
theorem le_lastOf_complete (keys : KeySource) (m : Model) (r : Record) {name : String}
    (hmax : keys.lastOf name ≠ Int64.maxValue) :
    keys.lastOf name ≤ (keys.complete m r).1.lastOf name := by
  rw [complete_fst]
  split
  · rw [lastOf_issue]
    split
    · next h =>
      obtain ⟨rfl, -⟩ := h
      exact Int64.le_of_lt (int64_lt_succ hmax)
    · exact Int64.le_refl _
  · exact le_lastOf_observe keys _ _ _

/-- A record without a key gets the next whole number, and the key of any other is noted. -/
theorem keyOf_complete (h : keys.complete m r = (keys', .ok completed)) :
    m.keyOf completed ≠ .null ∧ (∀ n, m.keyOf completed = .int n → n ≤ keys'.lastOf m.name) ∧
      (m.keyOf r = .null → m.primaryKey.type = .integer →
        m.keyOf completed = .int (keys.lastOf m.name + 1)) := by
  have hfst := complete_fst keys m r
  rw [h] at hfst
  dsimp only at hfst
  unfold complete at h
  split at h
  · next hnull =>
    rw [if_pos hnull] at hfst
    split at h
    · next key hi =>
      cases h
      have hkey : m.keyOf (r.insert m.primaryKey.name key) = key := by
        unfold Model.keyOf
        rw [Record.get_insert, if_pos rfl]
      rw [hkey, hfst]
      simp only [lastOf_issue]
      unfold issue at hi
      split at hi
      · next ht =>
        cases hi
        refine ⟨nofun, fun n hn => ?_, fun _ _ => rfl⟩
        rw [if_pos ⟨trivial, ht⟩, ← Value.int.inj hn]
        exact Int64.le_refl _
      · next ht =>
        cases hi
        exact ⟨nofun, nofun, fun _ hint => by rw [ht] at hint; cases hint⟩
      · cases hi
    · cases h
  · next hnull =>
    rw [if_neg hnull] at hfst
    cases h
    have hne : m.keyOf r ≠ .null := fun hn => hnull (Value.isNull_eq_true_iff.2 hn)
    refine ⟨hne, fun n hn => ?_, fun hn => absurd hn hne⟩
    rw [hfst, hn, lastOf_observe]
    split
    · exact Int64.le_refl _
    · next hlt => exact Int64.not_lt.1 fun h => hlt ⟨rfl, h⟩

end KeySource

theorem Model.keyOf_withFirstVersion {r : Record} (h : m.keyOf r ≠ .null) :
    m.keyOf (m.withFirstVersion r) = m.keyOf r := by
  unfold withFirstVersion
  split
  · next version _ =>
    split
    · next hnull =>
      unfold keyOf at h ⊢
      rw [Record.get_insert, if_neg]
      rintro rfl
      exact h (Value.isNull_eq_true_iff.1 hnull)
    · rfl
  · rfl

/-- A commit gives out no keys. -/
theorem Store.keys_of_commit {s s' : Store} {tx : Transaction} (h : s.commit tx = .ok s') :
    s'.keys = s.keys := by
  rcases Store.commit_eq_ok h with ⟨-, rfl⟩ | ⟨tables, -, -, rfl⟩ <;> rfl

namespace Transaction

variable {tx : Transaction} {keys : KeySource} {model : String} {values r : Record}

theorem insert_fst (tx : Transaction) (keys : KeySource) (model : String) (values : Record) :
    (tx.insert keys model values).1 = keys ∨
      ∃ n given, (tx.insert keys model values).1 = (keys.complete n given).1 := by
  unfold insert
  split
  · exact .inl rfl
  · next n _ =>
    split
    · exact .inl rfl
    · next given _ =>
      refine .inr ⟨n, given, ?_⟩
      split <;> next h => rw [h]

/-- What an insert answers with is the completed record. -/
theorem keyOf_of_insert {keys' : KeySource} {tx' : Transaction}
    (hm : tx.schema.model? model = some m)
    (h : tx.insert keys model values = (keys', .ok (r, tx'))) :
    ∃ given completed, m.normalize values = .ok given ∧
      keys.complete m given = (keys', .ok completed) ∧ m.keyOf r = m.keyOf completed := by
  unfold insert at h
  rw [modelNamed_eq_ok_iff.2 hm] at h
  dsimp only at h
  split at h
  · cases h
  · next given hn =>
    split at h
    · cases h
    · next completed hk =>
      obtain ⟨rfl, h⟩ := Prod.mk.inj h
      have hkey := Model.keyOf_withFirstVersion (KeySource.keyOf_complete hk).1
      unfold append at h
      dsimp only at h
      split at h
      · cases h
      · cases h
        exact ⟨given, completed, hn, hk, hkey⟩

end Transaction

namespace Sessions

variable {s : Sessions} {past : List Operation}

theorem keys_step_of_ne_insert {st : Step}
    (h : ∀ name model values, st ≠ .insert name model values) :
    (s.step st).2.store.keys = s.store.keys := by
  unfold step
  split
  · rfl
  · split
    · rfl
    · next tx _ =>
      cases st with
      | insert name model values => exact absurd rfl (h name model values)
      | begin | abandon | fetch | count => rfl
      | update | delete =>
          simp only [stepOpen]
          split <;> rfl
      | commit =>
          simp only [stepOpen]
          split
          · rfl
          · next hc => exact Store.keys_of_commit hc

theorem step_insert {name model : String} {values : Record} {tx : Transaction}
    (ho : s.opened.get? name = some tx) :
    (s.step (.insert name model values)).2.store.keys =
      (tx.insert s.store.keys model values).1 := by
  unfold step
  simp only [nameOf, ho, stepOpen]
  split <;> next h => rw [h]

/-- A step takes the greatest key of a model so far up, unless it is the greatest number. -/
theorem le_lastOf_step {model : String} (hmax : s.store.keys.lastOf model ≠ Int64.maxValue)
    (st : Step) : s.store.keys.lastOf model ≤ (s.step st).2.store.keys.lastOf model := by
  cases st with
  | insert name n values =>
      cases ho : s.opened.get? name with
      | none =>
          have hstep : (s.step (.insert name n values)).2 = s := by
            simp only [step, nameOf, ho]
          rw [hstep]
          exact Int64.le_refl _
      | some tx =>
          rw [step_insert ho]
          rcases tx.insert_fst s.store.keys n values with h | ⟨m, given, h⟩
          · rw [h]
            exact Int64.le_refl _
          · rw [h]
            exact KeySource.le_lastOf_complete _ _ _ hmax
  | _ =>
      rw [keys_step_of_ne_insert fun _ _ _ h => by cases h]
      exact Int64.le_refl _

/-- The key of a record that a step inserts is the one that it has or the next whole number, and no
greater than the greatest key so far. -/
theorem keyOf_step {name : String} {values r : Record} {tx : Transaction}
    (ho : s.opened.get? name = some tx) (hm : tx.schema.model? m.name = some m)
    (hr : (s.step (.insert name m.name values)).1 = .record r) :
    (∀ n, m.keyOf r = .int n →
        n ≤ (s.step (.insert name m.name values)).2.store.keys.lastOf m.name) ∧
      (m.keyOf values = .null → m.primaryKey.type = .integer →
        m.keyOf r = .int (s.store.keys.lastOf m.name + 1)) := by
  rw [step_insert ho]
  simp only [step, nameOf, ho, stepOpen] at hr
  split at hr
  · cases hr
  · next keys r' tx' hi =>
    obtain rfl := StepResult.record.inj hr
    obtain ⟨given, completed, hn, hk, hkey⟩ := Transaction.keyOf_of_insert hm hi
    obtain ⟨-, hle, hnext⟩ := KeySource.keyOf_complete hk
    rw [hi, hkey]
    refine ⟨hle, fun hnull => hnext ?_⟩
    unfold Model.keyOf at hnull ⊢
    cases Model.normalizedAt hn m.primaryKey.name with
    | absent _ hout =>
        unfold Record.get
        rw [hout]
        rfl
    | column c v w hc hgiven hcoerce hout =>
        have hv : v = .null := by
          unfold Record.get at hnull
          rw [hgiven] at hnull
          exact hnull
        subst hv
        rw [Value.coerce_null] at hcoerce
        cases hcoerce
        unfold Record.get
        rw [hout]
        rfl

/-! ## Histories -/

/-- The whole numbers that operations insert as keys of a model are no greater than the greatest key
so far. -/
structure Counted (s : Sessions) (m : Model) (past : List Operation) : Prop where
  history : ∀ n, .int n ∈ m.inserted past → n ≤ s.store.keys.lastOf m.name
  logged : ∀ name tx, s.opened.get? name = some tx →
    ∀ n, .int n ∈ m.inserted tx.log → n ≤ s.store.keys.lastOf m.name

theorem Counted.step (hof : s.Of schema) (hm : schema.model? m.name = some m)
    (h : s.Counted m past) (hmax : s.store.keys.lastOf m.name ≠ Int64.maxValue) (st : Step) :
    (s.step st).2.Counted m (past ++ s.committed st) := by
  have hmoves := s.moves_step st
  have hle := le_lastOf_step hmax st
  constructor
  · intro n hn
    rw [Model.inserted_append] at hn
    rcases List.mem_append.1 hn with hn | hn
    · exact Int64.le_trans (h.history n hn) hle
    · rcases hmoves.store_cases with ⟨hops, -, -⟩ | ⟨name, tx, -, ho, hops, -⟩
      · rw [hops] at hn
        cases hn
      · rw [hops] at hn
        exact Int64.le_trans (h.logged name tx ho n hn) hle
  · intro name tx' ho' n hn
    rcases hmoves.opened_cases ho' with ho | ⟨-, rfl⟩ | ⟨tx, k, op, rows, rfl, ho, hw, rfl⟩
    · exact Int64.le_trans (h.logged name tx' ho n hn) hle
    · cases hn
    · change .int n ∈ m.inserted (tx.log ++ [op]) at hn
      rw [Model.inserted_append] at hn
      rcases List.mem_append.1 hn with hn | hn
      · exact Int64.le_trans (h.logged _ tx ho n hn) hle
      · -- the operation that is logged now inserts the record that the step answers with
        obtain ⟨o, hop, hkey⟩ := List.mem_filterMap.1 hn
        obtain ⟨hop, hmodel⟩ := List.mem_filter.1 hop
        obtain rfl := List.mem_singleton.1 hop
        obtain ⟨hname, hmodel?⟩ := hw.model?
        have hmodel : o.model = m.name := by simpa using hmodel
        rw [hmodel, hof.opened _ tx ho, hm] at hmodel?
        obtain rfl := Option.some.inj hmodel?
        generalize hresult : (s.step st).1 = result at hw
        cases hw with
        | insert named =>
            have hsame := Schema.name_of_model? named
            subst hsame
            exact (keyOf_step ho named hresult).1 n (Option.some.inj hkey)
        | update | delete => cases hkey

/-- The greatest key of a model so far was the greatest number at some point. -/
def Exhausts (s : Sessions) (m : Model) (steps : List Step) : Prop :=
  ∃ front, front <+: steps ∧ (s.after front).store.keys.lastOf m.name = Int64.maxValue

theorem counted_after (hm : schema.model? m.name = some m) (steps : List Step)
    (hmax : ¬(empty schema supply).Exhausts m steps) :
    ((empty schema supply).after steps).Counted m ((empty schema supply).history steps) := by
  induction steps using List.reverseRecOn with
  | nil =>
      constructor
      · intro n hn
        cases hn
      · intro name tx ho
        cases ho
  | append_singleton steps st ih =>
      have hfront : ∀ front, front <+: steps →
          ((empty schema supply).after front).store.keys.lastOf m.name ≠ Int64.maxValue :=
        fun front hp he => hmax ⟨front, hp.trans (List.prefix_append steps [st]), he⟩
      have ih := ih fun ⟨front, hp, he⟩ => hfront front hp he
      rw [after_append, history_append, history, history, List.append_nil]
      exact ih.step ((of_empty schema supply).after steps) hm
        (hfront steps (List.prefix_refl steps)) st

/-- An insert that leaves the key out is given the number after the greatest key so far. If a record
that is committed, or one on which the transaction works, has this key already, then an update gave
it to a record, or the greatest key so far was the greatest number before. -/
theorem generated_fresh_or_rekeyed {d : SchemaDecl} (hd : d.resolve = .ok schema)
    (hm : m ∈ schema.models) (hk : m.primaryKey.type = .integer) (supply : Nat → Uuid)
    (steps : List Step) {name : String} {tx : Transaction} {values r : Record}
    (ho : ((empty schema supply).after steps).opened.get? name = some tx)
    (hnull : m.keyOf values = .null)
    (hr : (((empty schema supply).after steps).step (.insert name m.name values)).1 =
      .record r) :
    m.keyOf r =
        .int (((empty schema supply).after steps).store.keys.lastOf m.name + 1) ∧
      ((empty schema supply).Exhausts m steps ∨
        (∀ q ∈ ((empty schema supply).after steps).store.tables.rows m.name,
            (m.keyOf q).same (m.keyOf r) = true →
              ∃ op ∈ m.writes ((empty schema supply).history steps), op.Rekeys m (m.keyOf r)) ∧
          ∀ q ∈ tx.working.rows m.name, (m.keyOf q).same (m.keyOf r) = true →
            ∃ op ∈ m.writes ((empty schema supply).history steps ++ tx.log),
              op.Rekeys m (m.keyOf r)) := by
  have hs := SchemaDecl.wellFormed hd
  have hname := hs.model?_name hm
  have hof := (of_empty schema supply).after steps
  have hvalid : ((empty schema supply).after steps).Keeps m (Record.Valid m) (Operation.Valid m) :=
    keeps_valid hs hm steps
  obtain ⟨-, hnext⟩ := keyOf_step ho ((hof.opened name tx ho).symm ▸ hname) hr
  have hkey := hnext hnull hk
  refine ⟨hkey, ?_⟩
  by_cases hmax : (empty schema supply).Exhausts m steps
  · exact .inl hmax
  · have hcounted := counted_after hname steps hmax
    have hlt := int64_lt_succ fun he => hmax ⟨steps, List.prefix_refl steps, he⟩
    have heq : ∀ q : Record, q.Valid m → (m.keyOf q).same (m.keyOf r) = true →
        m.keyOf q = m.keyOf r := by
      intro q hq hsame
      refine ((hq.isKey (hs.models m hm) (.inl hk)).same_iff ?_).1 hsame
      rw [hkey]
      trivial
    -- what inserts a key has inserted one that is counted, so only an update is left
    have hrekeys : ∀ ops, (∀ n, .int n ∈ m.inserted ops →
        n ≤ ((empty schema supply).after steps).store.keys.lastOf m.name) →
          (∃ op ∈ m.writes ops, m.keyOf r ∈ op.assigns m) →
            ∃ op ∈ m.writes ops, op.Rekeys m (m.keyOf r) := by
      rintro ops hle ⟨op, hop, hassigns⟩
      rcases Operation.inserted_or_rekeys_of_assigns hassigns with hins | hrekeys
      · rw [hkey] at hins
        exact absurd (hle _ (mem_inserted hop hins)) (Int64.not_le.2 hlt)
      · exact ⟨op, hop, hrekeys⟩
    refine .inr ⟨fun q hq hsame => ?_, fun q hq hsame => ?_⟩
    · refine hrekeys _ hcounted.history ?_
      rw [← heq q (hvalid.committed q hq) hsame]
      exact assigned_of_committed hname steps hq
    · refine hrekeys _ (fun n hn => ?_) ?_
      · rw [Model.inserted_append] at hn
        rcases List.mem_append.1 hn with hn | hn
        · exact hcounted.history n hn
        · exact hcounted.logged name tx ho n hn
      · rw [← heq q (hvalid.working name tx ho q hq) hsame]
        exact assigned_of_working hname steps ho hq

/-- A note gets the number two from a client. -/
def rekeyed : List Step :=
  [.begin "a", .insert "a" "note" (.ofList [("id", .int 1)]),
    .update "a" "note" (.ofList [("id", .int 1), ("version", .int 1)]) (.ofList [("id", .int 2)]),
    .commit "a", .begin "b"]

theorem not_exhausts_rekeyed : ¬(empty .notes fun _ => default).Exhausts .note rekeyed := by
  rintro ⟨front, hp, hmax⟩
  rw [← List.mem_inits] at hp
  revert hmax
  fin_cases hp <;> decide

/-- The next note is given the same number, which an update has given to the first one. -/
theorem generated_fresh_or_rekeyed_rekeyed : ∃ tx r q,
    ((empty .notes fun _ => default).after rekeyed).opened.get? "b" = some tx ∧
      (((empty .notes fun _ => default).after rekeyed).step (.insert "b" "note" .empty)).1 =
        .record r ∧
      q ∈ ((empty .notes fun _ => default).after rekeyed).store.tables.rows "note" ∧
      Model.note.keyOf q = .int 2 ∧ Model.note.keyOf r = .int 2 ∧
      ∃ op ∈ Model.note.writes ((empty .notes fun _ => default).history rekeyed),
        op.Rekeys .note (.int 2) := by
  refine ⟨_, .ofList [("id", .int 2), ("version", .int 1)], _, rfl, rfl, List.mem_cons_self, rfl,
    rfl, ?_⟩
  have hr : (((empty .notes fun _ => default).after rekeyed).step (.insert "b" "note" .empty)).1 =
      .record (.ofList [("id", .int 2), ("version", .int 1)]) := rfl
  obtain ⟨-, hmax | ⟨hcommitted, -⟩⟩ := generated_fresh_or_rekeyed SchemaDecl.resolve_notes
    (List.mem_singleton.2 rfl) rfl (fun _ => default) rekeyed rfl rfl hr
  · exact absurd hmax not_exhausts_rekeyed
  · exact hcommitted _ List.mem_cons_self (by decide)

end Sessions

end RecordApi
