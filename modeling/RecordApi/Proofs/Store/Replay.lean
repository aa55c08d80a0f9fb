import RecordApi.Proofs.Store.Effect

/-!
# Logs and what they leave behind

`Operation.Runs` is the run of some operations on the records of one model. A log that is replayed
on tables runs, for every model, the operations on it (`runs_of_replay`), and a log that runs for
every model can be replayed (`replay_of_runs`). The tables of a store are what its whole history
leaves behind (`replay_history`), and those of a transaction are what its log makes of the tables
with which it began (`Span.replay_log`).
-/

namespace RecordApi

/-! ## Runs of operations -/

/-- The operations on the records of a model. -/
def Model.writes (m : Model) (ops : List Operation) : List Operation :=
  ops.filter fun op => op.model == m.name

theorem Model.writes_append (m : Model) (ops more : List Operation) :
    m.writes (ops ++ more) = m.writes ops ++ m.writes more :=
  List.filter_append ops more

namespace Operation

variable {schema : Schema} {m : Model} {op : Operation} {ops more : List Operation}
  {rows next final : List Record} {t t' : Tables}

/-- The operations act on the records of a model one after the other. -/
inductive Runs (m : Model) : List Operation → List Record → List Record → Prop
  | nil (rows : List Record) : Runs m [] rows rows
  | cons {op : Operation} {ops : List Operation} {rows next final : List Record}
      (acts : op.Acts m rows next) (rest : Runs m ops next final) : Runs m (op :: ops) rows final

theorem Runs.append_iff :
    Runs m (ops ++ more) rows final ↔ ∃ next, Runs m ops rows next ∧ Runs m more next final := by
  constructor
  · intro h
    induction ops generalizing rows with
    | nil => exact ⟨rows, .nil rows, h⟩
    | cons op ops ih =>
        obtain _ | ⟨ha, hr⟩ := h
        obtain ⟨next, hn, hm⟩ := ih hr
        exact ⟨next, .cons ha hn, hm⟩
  · rintro ⟨next, hn, hm⟩
    induction hn with
    | nil => exact hm
    | cons ha _ ih => exact .cons ha (ih hm)

theorem Runs.all {R : Record → Prop} {Q : Operation → Prop}
    (keep : ∀ op rows next, Q op → op.Acts m rows next → (∀ r ∈ rows, R r) → ∀ r ∈ next, R r)
    (h : Runs m ops rows final) (hops : ∀ op ∈ ops, Q op) (hrows : ∀ r ∈ rows, R r) :
    ∀ r ∈ final, R r := by
  induction h with
  | nil => exact hrows
  | cons ha _ ih =>
      obtain ⟨hop, hops⟩ := List.forall_mem_cons.1 hops
      exact ih hops (keep _ _ _ hop ha hrows)

/-! ## Replaying -/

/-- Replaying a log runs the operations on each model. -/
theorem runs_of_replay (hm : schema.model? m.name = some m)
    (h : ops.foldlM (replay schema) t = .ok t') :
    Runs m (m.writes ops) (t.rows m.name) (t'.rows m.name) := by
  induction ops generalizing t with
  | nil =>
      obtain rfl := pure_eq_ok_iff.1 h
      exact .nil _
  | cons op ops ih =>
      rw [List.foldlM_cons, bind_eq_ok_iff] at h
      obtain ⟨t₁, h₁, h⟩ := h
      obtain ⟨n, rows, hn, ha, rfl⟩ := replay_eq_ok_iff.1 h₁
      have hname := Schema.name_of_model? hn
      specialize ih h
      rw [Tables.rows_setRows] at ih
      unfold Model.writes at ih ⊢
      by_cases hmodel : op.model = m.name
      · obtain rfl : n = m := by
          rw [hmodel, hm] at hn
          exact (Option.some.inj hn).symm
        rw [if_pos rfl] at ih
        rw [List.filter_cons_of_pos (by simpa using hmodel)]
        exact .cons ha ih
      · rw [if_neg (by rw [hname]; exact fun he => hmodel he.symm)] at ih
        rw [List.filter_cons_of_neg (by simpa using hmodel)]
        exact ih

/-- A log that makes some tables those of its transaction does so after one more write. -/
theorem replay_wrote {tx : Transaction} {st : Step} {result : StepResult} {op : Operation}
    {rows : List Record} (hw : tx.Writes m st result op rows) (hschema : tx.schema = schema)
    (h : tx.log.foldlM (replay schema) t = .ok tx.working) :
    (tx.wrote m rows op).log.foldlM (replay schema) t = .ok (tx.wrote m rows op).working := by
  have hop : op.replay schema tx.working = .ok (tx.working.setRows m.name rows) :=
    replay_eq_ok_iff.2 ⟨m, rows, hschema ▸ hw.model?.2, hw.acts, rfl⟩
  refine foldlM_append_eq_ok_iff.2 ⟨tx.working, h, ?_⟩
  rw [List.foldlM_cons, hop]
  rfl

/-- A log that runs for every model can be replayed. -/
theorem replay_of_runs (hops : ∀ op ∈ ops, ∃ m, schema.model? op.model = some m)
    (h : ∀ m, schema.model? m.name = some m →
      ∃ final, Runs m (m.writes ops) (t.rows m.name) final) :
    ∃ t', ops.foldlM (replay schema) t = .ok t' := by
  induction ops generalizing t with
  | nil => exact ⟨t, rfl⟩
  | cons op ops ih =>
      obtain ⟨⟨m, hm⟩, hops⟩ := List.forall_mem_cons.1 hops
      have hname := Schema.name_of_model? hm
      have hself : schema.model? m.name = some m := hname ▸ hm
      obtain ⟨final, hf⟩ := h m hself
      unfold Model.writes at hf
      rw [List.filter_cons_of_pos (by simpa using hname.symm)] at hf
      obtain _ | ⟨ha, hr⟩ := hf
      rename_i rows
      have hreplay : op.replay schema t = .ok (t.setRows m.name rows) :=
        replay_eq_ok_iff.2 ⟨m, rows, hm, ha, rfl⟩
      obtain ⟨t', ht⟩ := ih (t := t.setRows m.name rows) hops fun n hn => by
        rw [Tables.rows_setRows]
        by_cases he : n.name = m.name
        · obtain rfl : n = m := by
            rw [he, hself] at hn
            exact (Option.some.inj hn).symm
          rw [if_pos rfl]
          exact ⟨final, hr⟩
        · rw [if_neg he]
          obtain ⟨other, ho⟩ := h n hn
          unfold Model.writes at ho
          rw [List.filter_cons_of_neg (by simpa [← hname] using fun h => he h.symm)] at ho
          exact ⟨other, ho⟩
      exact ⟨t', by rw [List.foldlM_cons, bind_eq_ok_iff]; exact ⟨_, hreplay, ht⟩⟩

theorem model?_of_replay (h : ops.foldlM (replay schema) t = .ok t') :
    ∀ op ∈ ops, ∃ m, schema.model? op.model = some m := by
  induction ops generalizing t with
  | nil => exact fun op hop => by cases hop
  | cons op ops ih =>
      rw [List.foldlM_cons, bind_eq_ok_iff] at h
      obtain ⟨t₁, h₁, h⟩ := h
      obtain ⟨m, rows, hm, -⟩ := replay_eq_ok_iff.1 h₁
      exact List.forall_mem_cons.2 ⟨⟨m, hm⟩, ih h⟩

theorem rows_of_replay {name : String} (h : ops.foldlM (replay schema) t = .ok t')
    (hn : ∀ op ∈ ops, op.model ≠ name) : t'.rows name = t.rows name := by
  refine foldlM_induct (P := fun u => u.rows name = t.rows name) h rfl ?_
  intro op hop u v hu hv
  obtain ⟨m, rows, hm, -, rfl⟩ := replay_eq_ok_iff.1 hv
  have hname := Schema.name_of_model? hm
  rw [Tables.rows_setRows, if_neg (by rw [hname]; exact fun he => hn op hop he.symm), hu]

end Operation

/-! ## Runs of sessions -/

namespace Sessions

/-- The sessions after some steps. -/
def after (s : Sessions) (steps : List Step) : Sessions :=
  (s.run steps).2

@[simp] theorem after_nil (s : Sessions) : s.after [] = s := rfl

@[simp] theorem after_cons (s : Sessions) (st : Step) (rest : List Step) :
    s.after (st :: rest) = (s.step st).2.after rest := rfl

theorem after_append (s : Sessions) (front back : List Step) :
    s.after (front ++ back) = (s.after front).after back := by
  induction front generalizing s with
  | nil => rfl
  | cons st front ih => exact ih (s.step st).2

theorem after_induct {P : Sessions → Prop} {s : Sessions} (hs : P s)
    (hstep : ∀ s st, P s → P (s.step st).2) (steps : List Step) : P (s.after steps) := by
  induction steps generalizing s with
  | nil => exact hs
  | cons st rest ih => exact ih (hstep s st hs)

/-- The operations that are committed by some steps. -/
def history (s : Sessions) : List Step → List Operation
  | [] => []
  | st :: rest => s.committed st ++ (s.step st).2.history rest

theorem history_append (s : Sessions) (front back : List Step) :
    s.history (front ++ back) = s.history front ++ (s.after front).history back := by
  induction front generalizing s with
  | nil => rfl
  | cons st front ih =>
      rw [List.cons_append, history, history, ih, List.append_assoc]
      rfl

/-- The store and all open transactions have the same schema. -/
structure Of (s : Sessions) (schema : Schema) : Prop where
  store : s.store.schema = schema
  opened : ∀ name tx, s.opened.get? name = some tx → tx.schema = schema

variable {schema : Schema} {s : Sessions}

theorem of_empty (schema : Schema) (supply : Nat → Uuid) : (empty schema supply).Of schema :=
  ⟨rfl, fun _ _ h => by cases h⟩

theorem Of.step (h : s.Of schema) (st : Step) : (s.step st).2.Of schema := by
  have hmoves := s.moves_step st
  constructor
  · rcases hmoves.store_cases with ⟨-, hs, -⟩ | ⟨name, tx, -, -, -, hc⟩
    · rw [hs, h.store]
    · rcases Store.commit_eq_ok hc with ⟨-, hs⟩ | ⟨tables, -, -, hs⟩
      · rw [hs, h.store]
      · rw [hs]
        exact h.store
  · intro name tx ho
    rcases hmoves.opened_cases ho with ho | ⟨-, rfl⟩ | ⟨old, m, op, rows, -, hold, -, rfl⟩
    · exact h.opened name tx ho
    · exact h.store
    · exact h.opened name old hold

theorem Of.after (h : s.Of schema) (steps : List Step) : (s.after steps).Of schema :=
  after_induct (P := fun s => s.Of schema) h (fun _ st hs => Of.step hs st) steps

theorem replay_committed (h : s.Of schema) (st : Step) :
    (s.committed st).foldlM (Operation.replay schema) s.store.tables =
      .ok (s.step st).2.store.tables := by
  rcases (s.moves_step st).store_cases with ⟨hops, -, ht⟩ | ⟨name, tx, -, ho, hops, hc⟩
  · rw [hops, ht]
    rfl
  · rw [hops, ← h.opened name tx ho]
    exact Store.replay_of_commit hc

/-- The committed tables are what the history makes of the tables at the start. -/
theorem replay_history (h : s.Of schema) (steps : List Step) :
    (s.history steps).foldlM (Operation.replay schema) s.store.tables =
      .ok (s.after steps).store.tables := by
  induction steps generalizing s with
  | nil => rfl
  | cons st rest ih =>
      exact foldlM_append_eq_ok_iff.2 ⟨_, replay_committed h st, ih (h.step st)⟩

end Sessions

end RecordApi
