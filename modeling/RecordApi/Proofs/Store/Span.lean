import RecordApi.Proofs.Store.Replay

/-!
# Spans of transactions

A `Span` is the part of a history from the begin of a transaction to its commit. Its snapshot are
the tables at the begin, and what others commit meanwhile makes the tables on which its log is
replayed. The log makes of the snapshot the tables on which the transaction works (`replay_log`).
-/

namespace RecordApi

/-- A transaction in a history: the steps before it begins, and those from there to its commit, none
of which begins or ends a transaction of its name. -/
structure Span where
  name : String
  before : List Step
  during : List Step
  stays : ∀ st ∈ during, st ≠ .begin name ∧ st ≠ .commit name ∧ st ≠ .abandon name

namespace Span

variable {s : Sessions} {schema : Schema} {tx : Transaction}

/-- The steps that come before the commit. -/
def ahead (t : Span) : List Step :=
  t.before ++ .begin t.name :: t.during

/-- The steps up to the commit. -/
def steps (t : Span) : List Step :=
  t.ahead ++ [.commit t.name]

/-- The tables with which the transaction begins. -/
def snapshot (t : Span) (s : Sessions) : Tables :=
  (s.after t.before).store.tables

/-- The committed tables right before the commit. -/
def committedAhead (t : Span) (s : Sessions) : Tables :=
  (s.after t.ahead).store.tables

/-- The operations that are committed between the begin and the commit. -/
def between (t : Span) (s : Sessions) : List Operation :=
  (s.after t.before).history (.begin t.name :: t.during)

/-- The transaction as it is right before its commit. -/
def Opens (t : Span) (s : Sessions) (tx : Transaction) : Prop :=
  (s.after t.ahead).opened.get? t.name = some tx

/-- The transaction is committed, which gives the store. -/
structure Commits (t : Span) (s : Sessions) (tx : Transaction) (store : Store) : Prop where
  opens : t.Opens s tx
  committed : (s.after t.ahead).store.commit tx = .ok store

theorem history_ahead (t : Span) (s : Sessions) :
    s.history t.ahead = s.history t.before ++ t.between s :=
  s.history_append t.before _

theorem Commits.committed_commit {t : Span} {store : Store} (h : t.Commits s tx store) :
    (s.after t.ahead).committed (.commit t.name) = tx.log := by
  have ho : (s.after t.ahead).opened.get? t.name = some tx := h.opens
  simp only [Sessions.committed, ho, h.committed]

theorem Commits.after_steps {t : Span} {store : Store} (h : t.Commits s tx store) :
    (s.after t.steps).store = store := by
  have ho : (s.after t.ahead).opened.get? t.name = some tx := h.opens
  unfold steps
  rw [Sessions.after_append, Sessions.after_cons, Sessions.after_nil]
  simp only [Sessions.step, Sessions.nameOf, ho, Sessions.stepOpen, h.committed]

theorem Commits.history_steps {t : Span} {store : Store} (h : t.Commits s tx store) :
    s.history t.steps = s.history t.before ++ (t.between s ++ tx.log) := by
  unfold steps
  rw [Sessions.history_append, history_ahead, Sessions.history, Sessions.history,
    h.committed_commit, List.append_nil, List.append_assoc]

/-- The steps of a span determine where its transaction begins. -/
theorem eq_of_steps {t t' : Span} (h : t.steps = t'.steps) : t = t' := by
  obtain ⟨name, before, during, stays⟩ := t
  obtain ⟨name', before', during', stays'⟩ := t'
  obtain ⟨hahead, hcommit⟩ := List.append_inj' h rfl
  obtain rfl : name = name' := by simpa using hcommit
  change before ++ .begin name :: during = before' ++ .begin name :: during' at hahead
  have hnot : ∀ {d : List Step},
      (∀ st ∈ d, st ≠ .begin name ∧ st ≠ .commit name ∧ st ≠ .abandon name) →
        ∀ {front back : List Step}, d ≠ front ++ .begin name :: back :=
    fun hd front back he =>
      (hd (.begin name) (he ▸ List.mem_append_right front List.mem_cons_self)).1 rfl
  rcases List.append_eq_append_iff.1 hahead with ⟨gap, rfl, hrest⟩ | ⟨gap, rfl, hrest⟩
  · cases gap with
    | nil =>
        obtain rfl := (List.cons.inj hrest).2
        simp
    | cons st gap => exact absurd (List.cons.inj hrest).2 (hnot stays)
  · cases gap with
    | nil =>
        obtain rfl := (List.cons.inj hrest).2
        simp
    | cons st gap => exact absurd (List.cons.inj hrest).2 (hnot stays')

/-- What is committed in between makes of the snapshot the tables right before the commit. -/
theorem replay_between (t : Span) (h : s.Of schema) :
    (t.between s).foldlM (Operation.replay schema) (t.snapshot s) =
      .ok (t.committedAhead s) := by
  unfold between committedAhead ahead
  rw [Sessions.after_append]
  exact Sessions.replay_history (h.after t.before) _

/-- While it is open, a transaction works on what its log makes of the snapshot. -/
theorem replay_log_of_stays {name : String} {snapshot : Tables} {steps : List Step}
    (h : s.Of schema)
    (hs : ∀ st ∈ steps, st ≠ .begin name ∧ st ≠ .commit name ∧ st ≠ .abandon name)
    (hopened : ∀ tx, s.opened.get? name = some tx →
      tx.log.foldlM (Operation.replay schema) snapshot = .ok tx.working)
    (ho : (s.after steps).opened.get? name = some tx) :
    tx.log.foldlM (Operation.replay schema) snapshot = .ok tx.working := by
  induction steps generalizing s with
  | nil => exact hopened tx ho
  | cons st rest ih =>
      obtain ⟨⟨hbegin, -, -⟩, hrest⟩ := List.forall_mem_cons.1 hs
      refine ih (h.step st) hrest ?_ ho
      intro tx' ho'
      rcases (s.moves_step st).opened_cases ho' with
        hold | ⟨rfl, -⟩ | ⟨old, m, op, rows, -, hold, hw, rfl⟩
      · exact hopened tx' hold
      · exact absurd rfl hbegin
      · exact Operation.replay_wrote hw (h.opened name old hold) (hopened old hold)

theorem replay_log_of_prefix (t : Span) (h : s.Of schema) {steps : List Step}
    (hs : steps <+: t.during)
    (ho : (s.after (t.before ++ .begin t.name :: steps)).opened.get? t.name = some tx) :
    tx.log.foldlM (Operation.replay schema) (t.snapshot s) = .ok tx.working := by
  rw [Sessions.after_append, Sessions.after_cons] at ho
  refine replay_log_of_stays ((h.after t.before).step _)
    (fun st hst => t.stays st (hs.subset hst)) ?_ ho
  intro tx' ho'
  change ((s.after t.before).put t.name (s.after t.before).store.begin).opened.get? t.name = _
    at ho'
  rw [Sessions.get?_put, if_pos rfl] at ho'
  obtain rfl := Option.some.inj ho'
  rfl

/-- The log makes of the snapshot the tables on which the transaction works. -/
theorem replay_log (t : Span) (h : s.Of schema) (ho : t.Opens s tx) :
    tx.log.foldlM (Operation.replay schema) (t.snapshot s) = .ok tx.working :=
  t.replay_log_of_prefix h (List.prefix_refl t.during) ho

end Span

end RecordApi
