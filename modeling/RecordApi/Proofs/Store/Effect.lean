import RecordApi.Proofs.Record
import RecordApi.Proofs.Schema.Resolved
import RecordApi.Store.History

/-!
# What steps do

What one operation does to the records of its model is said once, by `Operation.Acts`, for the
tables on which a transaction works and for those on which its log is replayed
(`Transaction.Writes.acts`, `Operation.replay_eq_ok_iff`). `Sessions.Moves` says what one step does
to a store and its open transactions.
-/

namespace RecordApi

/-! ## Places -/

theorem Model.keyOf_merge (m : Model) (r changes : Record) :
    m.keyOf (r.merge changes) =
      if changes.contains m.primaryKey.name then m.keyOf changes else m.keyOf r :=
  Record.get_merge r changes m.primaryKey.name

theorem Model.locate?_replace {m : Model} {key : Value} {p : Place}
    (hk : (m.keyOf p.row).same key = true)
    (hb : ∀ r ∈ p.before, (m.keyOf r).same key = false) :
    m.locate? key (p.replace p.row) = some p := by
  obtain ⟨before, row, after⟩ := p
  unfold Place.replace
  induction before with
  | nil =>
      rw [List.nil_append, Model.locate?, if_pos hk]
  | cons b before ih =>
      have hb' : ¬(m.keyOf b).same key = true := by simp [hb b List.mem_cons_self]
      rw [List.cons_append, Model.locate?, if_neg hb',
        ih hk fun r hr => hb r (List.mem_cons_of_mem _ hr)]
      rfl

/-- The place of a key is that of the first record with the key. -/
theorem Model.locate?_eq_some_iff {m : Model} {key : Value} {rows : List Record} {p : Place} :
    m.locate? key rows = some p ↔
      rows = p.replace p.row ∧ (m.keyOf p.row).same key = true ∧
        ∀ r ∈ p.before, (m.keyOf r).same key = false := by
  constructor
  · exact Model.locate?_eq_some
  · rintro ⟨rfl, hk, hb⟩
    exact Model.locate?_replace hk hb

/-- A place holds the first record with a key, and that has the version that was read. -/
structure Place.Named (p : Place) (m : Model) (key : Value) (expected : Option Value) : Prop where
  found : (m.keyOf p.row).same key = true
  first : ∀ r ∈ p.before, (m.keyOf r).same key = false
  version : m.checkVersion p.row expected = .ok ()

theorem Tables.placeFor_eq_ok_iff {t : Tables} {m : Model} {key : Value} {expected : Option Value}
    {p : Place} :
    t.placeFor m key expected = .ok p ↔
      t.rows m.name = p.replace p.row ∧ p.Named m key expected := by
  have hplace : t.placeFor m key expected = .ok p ↔
      m.locate? key (t.rows m.name) = some p ∧ m.checkVersion p.row expected = .ok () := by
    unfold Tables.placeFor
    cases m.locate? key (t.rows m.name) with
    | none => simp
    | some q =>
        cases hv : m.checkVersion q.row expected with
        | error e =>
            simp only [hv, Option.some.injEq, reduceCtorEq, false_iff, not_and]
            rintro rfl
            simp [hv]
        | ok _ =>
            simp only [hv, Except.ok.injEq, Option.some.injEq]
            constructor
            · rintro rfl
              exact ⟨rfl, hv⟩
            · exact fun h => h.1
  rw [hplace, Model.locate?_eq_some_iff]
  constructor
  · rintro ⟨⟨hr, hk, hb⟩, hv⟩
    exact ⟨hr, hk, hb, hv⟩
  · rintro ⟨hr, hk, hb, hv⟩
    exact ⟨⟨hr, hk, hb⟩, hv⟩

/-! ## Operations -/

/-- An operation takes the records of its model to others: it adds a record at the end, or it
changes or removes the first one with its key, whose version is the one that was read. -/
inductive Operation.Acts (m : Model) : Operation → List Record → List Record → Prop
  | insert {name : String} {r : Record} {rows : List Record} :
      Acts m (.insert name r) rows (rows ++ [r])
  | update {name : String} {key : Value} {expected : Option Value} {changes : Record} {p : Place}
      (named : p.Named m key expected) :
      Acts m (.update name key expected changes) (p.replace p.row)
        (p.replace (p.row.merge changes))
  | delete {name : String} {key : Value} {expected : Option Value} {p : Place}
      (named : p.Named m key expected) :
      Acts m (.delete name key expected) (p.replace p.row) p.remove

namespace Operation

/-- After an operation there are the records that were there, the one that it inserts and the one
that it changes. -/
theorem Acts.of_mem {m : Model} {op : Operation} {rows next : List Record}
    (h : op.Acts m rows next) {r : Record} (hr : r ∈ next) :
    r ∈ rows ∨ (∃ name, op = .insert name r) ∨
      ∃ name key expected changes q, op = .update name key expected changes ∧ q ∈ rows ∧
        (m.keyOf q).same key = true ∧ m.checkVersion q expected = .ok () ∧
        r = q.merge changes := by
  cases h with
  | insert =>
      rcases List.mem_append.1 hr with hr | hr
      · exact .inl hr
      · exact .inr (.inl ⟨_, by rw [List.mem_singleton.1 hr]⟩)
  | @update name key expected changes p named =>
      rcases List.mem_append.1 hr with hr | hr
      · exact .inl (List.mem_append_left _ hr)
      · rcases List.mem_cons.1 hr with rfl | hr
        · exact .inr (.inr ⟨name, key, expected, changes, p.row, rfl,
            List.mem_append_right _ List.mem_cons_self, named.found, named.version, rfl⟩)
        · exact .inl (List.mem_append_right _ (List.mem_cons_of_mem _ hr))
  | delete =>
      rcases List.mem_append.1 hr with hr | hr
      · exact .inl (List.mem_append_left _ hr)
      · exact .inl (List.mem_append_right _ (List.mem_cons_of_mem _ hr))

/-- Replaying an operation acts on the records of its model and on no others. -/
theorem replay_eq_ok_iff {schema : Schema} {t t' : Tables} {op : Operation} :
    op.replay schema t = .ok t' ↔
      ∃ m rows, schema.model? op.model = some m ∧ op.Acts m (t.rows m.name) rows ∧
        t' = t.setRows m.name rows := by
  unfold replay
  cases hm : schema.model? op.model with
  | none => simp
  | some m =>
      simp only [Option.some.injEq]
      constructor
      · intro h
        cases op with
        | insert name r => exact ⟨m, _, rfl, .insert, (Except.ok.inj h).symm⟩
        | update name key expected changes =>
            cases hp : t.placeFor m key expected with
            | error e => simp [hp] at h
            | ok p =>
                obtain ⟨hr, hn⟩ := Tables.placeFor_eq_ok_iff.1 hp
                simp only [hp, Except.ok.injEq] at h
                exact ⟨m, _, rfl, hr ▸ .update hn, h.symm⟩
        | delete name key expected =>
            cases hp : t.placeFor m key expected with
            | error e => simp [hp] at h
            | ok p =>
                obtain ⟨hr, hn⟩ := Tables.placeFor_eq_ok_iff.1 hp
                simp only [hp, Except.ok.injEq] at h
                exact ⟨m, _, rfl, hr ▸ .delete hn, h.symm⟩
      · rintro ⟨_, rows, rfl, ha, rfl⟩
        generalize ht : t.rows m.name = records at ha
        cases ha with
        | insert => rfl
        | update hn => simp only [Tables.placeFor_eq_ok_iff.2 ⟨ht, hn⟩]
        | delete hn => simp only [Tables.placeFor_eq_ok_iff.2 ⟨ht, hn⟩]

end Operation

/-! ## Writes of a transaction -/

/-- Where a transaction finds a record, the replay of its operation finds it. -/
theorem Transaction.placeOf_eq_ok {tx : Transaction} {m : Model} {current : Record} {p : Place}
    (h : tx.placeOf m current = .ok p) :
    tx.working.rows m.name = p.replace p.row ∧
      p.Named m (m.keyOf current) (expectedVersion m current) := by
  unfold placeOf at h
  cases hl : m.locate? (m.keyOf current) (tx.working.rows m.name) with
  | none => simp [hl] at h
  | some q =>
      obtain ⟨hr, hk, hb⟩ := Model.locate?_eq_some hl
      simp only [hl] at h
      cases hv : m.versionColumn with
      | none =>
          simp only [hv, Except.ok.injEq] at h
          subst h
          exact ⟨hr, hk, hb, by simp [Model.checkVersion, hv]⟩
      | some version =>
          simp only [hv] at h
          split at h
          · next hs =>
            obtain rfl := Except.ok.inj h
            exact ⟨hr, hk, hb, by simp [Model.checkVersion, expectedVersion, hv, hs]⟩
          · cases h

/-- A step of an open transaction that writes: the step and what it answers, the operation that is
logged, and the records of its model as they are then. -/
inductive Transaction.Writes (tx : Transaction) (m : Model) :
    Step → StepResult → Operation → List Record → Prop
  | insert {name model : String} {values given completed : Record} {keys keys' : KeySource}
      (named : tx.schema.model? model = some m)
      (normalized : m.normalize values = .ok given)
      (keyed : keys.complete m given = (keys', .ok completed))
      (notNull : m.checkNotNull (m.withFirstVersion completed) = .ok ()) :
      Writes tx m (.insert name model values) (.record (m.withFirstVersion completed))
        (.insert m.name (m.withFirstVersion completed))
        (tx.working.rows m.name ++ [m.withFirstVersion completed])
  | update {name model : String} {current changes given : Record} {p : Place}
      (named : tx.schema.model? model = some m)
      (normalized : m.normalize changes = .ok given)
      (place : tx.placeOf m current = .ok p)
      (notNull :
        m.checkNotNull (p.row.merge (withNextVersion m current given)) = .ok ()) :
      Writes tx m (.update name model current changes)
        (.record (p.row.merge (withNextVersion m current given)))
        (.update m.name (m.keyOf current) (expectedVersion m current)
          (withNextVersion m current given))
        (p.replace (p.row.merge (withNextVersion m current given)))
  | delete {name model : String} {current : Record} {p : Place}
      (named : tx.schema.model? model = some m)
      (place : tx.placeOf m current = .ok p) :
      Writes tx m (.delete name model current) .done
        (.delete m.name (m.keyOf current) (expectedVersion m current)) p.remove

namespace Transaction

theorem modelNamed_eq_ok_iff {tx : Transaction} {name : String} {m : Model} :
    tx.modelNamed name = .ok m ↔ tx.schema.model? name = some m := by
  unfold modelNamed
  cases tx.schema.model? name <;> simp

namespace Writes

variable {tx : Transaction} {m : Model} {st : Step} {result : StepResult} {op : Operation}
  {rows : List Record}

theorem model? (h : tx.Writes m st result op rows) :
    op.model = m.name ∧ tx.schema.model? op.model = some m := by
  cases h with
  | insert named | update named | delete named =>
      have hname := Schema.name_of_model? named
      subst hname
      exact ⟨rfl, named⟩

theorem model?_of_insert {name model : String} {values : Record}
    (h : tx.Writes m (.insert name model values) result op rows) :
    tx.schema.model? model = some m := by
  cases h with
  | insert named => exact named

theorem model?_of_update {name model : String} {current changes : Record}
    (h : tx.Writes m (.update name model current changes) result op rows) :
    tx.schema.model? model = some m := by
  cases h with
  | update named => exact named

/-- On its own tables a transaction does what its operation says. -/
theorem acts (h : tx.Writes m st result op rows) : op.Acts m (tx.working.rows m.name) rows := by
  cases h with
  | insert => exact .insert
  | update _ _ place =>
      obtain ⟨hr, hn⟩ := placeOf_eq_ok place
      rw [hr]
      exact .update hn
  | delete _ place =>
      obtain ⟨hr, hn⟩ := placeOf_eq_ok place
      rw [hr]
      exact .delete hn

end Writes

theorem insert_eq_ok {tx tx' : Transaction} {keys keys' : KeySource} (name : String)
    {model : String} {values r : Record} (h : tx.insert keys model values = (keys', .ok (r, tx'))) :
    ∃ m op rows, tx.Writes m (.insert name model values) (.record r) op rows ∧
      tx' = tx.wrote m rows op := by
  unfold insert at h
  split at h
  · cases h
  · next m hm =>
    split at h
    · cases h
    · next given hn =>
      split at h
      · cases h
      · next completed hk =>
        obtain ⟨rfl, h⟩ := Prod.mk.inj h
        cases hnull : m.checkNotNull (m.withFirstVersion completed) with
        | error e =>
            simp only [append, hnull] at h
            cases h
        | ok _ =>
            simp only [append, hnull] at h
            cases h
            exact ⟨m, _, _, .insert (modelNamed_eq_ok_iff.1 hm) hn hk hnull, rfl⟩

theorem update_eq_ok {tx tx' : Transaction} (name : String) {model : String}
    {current changes r : Record} (h : tx.update model current changes = .ok (r, tx')) :
    ∃ m op rows, tx.Writes m (.update name model current changes) (.record r) op rows ∧
      tx' = tx.wrote m rows op := by
  unfold update at h
  simp only [bind_eq_ok_iff, pure_eq_ok_iff] at h
  obtain ⟨m, hm, given, hn, place, hp, _, hnull, h⟩ := h
  cases h
  exact ⟨m, _, _, .update (modelNamed_eq_ok_iff.1 hm) hn hp hnull, rfl⟩

theorem delete_eq_ok {tx tx' : Transaction} (name : String) {model : String} {current : Record}
    (h : tx.delete model current = .ok tx') :
    ∃ m op rows, tx.Writes m (.delete name model current) .done op rows ∧
      tx' = tx.wrote m rows op := by
  unfold delete at h
  simp only [bind_eq_ok_iff, pure_eq_ok_iff] at h
  obtain ⟨m, hm, place, hp, h⟩ := h
  cases h
  exact ⟨m, _, _, .delete (modelNamed_eq_ok_iff.1 hm) hp, rfl⟩

end Transaction

/-! ## Steps -/

/-- The records that an answer gives. -/
def StepResult.records : StepResult → List Record
  | .record r => [r]
  | .rows found => found.map Row.record
  | _ => []

namespace Sessions

/-- The sessions with another source of keys. -/
def withKeys (s : Sessions) (keys : KeySource) : Sessions :=
  { s with store := { s.store with keys := keys } }

/-- The operations that a step commits. -/
def committed (s : Sessions) : Step → List Operation
  | .commit name =>
    match s.opened.get? name with
    | none => []
    | some tx =>
      match s.store.commit tx with
      | .error _ => []
      | .ok _ => tx.log
  | _ => []

/-- What a step may do: begin a transaction, write in one or read from it, commit it, close it
without a commit, or nothing but use up a key. -/
inductive Moves (s : Sessions) : Step → StepResult → List Operation → Sessions → Prop
  | begin (name : String) : Moves s (.begin name) .done [] (s.put name s.store.begin)
  | write {st : Step} {result : StepResult} {tx : Transaction} {m : Model} {op : Operation}
      {rows : List Record} (keys : KeySource) (opened : s.opened.get? (nameOf st) = some tx)
      (writes : tx.Writes m st result op rows) :
      Moves s st result [] ((s.put (nameOf st) (tx.wrote m rows op)).withKeys keys)
  | fetch {name : String} {plan : Plan} {tx : Transaction} (opened : s.opened.get? name = some tx) :
      Moves s (.fetch name plan) (.rows (tx.fetch plan)) [] s
  | commit {name : String} {tx : Transaction} {store : Store}
      (opened : s.opened.get? name = some tx) (committed : s.store.commit tx = .ok store) :
      Moves s (.commit name) .done tx.log { s.close name with store := store }
  | close {st : Step} {result : StepResult} {name : String}
      (ends : st = .abandon name ∨ st = .commit name) (silent : result.records = []) :
      Moves s st result [] (s.close name)
  | idle {st : Step} {result : StepResult} (keys : KeySource) (silent : result.records = []) :
      Moves s st result [] (s.withKeys keys)

theorem moves_stepOpen {s : Sessions} {st : Step} {tx : Transaction}
    (hb : ∀ name, st ≠ .begin name) (ho : s.opened.get? (nameOf st) = some tx) :
    s.Moves st (s.stepOpen (nameOf st) tx st).1 (s.committed st)
      (s.stepOpen (nameOf st) tx st).2 := by
  cases st with
  | begin name => exact absurd rfl (hb name)
  | abandon name => exact .close (.inl rfl) rfl
  | fetch name plan => exact .fetch ho
  | count name plan => exact .idle s.store.keys rfl
  | insert name model values =>
      simp only [stepOpen]
      split
      · exact .idle _ rfl
      · next hi =>
        obtain ⟨m, op, rows, hw, rfl⟩ := Transaction.insert_eq_ok name hi
        exact .write _ ho hw
  | update name model current changes =>
      simp only [stepOpen]
      split
      · exact .idle s.store.keys rfl
      · next hu =>
        obtain ⟨m, op, rows, hw, rfl⟩ := Transaction.update_eq_ok name hu
        exact .write s.store.keys ho hw
  | delete name model current =>
      simp only [stepOpen]
      split
      · exact .idle s.store.keys rfl
      · next hd =>
        obtain ⟨m, op, rows, hw, rfl⟩ := Transaction.delete_eq_ok name hd
        exact .write s.store.keys ho hw
  | commit name =>
      change s.opened.get? name = some tx at ho
      simp only [stepOpen, committed, ho]
      cases hc : s.store.commit tx with
      | error e => exact .close (.inr rfl) rfl
      | ok store => exact .commit ho hc

theorem moves_step (s : Sessions) (st : Step) :
    s.Moves st (s.step st).1 (s.committed st) (s.step st).2 := by
  unfold step
  split
  · exact .begin _
  · next hb =>
    split
    · next hn =>
      have hnone : s.committed st = [] := by
        cases st with
        | commit name =>
            change s.opened.get? name = none at hn
            simp only [committed, hn]
        | _ => rfl
      rw [hnone]
      exact .idle s.store.keys rfl
    · next tx ho => exact moves_stepOpen (fun name h => hb name h) ho

/-! ## What a move leaves -/

theorem get?_put (s : Sessions) (name : String) (tx : Transaction) (other : String) :
    (s.put name tx).opened.get? other =
      if other = name then some tx else s.opened.get? other :=
  Keyed.get?_insert name tx s.opened other

theorem get?_close (s : Sessions) (name other : String) :
    (s.close name).opened.get? other = if other = name then none else s.opened.get? other :=
  Keyed.get?_erase name s.opened other

namespace Moves

variable {s s' : Sessions} {st : Step} {result : StepResult} {ops : List Operation}

/-- A transaction that is open after a step was so before, or has just begun, or has just
written. -/
theorem opened_cases (h : s.Moves st result ops s') {name : String} {tx' : Transaction}
    (ho : s'.opened.get? name = some tx') :
    s.opened.get? name = some tx' ∨ (st = .begin name ∧ tx' = s.store.begin) ∨
      ∃ tx m op rows, nameOf st = name ∧ s.opened.get? name = some tx ∧
        tx.Writes m st result op rows ∧ tx' = tx.wrote m rows op := by
  have hclosed : ∀ n, (s.close n).opened.get? name = some tx' →
      s.opened.get? name = some tx' := by
    intro n hn
    rw [get?_close] at hn
    split at hn
    · cases hn
    · exact hn
  cases h with
  | begin n =>
      rw [get?_put] at ho
      split at ho
      · next hn =>
        subst hn
        exact .inr (.inl ⟨rfl, (Option.some.inj ho).symm⟩)
      · exact .inl ho
  | write _ opened writes =>
      change (s.put _ _).opened.get? name = some tx' at ho
      rw [get?_put] at ho
      split at ho
      · next hn =>
        subst hn
        exact .inr (.inr ⟨_, _, _, _, rfl, opened, writes, (Option.some.inj ho).symm⟩)
      · exact .inl ho
  | fetch | idle => exact .inl ho
  | commit | close => exact .inl (hclosed _ ho)

/-- The tables of a store change only where a transaction is committed. -/
theorem store_cases (h : s.Moves st result ops s') :
    (ops = [] ∧ s'.store.schema = s.store.schema ∧ s'.store.tables = s.store.tables) ∨
      ∃ name tx, st = .commit name ∧ s.opened.get? name = some tx ∧ ops = tx.log ∧
        s.store.commit tx = .ok s'.store := by
  cases h with
  | commit opened committed => exact .inr ⟨_, _, rfl, opened, rfl, committed⟩
  | begin | write | fetch | close | idle => exact .inl ⟨rfl, rfl, rfl⟩

end Moves

end Sessions

/-- A commit replays the log and checks what comes of it. -/
theorem Store.commit_eq_ok {s s' : Store} {tx : Transaction} (h : s.commit tx = .ok s') :
    tx.log = [] ∧ s' = s ∨
      ∃ tables, tx.log.foldlM (Operation.replay tx.schema) s.tables = .ok tables ∧
        tables.check tx.schema (tx.log.map (·.model)).eraseDups = .ok () ∧
        s' = { s with tables := tables } := by
  unfold commit at h
  split at h
  · next he => exact .inl ⟨List.isEmpty_iff.1 he, (Except.ok.inj h).symm⟩
  · simp only [bind_eq_ok_iff, pure_eq_ok_iff] at h
    obtain ⟨tables, ht, _, hc, rfl⟩ := h
    exact .inr ⟨tables, ht, hc, rfl⟩

theorem Store.replay_of_commit {s s' : Store} {tx : Transaction} (h : s.commit tx = .ok s') :
    tx.log.foldlM (Operation.replay tx.schema) s.tables = .ok s'.tables := by
  rcases Store.commit_eq_ok h with ⟨hlog, rfl⟩ | ⟨tables, hr, -, rfl⟩
  · rw [hlog]
    rfl
  · exact hr

end RecordApi
