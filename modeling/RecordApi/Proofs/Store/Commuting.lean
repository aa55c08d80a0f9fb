import RecordApi.Proofs.Store.Integrity

/-!
# Commits that do not depend on their order

What is made of a transaction that is committed depends on few records: on those of the models that
its log touches, and on those at the other end of a foreign key from or to such a model
(`Store.commit_agree`). It changes none but the first (`Store.rows_settled`). Where no record is of
both kinds, two transactions may be committed in either order (`Sessions.commits_commute`).
-/

namespace RecordApi

/-! ## What a log depends on -/

/-- Some operation of a log is on a model. -/
def Touches (log : List Operation) (model : String) : Prop :=
  ∃ op ∈ log, op.model = model

/-- A foreign key leads from one of two models to the other. -/
def Schema.Connects (schema : Schema) (model other : String) : Prop :=
  ∃ key ∈ schema.foreignKeys,
    key.fromModel = model ∧ key.toModel = other ∨ key.fromModel = other ∧ key.toModel = model

/-- A model is touched by a log, or connected with one that is. -/
def DependsOn (schema : Schema) (log : List Operation) (model : String) : Prop :=
  Touches log model ∨ ∃ other, Touches log other ∧ schema.Connects other model

/-- Two logs touch no model in common, and no two models that are connected. -/
structure Independent (schema : Schema) (log other : List Operation) : Prop where
  apart : ∀ model, Touches log model → ¬Touches other model
  unconnected : ∀ a b, Touches log a → Touches other b → ¬schema.Connects a b

theorem Schema.Connects.symm {schema : Schema} {model other : String}
    (h : schema.Connects model other) : schema.Connects other model := by
  obtain ⟨key, hkey, hends⟩ := h
  exact ⟨key, hkey, hends.symm⟩

namespace Independent

variable {schema : Schema} {log other : List Operation}

theorem symm (h : Independent schema log other) : Independent schema other log :=
  ⟨fun model ho hl => h.apart model hl ho, fun a b ho hl hc => h.unconnected b a hl ho hc.symm⟩

theorem not_touches_of_dependsOn (h : Independent schema log other) {model : String}
    (hd : DependsOn schema log model) : ¬Touches other model := by
  rcases hd with ht | ⟨a, ha, hc⟩
  · exact h.apart model ht
  · exact fun ho => h.unconnected a model ha ho hc

end Independent

/-! ## Tables that agree on some models -/

/-- Two tables have the same records of the models with a property. -/
def Tables.SameOn (P : String → Prop) (t u : Tables) : Prop :=
  ∀ model, P model → t.rows model = u.rows model

section

variable {schema : Schema} {P : String → Prop} {t u : Tables}

theorem Tables.SameOn.setRows (h : t.SameOn P u) (model : String) (records : List Record) :
    (t.setRows model records).SameOn P (u.setRows model records) := by
  intro name hname
  rw [rows_setRows, rows_setRows, h name hname]

theorem Operation.replay_agree {op : Operation} (h : t.SameOn P u) (hop : P op.model) :
    Agree (Tables.SameOn P) (op.replay schema t) (op.replay schema u) := by
  unfold replay
  cases hm : schema.model? op.model with
  | none => exact .error _
  | some m =>
      have hrows : t.rows m.name = u.rows m.name := h _ (by rwa [Schema.name_of_model? hm])
      have hplace : t.placeFor m = u.placeFor m := by
        funext key expected
        simp only [Tables.placeFor, hrows]
      cases op with
      | insert name record =>
          simp only [hrows]
          exact .ok (h.setRows _ _)
      | update name key expected changes =>
          simp only [hplace]
          cases u.placeFor m key expected with
          | error e => exact .error e
          | ok place => exact .ok (h.setRows _ _)
      | delete name key expected =>
          simp only [hplace]
          cases u.placeFor m key expected with
          | error e => exact .error e
          | ok place => exact .ok (h.setRows _ _)

/-- The check of a log looks at no models but those that the log depends on. -/
theorem Tables.check_congr {log : List Operation} (h : t.SameOn (DependsOn schema log) u) :
    t.check schema (log.map (·.model)).eraseDups =
      u.check schema (log.map (·.model)).eraseDups := by
  have htouches : ∀ model, model ∈ (log.map (·.model)).eraseDups ↔ Touches log model := by
    simp [Touches]
  have hunique : ∀ m ∈ (log.map (·.model)).eraseDups.filterMap schema.model?,
      t.checkUnique m = u.checkUnique m := by
    intro m hm
    obtain ⟨model, hmodel, hfound⟩ := List.mem_filterMap.1 hm
    rw [← Schema.name_of_model? hfound, htouches] at hmodel
    exact checkUnique_congr (h _ (.inl hmodel))
  have hkeys : ∀ key ∈ schema.foreignKeys.filter fun key =>
      (log.map (·.model)).eraseDups.contains key.fromModel ||
        (log.map (·.model)).eraseDups.contains key.toModel,
      t.checkForeignKey key = u.checkForeignKey key := by
    intro key hkey
    obtain ⟨hmem, hends⟩ := List.mem_filter.1 hkey
    simp only [List.contains_iff_mem, htouches, Bool.or_eq_true] at hends
    rcases hends with hfrom | hto
    · exact checkForeignKey_congr (h _ (.inl hfrom))
        (h _ (.inr ⟨_, hfrom, key, hmem, .inl ⟨rfl, rfl⟩⟩))
    · exact checkForeignKey_congr (h _ (.inr ⟨_, hto, key, hmem, .inr ⟨rfl, rfl⟩⟩))
        (h _ (.inl hto))
  unfold check
  rw [List.forM_eq_forM, List.forM_eq_forM, forM_congr hunique, forM_congr hkeys]

end

/-! ## Commits -/

namespace Store

variable {s s' : Store} {tx : Transaction}

/-- The answer to the commit of a transaction. -/
def verdict (s : Store) (tx : Transaction) : StepResult :=
  match s.commit tx with
  | .error e => .failed e
  | .ok _ => .done

/-- The store once a transaction is committed, or refused. -/
def settled (s : Store) (tx : Transaction) : Store :=
  match s.commit tx with
  | .error _ => s
  | .ok store => store

/-- Stores with the same records of what a log depends on refuse it for the same reason, or have the
same such records after it. -/
theorem commit_agree
    (h : s.tables.SameOn (DependsOn tx.schema tx.log) s'.tables) :
    Agree (fun a b => a.tables.SameOn (DependsOn tx.schema tx.log) b.tables)
      (s.commit tx) (s'.commit tx) := by
  unfold commit
  split
  · exact .ok h
  · refine Agree.bind (Agree.foldlM h fun op hop t u htu => ?_) fun t u htu => ?_
    · exact Operation.replay_agree htu (.inl ⟨op, hop, rfl⟩)
    · rw [Tables.check_congr htu]
      exact .after _ fun _ => .ok htu

theorem verdict_congr (h : s.tables.SameOn (DependsOn tx.schema tx.log) s'.tables) :
    s.verdict tx = s'.verdict tx := by
  have hagree := commit_agree h
  unfold verdict
  generalize s.commit tx = x, s'.commit tx = y at hagree ⊢
  cases hagree with
  | ok _ => rfl
  | error e => rfl

theorem settled_congr (h : s.tables.SameOn (DependsOn tx.schema tx.log) s'.tables) :
    (s.settled tx).tables.SameOn (DependsOn tx.schema tx.log) (s'.settled tx).tables := by
  have hagree := commit_agree h
  unfold settled
  generalize s.commit tx = x, s'.commit tx = y at hagree ⊢
  cases hagree with
  | ok hxy => exact hxy
  | error e => exact h

/-- Models that a log does not touch keep their records, whether or not it is refused. -/
theorem rows_settled {model : String} (h : ¬Touches tx.log model) :
    (s.settled tx).tables.rows model = s.tables.rows model := by
  unfold settled
  cases hc : s.commit tx with
  | error e => rfl
  | ok store =>
      exact Operation.rows_of_replay (replay_of_commit hc) fun op hop he => h ⟨op, hop, he⟩

end Store

namespace Sessions

variable {schema : Schema} {s : Sessions} {a b : String} {tx ty : Transaction}

theorem step_commit (h : s.opened.get? a = some tx) :
    s.step (.commit a) =
      (s.store.verdict tx, { s.close a with store := s.store.settled tx }) := by
  unfold step Store.verdict Store.settled
  simp only [nameOf, h, stepOpen]
  cases s.store.commit tx <;> rfl

theorem run_commits (hab : a ≠ b) (ha : s.opened.get? a = some tx)
    (hb : s.opened.get? b = some ty) :
    (s.run [.commit a, .commit b]).1 = [s.store.verdict tx, (s.store.settled tx).verdict ty] ∧
      (s.after [.commit a, .commit b]).store = (s.store.settled tx).settled ty := by
  have hopen : ({ s.close a with store := s.store.settled tx } : Sessions).opened.get? b =
      some ty := by
    rw [← hb]
    exact (s.get?_close a b).trans (if_neg hab.symm)
  simp only [after, run, step_commit ha, step_commit hopen, and_self]

/-- Two transactions whose logs are independent get the same answers in whichever order they are
committed, and leave the same records. -/
theorem commits_commute (hof : s.Of schema) (hab : a ≠ b) (ha : s.opened.get? a = some tx)
    (hb : s.opened.get? b = some ty) (h : Independent schema tx.log ty.log) :
    (∃ first second, (s.run [.commit a, .commit b]).1 = [first, second] ∧
        (s.run [.commit b, .commit a]).1 = [second, first]) ∧
      ∀ model, (s.after [.commit a, .commit b]).store.tables.rows model =
        (s.after [.commit b, .commit a]).store.tables.rows model := by
  obtain ⟨hfront, hfrontStore⟩ := run_commits hab ha hb
  obtain ⟨hback, hbackStore⟩ := run_commits hab.symm hb ha
  have hx : (s.store.settled ty).tables.SameOn (DependsOn tx.schema tx.log) s.store.tables := by
    rw [hof.opened a tx ha]
    exact fun model hd => Store.rows_settled (h.not_touches_of_dependsOn hd)
  have hy : (s.store.settled tx).tables.SameOn (DependsOn ty.schema ty.log) s.store.tables := by
    rw [hof.opened b ty hb]
    exact fun model hd => Store.rows_settled (h.symm.not_touches_of_dependsOn hd)
  constructor
  · exact ⟨s.store.verdict tx, s.store.verdict ty, by rw [hfront, Store.verdict_congr hy],
      by rw [hback, Store.verdict_congr hx]⟩
  · intro model
    rw [hfrontStore, hbackStore]
    by_cases htx : Touches tx.log model
    · calc ((s.store.settled tx).settled ty).tables.rows model
        _ = (s.store.settled tx).tables.rows model := Store.rows_settled (h.apart model htx)
        _ = ((s.store.settled ty).settled tx).tables.rows model :=
          (Store.settled_congr hx model (.inl htx)).symm
    · calc ((s.store.settled tx).settled ty).tables.rows model
        _ = (s.store.settled ty).tables.rows model := by
          by_cases hty : Touches ty.log model
          · exact Store.settled_congr hy model (.inl hty)
          · rw [Store.rows_settled hty, Store.rows_settled hty, Store.rows_settled htx]
        _ = ((s.store.settled ty).settled tx).tables.rows model := (Store.rows_settled htx).symm

/-- One transaction writes a note, another one an employee whose boss does not exist. -/
def noteBesideEmployee : Sessions :=
  (empty ⟨[.note, .employee], Schema.employees.foreignKeys⟩ fun _ => default).after
    [.begin "a", .begin "b", .insert "a" "note" .empty,
      .insert "b" "employee" (.ofList [("boss_id", .int 7)])]

theorem commits_commute_noteBesideEmployee :
    ∃ tx ty, noteBesideEmployee.opened.get? "a" = some tx ∧
      noteBesideEmployee.opened.get? "b" = some ty ∧
      Independent noteBesideEmployee.store.schema tx.log ty.log ∧
      (∃ first second,
        (noteBesideEmployee.run [.commit "a", .commit "b"]).1 = [first, second] ∧
          (noteBesideEmployee.run [.commit "b", .commit "a"]).1 = [second, first]) ∧
      ∀ model, (noteBesideEmployee.after [.commit "a", .commit "b"]).store.tables.rows model =
        (noteBesideEmployee.after [.commit "b", .commit "a"]).store.tables.rows model := by
  have hof : noteBesideEmployee.Of noteBesideEmployee.store.schema := (of_empty _ _).after _
  have hindependent : ∀ note employee,
      Independent ⟨[.note, .employee], Schema.employees.foreignKeys⟩
        [.insert "note" note] [.insert "employee" employee] := by
    intro note employee
    constructor <;> simp [Touches, Schema.Connects, Schema.employees, Operation.model]
  exact ⟨_, _, rfl, rfl, hindependent _ _,
    commits_commute hof (by simp) rfl rfl (hindependent _ _)⟩

end Sessions

end RecordApi
