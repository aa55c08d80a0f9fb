import Mathlib.Data.List.Induction
import RecordApi.Proofs.Store.Replay

/-!
# What sessions keep

A property of the records of a model that every logged operation keeps holds of all records that
are committed, worked on or given out (`kept_after`). To know what is logged one may use that the
property holds of the records on which the transaction works and of those that were given out
before.
-/

namespace RecordApi

/-- The model whose records a step gives out. -/
def Step.model? : Step → Option String
  | .insert _ model _ | .update _ model _ _ | .delete _ model _ => some model
  | .fetch _ plan => some plan.model.name
  | .begin _ | .count _ _ | .commit _ | .abandon _ => none

/-- The record that a step is given as the one that was read, with its model. -/
def Step.current? : Step → Option (String × Record)
  | .update _ model current _ | .delete _ model current => some (model, current)
  | _ => none

theorem Plan.mem_of_mem_fetch {p : Plan} {t : Tables} {r : Record}
    (h : r ∈ (p.fetch t).map Row.record) : r ∈ t.rows p.model.name := by
  have hslice : ∀ records : List Record, r ∈ p.slice records → r ∈ records := by
    intro records hr
    unfold slice at hr
    cases hl : p.limit with
    | none =>
        simp only [hl] at hr
        exact List.mem_of_mem_drop hr
    | some n =>
        simp only [hl] at hr
        exact List.mem_of_mem_drop (List.mem_of_mem_take hr)
  unfold fetch at h
  rw [List.map_map] at h
  obtain ⟨q, hq, rfl⟩ := List.mem_map.1 h
  have hmatching := (Sorting.sort_perm _ _).mem_iff.1 (hslice _ hq)
  exact (List.mem_filter.1 hmatching).1

namespace Sessions

variable {schema : Schema} {supply : Nat → Uuid} {s s' : Sessions} {m : Model}
  {R : Record → Prop} {Q : Operation → Prop}

/-- A step in the past gave out the record as one of a model. -/
def Returned (s : Sessions) (past : List Step) (model : String) (r : Record) : Prop :=
  ∃ front st, front ++ [st] <+: past ∧ st.model? = some model ∧
    r ∈ ((s.after front).step st).1.records

/-- Updates and deletes on a model are given records of it that were given out before. -/
def GivesBack (s : Sessions) (model : String) (steps : List Step) : Prop :=
  ∀ front st, front ++ [st] <+: steps → ∀ current, st.current? = some (model, current) →
    s.Returned front model current

theorem GivesBack.concat {model : String} {steps : List Step} {st : Step}
    (h : s.GivesBack model steps)
    (hst : ∀ current, st.current? = some (model, current) → s.Returned steps model current) :
    s.GivesBack model (steps ++ [st]) := by
  intro front st' hp current hcurrent
  rcases List.prefix_concat_iff.1 hp with hp | hp
  · obtain ⟨rfl, he⟩ := List.append_inj' hp rfl
    obtain rfl := List.singleton_inj.1 he
    exact hst current hcurrent
  · exact h front st' hp current hcurrent

theorem givesBack_of_current?_eq_none {model : String} {steps : List Step}
    (h : ∀ st ∈ steps, st.current? = none) : s.GivesBack model steps := by
  intro front st hp current hcurrent
  rw [h st (hp.subset (List.mem_append_right _ List.mem_cons_self))] at hcurrent
  cases hcurrent

/-- A property of all records of a model that are committed or worked on, and one of all operations
on the model that are logged. -/
structure Keeps (s : Sessions) (m : Model) (R : Record → Prop) (Q : Operation → Prop) : Prop where
  committed : ∀ r ∈ s.store.tables.rows m.name, R r
  working : ∀ name tx, s.opened.get? name = some tx → ∀ r ∈ tx.working.rows m.name, R r
  logged : ∀ name tx, s.opened.get? name = some tx → ∀ op ∈ tx.log, op.model = m.name → Q op

theorem keeps_empty (schema : Schema) (supply : Nat → Uuid) :
    (empty schema supply).Keeps m R Q := by
  constructor
  · intro r hr
    cases hr
  · intro name tx ho
    cases ho
  · intro name tx ho
    cases ho

/-- The record that a step gives out is one on which the transaction then works. -/
theorem Moves.mem_working {st : Step} {result : StepResult} {ops : List Operation}
    (h : s.Moves st result ops s') (hst : st.model? = some m.name) {r : Record}
    (hr : r ∈ result.records) :
    ∃ tx, s'.opened.get? (nameOf st) = some tx ∧ r ∈ tx.working.rows m.name := by
  cases h with
  | begin | commit => cases hr
  | close _ silent | idle _ silent =>
      rw [silent] at hr
      cases hr
  | fetch opened =>
      refine ⟨_, opened, ?_⟩
      rw [← Option.some.inj hst]
      exact Plan.mem_of_mem_fetch hr
  | @write _ _ tx n op rows _ opened writes =>
      refine ⟨tx.wrote n rows op, ?_, ?_⟩
      · change (s.put _ _).opened.get? _ = _
        rw [get?_put, if_pos rfl]
      · change r ∈ (tx.working.setRows n.name rows).rows m.name
        have hname : ∀ model, tx.schema.model? model = some n → model = m.name → m.name = n.name :=
          fun _ hn hmodel => hmodel ▸ (Schema.name_of_model? hn).symm
        cases writes with
        | insert named =>
            rw [Tables.rows_setRows, if_pos (hname _ named (Option.some.inj hst))]
            exact List.mem_append_right _ hr
        | update named =>
            rw [Tables.rows_setRows, if_pos (hname _ named (Option.some.inj hst))]
            obtain rfl := List.mem_singleton.1 hr
            exact List.mem_append_right _ List.mem_cons_self
        | delete => cases hr

theorem Keeps.step (hof : s.Of schema) (hm : schema.model? m.name = some m)
    (keep : ∀ op rows next, Q op → op.Acts m rows next → (∀ r ∈ rows, R r) → ∀ r ∈ next, R r)
    (h : s.Keeps m R Q) (st : Step)
    (hwrites : ∀ tx op rows, s.opened.get? (nameOf st) = some tx →
      tx.Writes m st (s.step st).1 op rows → Q op) :
    (s.step st).2.Keeps m R Q := by
  have hmoves := s.moves_step st
  have hsame : ∀ name tx n op rows, s.opened.get? name = some tx →
      tx.Writes n st (s.step st).1 op rows → op.model = m.name → n = m := by
    intro name tx n op rows ho hw hop
    have hn := hw.model?.2
    rw [hop, hof.opened name tx ho, hm] at hn
    exact (Option.some.inj hn).symm
  constructor
  · rcases hmoves.store_cases with ⟨-, -, ht⟩ | ⟨name, tx, -, ho, hops, -⟩
    · rw [ht]
      exact h.committed
    · have hrun := Operation.runs_of_replay hm (replay_committed hof st)
      refine hrun.all keep ?_ h.committed
      intro op hop
      obtain ⟨hop, hmodel⟩ := List.mem_filter.1 hop
      exact h.logged name tx ho op (hops ▸ hop) (by simpa using hmodel)
  · intro name tx' ho'
    rcases hmoves.opened_cases ho' with ho | ⟨-, rfl⟩ | ⟨tx, n, op, rows, rfl, ho, hw, rfl⟩
    · exact h.working name tx' ho
    · exact h.committed
    · change ∀ r ∈ (tx.working.setRows n.name rows).rows m.name, R r
      rw [Tables.rows_setRows]
      split
      · next hn =>
        obtain rfl := hsame _ _ _ _ _ ho hw (hw.model?.1.trans hn.symm)
        exact keep op _ _ (hwrites tx op rows ho hw) hw.acts (h.working _ tx ho)
      · exact h.working _ tx ho
  · intro name tx' ho'
    rcases hmoves.opened_cases ho' with ho | ⟨-, rfl⟩ | ⟨tx, n, op, rows, rfl, ho, hw, rfl⟩
    · exact h.logged name tx' ho
    · intro op hop
      cases hop
    · intro other hother hmodel
      rcases List.mem_append.1 hother with hother | hother
      · exact h.logged _ tx ho other hother hmodel
      · obtain rfl := List.mem_singleton.1 hother
        obtain rfl := hsame _ _ _ _ _ ho hw hmodel
        exact hwrites tx other rows ho hw

/-- What holds of a model after some steps: of its records, of what is logged on it, of what was
committed on it and of the records that were given out. -/
structure Kept (s : Sessions) (steps : List Step) (m : Model) (R : Record → Prop)
    (Q : Operation → Prop) : Prop where
  keeps : (s.after steps).Keeps m R Q
  history : ∀ op ∈ s.history steps, op.model = m.name → Q op
  returned : ∀ r, s.Returned steps m.name r → R r

/-- A property that everything that is logged keeps holds after every run without records at its
start. -/
theorem kept_after (hm : schema.model? m.name = some m)
    (keep : ∀ op rows next, Q op → op.Acts m rows next → (∀ r ∈ rows, R r) → ∀ r ∈ next, R r)
    (steps : List Step)
    (hwrites : ∀ front st, front ++ [st] <+: steps →
      (∀ r, (empty schema supply).Returned front m.name r → R r) →
      ∀ tx op rows, ((empty schema supply).after front).opened.get? (nameOf st) = some tx →
        tx.Writes m st (((empty schema supply).after front).step st).1 op rows → Q op) :
    (empty schema supply).Kept steps m R Q := by
  induction steps using List.reverseRecOn with
  | nil =>
      refine ⟨keeps_empty schema supply, ?_, ?_⟩
      · intro op hop
        cases hop
      · rintro r ⟨front, st, hp, -, -⟩
        simp at hp
  | append_singleton steps st ih =>
      have hkept := ih fun front st' hp =>
        hwrites front st' (hp.trans (List.prefix_append steps [st]))
      have hof := (of_empty schema supply).after steps
      have hnext := hkept.keeps.step hof hm keep st
        (hwrites steps st (List.prefix_refl _) hkept.returned)
      have hafter : (empty schema supply).after (steps ++ [st]) =
          (((empty schema supply).after steps).step st).2 := after_append _ steps [st]
      constructor
      · rw [hafter]
        exact hnext
      · intro op hop hmodel
        rw [history_append] at hop
        rcases List.mem_append.1 hop with hop | hop
        · exact hkept.history op hop hmodel
        · rw [history, history, List.append_nil] at hop
          rcases (moves_step _ st).store_cases with ⟨hops, -⟩ | ⟨name, tx, -, ho, hops, -⟩
          · rw [hops] at hop
            cases hop
          · rw [hops] at hop
            exact hkept.keeps.logged name tx ho op hop hmodel
      · rintro r ⟨front, st', hp, hmodel, hr⟩
        rcases List.prefix_concat_iff.1 hp with hp | hp
        · obtain ⟨rfl, hst⟩ := List.append_inj' hp rfl
          obtain rfl := List.singleton_inj.1 hst
          obtain ⟨tx, ho, hmem⟩ := (moves_step _ st').mem_working hmodel hr
          exact hnext.working _ tx ho r hmem
        · exact hkept.returned r ⟨front, st', hp, hmodel, hr⟩

end Sessions

end RecordApi
