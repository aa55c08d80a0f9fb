import RecordApi.Proofs.Store.Generated

/-!
# What leaves no trace

From a history one may delete the transactions that are never committed and the writes that are
refused: what is left gets the same answers and leads to the same tables, at every point
(`Sessions.marked_retained`). The two runs are kept in step by `Sessions.Mirrors`. They agree on
everything but the source of keys, on which nothing depends that is answered as long as records come
with their keys.
-/

namespace RecordApi

/-! ## Deleting from a history -/

/-- A step is done, and has nothing to give out. -/
def StepResult.isDone : StepResult → Bool
  | .done => true
  | _ => false

/-- A step is refused. -/
def StepResult.isFailed : StepResult → Bool
  | .failed _ => true
  | _ => false

/-- An insert comes with a key, where one would be given out otherwise. -/
def Step.CarriesKey (schema : Schema) : Step → Prop
  | .insert _ model values =>
    ∀ m, schema.model? model = some m →
      m.primaryKey.type = .integer ∨ m.primaryKey.type = .uuid → m.keyOf values ≠ .null
  | _ => True

namespace Sessions

/-- What a step decides on the transaction of a name: that it is committed, or that it never will
be. -/
def fate (s : Sessions) (name : String) (st : Step) : Option Bool :=
  if nameOf st = name then
    match st with
    | .commit _ => some (s.step st).1.isDone
    | .begin _ | .abandon _ => some false
    | _ => none
  else none

/-- Whether the transaction of a name is committed in the course of some steps. -/
def survives (s : Sessions) (name : String) : List Step → Bool
  | [] => false
  | st :: rest => (s.fate name st).getD ((s.step st).2.survives name rest)

/-- Whether a step is left, with some steps to follow: it belongs to no transaction that is open, or
to one that is committed and does not refuse it. -/
def retains (s : Sessions) (st : Step) (rest : List Step) : Bool :=
  match st with
  | .begin name => (s.step st).2.survives name rest
  | st =>
    (s.opened.get? (nameOf st)).isNone ||
      (s.survives (nameOf st) (st :: rest) && !(s.step st).1.isFailed)

/-- For each of some steps whether it is left. -/
def retained (s : Sessions) : List Step → List Bool
  | [] => []
  | st :: rest => s.retains st rest :: (s.step st).2.retained rest

end Sessions

/-- The elements of a list that are marked. -/
def marked {α : Type} (marks : List Bool) (xs : List α) : List α :=
  ((marks.zip xs).filter (·.1)).map (·.2)

section

variable {α : Type} (marks : List Bool) (x : α) (xs : List α)

@[simp] theorem marked_nil : marked marks ([] : List α) = [] := by simp [marked]

@[simp] theorem marked_nil_left : marked [] xs = [] := rfl

@[simp] theorem marked_cons_true : marked (true :: marks) (x :: xs) = x :: marked marks xs := rfl

@[simp] theorem marked_cons_false : marked (false :: marks) (x :: xs) = marked marks xs := rfl

end

/-! ## What does not depend on the source of keys -/

theorem Model.WellFormed.keyOf_normalize {m : Model} (hm : m.WellFormed) {values given : Record}
    (h : m.normalize values = .ok given) (hkey : m.keyOf values ≠ .null) :
    m.keyOf given ≠ .null := by
  unfold keyOf at hkey ⊢
  unfold Record.get at hkey ⊢
  cases m.normalizedAt h m.primaryKey.name with
  | absent habsent _ => simp_all [hm.column?_key]
  | column c v w _ hgiven hcoerce hout =>
      rw [hgiven] at hkey
      rw [hout]
      exact Value.ne_null_of_coerce hcoerce hkey

theorem KeySource.complete_snd {m : Model} {r : Record}
    (h : m.primaryKey.type = .integer ∨ m.primaryKey.type = .uuid → m.keyOf r ≠ .null)
    (keys others : KeySource) : (keys.complete m r).2 = (others.complete m r).2 := by
  unfold complete
  split
  · next hnull =>
    have hnone : ∀ source : KeySource, source.issue m =
        (source, .error (.invalidValue (.keyRequired m.name m.primaryKey.name))) := by
      intro source
      unfold issue
      split
      · next ht => exact absurd (Value.isNull_eq_true_iff.1 hnull) (h (.inl ht))
      · next ht => exact absurd (Value.isNull_eq_true_iff.1 hnull) (h (.inr ht))
      · rfl
    rw [hnone, hnone]
  · rfl

theorem Transaction.insert_snd {tx : Transaction} {name model : String} {values : Record}
    (hs : tx.schema.WellFormed) (h : (Step.insert name model values).CarriesKey tx.schema)
    (keys others : KeySource) :
    (tx.insert keys model values).2 = (tx.insert others model values).2 := by
  unfold insert
  split
  · rfl
  · next m hm =>
    split
    · rfl
    · next given hgiven =>
      have hfound := modelNamed_eq_ok_iff.1 hm
      have hwf := hs.models m (Schema.mem_of_model? hfound)
      have hsame := KeySource.complete_snd
        (fun ht => hwf.keyOf_normalize hgiven (h m hfound ht)) keys others
      generalize keys.complete m given = x, others.complete m given = y at hsame ⊢
      obtain ⟨_, x⟩ := x
      obtain ⟨_, y⟩ := y
      obtain rfl : x = y := hsame
      cases x <;> rfl

/-- Two stores differ in nothing but the source of keys. -/
structure Store.Alike (s t : Store) : Prop where
  schema : t.schema = s.schema
  tables : t.tables = s.tables

theorem Store.Alike.commit {s t : Store} (h : s.Alike t) (tx : Transaction) :
    Agree Alike (s.commit tx) (t.commit tx) := by
  unfold Store.commit
  split
  · exact .ok h
  · rw [h.tables]
    exact .after _ fun _ => .after _ fun _ => .ok ⟨h.schema, rfl⟩

namespace Sessions

variable {schema : Schema} {s t : Sessions} {st : Step} {rest : List Step} {name : String}
  {tx : Transaction}

theorem get?_put_self (s : Sessions) (name : String) (tx : Transaction) :
    (s.put name tx).opened.get? name = some tx :=
  (s.get?_put name tx name).trans (if_pos rfl)

theorem get?_close_self (s : Sessions) (name : String) :
    (s.close name).opened.get? name = none :=
  (s.get?_close name name).trans (if_pos rfl)

theorem Moves.get?_of_ne {s' : Sessions} {result : StepResult} {ops : List Operation}
    (h : s.Moves st result ops s') (hn : nameOf st ≠ name) :
    s'.opened.get? name = s.opened.get? name := by
  cases h with
  | begin => exact (get?_put ..).trans (if_neg hn.symm)
  | write => exact (get?_put ..).trans (if_neg hn.symm)
  | commit => exact (get?_close ..).trans (if_neg hn.symm)
  | close ends =>
      rw [get?_close, if_neg]
      rintro rfl
      rcases ends with rfl | rfl <;> exact hn rfl
  | fetch | idle => rfl

theorem get?_step_of_ne (hn : nameOf st ≠ name) :
    (s.step st).2.opened.get? name = s.opened.get? name :=
  (s.moves_step st).get?_of_ne hn

theorem step_of_opened (hb : ∀ name, st ≠ .begin name) (ho : s.opened.get? (nameOf st) = some tx) :
    s.step st = s.stepOpen (nameOf st) tx st := by
  unfold step
  split
  · exact absurd rfl (hb _)
  · simp only [ho]

theorem step_of_not_opened (hb : ∀ name, st ≠ .begin name)
    (ho : s.opened.get? (nameOf st) = none) : s.step st = (.notOpen (nameOf st), s) := by
  unfold step
  split
  · exact absurd rfl (hb _)
  · simp only [ho]

/-- A step of the same transaction in two sessions whose stores are alike gets the same answer, and
leaves the stores alike and the transaction the same. -/
theorem step_alike (hs : tx.schema.WellFormed) (hkey : st.CarriesKey tx.schema)
    (hb : ∀ name, st ≠ .begin name) (h : s.store.Alike t.store)
    (ho : s.opened.get? (nameOf st) = some tx) (ho' : t.opened.get? (nameOf st) = some tx) :
    (t.step st).1 = (s.step st).1 ∧ (s.step st).2.store.Alike (t.step st).2.store ∧
      (t.step st).2.opened.get? (nameOf st) = (s.step st).2.opened.get? (nameOf st) := by
  rw [step_of_opened hb ho, step_of_opened hb ho']
  cases st with
  | begin name => exact absurd rfl (hb name)
  | abandon name => exact ⟨rfl, h, by simp only [stepOpen, nameOf, get?_close_self]⟩
  | fetch name plan | count name plan => exact ⟨rfl, h, ho'.trans ho.symm⟩
  | insert name model values =>
      have hsame := Transaction.insert_snd hs hkey s.store.keys t.store.keys
      simp only [stepOpen]
      generalize tx.insert s.store.keys model values = x,
        tx.insert t.store.keys model values = y at hsame ⊢
      obtain ⟨keys, x⟩ := x
      obtain ⟨others, y⟩ := y
      obtain rfl : x = y := hsame
      cases x with
      | error e => exact ⟨rfl, ⟨h.schema, h.tables⟩, ho'.trans ho.symm⟩
      | ok written => exact ⟨rfl, ⟨h.schema, h.tables⟩, by simp only [get?_put_self]⟩
  | update name model current changes =>
      simp only [stepOpen]
      cases tx.update model current changes with
      | error e => exact ⟨rfl, h, ho'.trans ho.symm⟩
      | ok written => exact ⟨rfl, h, by simp only [get?_put_self]⟩
  | delete name model current =>
      simp only [stepOpen]
      cases tx.delete model current with
      | error e => exact ⟨rfl, h, ho'.trans ho.symm⟩
      | ok left => exact ⟨rfl, h, by simp only [get?_put_self]⟩
  | commit name =>
      have hagree := h.commit tx
      simp only [stepOpen]
      generalize s.store.commit tx = x, t.store.commit tx = y at hagree ⊢
      cases hagree with
      | error e => exact ⟨rfl, h, by simp only [get?_close_self]⟩
      | ok hxy => exact ⟨rfl, hxy, by simp only [get?_close_self]⟩

/-- A step that is refused changes nothing but the source of keys, unless it is a commit. -/
theorem step_of_failed (hc : ∀ name, st ≠ .commit name) (h : (s.step st).1.isFailed = true) :
    ∃ keys, (s.step st).2 = s.withKeys keys := by
  unfold step at h ⊢
  split at h
  · cases h
  · split at h
    · exact ⟨s.store.keys, rfl⟩
    · next tx _ =>
      cases st with
      | begin | abandon | fetch | count => cases h
      | commit name => exact absurd rfl (hc name)
      | insert name model values =>
          simp only [stepOpen] at h ⊢
          split at h
          · exact ⟨_, rfl⟩
          · cases h
      | update | delete =>
          simp only [stepOpen] at h ⊢
          split at h
          · exact ⟨s.store.keys, rfl⟩
          · cases h

/-! ## What becomes of a transaction -/

theorem survives_of_ne (hn : nameOf st ≠ name) :
    s.survives name (st :: rest) = (s.step st).2.survives name rest := by
  simp [survives, fate, hn]

theorem survives_begin : s.survives name (.begin name :: rest) = false := by
  simp [survives, fate, nameOf]

theorem survives_commit :
    s.survives name (.commit name :: rest) = (s.step (.commit name)).1.isDone := by
  simp [survives, fate, nameOf]

/-- A step of a transaction closes it, or leaves it to the steps that follow to commit it. -/
theorem survives_step (rest : List Step) (hb : ∀ name, st ≠ .begin name)
    (ho : s.opened.get? (nameOf st) = some tx) :
    (s.step st).2.survives (nameOf st) rest = s.survives (nameOf st) (st :: rest) ∨
      (s.step st).2.opened.get? (nameOf st) = none := by
  cases st with
  | begin name => exact absurd rfl (hb name)
  | abandon name =>
      right
      rw [step_of_opened hb ho]
      exact get?_close_self s name
  | commit name =>
      right
      rw [step_of_opened hb ho]
      simp only [stepOpen]
      split <;> exact get?_close_self s name
  | insert | update | delete | fetch | count =>
      left
      simp [survives, fate]

/-- A step of a transaction that is never committed leaves the tables alone. -/
theorem alike_step (h : s.survives (nameOf st) (st :: rest) = false) :
    s.store.Alike (s.step st).2.store := by
  rcases (s.moves_step st).store_cases with ⟨-, hschema, htables⟩ | ⟨name, tx, rfl, ho, -, hc⟩
  · exact ⟨hschema, htables⟩
  · have hstep : (s.step (.commit name)).1 = .done := by
      generalize (s.step (.commit name)).2.store = store at hc
      simp only [step, nameOf, ho, stepOpen, hc]
    change s.survives name (.commit name :: rest) = false at h
    rw [survives_commit, hstep] at h
    cases h

/-! ## Runs in step -/

/-- The stores of two sessions are alike, and of the transactions that are open in the first those
are open in the second that are committed by the steps to follow. -/
structure Mirrors (s t : Sessions) (rest : List Step) : Prop where
  store : s.store.Alike t.store
  opened : ∀ name, t.opened.get? name = if s.survives name rest then s.opened.get? name else none

/-- After a step only its own transaction needs to be compared. -/
theorem Mirrors.of_step (h : s.Mirrors t (st :: rest)) {t' : Sessions}
    (hstore : (s.step st).2.store.Alike t'.store)
    (hothers : ∀ other, nameOf st ≠ other → t'.opened.get? other = t.opened.get? other)
    (hself : t'.opened.get? (nameOf st) =
      if (s.step st).2.survives (nameOf st) rest then (s.step st).2.opened.get? (nameOf st)
      else none) :
    (s.step st).2.Mirrors t' rest := by
  refine ⟨hstore, fun name => ?_⟩
  by_cases hn : nameOf st = name
  · rw [← hn]
    exact hself
  · rw [hothers name hn, h.opened name, survives_of_ne hn, get?_step_of_ne hn]

theorem Mirrors.step_begin (h : s.Mirrors t (.begin name :: rest)) :
    if s.retains (.begin name) rest then
      (t.step (.begin name)).1 = (s.step (.begin name)).1 ∧
        (s.step (.begin name)).2.Mirrors (t.step (.begin name)).2 rest
    else (s.step (.begin name)).2.Mirrors t rest := by
  change if (s.step (.begin name)).2.survives name rest then _ else _
  have hsame : t.store.begin = s.store.begin := by
    simp only [Store.begin, h.store.schema, h.store.tables]
  split
  · next hsurvives =>
    refine ⟨rfl, h.of_step h.store (fun _ hn => get?_step_of_ne hn) ?_⟩
    refine Eq.trans ?_ (if_pos hsurvives).symm
    simp only [nameOf, step, get?_put_self, hsame]
  · next hsurvives =>
    refine h.of_step h.store (fun _ _ => rfl) (Eq.trans ?_ (if_neg hsurvives).symm)
    rw [h.opened, nameOf, survives_begin, if_neg Bool.false_ne_true]

/-- A step that is left gets the same answer in both runs, and after every step, left or not, the
runs are in step again. -/
theorem Mirrors.step (h : s.Mirrors t (st :: rest)) (hof : s.Of schema)
    (hs : schema.WellFormed) (hkey : st.CarriesKey schema) :
    if s.retains st rest then
      (t.step st).1 = (s.step st).1 ∧ (s.step st).2.Mirrors (t.step st).2 rest
    else (s.step st).2.Mirrors t rest := by
  by_cases hb : ∃ name, st = .begin name
  · obtain ⟨name, rfl⟩ := hb
    exact h.step_begin
  replace hb : ∀ name, st ≠ .begin name := fun name he => hb ⟨name, he⟩
  have hretains : s.retains st rest = ((s.opened.get? (nameOf st)).isNone ||
      (s.survives (nameOf st) (st :: rest) && !(s.step st).1.isFailed)) := by
    cases st with
    | begin name => exact absurd rfl (hb name)
    | _ => rfl
  have hmirror := h.opened (nameOf st)
  rw [hretains]
  cases ho : s.opened.get? (nameOf st) with
  | none =>
      rw [ho, ite_self] at hmirror
      have hsteps := step_of_not_opened hb ho
      rw [if_pos (by simp), step_of_not_opened hb hmirror]
      refine ⟨by rw [hsteps], h.of_step (by rw [hsteps]; exact h.store) (fun _ _ => rfl) ?_⟩
      rw [hsteps, ho, ite_self]
      exact hmirror
  | some tx =>
      have hschema := hof.opened _ tx ho
      cases hsurvives : s.survives (nameOf st) (st :: rest) with
      | false =>
          rw [hsurvives, if_neg (by simp)] at hmirror
          rw [if_neg (by simp)]
          have halike := alike_step hsurvives
          refine h.of_step ⟨h.store.schema.trans halike.schema.symm,
            h.store.tables.trans halike.tables.symm⟩ (fun _ _ => rfl) ?_
          rcases survives_step rest hb ho with hrest | hclosed
          · rw [hrest, hsurvives, hmirror, if_neg (by simp)]
          · rw [hclosed, ite_self, hmirror]
      | true =>
          rw [hsurvives, if_pos rfl, ho] at hmirror
          cases hfailed : (s.step st).1.isFailed with
          | true =>
              have hc : ∀ name, st ≠ .commit name := by
                rintro name rfl
                change s.survives name (.commit name :: rest) = true at hsurvives
                rw [survives_commit] at hsurvives
                cases hr : (s.step (.commit name)).1 with
                | done => simp [hr, StepResult.isFailed] at hfailed
                | _ => simp [hr, StepResult.isDone] at hsurvives
              obtain ⟨keys, hkeys⟩ := step_of_failed hc hfailed
              rw [if_neg (by simp)]
              refine h.of_step ?_ (fun _ _ => rfl) ?_
              · rw [hkeys]
                exact ⟨h.store.schema, h.store.tables⟩
              · have hopen : (s.step st).2.opened.get? (nameOf st) = some tx := by
                  rw [hkeys]
                  exact ho
                rcases survives_step rest hb ho with hrest | hclosed
                · rw [hrest, hsurvives, if_pos rfl, hopen, hmirror]
                · rw [hopen] at hclosed
                  cases hclosed
          | false =>
              obtain ⟨hanswer, hstore, hsame⟩ := step_alike (hschema ▸ hs) (hschema ▸ hkey) hb
                h.store ho hmirror
              rw [if_pos (by simp)]
              refine ⟨hanswer, h.of_step hstore (fun _ hn => get?_step_of_ne hn) ?_⟩
              rcases survives_step rest hb ho with hrest | hclosed
              · rw [hrest, hsurvives, if_pos rfl, hsame]
              · rw [hclosed, ite_self, hsame, hclosed]

/-- Runs that are in step give the same answers and have the same tables at every point. -/
theorem Mirrors.run {steps : List Step} (h : s.Mirrors t steps) (hof : s.Of schema)
    (hs : schema.WellFormed) (hkeys : ∀ st ∈ steps, st.CarriesKey schema) :
    (t.run (marked (s.retained steps) steps)).1 = marked (s.retained steps) (s.run steps).1 ∧
      ∀ n, (t.after (marked (s.retained steps) (steps.take n))).store.tables =
        (s.after (steps.take n)).store.tables := by
  induction steps generalizing s t with
  | nil => simp [Sessions.run, h.store.tables]
  | cons st rest ih =>
      obtain ⟨hkey, hkeys⟩ := List.forall_mem_cons.1 hkeys
      have hstep := h.step hof hs hkey
      rw [retained]
      cases hretains : s.retains st rest with
      | true =>
          rw [if_pos hretains] at hstep
          obtain ⟨hanswers, htables⟩ := ih hstep.2 (hof.step st) hkeys
          refine ⟨?_, fun n => ?_⟩
          · simp only [Sessions.run, marked_cons_true, hstep.1, hanswers]
          · cases n with
            | zero => simp [h.store.tables]
            | succ n => simp [htables]
      | false =>
          rw [if_neg (by simp [hretains])] at hstep
          obtain ⟨hanswers, htables⟩ := ih hstep (hof.step st) hkeys
          refine ⟨?_, fun n => ?_⟩
          · simp only [Sessions.run, marked_cons_false, hanswers]
          · cases n with
            | zero => simp [h.store.tables]
            | succ n => simp [htables]

/-- Steps that begin with no open transaction get the same answers, and lead to the same tables at
every point, if the transactions that are never committed are deleted from them with all their
steps, and from the others the writes that are refused. -/
theorem marked_retained {d : SchemaDecl} (hd : d.resolve = .ok s.store.schema)
    (hopened : s.opened = []) (steps : List Step)
    (hkeys : ∀ st ∈ steps, st.CarriesKey s.store.schema) :
    (s.run (marked (s.retained steps) steps)).1 = marked (s.retained steps) (s.run steps).1 ∧
      ∀ n, (s.after (marked (s.retained steps) (steps.take n))).store.tables =
        (s.after (steps.take n)).store.tables := by
  have hnone : ∀ name, s.opened.get? name = none := fun name => by rw [hopened, Keyed.get?_nil]
  have hof : s.Of s.store.schema :=
    ⟨rfl, fun name tx h => by rw [hnone] at h; cases h⟩
  have hmirrors : s.Mirrors s steps :=
    ⟨⟨rfl, rfl⟩, fun name => by rw [hnone, ite_self]⟩
  exact hmirrors.run hof (SchemaDecl.wellFormed hd) hkeys

/-- A transaction with a write that is refused, one that is given up, and one whose commit fails. -/
def notesInVain : List Step :=
  [.begin "a", .begin "b", .insert "a" "note" (.ofList [("id", .int 1)]),
    .insert "a" "note" (.ofList [("id", .int 2), ("version", .bool true)]),
    .insert "b" "note" (.ofList [("id", .int 3)]), .abandon "b", .begin "c",
    .insert "c" "note" (.ofList [("id", .int 1)]), .commit "a", .commit "c"]

theorem marked_retained_notesInVain :
    (empty .notes fun _ => default).retained notesInVain =
        [true, false, true, false, false, false, false, false, true, false] ∧
      ((empty .notes fun _ => default).run
          (marked ((empty .notes fun _ => default).retained notesInVain) notesInVain)).1 =
        marked ((empty .notes fun _ => default).retained notesInVain)
          ((empty .notes fun _ => default).run notesInVain).1 ∧
      ∀ n, ((empty .notes fun _ => default).after
          (marked ((empty .notes fun _ => default).retained notesInVain)
            (notesInVain.take n))).store.tables =
        ((empty .notes fun _ => default).after (notesInVain.take n)).store.tables := by
  have hkeys : ∀ st ∈ notesInVain, st.CarriesKey .notes := by
    have hinsert : ∀ tx n rest, (Record.ofList (("id", .int n) :: rest)).get "id" = .int n →
        (Step.insert tx "note" (.ofList (("id", .int n) :: rest))).CarriesKey .notes := by
      intro tx n rest hget m hm _ hnull
      obtain rfl := Option.some.inj hm
      cases hget.symm.trans hnull
    simp only [notesInVain, List.forall_mem_cons]
    exact ⟨trivial, trivial, hinsert _ _ _ rfl, hinsert _ _ _ rfl, hinsert _ _ _ rfl, trivial,
      trivial, hinsert _ _ _ rfl, trivial, trivial, by simp⟩
  exact ⟨by decide +kernel, marked_retained SchemaDecl.resolve_notes rfl notesInVain hkeys⟩

end Sessions

end RecordApi
