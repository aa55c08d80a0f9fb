import RecordApi.Proofs.Resource.Work
import RecordApi.Proofs.Store.Replay

/-!
# What work does to its transaction

`Yields P work Q` says that work which succeeds takes a transaction with `P` to a result and a
transaction with `Q`. There is one rule for every way to put work together, and one for each write
to the store, which hands on what the transaction wrote (`Yields.insert`, `Yields.update`,
`Yields.delete`). What these keep, the creation of linked records keeps (`Yields.link`). As a
request is alone with its store, a commit makes the tables of its transaction those of the store
(`Transaction.From.tables_of_commit`).
-/

namespace RecordApi

variable {σ α β : Type}

namespace SessionM

/-- Work that succeeds on a transaction with one property gives a result and a transaction with
another. -/
def Yields (P : Transaction → Prop) (work : SessionM σ α) (Q : α → Transaction → Prop) : Prop :=
  ∀ s : Session σ, P s.tx → ∀ a t, work s = (.ok a, t) → Q a t.tx

namespace Yields

variable {P : Transaction → Prop} {Q : α → Transaction → Prop} {R : β → Transaction → Prop}

theorem pure {a : α} (h : ∀ tx, P tx → Q a tx) : Yields P (Pure.pure a : SessionM σ α) Q := by
  intro s hs b t hrun
  cases hrun
  exact h s.tx hs

theorem mono {Q' : α → Transaction → Prop} {work : SessionM σ α} (h : Yields P work Q)
    (hQ : ∀ a tx, Q a tx → Q' a tx) : Yields P work Q' :=
  fun s hs a t hrun => hQ a t.tx (h s hs a t hrun)

theorem throw {e : ApiError} : Yields P (MonadExcept.throw e : SessionM σ α) Q := by
  intro s hs b t hrun
  cases hrun

/-- Work on a result, of which one may use that it is there. -/
theorem lift_bind {result : Except ApiError β} {f : β → SessionM σ α}
    (hf : ∀ b, result = .ok b → Yields P (f b) Q) :
    Yields P (liftM result >>= f) Q := by
  cases result with
  | error e => exact .throw
  | ok b => exact hf b rfl

theorem bind {x : SessionM σ β} {f : β → SessionM σ α} (hx : Yields P x R)
    (hf : ∀ b, Yields (R b) (f b) Q) : Yields P (x >>= f) Q := by
  intro s hs a t hrun
  rw [bind_apply] at hrun
  rcases h : x s with ⟨e | b, u⟩
  · rw [h] at hrun
    cases hrun
  · rw [h] at hrun
    exact hf b u (hx s hs b u h) a t hrun

theorem map {x : SessionM σ β} {f : β → α} {R : Transaction → Prop}
    (hx : Yields P x fun _ => R) : Yields P (f <$> x) fun _ => R := by
  rw [map_eq_pure_bind]
  exact hx.bind fun _ => .pure fun _ h => h

/-- What each step makes of what was done before it and its results, all of them make. -/
theorem mapM_over {Q : List β → List α → Transaction → Prop} {f : β → SessionM σ α} {xs : List β}
    (hf : ∀ done x rest, xs = done ++ x :: rest → ∀ ys,
      Yields (Q done ys) (f x) fun y => Q (done ++ [x]) (ys ++ [y])) :
    Yields (Q [] []) (xs.mapM f) (Q xs) := by
  have hrest : ∀ rest done ys, xs = done ++ rest →
      Yields (Q done ys) (rest.mapM f) fun zs => Q xs (ys ++ zs) := by
    intro rest
    induction rest with
    | nil =>
        rintro done ys rfl
        refine .pure fun _ h => ?_
        rw [List.append_nil, List.reverse_nil, List.append_nil]
        exact h
    | cons x rest ih =>
        intro done ys hxs
        rw [List.mapM_cons]
        refine (hf done x rest hxs ys).bind fun y => ?_
        refine (ih (done ++ [x]) (ys ++ [y]) (by simp [hxs])).bind fun zs => .pure fun _ h => ?_
        rw [List.append_assoc] at h
        exact h
  exact hrest xs [] [] rfl

/-- What each step keeps, all of them keep. -/
theorem mapM {f : β → SessionM σ α} {xs : List β} (hf : ∀ x ∈ xs, Yields P (f x) fun _ => P) :
    Yields P (xs.mapM f) fun _ => P :=
  mapM_over (Q := fun _ _ => P) fun done x rest hxs _ => hf x (by simp [hxs])

/-- What each step makes of what was done before it, of what is folded and of the transaction, all
of them make. -/
theorem foldlM_over {Q : List β → α → Transaction → Prop} {f : α → β → SessionM σ α} {xs : List β}
    (hf : ∀ done x rest, xs = done ++ x :: rest → ∀ a,
      Yields (Q done a) (f a x) (Q (done ++ [x]))) (a : α) :
    Yields (Q [] a) (xs.foldlM f a) (Q xs) := by
  have hrest : ∀ rest done a, xs = done ++ rest → Yields (Q done a) (rest.foldlM f a) (Q xs) := by
    intro rest
    induction rest with
    | nil =>
        rintro done a rfl
        rw [List.append_nil]
        exact .pure fun _ h => h
    | cons x rest ih =>
        intro done a hxs
        rw [List.foldlM_cons]
        exact (hf done x rest hxs a).bind fun b => ih (done ++ [x]) b (by simp [hxs])
  exact hrest xs [] a rfl

/-- What each step keeps of what is folded and the transaction, all of them keep. -/
theorem foldlM {f : α → β → SessionM σ α} (hf : ∀ a b, Yields (Q a) (f a b) Q) (xs : List β)
    (a : α) : Yields (Q a) (xs.foldlM f a) Q :=
  foldlM_over (Q := fun _ => Q) (fun _ x _ _ a => hf a x) a

/-! ## Writes -/

theorem insert {Q : Record → Transaction → Prop} {m : Model} {values : Record}
    (h : ∀ tx n op rows r, P tx →
      tx.Writes n (.insert "" m.name (m.columnValues values)) (.record r) op rows →
        Q r (tx.wrote n rows op)) :
    Yields P (SessionM.insert m values : SessionM σ Record) Q := by
  intro s hs a t hrun
  unfold SessionM.insert at hrun
  rw [bind_apply, get_apply] at hrun
  dsimp only at hrun
  rw [bind_apply, set_apply] at hrun
  dsimp only at hrun
  rcases hi : s.tx.insert s.store.keys m.name (m.columnValues values) with ⟨keys, e | ⟨r, tx⟩⟩
  · rw [hi] at hrun
    cases hrun
  · rw [hi] at hrun
    cases hrun
    obtain ⟨n, op, rows, hw, rfl⟩ := Transaction.insert_eq_ok "" hi
    exact h _ n op rows _ hs hw

theorem update {Q : Record → Transaction → Prop} {m : Model} {current changes : Record}
    (h : ∀ tx n op rows r, P tx →
      tx.Writes n (.update "" m.name current (m.columnValues changes)) (.record r) op rows →
        Q r (tx.wrote n rows op)) :
    Yields P (SessionM.update m current changes : SessionM σ Record) Q := by
  intro s hs a t hrun
  unfold SessionM.update at hrun
  rw [bind_apply, get_apply] at hrun
  dsimp only at hrun
  cases hu : s.tx.update m.name current (m.columnValues changes) with
  | error e =>
      rw [hu] at hrun
      cases hrun
  | ok result =>
      rw [hu] at hrun
      cases hrun
      obtain ⟨n, op, rows, hw, htx⟩ := Transaction.update_eq_ok "" hu
      change Q result.1 result.2
      rw [htx]
      exact h _ n op rows _ hs hw

theorem delete {Q : Unit → Transaction → Prop} {m : Model} {current : Record}
    (h : ∀ tx n op rows, P tx → tx.Writes n (.delete "" m.name current) .done op rows →
      Q () (tx.wrote n rows op)) :
    Yields P (SessionM.delete m current : SessionM σ Unit) Q := by
  intro s hs a t hrun
  unfold SessionM.delete at hrun
  rw [bind_apply, get_apply] at hrun
  dsimp only at hrun
  cases hd : s.tx.delete m.name current with
  | error e =>
      rw [hd] at hrun
      cases hrun
  | ok tx =>
      rw [hd] at hrun
      cases hrun
      obtain ⟨n, op, rows, hw, rfl⟩ := Transaction.delete_eq_ok "" hd
      exact h _ n op rows hs hw

/-! ## Linked records -/

/-- What insertions keep, and updates that let a record refer to one behind it, the creation of all
records behind it keeps. -/
theorem link {Q : Record → Transaction → Prop} {m : Model}
    (hinsert : ∀ (parent : Record) (target : Model) (values : Record),
      Yields (Q parent) (SessionM.insert target values : SessionM σ Record) fun _ => Q parent)
    (hupdate : ∀ r ∈ m.relationships, r.isToMany = false → ∀ (parent : Record) (v : Value),
      Yields (Q parent) (SessionM.update m parent (Record.empty.insert r.localColumn v) :
        SessionM σ Record) Q)
    (config : Config σ) (parent : Record) (groups : List LinkedGroup) :
    Yields (Q parent) (config.link m parent groups) Q := by
  have hlinked : ∀ r ∈ m.relationships, ∀ (target : Model) (parent : Record) (child : ParsedBody),
      Yields (Q parent) (Config.createLinked m target r parent child : SessionM σ Record) Q := by
    intro r hr target parent child
    unfold Config.createLinked
    split
    · exact (hinsert _ _ _).bind fun _ => .pure fun _ h => h
    · next hone =>
      exact (hinsert _ _ _).bind fun _ => hupdate r hr (Bool.eq_false_iff.2 hone) _ _
  refine .foldlM (fun parent group => ?_) groups parent
  unfold Config.createGroup
  cases hr : m.relationship? group.relationship with
  | none => exact .throw
  | some r =>
      dsimp only
      cases config.schema.model? r.target with
      | none => exact .throw
      | some target => exact .foldlM (hlinked r (Model.mem_of_relationship? hr) target) _ _

end Yields

end SessionM

/-! ## Transactions that are alone with their store -/

/-- A transaction works on what its log makes of some tables. -/
structure Transaction.From (tx : Transaction) (schema : Schema) (tables : Tables) : Prop where
  of : tx.schema = schema
  replay_log : tx.log.foldlM (Operation.replay schema) tables = .ok tx.working

namespace Transaction

variable {tx : Transaction} {schema : Schema} {tables : Tables} {m : Model} {op : Operation}
  {rows : List Record}

theorem from_begin (s : Store) : s.begin.From s.schema s.tables :=
  ⟨rfl, rfl⟩

theorem From.wrote (h : tx.From schema tables) {st : Step} {result : StepResult}
    (hw : tx.Writes m st result op rows) : (tx.wrote m rows op).From schema tables :=
  ⟨h.of, Operation.replay_wrote hw h.of h.replay_log⟩

/-- On the tables with which it began, a transaction that is committed leaves its own tables. -/
theorem From.tables_of_commit {s s' : Store} (h : tx.From schema s.tables)
    (hc : s.commit tx = .ok s') : s'.tables = tx.working := by
  have hreplay := Store.replay_of_commit hc
  rw [h.of, h.replay_log] at hreplay
  exact (Except.ok.inj hreplay).symm

end Transaction

end RecordApi
