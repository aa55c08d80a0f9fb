import RecordApi.Resource.Session

/-!
# Work that does not commit

Work in a session is a function of the session, and runs step by step (`bind_apply`). Only a commit
changes the tables of the store: all other work keeps them, whether it succeeds or not (`Keeps`),
and so does what is put together from it. Hooks that change and refuse nothing are no work at all.
-/

namespace RecordApi.SessionM

variable {σ α β : Type}

/-! ## Running -/

theorem get_apply (s : Session σ) : (get : SessionM σ (Session σ)) s = (.ok s, s) := rfl

theorem set_apply (s t : Session σ) : (set t : SessionM σ PUnit) s = (.ok ⟨⟩, t) := rfl

theorem bind_apply (x : SessionM σ α) (f : α → SessionM σ β) (s : Session σ) :
    (x >>= f) s = match x s with
      | (.ok a, t) => f a t
      | (.error e, t) => (.error e, t) := by
  rcases h : x s with ⟨e | a, t⟩
  · simp [bind, ExceptT.bind, ExceptT.mk, ExceptT.bindCont, StateT.bind, h]
    rfl
  · simp [bind, ExceptT.bind, ExceptT.mk, ExceptT.bindCont, StateT.bind, h]

/-- Work on a result that is there. -/
theorem ok_bind (a : α) (f : α → SessionM σ β) :
    (liftM (Except.ok a : Except ApiError α) >>= f) = f a := rfl

/-- Work that succeeds step by step has succeeded in each step. -/
theorem bind_eq_ok {x : SessionM σ α} {f : α → SessionM σ β} {s t : Session σ} {b : β}
    (h : (x >>= f) s = (.ok b, t)) : ∃ a u, x s = (.ok a, u) ∧ f a u = (.ok b, t) := by
  rw [bind_apply] at h
  rcases hx : x s with ⟨e | a, u⟩
  · rw [hx] at h
    cases h
  · rw [hx] at h
    exact ⟨a, u, rfl, h⟩

theorem lift_bind_eq_ok {result : Except ApiError α} {f : α → SessionM σ β} {s t : Session σ}
    {b : β} (h : (liftM result >>= f) s = (.ok b, t)) :
    ∃ a, result = .ok a ∧ f a s = (.ok b, t) := by
  cases result with
  | error e => cases h
  | ok a => exact ⟨a, rfl, h⟩

/-! ## Hooks without effect -/

theorem hook_pure (a : α) : (hook (pure a) : SessionM σ α) = pure a := rfl

theorem hookWith_pure (a : α) : (hookWith fun _ => pure a : SessionM σ α) = pure a := rfl

/-! ## Keeping the tables -/

/-- Work that leaves the tables of the store as they are. -/
def Keeps (work : SessionM σ α) : Prop :=
  ∀ s : Session σ, (work s).2.store.tables = s.store.tables

namespace Keeps

theorem tables_eq {work : SessionM σ α} (h : Keeps work) {s t : Session σ}
    {result : Except ApiError α} (hrun : work s = (result, t)) :
    t.store.tables = s.store.tables := by
  have hs := h s
  rw [hrun] at hs
  exact hs

theorem pure (a : α) : Keeps (Pure.pure a : SessionM σ α) := fun _ => rfl

theorem throw (e : ApiError) : Keeps (MonadExcept.throw e : SessionM σ α) := fun _ => rfl

theorem lift (result : Except ApiError α) : Keeps (liftM result : SessionM σ α) := fun _ => rfl

theorem bind {x : SessionM σ α} {f : α → SessionM σ β} (hx : Keeps x) (hf : ∀ a, Keeps (f a)) :
    Keeps (x >>= f) := by
  intro s
  have hs := hx s
  rw [bind_apply]
  rcases h : x s with ⟨e | a, t⟩
  · rw [h] at hs
    exact hs
  · rw [h] at hs
    exact (hf a t).trans hs

theorem map {x : SessionM σ α} (hx : Keeps x) (f : α → β) : Keeps (f <$> x) := by
  rw [map_eq_pure_bind]
  exact hx.bind fun a => .pure (f a)

theorem mapM {f : α → SessionM σ β} (hf : ∀ a, Keeps (f a)) (xs : List α) :
    Keeps (xs.mapM f) := by
  induction xs with
  | nil => exact .pure []
  | cons x xs ih =>
      rw [List.mapM_cons]
      exact (hf x).bind fun y => ih.bind fun ys => .pure (y :: ys)

theorem foldlM {f : β → α → SessionM σ β} (hf : ∀ b a, Keeps (f b a)) (xs : List α) (b : β) :
    Keeps (xs.foldlM f b) := by
  induction xs generalizing b with
  | nil => exact .pure b
  | cons x xs ih =>
      rw [List.foldlM_cons]
      exact (hf b x).bind ih

theorem session : Keeps (get : SessionM σ (Session σ)) := fun _ => rfl

theorem hook (h : HookM σ α) : Keeps (SessionM.hook h) := fun _ => rfl

theorem hookWith (h : Transaction → HookM σ α) : Keeps (SessionM.hookWith h) := fun _ => rfl

theorem fetch (plan : Plan) : Keeps (SessionM.fetch plan : SessionM σ (List Row)) := fun _ => rfl

theorem count (plan : Plan) : Keeps (SessionM.count plan : SessionM σ Nat) := fun _ => rfl

theorem one (plan : Plan) : Keeps (SessionM.one plan : SessionM σ Resolution) := fun _ => rfl

theorem ofStore (result : Except StoreError α) :
    Keeps (SessionM.ofStore result : SessionM σ α) := by
  cases result with
  | ok a => exact .pure a
  | error e => exact fun _ => rfl

/-- What the transaction does is not done to the store. -/
theorem useTransaction (tx : Transaction) (a : α) :
    Keeps (do modify fun s => { s with tx := tx }; Pure.pure a : SessionM σ α) := fun _ => rfl

theorem insert (m : Model) (values : Record) :
    Keeps (SessionM.insert m values : SessionM σ Record) := by
  intro s
  unfold SessionM.insert
  rw [bind_apply, get_apply]
  dsimp only
  rw [bind_apply, set_apply]
  exact (ofStore _).bind (fun ⟨r, tx⟩ => useTransaction tx r) _

theorem update (m : Model) (current changes : Record) :
    Keeps (SessionM.update m current changes : SessionM σ Record) :=
  session.bind fun _ => (ofStore _).bind fun ⟨r, tx⟩ => useTransaction tx r

theorem delete (m : Model) (current : Record) :
    Keeps (SessionM.delete m current : SessionM σ Unit) :=
  session.bind fun _ => (ofStore _).bind fun tx => useTransaction tx ()

/-! ## Linked records -/

theorem createLinked (m target : Model) (r : Relationship) (parent : Record) (child : ParsedBody) :
    Keeps (Config.createLinked m target r parent child : SessionM σ Record) := by
  unfold Config.createLinked
  by_cases h : r.isToMany = true
  · rw [if_pos h]
    exact (insert _ _).bind fun _ => pure parent
  · rw [if_neg h]
    exact (insert _ _).bind fun _ => update _ _ _

theorem createGroup (config : Config σ) (m : Model) (parent : Record) (group : LinkedGroup) :
    Keeps (config.createGroup m parent group) := by
  unfold Config.createGroup
  cases m.relationship? group.relationship with
  | none => exact throw _
  | some r =>
      dsimp only
      cases config.schema.model? r.target with
      | none => exact throw _
      | some target => exact foldlM (createLinked m target r) _ _

theorem link (config : Config σ) (m : Model) (parent : Record) (groups : List LinkedGroup) :
    Keeps (config.link m parent groups) :=
  foldlM (createGroup config m) groups parent

end Keeps

end RecordApi.SessionM
