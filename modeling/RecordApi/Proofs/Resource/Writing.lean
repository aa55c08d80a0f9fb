import RecordApi.Proofs.Resource.Shown
import RecordApi.Proofs.Resource.Work
import RecordApi.Resource.Collection
import RecordApi.Resource.Single

/-!
# Writing, committing, and answering

Without hooks, every request that writes goes through three steps: work that does not commit, a
commit, and the rendering of what was written (`answering`). The work is told apart from the rest
here, for each method that writes, and is shown to keep the tables of the store.
-/

namespace RecordApi

variable {σ : Type}

/-- What the work of a request wrote: the records to show, the body that is made of their wire
forms, and whether the answer says that something was created. -/
structure Written where
  shown : List Shown
  body : List Json → Json
  created : Bool

namespace Written

/-- The answer with the wire forms of the records to show. -/
def answer (w : Written) (data : List Json) : Response :=
  if w.created then .created (w.body data) else .ok (w.body data)

/-- The answer that shows what was written. -/
def render (config : Config σ) (w : Written) : Except ApiError Response :=
  (w.shown.mapM (Shown.render config.codec config.axes)).map w.answer

end Written

/-- Work, then its commit, then the answer. -/
def SessionM.answering (config : Config σ) (work : SessionM σ Written) : SessionM σ Response := do
  let w ← work
  SessionM.commit
  w.render config

/-- A stored record of the model as an answer shows it. -/
def Config.shown (config : Config σ) (ctx : Context) (r : Record) : Shown :=
  ⟨config.model, r, config.fields.resolve ctx ⟨r, []⟩⟩

variable {config : Config σ} {ctx : Context}

theorem SessionM.lift_map {α β : Type} (x : Except ApiError α) (f : α → β) :
    (liftM (x.map f) : SessionM σ β) = (do let a ← liftM x; pure (f a)) := by
  cases x with
  | error e => rfl
  | ok a => rfl

namespace Collection

/-- The work of a creation. -/
def posting (config : Config σ) (ctx : Context) : SessionM σ Written := do
  let (parsed, isArray) ← creations config ctx
  let stored ← ((parsed.map (·.attributes)).zip (parsed.map (·.linked))).mapM
    fun (attributes, linked) => create config config.model attributes linked
  return ⟨stored.map (config.shown ctx),
    fun data => dataEnvelope (if isArray then .array data else data.getLastD .null), true⟩

theorem createdData_eq (stored : List Record) :
    createdData config ctx stored =
      (stored.map (config.shown ctx)).mapM (Shown.render config.codec config.axes) := by
  rw [List.mapM_map]
  rfl

theorem post_eq (h : config.hooks = .none σ) :
    post config ctx = SessionM.answering config (posting config ctx) := by
  unfold post posting SessionM.answering Written.render
  rw [h]
  simp only [Hooks.none, SessionM.hookWith_pure, SessionM.hook_pure, pure_bind, bind_assoc,
    SessionM.lift_map, createdData_eq, Written.answer, if_true]

theorem keeps_create (m : Model) (attributes : Record) (linked : List LinkedGroup) :
    SessionM.Keeps (create config m attributes linked) :=
  (SessionM.Keeps.insert m attributes).bind fun _ => .link config m _ linked

theorem keeps_posting : SessionM.Keeps (posting config ctx) :=
  (SessionM.Keeps.lift _).bind fun _ =>
    (SessionM.Keeps.mapM (fun _ => keeps_create _ _ _) _).bind fun _ => .pure _

/-- What an answer shows of a record that an addition created. -/
def shownAddition (config : Config σ) (ctx : Context) (m : Model) (r : Record) : Shown :=
  if m.name = config.model.name then config.shown ctx r else ⟨m, r, none⟩

/-- The work of a list of additions. -/
def patching (config : Config σ) (ctx : Context) : SessionM σ Written := do
  let parsed ← additions config ctx
  let created ← parsed.mapM fun (m, b) =>
    (m, ·) <$> create config m b.attributes b.linked
  return ⟨created.map fun (m, r) => shownAddition config ctx m r,
    fun data => dataEnvelope (.array data), false⟩

theorem keeps_patching : SessionM.Keeps (patching config ctx) :=
  (SessionM.Keeps.lift _).bind fun _ =>
    (SessionM.Keeps.mapM (fun _ => (keeps_create _ _ _).map _) _).bind fun _ => .pure _

theorem additionData_eq (m : Model) (r : Record) :
    additionData config ctx m r =
      (shownAddition config ctx m r).render config.codec config.axes := by
  unfold additionData shownAddition
  by_cases h : m.name = config.model.name
  · rw [if_pos h, if_pos h]
    rfl
  · rw [if_neg h, if_neg h]
    rfl

theorem additionsData_eq (created : List (Model × Record)) :
    additionsData config ctx created =
      (created.map fun (m, r) => shownAddition config ctx m r).mapM
        (Shown.render config.codec config.axes) := by
  rw [List.mapM_map]
  unfold additionsData
  simp only [additionData_eq]
  rfl

theorem patch_eq (h : config.hooks = .none σ) :
    patch config ctx = SessionM.answering config (patching config ctx) := by
  unfold patch patching SessionM.answering Written.render
  rw [h]
  simp only [Hooks.none, SessionM.hook_pure, pure_bind, bind_assoc, SessionM.lift_map,
    additionsData_eq, Written.answer,
    Bool.false_eq_true, if_false]

theorem keeps_listed (plan : Plan) (total : Option Nat) (pagination : Pagination) :
    SessionM.Keeps (do
      let rows ← SessionM.fetch plan
      SessionM.hook (config.hooks.afterGet ctx rows)
      let data ← elements config ctx rows
      return .ok (collectionEnvelope data total pagination) : SessionM σ Response) := by
  apply (SessionM.Keeps.fetch plan).bind
  intro rows
  apply (SessionM.Keeps.hook _).bind
  intro _
  exact (SessionM.Keeps.lift _).bind fun data => .pure _

theorem keeps_listPlan (path : List (String × String)) :
    SessionM.Keeps (listPlan config ctx path) := by
  apply (SessionM.Keeps.lift _).bind
  intro plan
  apply (SessionM.Keeps.hook _).bind
  intro plan
  exact (SessionM.Keeps.lift _).bind fun filters => .lift _

theorem keeps_list : SessionM.Keeps (list config ctx) := by
  apply (SessionM.Keeps.hookWith _).bind
  intro path
  apply (keeps_listPlan path).bind
  intro plan
  apply (SessionM.Keeps.lift _).bind
  intro pagination
  by_cases h : pagination.requested = true
  · simp only [h, if_true]
    exact ((SessionM.Keeps.count _).map some).bind fun total => keeps_listed _ total pagination
  · simp only [h]
    exact (SessionM.Keeps.pure none).bind fun total => keeps_listed _ total pagination

end Collection

namespace Single

/-- The work of changing the record, or inserting one. -/
def putting (config : Config σ) (ctx : Context) : SessionM σ Written := do
  let members ← Config.objectBody ctx
  let plan ← locate config ctx.pathParams
  let parsed ← config.parseObject config.model config.allowSubresources members
  let (record, inserted) ← putRecord config ctx plan parsed
  let record ← config.link config.model record parsed.linked
  return ⟨[config.shown ctx record], fun data => dataEnvelope (data.headD .null), inserted⟩

/-- The work of changing the record. -/
def patching (config : Config σ) (ctx : Context) : SessionM σ Written := do
  let members ← Config.objectBody ctx
  let plan ← locate config ctx.pathParams
  let filters ← config.operators.ofParams config.model ctx.params
  let parsed ← config.parseObject config.model config.allowSubresources members
  let current ← locateWith config plan (plan.filters filters)
  let changes := Config.withDefaults config.patchDefaults ctx parsed.attributes
  let record ← SessionM.update config.model current.record changes
  let record ← config.link config.model record parsed.linked
  return ⟨[config.shown ctx record], fun data => dataEnvelope (data.headD .null), false⟩

/-- The work of deleting the record. -/
def deleting (config : Config σ) (ctx : Context) : SessionM σ Written := do
  let plan ← locate config ctx.pathParams
  let filters ← config.operators.ofParams config.model ctx.params
  let current ← locateWith config plan (plan.filters filters)
  SessionM.delete config.model current.record
  return ⟨[], fun _ => .object [], false⟩

theorem keeps_locateWith (plan precondition : Plan) :
    SessionM.Keeps (locateWith config plan precondition) := by
  apply (SessionM.Keeps.one plan).bind
  intro found
  cases found with
  | nothing => exact .throw _
  | several => exact .throw _
  | one row =>
      apply (SessionM.Keeps.one precondition).bind
      intro found
      cases found with
      | nothing => exact .throw _
      | several => exact .throw _
      | one row => exact .pure row

theorem keeps_putRecord (plan : Plan) (parsed : ParsedBody) :
    SessionM.Keeps (putRecord config ctx plan parsed) := by
  apply (SessionM.Keeps.one plan).bind
  intro found
  cases found with
  | several => exact .throw _
  | nothing =>
      dsimp only
      split
      · apply (SessionM.Keeps.lift _).bind
        intro path
        apply (SessionM.Keeps.hookWith _).bind
        intro attributes
        exact (SessionM.Keeps.insert _ _).bind fun record => .pure _
      · exact .throw _
  | one current =>
      apply (SessionM.Keeps.hookWith _).bind
      intro changes
      exact (SessionM.Keeps.update _ _ _).bind fun record => .pure _

theorem keeps_putting : SessionM.Keeps (putting config ctx) := by
  apply (SessionM.Keeps.lift _).bind
  intro members
  apply (SessionM.Keeps.lift _).bind
  intro plan
  apply (SessionM.Keeps.lift _).bind
  intro parsed
  apply (keeps_putRecord plan parsed).bind
  rintro ⟨record, inserted⟩
  exact (SessionM.Keeps.link config _ _ _).bind fun record => .pure _

theorem keeps_patching : SessionM.Keeps (patching config ctx) := by
  apply (SessionM.Keeps.lift _).bind
  intro members
  apply (SessionM.Keeps.lift _).bind
  intro plan
  apply (SessionM.Keeps.lift _).bind
  intro filters
  apply (SessionM.Keeps.lift _).bind
  intro parsed
  apply (keeps_locateWith plan _).bind
  intro current
  apply (SessionM.Keeps.update _ _ _).bind
  intro record
  exact (SessionM.Keeps.link config _ _ _).bind fun record => .pure _

theorem keeps_deleting : SessionM.Keeps (deleting config ctx) := by
  apply (SessionM.Keeps.lift _).bind
  intro plan
  apply (SessionM.Keeps.lift _).bind
  intro filters
  apply (keeps_locateWith plan _).bind
  intro current
  exact (SessionM.Keeps.delete _ _).bind fun _ => .pure _

theorem keeps_includedUnder (row : Row) (name : String) :
    SessionM.Keeps (includedUnder config ctx row name) := by
  unfold includedUnder
  cases config.included.get? name with
  | none => exact .pure []
  | some spec =>
      apply SessionM.Keeps.session.bind
      intro s
      exact (SessionM.Keeps.lift _).bind fun records => .lift _

theorem keeps_view : SessionM.Keeps (view config ctx) := by
  apply (SessionM.Keeps.lift _).bind
  intro names
  apply (SessionM.Keeps.hookWith _).bind
  intro path
  apply (SessionM.Keeps.lift _).bind
  intro plan
  apply (SessionM.Keeps.hook _).bind
  intro plan
  apply (SessionM.Keeps.one plan).bind
  intro found
  cases found with
  | nothing => exact .throw _
  | several => exact .throw _
  | one row =>
      apply (SessionM.Keeps.mapM (keeps_includedUnder row) names).bind
      intro included
      apply (SessionM.Keeps.hook _).bind
      intro _
      exact (SessionM.Keeps.lift _).bind fun data => .pure _

theorem dataOf_eq (r : Record) :
    dataOf config ctx r =
      ([config.shown ctx r].mapM (Shown.render config.codec config.axes)).map fun data =>
        dataEnvelope (data.headD .null) := by
  rw [List.mapM_cons, List.mapM_nil, dataOf]
  show _ = Except.map _ (((config.data ctx ⟨r, []⟩).map Json.object) >>= _)
  cases config.data ctx ⟨r, []⟩ with
  | error e => rfl
  | ok members => rfl

theorem put_eq (h : config.hooks = .none σ) :
    put config ctx = SessionM.answering config (putting config ctx) := by
  unfold put putting SessionM.answering Written.render
  rw [h]
  simp only [Hooks.none, SessionM.hook_pure, pure_bind, bind_assoc, SessionM.lift_map, dataOf_eq,
    Written.answer]

theorem patch_eq (h : config.hooks = .none σ) :
    patch config ctx = SessionM.answering config (patching config ctx) := by
  unfold patch patching preconditionOf SessionM.answering Written.render
  rw [h]
  simp only [Hooks.none, SessionM.hook_pure, SessionM.hookWith_pure, pure_bind, bind_assoc,
    SessionM.lift_map, dataOf_eq, Written.answer, Bool.false_eq_true, if_false]

theorem delete_eq (h : config.hooks = .none σ) :
    delete config ctx = SessionM.answering config (deleting config ctx) := by
  unfold delete deleting preconditionOf SessionM.answering Written.render Written.answer
  rw [h]
  simp only [Hooks.none, SessionM.hook_pure, SessionM.hookWith_pure, pure_bind, bind_assoc,
    SessionM.lift_map]
  rfl

end Single

end RecordApi
