import RecordApi.Proofs.Query.Found
import RecordApi.Proofs.Resource.Effects
import RecordApi.Proofs.Resource.FailedRequest
import RecordApi.Proofs.Store.Edited

/-!
# The record that a path names

A request to change or delete a single record looks up the records that satisfy the conditions of
its path. Only if that is one record, which satisfies the conditions of the query as well, the
request goes on (`Single.located`), and then it edits this record where it stands and nothing else
(`Single.edits_named`).
-/

namespace RecordApi

variable {σ : Type}

/-- Without relationships to follow, a body says nothing of other records. -/
theorem Config.linked_of_parseFlat {config : Config σ} {m : Model} {members : Json.Members}
    {b : ParsedBody} (h : config.parseFlat m members = .ok b) : b.linked = [] := by
  have hmap : ∀ {x : Except ApiError Value} {a b : ParsedBody} {name : String},
      x.map (a.set name) = .ok b → a.linked = [] → b.linked = [] := by
    intro x a b name hx ha
    cases x with
    | error e => cases hx
    | ok v =>
        cases hx
        exact ha
  have hunknown : ∀ {a b : ParsedBody} {name : String},
      config.unknownMember a name = .ok b → a.linked = [] → b.linked = [] := by
    intro a b name hx ha
    unfold unknownMember at hx
    split at hx
    · cases hx
    · cases hx
      exact ha
  refine foldlM_induct (P := fun b => b.linked = []) h rfl fun member _ a b ha hb => ?_
  unfold parseMember at hb
  split at hb
  · exact hmap hb ha
  · unfold parseProperty at hb
    split at hb
    · cases hb
      exact ha
    · split at hb
      · cases hb
      · exact hmap hb ha
  · cases ‹none = some _›
  · exact hunknown hb ha

/-- What is patched with the columns among some values is patched with the values. -/
theorem Record.Patched.of_columnValues {m : Model} {r attributes r' : Record}
    (h : Record.Patched m r (m.columnValues attributes) r') : Record.Patched m r attributes r' := by
  have hvalues : ∀ name, (m.columnValues attributes).get? name =
      if m.isColumn name then attributes.get? name else none :=
    fun name => Record.get?_restrict attributes m.isColumn name
  refine ⟨fun name c v hversion hc hv => h.given name c v hversion hc ?_, h.version,
    fun name hversion habsent => h.kept name hversion ?_⟩
  · rw [hvalues, if_pos (by simp [Model.isColumn, hc]), hv]
  · refine habsent.imp_right fun hnone => ?_
    rw [hvalues, hnone, ite_self]

namespace Single

variable {config : Config σ} {ctx : Context} {plan : Plan} {filters : List Predicate}

/-! ## Looking up -/

/-- The row of the one record that satisfies the conditions of a plan, if it satisfies some filters
as well. -/
def located (config : Config σ) (plan : Plan) (filters : List Predicate) (t : Tables) :
    Except ApiError Row :=
  match plan.matching t with
  | [] => .error .notFound
  | [r] =>
    if filters.all (·.holds (t.links plan.model) r) then .ok (plan.rowOf t r)
    else .error (.conflict .conditions)
  | _ => .error (ambiguous config)

section Located

variable {t : Tables} {r : Record}

theorem located_of_nil (h : plan.matching t = []) :
    located config plan filters t = .error .notFound := by
  unfold located
  rw [h]

theorem located_of_several (h : 2 ≤ (plan.matching t).length) :
    located config plan filters t = .error (ambiguous config) := by
  unfold located
  rcases hfound : plan.matching t with _ | ⟨r, _ | ⟨q, rest⟩⟩
  · rw [hfound] at h
    exact absurd h (by decide)
  · rw [hfound] at h
    exact absurd h (by simp)
  · rfl

theorem located_of_refused (h : plan.matching t = [r])
    (hfilters : ∃ p ∈ filters, p.holds (t.links plan.model) r = false) :
    located config plan filters t = .error (.conflict .conditions) := by
  obtain ⟨p, hp, hfalse⟩ := hfilters
  have hnot : ¬filters.all (fun p => p.holds (t.links plan.model) r) = true := by
    rw [List.all_eq_true]
    exact fun hall => by simp [hall p hp] at hfalse
  unfold located
  rw [h]
  exact if_neg hnot

theorem located_of_one (h : plan.matching t = [r])
    (hfilters : ∀ p ∈ filters, p.holds (t.links plan.model) r = true) :
    located config plan filters t = .ok (plan.rowOf t r) := by
  unfold located
  rw [h]
  exact if_pos (List.all_eq_true.2 hfilters)

end Located

/-- The plan of a path that can be read has the conditions of the path. -/
theorem locate_eq_ok {params : List (String × String)} {path : List (List Predicate)}
    (h : params.mapM (config.lookup.condition config.model) = .ok path) :
    ∃ plan, locate config params = .ok plan ∧ plan.model = config.model ∧
      ∀ t, plan.matching t = t.satisfying config.model path.flatten := by
  refine ⟨((Plan.ofModel config.model).withExtra config.extra).filters path.flatten, ?_, rfl,
    fun _ => rfl⟩
  unfold locate Plan.filterByPath
  exact congrArg (Except.map _) h

theorem locateWith_apply (s : Session σ) :
    locateWith config plan (plan.filters filters) s =
      (located config plan filters s.tx.working, s) := by
  have hone : ∀ p : Plan, (SessionM.one p : SessionM σ Resolution) s = (.ok (s.tx.one p), s) :=
    fun _ => rfl
  unfold locateWith located
  rw [SessionM.bind_apply, hone, Transaction.one_eq]
  rcases hfound : plan.matching s.tx.working with _ | ⟨r, _ | ⟨q, rest⟩⟩
  · rfl
  · change (SessionM.one (plan.filters filters) >>= _) s = _
    rw [SessionM.bind_apply, hone, Transaction.one_eq, Plan.matching_filters, hfound,
      List.filter_singleton]
    dsimp only
    cases filters.all fun p => p.holds (s.tx.working.links plan.model) r with
    | true => rfl
    | false => rfl
  · rfl

/-! ## Editing -/

/-- What a request is to make of the record that its path names. -/
inductive Edit where
  | set (attributes : Record)
  | remove

/-- What a request asks for: a `PATCH` that its record gets the values of its body, a `DELETE` that
it is removed. -/
inductive Asks (config : Config σ) (ctx : Context) : Edit → Prop
  | patch {members : Json.Members} {b : ParsedBody} (method : ctx.method = .patch)
      (body : Config.objectBody ctx = .ok members)
      (parsed : config.parseObject config.model config.allowSubresources members = .ok b) :
      Asks config ctx (.set b.attributes)
  | delete (method : ctx.method = .delete) : Asks config ctx .remove

namespace Edit

/-- What an edit leaves of a record of a model. -/
def Leaves (m : Model) (r : Record) : Edit → List Record → Prop
  | .set attributes, left => ∃ r', left = [r'] ∧ Record.Patched m r attributes r'
  | .remove, left => left = []

/-- The work on the record that was looked up. -/
def work (config : Config σ) (ctx : Context) (row : Row) : Edit → SessionM σ Written
  | .set attributes => do
    let record ← SessionM.update config.model row.record attributes
    return ⟨[config.shown ctx record], fun data => dataEnvelope (data.headD .null), false⟩
  | .remove => do
    SessionM.delete config.model row.record
    return ⟨[], fun _ => .object [], false⟩

theorem keeps_work (row : Row) (edit : Edit) : (edit.work config ctx row).Keeps := by
  cases edit with
  | set attributes => exact (SessionM.Keeps.update _ _ _).bind fun _ => .pure _
  | remove => exact (SessionM.Keeps.delete _ _).bind fun _ => .pure _

end Edit

/-- A request that can be read looks up its record and goes on to edit it. -/
theorem writing_of_asks {edit : Edit} (h : Asks config ctx edit)
    (hsub : config.allowSubresources = false) (hdefaults : config.patchDefaults = [])
    (hplan : locate config ctx.pathParams = .ok plan)
    (hfilters : config.operators.ofParams config.model ctx.params = .ok filters) :
    ∃ purpose work, (Endpoint.single config).writing ctx = some (purpose, work) ∧
      ∀ s, work s = match located config plan filters s.tx.working with
        | .error e => (.error e, s)
        | .ok row => edit.work config ctx row s := by
  cases h with
  | @patch members b method body parsed =>
      refine ⟨.write, patching config ctx, by simp only [Endpoint.writing, method], fun s => ?_⟩
      have hlinked : b.linked = [] := by
        unfold Config.parseObject at parsed
        rw [hsub] at parsed
        exact Config.linked_of_parseFlat parsed
      unfold patching
      rw [body, SessionM.ok_bind, hplan, SessionM.ok_bind, hfilters, SessionM.ok_bind, parsed,
        SessionM.ok_bind, SessionM.bind_apply, locateWith_apply, hdefaults]
      cases located config plan filters s.tx.working with
      | error e => rfl
      | ok row =>
          dsimp only
          rw [hlinked]
          rfl
  | delete method =>
      refine ⟨.delete, deleting config ctx, by simp only [Endpoint.writing, method], fun s => ?_⟩
      unfold deleting
      rw [hplan, SessionM.ok_bind, hfilters, SessionM.ok_bind, SessionM.bind_apply,
        locateWith_apply]
      cases located config plan filters s.tx.working with
      | error e => rfl
      | ok row => rfl

/-- Tables differ in one record of a model: what is left of it stands in its place. -/
structure EditedAt (m : Model) (r : Record) (edit : Edit) (t t' : Tables) : Prop where
  rows : ∃ before after left, t.rows m.name = before ++ r :: after ∧
    t'.rows m.name = before ++ left ++ after ∧ edit.Leaves m r left
  others : ∀ name, name ≠ m.name → t'.rows name = t.rows name

theorem EditedAt.wrote {m : Model} {r : Record} {edit : Edit} {tx : Transaction}
    {op : Operation} {rows before after left : List Record}
    (hbefore : tx.working.rows m.name = before ++ r :: after)
    (hrows : rows = before ++ left ++ after) (hleft : edit.Leaves m r left) :
    EditedAt m r edit tx.working (tx.wrote m rows op).working := by
  constructor
  · refine ⟨before, after, left, hbefore, ?_, hleft⟩
    exact (Tables.rows_setRows _ _ _ _).trans ((if_pos rfl).trans hrows)
  · exact fun name hname => (Tables.rows_setRows _ _ _ _).trans (if_neg hname)

/-- The work on a record that is there edits this record. -/
theorem Edit.yields {tx : Transaction}
    (hm : tx.schema.model? config.model.name = some config.model)
    (hunique : config.model.KeyUnique (tx.working.rows config.model.name)) {row : Row}
    (hr : row.record ∈ tx.working.rows config.model.name) (tables : Tables)
    (hfrom : tx.From tx.schema tables) (edit : Edit) :
    (edit.work config ctx row).Yields (· = tx) fun _ tx' =>
      tx'.From tx.schema tables ∧
        EditedAt config.model row.record edit tx.working tx'.working := by
  cases edit with
  | set attributes =>
      refine SessionM.Yields.bind (.update fun tx' n op rows r' htx hw => ?_)
        fun _ => .pure fun _ h => h
      subst htx
      obtain rfl : n = config.model := by
        cases hw with
        | update named => exact Option.some.inj (named.symm.trans hm)
      obtain ⟨before, after, hbefore, hrows, hpatched⟩ := hw.of_update hunique hr
      refine ⟨hfrom.wrote hw, .wrote hbefore ?_ ⟨r', rfl, hpatched.of_columnValues⟩⟩
      rw [hrows, List.append_assoc, List.singleton_append]
  | remove =>
      refine SessionM.Yields.bind (.delete fun tx' n op rows htx hw => ?_)
        fun _ => .pure fun _ h => h
      subst htx
      obtain rfl : n = config.model := by
        cases hw with
        | delete named => exact Option.some.inj (named.symm.trans hm)
      obtain ⟨before, after, hbefore, hrows⟩ := hw.of_delete hunique hr
      refine ⟨hfrom.wrote hw, .wrote hbefore ?_ rfl⟩
      rw [hrows, List.append_nil]

end Single

namespace Endpoint

variable {e : Endpoint σ} {ctx admitted : Context} {server : Server σ} {purpose : Purpose}
  {work : SessionM σ Written}

/-- The session in which the work of a request starts. -/
def sessionOf (server : Server σ) (purpose : Purpose) : Session σ :=
  ⟨server.store, server.store.begin, purpose, server.hooks⟩

/-- Work that fails at once makes the answer, and nothing changes. -/
theorem of_work_eq_error (hooks : e.config.hooks = .none σ)
    (hadmitted : e.config.receive e.methods ctx = .ok admitted)
    (hwriting : e.writing admitted = some (purpose, work)) {err : ApiError}
    (hwork : work (sessionOf server purpose) = (.error err, sessionOf server purpose)) :
    e.status ctx server = err.status ∧ e.tablesAfter ctx server = server.store.tables := by
  unfold sessionOf at hwork
  unfold status tablesAfter
  rw [handle_of_admitted hadmitted, respond_of_writing hooks hwriting,
    SessionM.onServer_answering, hwork]
  exact ⟨rfl, rfl⟩

/-- A request that writes and succeeds has done its work and committed it. -/
theorem writes_of_status (hooks : e.config.hooks = .none σ)
    (hadmitted : e.config.receive e.methods ctx = .ok admitted)
    (hwriting : e.writing admitted = some (purpose, work)) (hstatus : e.status ctx server < 400) :
    ∃ w s store, work (sessionOf server purpose) = (.ok w, s) ∧
      s.store.commit s.tx = .ok store ∧ e.tablesAfter ctx server = store.tables := by
  unfold status at hstatus
  unfold tablesAfter
  rw [handle_of_admitted hadmitted, respond_of_writing hooks hwriting,
    SessionM.onServer_answering] at hstatus ⊢
  unfold sessionOf
  rcases hrun : work ⟨server.store, server.store.begin, purpose, server.hooks⟩ with ⟨err | w, s⟩
  · rw [hrun] at hstatus
    exact absurd hstatus (Nat.not_lt.2 err.le_status)
  · rw [hrun] at hstatus
    dsimp only at hstatus ⊢
    cases hc : s.store.commit s.tx with
    | error err =>
        rw [hc] at hstatus
        exact absurd hstatus (Nat.not_lt.2 (ApiError.le_status _))
    | ok store => exact ⟨w, s, store, rfl, hc, rfl⟩

end Endpoint

namespace Single

open Endpoint

/-- A `PATCH` or `DELETE` that can be read is answered by what its path names. If no record
satisfies the conditions of the path, or several do, or one that does not satisfy those of the
query, the answer says so and nothing changes. Otherwise, if the answer is that all went well, this
one record is edited and no other. -/
theorem edits_named {d : SchemaDecl} {schema : Schema} (hd : d.resolve = .ok schema)
    (supply : Nat → Uuid) (steps : List Step) (config : Config σ) (server : Server σ)
    (hserver : server.store = ((Sessions.empty schema supply).after steps).store)
    (hmodel : schema.model? config.model.name = some config.model)
    (hooks : config.hooks = .none σ) (hsub : config.allowSubresources = false)
    (hdefaults : config.patchDefaults = []) (ctx : Context) {admitted : Context}
    (hadmitted : config.receive config.singleMethods ctx = .ok admitted)
    {path : List (List Predicate)}
    (hpath : admitted.pathParams.mapM (config.lookup.condition config.model) = .ok path)
    {filters : List Predicate}
    (hfilters : config.operators.ofParams config.model admitted.params = .ok filters)
    {edit : Edit} (hedit : Asks config admitted edit) :
    (server.store.tables.satisfying config.model path.flatten = [] →
      (single config).status ctx server = 404 ∧
        (single config).tablesAfter ctx server = server.store.tables) ∧
    (2 ≤ (server.store.tables.satisfying config.model path.flatten).length →
      (single config).status ctx server = 500 ∧
        (single config).tablesAfter ctx server = server.store.tables) ∧
    ∀ r, server.store.tables.satisfying config.model path.flatten = [r] →
      ((∃ p ∈ filters, p.holds (server.store.tables.links config.model) r = false) →
        (single config).status ctx server = 409 ∧
          (single config).tablesAfter ctx server = server.store.tables) ∧
      ((∀ p ∈ filters, p.holds (server.store.tables.links config.model) r = true) →
        (single config).status ctx server = 200 →
          EditedAt config.model r edit server.store.tables
            ((single config).tablesAfter ctx server)) := by
  have hooks : (single config).config.hooks = .none σ := hooks
  have hschema : server.store.schema = schema := by
    rw [hserver]
    exact ((Sessions.of_empty schema supply).after steps).store
  have hknown : server.store.begin.schema.model? config.model.name = some config.model := by
    change server.store.schema.model? _ = _
    rw [hschema]
    exact hmodel
  have hunique : config.model.KeyUnique (server.store.tables.rows config.model.name) := by
    rw [hserver]
    exact Sessions.keyUnique_after hd (Schema.mem_of_model? hmodel) supply steps
  obtain ⟨plan, hplan, hplanModel, hmatching⟩ := locate_eq_ok hpath
  obtain ⟨purpose, work, hwriting, hwork⟩ := writing_of_asks hedit hsub hdefaults hplan hfilters
  have hstart := hwork (sessionOf server purpose)
  change _ = match located config plan filters server.store.tables with
    | .error e => _
    | .ok row => _ at hstart
  refine ⟨fun hfound => ?_, fun hfound => ?_, fun r hfound => ⟨fun hrefused => ?_, ?_⟩⟩
  · rw [located_of_nil ((hmatching _).trans hfound)] at hstart
    exact of_work_eq_error hooks hadmitted hwriting hstart
  · rw [located_of_several (by rw [hmatching]; exact hfound)] at hstart
    exact of_work_eq_error hooks hadmitted hwriting hstart
  · rw [located_of_refused ((hmatching _).trans hfound) (hplanModel ▸ hrefused)] at hstart
    exact of_work_eq_error hooks hadmitted hwriting hstart
  · intro hall hstatus
    rw [located_of_one ((hmatching _).trans hfound) (hplanModel ▸ hall)] at hstart
    have hsucceeds : (single config).status ctx server < 400 := by
      rw [hstatus]
      decide
    obtain ⟨w, s, store, hrun, hcommit, htables⟩ :=
      writes_of_status hooks hadmitted hwriting hsucceeds
    rw [hstart] at hrun
    change edit.work config admitted (plan.rowOf server.store.tables r) _ = _ at hrun
    have hr : r ∈ server.store.tables.rows config.model.name := by
      have hr : r ∈ server.store.tables.satisfying config.model path.flatten := by
        rw [hfound]
        exact List.mem_singleton.2 rfl
      exact (Tables.mem_satisfying_iff.1 hr).1
    have hkeeps : s.store.tables = server.store.tables := (edit.keeps_work _).tables_eq hrun
    obtain ⟨hfrom, hedited⟩ := Edit.yields hknown hunique hr server.store.tables
      (Transaction.from_begin server.store) edit (sessionOf server purpose) rfl w s hrun
    have hworking : store.tables = s.tx.working :=
      Transaction.From.tables_of_commit (hkeeps ▸ hfrom) hcommit
    rw [htables, hworking]
    exact hedited

/-- The steps that commit one note. -/
def noteSteps : List Step :=
  [.begin "a", .insert "a" "note" (.ofList [("text", .text "old")]), .commit "a"]

/-- A server with one note. -/
def oneNote : Server Unit :=
  ⟨((Sessions.empty .notes fun _ => default).after noteSteps).store, ()⟩

/-- A request to give the note with the number one another text. -/
def patchNote : Context :=
  { Context.ofMethod .patch with
    pathParams := [("id", "1")]
    body := some (.object [("text", .string "new")]) }

theorem edits_named_patchNote :
    (single (.ofModel Unit .notes .note)).status patchNote oneNote = 200 ∧
      EditedAt .note (.ofList [("id", .int 1), ("text", .text "old"), ("version", .int 1)])
        (.set (.ofList [("text", .text "new")])) oneNote.store.tables
        ((single (.ofModel Unit .notes .note)).tablesAfter patchNote oneNote) := by
  have hstatus : (single (.ofModel Unit .notes .note)).status patchNote oneNote = 200 := by
    decide +kernel
  have hpath : patchNote.pathParams.mapM
      ((Config.ofModel Unit .notes .note).lookup.condition .note) =
        .ok [[.eq "id" (.int 1)]] := rfl
  have hedit : Asks (.ofModel Unit .notes .note) patchNote
      (.set (.ofList [("text", .text "new")])) :=
    .patch (b := ⟨.ofList [("text", .text "new")], []⟩) rfl rfl rfl
  refine ⟨hstatus, ?_⟩
  have hnamed := edits_named SchemaDecl.resolve_notes (fun _ => default) noteSteps
    (.ofModel Unit .notes .note) oneNote rfl rfl rfl rfl rfl patchNote rfl hpath rfl hedit
  exact (hnamed.2.2 _ rfl).2 (fun p hp => by cases hp) hstatus

end Single

end RecordApi
