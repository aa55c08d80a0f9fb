import RecordApi.Proofs.Resource.Reached
import RecordApi.Proofs.Value.Ordered

/-!
# Records that a path inserts

A `PUT` to a path that names no record may insert one. The path is read twice then: for the
conditions on the records that are looked up, and for the values of the record that is inserted.
Both readings agree on a record if no parameter of the path overwrites the value of another one, and
every value is the same as itself (`PathMap.Sets.names`). As no other record has the values of the
path, a `GET` on this path shows the record that was inserted (`Single.found_of_created`).
-/

namespace RecordApi

variable {σ : Type}

namespace PathMap

variable {map : PathMap} {m : Model} {params : List (String × String)} {r : Record}

/-- The parameters of a path stand for columns of ordered types, each for another one. -/
structure Separates (map : PathMap) (m : Model) (params : List (String × String)) : Prop where
  target : ∀ p ∈ params, ∃ column, map.target p.1 = .column column ∧
    ∀ c, m.column? column = some c → c.type.Ordered
  distinct : (params.map fun p => map.target p.1).Nodup

theorem Separates.column (h : map.Separates m params) :
    ∀ p ∈ params, ∃ column, map.target p.1 = .column column := by
  intro p hp
  obtain ⟨column, htarget, -⟩ := h.target p hp
  exact ⟨column, htarget⟩

/-- A value that a parameter denotes is the same as itself. -/
theorem Separates.same_self (h : map.Separates m params) {p : String × String} (hp : p ∈ params)
    {column : String} {v : Value} (hv : map.Denotes m p column v) : v.same v = true := by
  obtain ⟨target, found, typed⟩ := hv
  obtain ⟨other, htarget, hordered⟩ := h.target p hp
  obtain rfl : column = other := by
    rw [target, PathTarget.column.injEq] at htarget
    exact htarget
  exact (Column.fits_of_typed typed).same_self (hordered _ found)

/-- A record that has what a path sets is named by the path, if this separates its parameters. -/
theorem Sets.names (h : map.Sets m params r) (hparams : map.Separates m params) :
    map.Names m params r := by
  intro p hp
  obtain ⟨front, back, rfl⟩ := List.append_of_mem hp
  have hlast : ∀ q ∈ back, map.target q.1 ≠ map.target p.1 := by
    intro q hq heq
    have hdistinct := hparams.distinct
    rw [List.map_append, List.map_cons] at hdistinct
    have hnot := (List.nodup_cons.1 hdistinct.of_append_right).1
    exact hnot (List.mem_map.2 ⟨q, hq, heq⟩)
  obtain ⟨column, v, hdenotes, hget⟩ := h front p back rfl hlast
  refine ⟨column, v, hdenotes, ?_⟩
  rw [hget]
  exact hparams.same_self hp hdenotes

end PathMap

/-- Answers show the same columns whatever the request and the record. -/
def ResponseFields.Fixed (fields : ResponseFields) : Prop :=
  fields = .all ∨ ∃ names, fields = .fixed names

theorem Config.data_eq_of_fixed {config : Config σ} (h : config.fields.Fixed) (ctx other : Context)
    (r : Record) (extra more : List Value) :
    config.data ctx ⟨r, extra⟩ = config.data other ⟨r, more⟩ := by
  unfold data
  obtain hfields | ⟨names, hfields⟩ := h
  · rw [hfields]
    rfl
  · rw [hfields]
    rfl

namespace Single

open Endpoint

variable {config : Config σ} {ctx : Context} {plan : Plan} {r : Record}

/-- Among the records that stand behind those of a table, a path finds those that it names. -/
theorem matching_append {names : Record → Prop}
    (haccepts : ∀ t r, plan.accepts t r = true ↔ names r) {t t' : Tables} {new : List Record}
    (hrows : t'.rows plan.model.name = t.rows plan.model.name ++ new) :
    plan.matching t' = plan.matching t ++ new.filter (plan.accepts t) := by
  simp only [Plan.matching, hrows, accepts_eq haccepts t t', List.filter_append]

/-- Where nothing is to be included, a record that is looked up is shown. -/
theorem view_of_found (hooks : config.hooks = .none σ)
    (hincluded : ctx.paramList? "__included" = none)
    (hplan : locate config ctx.pathParams = .ok plan) {s : Session σ}
    (hfound : plan.matching s.tx.working = [r]) {data : Json.Members}
    (hdata : config.data ctx (plan.rowOf s.tx.working r) = .ok data) :
    view config ctx s = (.ok (.ok (singleEnvelope data
      (config.metadata.produce ctx (plan.rowOf s.tx.working r)) none)), s) := by
  have hnames : includedNames config ctx = .ok [] := by
    unfold includedNames
    rw [hincluded]
    rfl
  have hone : (SessionM.one plan : SessionM σ Resolution) s =
      (.ok (.one (plan.rowOf s.tx.working r)), s) := by
    change (Except.ok (s.tx.one plan), s) = _
    rw [Transaction.one_eq, hfound]
    rfl
  unfold view
  rw [hooks, hnames, SessionM.ok_bind]
  simp only [Hooks.none, SessionM.hookWith_pure, SessionM.hook_pure, pure_bind]
  rw [hplan, SessionM.ok_bind, SessionM.bind_apply, hone]
  dsimp only
  rw [List.mapM_nil, pure_bind, hdata]
  rfl

/-- A `GET` shows the one record that its path names. -/
theorem handle_get_of_found {server : Server σ} {request : Context}
    (hooks : config.hooks = .none σ)
    (hadmitted : config.receive config.singleMethods request = .ok ctx)
    (hmethod : ctx.method = .get) (hincluded : ctx.paramList? "__included" = none)
    (hplan : locate config ctx.pathParams = .ok plan)
    (hfound : plan.matching server.store.tables = [r]) {data : Json.Members}
    (hdata : config.data ctx (plan.rowOf server.store.tables r) = .ok data) :
    ((single config).handle request server).1 = .ok (.ok (singleEnvelope data
      (config.metadata.produce ctx (plan.rowOf server.store.tables r)) none)) := by
  have hhandle : (single config).handle request server = (single config).respond ctx server :=
    handle_of_admitted hadmitted
  have hview := view_of_found (s := sessionOf server .read) hooks hincluded hplan hfound hdata
  rw [hhandle]
  simp only [respond, hmethod]
  exact congrArg Prod.fst hview

/-- A `PUT` of which the answer is that something was created has looked up no record, and has
committed one more that has what its path sets. -/
theorem inserts_of_created (hooks : config.hooks = .none σ)
    (hsub : config.allowSubresources = false) {server : Server σ}
    (hmodel : server.store.schema.model? config.model.name = some config.model)
    {request : Context}
    (hadmitted : config.receive config.singleMethods request = .ok ctx)
    (hmethod : ctx.method = .put)
    (htargets : ∀ p ∈ ctx.pathParams, ∃ column, config.inbound.target p.1 = .column column)
    (hstatus : (single config).status request server = 201) :
    ∃ plan r data, locate config ctx.pathParams = .ok plan ∧
      plan.matching server.store.tables = [] ∧ config.inbound.Sets config.model ctx.pathParams r ∧
      (single config).tablesAfter request server = server.store.tables.setRows config.model.name
        (server.store.tables.rows config.model.name ++ [r]) ∧
      config.data ctx ⟨r, []⟩ = .ok data ∧
      ((single config).handle request server).1 =
        .ok (.created (dataEnvelope (.object data))) := by
  have hooks' : (single config).config.hooks = .none σ := hooks
  have hadmitted' : (single config).config.receive (single config).methods request = .ok ctx :=
    hadmitted
  have hwriting : (single config).writing ctx = some (.write, putting config ctx) := by
    simp only [writing, hmethod]
  obtain ⟨w, s, store, hrun, hcommit, htables⟩ := writes_of_status hooks' hadmitted' hwriting
    (by rw [hstatus]; decide)
  obtain ⟨hanswer, -⟩ := handle_of_writes hooks' (.intro hadmitted' hwriting hrun hcommit)
  have hcreated : w.created = true := by
    unfold status at hstatus
    rw [hanswer] at hstatus
    rw [Written.created_eq_of_status (by rw [hstatus]; decide), hstatus]
    rfl
  obtain ⟨members, b, plan, ⟨r, _⟩, v, stored, hplan, hb, hfound, hinsert, hlink, rfl⟩ :=
    inserting_of_putting hooks hrun hcreated
  obtain ⟨hsets, hwrote, hfrom⟩ := yields_inserting hmodel htargets
    (Transaction.from_begin server.store) (sessionOf server .write) rfl _ v hinsert
  -- nothing is linked to the record, so it is what is stored
  rw [linked_eq_nil hb hsub] at hlink
  cases hlink
  have hkeeps : s.store.tables = server.store.tables :=
    (keeps_of_writing hwriting).tables_eq hrun
  have hworking : store.tables = s.tx.working :=
    Transaction.From.tables_of_commit (hkeeps ▸ hfrom) hcommit
  have hrendered : ((single config).handle request server).1 =
      (dataOf config ctx r).map .created := hanswer.trans (render_stored r true)
  unfold status at hstatus
  unfold dataOf at hrendered
  cases hdata : config.data ctx ⟨r, []⟩ with
  | error e =>
      rw [hdata] at hrendered
      rw [hrendered] at hstatus
      exact absurd hstatus (Nat.ne_of_gt (Nat.lt_of_lt_of_le (by decide) e.le_status))
  | ok data =>
      rw [hdata] at hrendered
      refine ⟨plan, r, data, hplan, hfound, hsets, ?_, hdata, hrendered⟩
      rw [htables, hworking, hwrote]
      rfl

/-- What a `PUT` has created is what its path names, on every store: the records that are committed
are those before and one more, the path names this record and no other, and a `GET` on the path that
is admitted and includes nothing shows the data that the `PUT` has answered. -/
theorem found_of_created (config : Config σ) (server : Server σ)
    (hmodel : server.store.schema.model? config.model.name = some config.model)
    (hooks : config.hooks = .none σ) (hsub : config.allowSubresources = false)
    (hfields : config.fields.Fixed) (hinbound : config.inboundMap = none)
    (hlookup : config.lookupMap = none) (put : Context) {admitted : Context}
    (hadmitted : config.receive config.singleMethods put = .ok admitted)
    (hmethod : admitted.method = .put)
    (hpath : config.pathMap.Separates config.model admitted.pathParams)
    (hstatus : (single config).status put server = 201) :
    ∃ (plan : Plan) (r : Record) (data : Json.Members),
      locate config admitted.pathParams = .ok plan ∧
      ((single config).tablesAfter put server).rows config.model.name =
        server.store.tables.rows config.model.name ++ [r] ∧
      (∀ name, name ≠ config.model.name →
        ((single config).tablesAfter put server).rows name = server.store.tables.rows name) ∧
      plan.matching server.store.tables = [] ∧
      plan.matching ((single config).tablesAfter put server) = [r] ∧
      ((single config).handle put server).1 =
        .ok (.created (dataEnvelope (.object data))) ∧
      ∀ (get seen : Context), config.receive config.singleMethods get = .ok seen →
        seen.method = .get → seen.pathParams = admitted.pathParams →
        seen.paramList? "__included" = none →
        ∃ told, ((single config).handle get ((single config).handle put server).2).1 =
          .ok (.ok (singleEnvelope data told none)) := by
  have hlookupMap : config.lookup = config.pathMap := by
    simp [Config.lookup, hlookup]
  have hinboundMap : config.inbound = config.pathMap := by
    simp [Config.inbound, hinbound]
  obtain ⟨plan, r, data, hplan, hfound, hsets, htables, hdata, hanswer⟩ :=
    inserts_of_created hooks hsub hmodel hadmitted hmethod (hinboundMap ▸ hpath.column) hstatus
  obtain ⟨hplanModel, haccepts⟩ := accepts_of_locate (hlookupMap ▸ hpath.column) hplan
  have hnamed : config.lookup.Names config.model admitted.pathParams r := by
    rw [hlookupMap]
    exact (hinboundMap ▸ hsets).names hpath
  have hrows : ((single config).tablesAfter put server).rows config.model.name =
      server.store.tables.rows config.model.name ++ [r] := by
    rw [htables]
    exact (Tables.rows_setRows _ _ _ _).trans (if_pos rfl)
  have hfoundAfter : plan.matching ((single config).tablesAfter put server) = [r] := by
    rw [matching_append haccepts (hplanModel ▸ hrows), hfound, List.nil_append,
      List.filter_cons_of_pos ((haccepts _ r).2 hnamed), List.filter_nil]
  refine ⟨plan, r, data, hplan, hrows, fun name hname => ?_, hfound, hfoundAfter, hanswer, ?_⟩
  · rw [htables]
    exact (Tables.rows_setRows _ _ _ _).trans (if_neg hname)
  · intro get seen hreceived hget hsame hincluded
    refine ⟨_, handle_get_of_found hooks hreceived hget hincluded (hsame ▸ hplan) hfoundAfter ?_⟩
    rw [← hdata]
    exact Config.data_eq_of_fixed hfields seen admitted r _ []

/-- The configuration of single notes, where a `PUT` may insert one. -/
def notesToPut : Config Unit :=
  { Config.ofModel Unit .notes .note with allowPutInsert := true }

/-- A request to put a note with the number two there. -/
def putSecond : Context :=
  { Context.ofMethod .put with
    pathParams := [("id", "2")]
    body := some (.object [("id", .int 7), ("text", .string "new")]) }

/-- A request for the note with the number two. -/
def getSecond : Context :=
  { Context.ofMethod .get with pathParams := [("id", "2")] }

/-- The number of the path is that of the note, whatever the body says, and the note is found by
it. -/
theorem found_of_created_putSecond :
    (single notesToPut).status putSecond oneNote = 201 ∧
      ∃ (r : Record) (data : Json.Members) (told : Option Json.Members),
        ((single notesToPut).tablesAfter putSecond oneNote).rows "note" =
          oneNote.store.tables.rows "note" ++ [r] ∧
        ((single notesToPut).handle putSecond oneNote).1 =
          .ok (.created (dataEnvelope (.object data))) ∧
        ((single notesToPut).handle getSecond ((single notesToPut).handle putSecond oneNote).2).1 =
          .ok (.ok (singleEnvelope data told none)) := by
  have hstatus : (single notesToPut).status putSecond oneNote = 201 := by decide +kernel
  have hpath : notesToPut.pathMap.Separates notesToPut.model putSecond.pathParams := by
    refine ⟨fun p hp => ?_, by simp [putSecond]⟩
    obtain rfl := List.mem_singleton.1 hp
    refine ⟨"id", rfl, fun c hc => ?_⟩
    obtain rfl := Option.some.inj hc
    trivial
  obtain ⟨plan, r, data, -, hrows, -, -, -, hanswer, hshown⟩ := found_of_created notesToPut oneNote
    rfl rfl rfl (.inl rfl) rfl rfl putSecond rfl rfl hpath hstatus
  obtain ⟨told, htold⟩ := hshown getSecond getSecond rfl rfl rfl rfl
  exact ⟨hstatus, r, data, told, hrows, hanswer, htold⟩

end Single

end RecordApi
