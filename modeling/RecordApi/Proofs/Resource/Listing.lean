import RecordApi.Proofs.Query.Found
import RecordApi.Proofs.Query.Paged
import RecordApi.Proofs.Resource.FailedRequest
import RecordApi.Proofs.Store.Integrity

/-!
# Lists and their parts

A request for a list of a collection is answered with the records that satisfy all its conditions,
each of them once, and a request that asks for a part with that part of the same list
(`Collection.lists_matching`). If what is shown of a record does not depend on the part that is
asked for, the answers to requests for all parts together are the answer to the request for the
whole.
-/

namespace RecordApi

variable {σ : Type}

/-! ## Stored values that answers can show -/

/-- A column that is neither for geometries nor of a type that is not known holds values with a wire
form. -/
theorem Value.Fits.hasWireForm {type : ColumnType} {v : Value} (h : v.Fits type)
    (hgeometry : ∀ kind dimension, type ≠ .geometry kind dimension)
    (hother : ∀ name, type ≠ .other name) : v.HasWireForm := by
  have h := Value.fits_iff.1 h
  cases v with
  | list items =>
      cases type with
      | geometry kind dimension => exact absurd rfl (hgeometry kind dimension)
      | other name => exact absurd rfl (hother name)
      | _ => cases h
  | geometry g =>
      cases type with
      | geometry kind dimension => exact absurd rfl (hgeometry kind dimension)
      | other name => exact absurd rfl (hother name)
      | _ => cases h
  | _ => trivial

/-- What a record holds in columns of a type that is not known has a wire form. -/
def Model.ShowsUnknown (m : Model) (r : Record) : Prop :=
  ∀ c ∈ m.columns, ∀ name, c.type = .other name → (r.get c.name).HasWireForm

theorem Record.Valid.hasWireForm {m : Model} {r : Record} (hr : r.Valid m) (hm : m.WellFormed)
    (hgeometry : ∀ c ∈ m.columns, ∀ kind dimension, c.type ≠ .geometry kind dimension)
    (hunknown : m.ShowsUnknown r) {c : Column} (hc : c ∈ m.columns) :
    (r.get c.name).HasWireForm := by
  cases hcontains : r.contains c.name with
  | false =>
      rw [Record.get_eq_null_of_not_contains hcontains]
      trivial
  | true =>
      rcases hr.takes c.name hcontains with ⟨c', hc', hfits⟩ | ⟨-, n, hn⟩
      · obtain rfl : c = c' := Option.some.inj ((hm.column?_of_mem hc).symm.trans hc')
        by_cases hother : ∃ name, c.type = .other name
        · obtain ⟨name, hname⟩ := hother
          exact hunknown c hc name hname
        · exact hfits.hasWireForm (hgeometry c hc) fun name hname => hother ⟨name, hname⟩
      · rw [hn]
        trivial

namespace Codec

variable {codec : Codec} {axes : AxisNames} {m : Model} {r : Record}

theorem exists_namedAttribute {name : String} (hname : m.isColumn name = true)
    (h : ∀ c ∈ m.columns, (r.get c.name).HasWireForm) :
    ∃ entries, codec.namedAttribute axes m r name = .ok entries := by
  obtain ⟨c, hc⟩ := Option.isSome_iff_exists.1 hname
  obtain ⟨a, ha, hcol⟩ := Option.bind_eq_some_iff.1 hc
  obtain rfl := Attribute.column?_eq_some_iff.1 hcol
  unfold namedAttribute
  rw [ha, exists_map_eq_ok_iff]
  exact exists_column (h c (Model.mem_of_column? hc))

/-- All columns of a record of values with wire forms can be shown, and those that are named. -/
theorem exists_record {fields : Option (List String)}
    (h : ∀ c ∈ m.columns, (r.get c.name).HasWireForm)
    (hfields : ∀ names, fields = some names → ∀ name ∈ names, m.isColumn name = true) :
    ∃ members, codec.record axes m r fields = .ok members := by
  unfold record
  cases fields with
  | none =>
      rw [exists_map_eq_ok_iff, exists_mapM_eq_ok_iff]
      exact fun c hc => exists_column (h c hc)
  | some names =>
      rw [exists_map_eq_ok_iff, exists_mapM_eq_ok_iff]
      exact fun name hname => exists_namedAttribute (hfields names rfl name hname) h

end Codec

namespace Config

/-- All names that answers show are those of columns. -/
def ShowsColumns (config : Config σ) : Prop :=
  ∀ ctx row names, config.fields.resolve ctx row = some names →
    ∀ name ∈ names, config.model.isColumn name = true

/-- What is shown of a record does not depend on the part of a list that is asked for. -/
structure IgnoresPart (config : Config σ) : Prop where
  fields : ∀ ctx row, config.fields.resolve ctx.unpaged row = config.fields.resolve ctx row
  metadata : ∀ ctx row, config.metadata.produce ctx.unpaged row = config.metadata.produce ctx row

variable {config : Config σ} {ctx : Context} {row : Row}

/-- A record of values with wire forms can be shown as an element of a list. -/
theorem exists_element (hshows : config.ShowsColumns)
    (h : ∀ c ∈ config.model.columns, (row.record.get c.name).HasWireForm) :
    ∃ j, config.element ctx row = .ok j := by
  obtain ⟨data, hdata⟩ : ∃ data, config.data ctx row = .ok data :=
    Codec.exists_record h (hshows ctx row)
  unfold element
  rw [hdata]
  cases config.metadata.produce ctx row with
  | none => exact ⟨_, rfl⟩
  | some members => exact ⟨_, rfl⟩

theorem IgnoresPart.element_eq (h : config.IgnoresPart) {other : Context}
    (hsame : ctx.unpaged = other.unpaged) (row : Row) :
    config.element ctx row = config.element other row := by
  unfold element data
  rw [← h.fields ctx, ← h.metadata ctx, hsame, h.fields, h.metadata]

end Config

namespace Collection

variable {config : Config σ} {ctx : Context} {plan : Plan} {p : Pagination}
  {path : List (List Predicate)} {filters : List Predicate}

/-! ## The plan of a list -/

/-- The plan of a list with some conditions, before it is put in order. -/
def conditionsPlan (config : Config σ) (path : List (List Predicate)) (filters : List Predicate) :
    Plan :=
  (((Plan.ofModel config.model).withExtra config.extra).filters path.flatten).filters filters

/-- A name to sort by has to be that of a column. -/
theorem exists_sortFor (p : Plan) {m : Model} {standard : Option (List String)}
    (h : ∀ names, (ctx.paramList? "__sort").or standard = some names →
      ∀ name ∈ names, m.isColumn (SortKey.ofText name).column = true) :
    ∃ keys, p.sortFor m ctx standard = .ok (p.orderBy keys) := by
  have hkeys : ∀ fault names, (ctx.paramList? "__sort").or standard = some names →
      ∃ keys, (m.sortKeys fault names).map p.orderBy = .ok (p.orderBy keys) := by
    intro fault names hnames
    have hall : ∃ keys, m.sortKeys fault names = .ok keys :=
      exists_mapM_eq_ok_iff.2 fun name hname => ⟨_, if_pos (h names hnames name hname)⟩
    obtain ⟨keys, hkeys⟩ := hall
    exact ⟨keys, congrArg (Except.map p.orderBy) hkeys⟩
  unfold Plan.sortFor
  cases hasked : ctx.paramList? "__sort" with
  | some fields => exact hkeys _ fields (by rw [hasked]; rfl)
  | none =>
      cases hstandard : standard with
      | some fields => exact hkeys _ fields (by rw [hasked, hstandard]; rfl)
      | none => exact ⟨p.sort, rfl⟩

theorem sortFor_unpaged (p : Plan) (m : Model) (standard : Option (List String)) :
    p.sortFor m ctx.unpaged standard = p.sortFor m ctx standard := by
  unfold Plan.sortFor Context.paramList?
  rw [Context.param?_unpaged ctx (by decide) (by decide)]

theorem listPlan_eq (hooks : config.hooks = .none σ)
    (hpath : ctx.pathParams.mapM (config.lookup.condition config.model) = .ok path)
    (hfilters : config.operators.ofParams config.model ctx.params = .ok filters)
    (hsort : (conditionsPlan config path filters).sortFor config.model ctx config.defaultSort =
      .ok plan) : listPlan config ctx ctx.pathParams = pure plan := by
  have hnamed : ((Plan.ofModel config.model).withExtra config.extra).filterByPath config.lookup
      ctx.pathParams = .ok (((Plan.ofModel config.model).withExtra config.extra).filters
        path.flatten) :=
    congrArg (Except.map _) hpath
  unfold listPlan
  rw [hnamed, SessionM.ok_bind, hooks]
  simp only [Hooks.none, SessionM.hook_pure, pure_bind]
  rw [hfilters, SessionM.ok_bind]
  exact congrArg liftM hsort

/-! ## The answer -/

/-- The answer with a part of a list of some length. A request for the whole is told nothing but the
data. -/
def answer (p : Pagination) (total : Nat) (data : List Json) : Response :=
  if p.requested then .ok (collectionEnvelope data (some total) p)
  else .ok (dataEnvelope (.array data))

/-- What a list shows of the records of some tables, in a part that is asked for. -/
def listed (config : Config σ) (ctx : Context) (t : Tables) (rs : List Record) :
    Except ApiError (List Json) :=
  rs.mapM fun r => config.element ctx ⟨r, config.extra.map (t.project config.model r)⟩

/-- Records that a store keeps can be listed. -/
theorem exists_listed (hm : config.model.WellFormed)
    (hgeometry : ∀ c ∈ config.model.columns, ∀ kind dimension, c.type ≠ .geometry kind dimension)
    (hshows : config.ShowsColumns) {rs : List Record} (hvalid : ∀ r ∈ rs, r.Valid config.model)
    (hunknown : ∀ r ∈ rs, config.model.ShowsUnknown r) (ctx : Context) (t : Tables) :
    ∃ data, listed config ctx t rs = .ok data :=
  exists_mapM_eq_ok_iff.2 fun r hr => Config.exists_element hshows fun _ hc =>
    (hvalid r hr).hasWireForm hm hgeometry (hunknown r hr) hc

/-- What is listed of a part is the part of what is listed. -/
theorem listed_part (hignores : config.IgnoresPart) {other : Context}
    (hsame : ctx.unpaged = other.unpaged) {t : Tables} {rs : List Record} {data : List Json}
    (h : listed config other t rs = .ok data) :
    listed config ctx t (p.part rs) = .ok (p.part data) := by
  rw [← Pagination.mapM_part h]
  unfold listed
  congr 1
  exact funext fun r => hignores.element_eq hsame _

theorem fetch_window (t : Tables) :
    (plan.window p.offset p.limit).fetch t = (p.part (plan.sorted t)).map (plan.rowOf t) := by
  have hslice : ∀ rs : List Record, (plan.window p.offset p.limit).slice rs = p.part rs := by
    intro rs
    unfold Plan.slice Pagination.part
    cases hlimit : p.limit with
    | none => rfl
    | some n => rfl
  rw [Plan.fetch_eq, hslice]
  rfl

theorem list_apply (hooks : config.hooks = .none σ)
    (hplan : listPlan config ctx ctx.pathParams = pure plan)
    (hp : Pagination.ofContext ctx = .ok p) (s : Session σ) :
    list config ctx s =
      ((elements config ctx ((p.part (plan.sorted s.tx.working)).map
        (plan.rowOf s.tx.working))).map (answer p (plan.sorted s.tx.working).length), s) := by
  have hcount : plan.counting.count s.tx.working = (plan.sorted s.tx.working).length :=
    (plan.sorted_perm s.tx.working).length_eq.symm
  rw [← hcount, ← fetch_window]
  unfold list
  rw [hooks]
  simp only [Hooks.none, SessionM.hookWith_pure, SessionM.hook_pure, pure_bind]
  rw [hplan, pure_bind, hp, SessionM.ok_bind]
  unfold answer
  have helements : ∀ (rows : List Row) (f : List Json → Response),
      ((do let data ← elements config ctx rows; pure (f data) : SessionM σ Response)) s =
        ((elements config ctx rows).map f, s) := by
    intro rows f
    cases elements config ctx rows <;> rfl
  cases p.requested with
  | true => exact helements _ _
  | false => exact helements _ _

/-- A request is like another one but for the part that it asks for. -/
structure AsksPart (config : Config σ) (request ctx admitted : Context) (p : Pagination) :
    Prop where
  admits : config.receive config.collectionMethods ctx = .ok admitted
  same : admitted.unpaged = request.unpaged
  part : Pagination.ofContext admitted = .ok p

/-- Requests for parts of one list are answered from the same records in the same order. -/
theorem AsksPart.handle_eq {request admitted : Context}
    (h : AsksPart config request ctx admitted p) (hooks : config.hooks = .none σ)
    (hget : request.method = .get)
    (hpath : request.pathParams.mapM (config.lookup.condition config.model) = .ok path)
    (hfilters : config.operators.ofParams config.model request.params = .ok filters)
    {keys : List SortKey}
    (hsort : (conditionsPlan config path filters).sortFor config.model request
      config.defaultSort = .ok ((conditionsPlan config path filters).orderBy keys))
    (server : Server σ) {all : List Record}
    (hall : ((conditionsPlan config path filters).orderBy keys).sorted server.store.tables =
      all) :
    (handle config ctx server).1 =
      (listed config admitted server.store.tables (p.part all)).map (answer p all.length) := by
  subst hall
  obtain ⟨admits, same, part⟩ := h
  -- the plan reads nothing of the request that depends on the part
  have hmethod : admitted.method = .get := (congrArg Context.method same).trans hget
  have hparams : admitted.unpaged.pathParams = request.unpaged.pathParams :=
    congrArg Context.pathParams same
  change admitted.pathParams = request.pathParams at hparams
  rw [← hparams] at hpath
  rw [← Context.ofParams_unpaged, ← same, Context.ofParams_unpaged] at hfilters
  rw [← sortFor_unpaged, ← same, sortFor_unpaged] at hsort
  have hlist := list_apply hooks (listPlan_eq hooks hpath hfilters hsort) part
    ⟨server.store, server.store.begin, .read, server.hooks⟩
  have hrespond : (handle config ctx server).1 =
      (list config admitted ⟨server.store, server.store.begin, .read, server.hooks⟩).1 := by
    change ((Endpoint.collection config).handle ctx server).1 = _
    rw [Endpoint.handle_of_admitted (e := .collection config) admits]
    simp only [Endpoint.respond, hmethod]
    rfl
  rw [hrespond, hlist]
  unfold listed elements
  rw [List.mapM_map]
  rfl

/-- If all requests are admitted as they come, every part whose bounds are numbers of 64 bits can be
asked for. -/
theorem AsksPart.of_asking {request : Context}
    (hadmits : config.receive config.collectionMethods (request.asking p) =
      .ok (request.asking p))
    (ho : ∀ n, p.offset = some n → n < 2 ^ 64) (hl : ∀ n, p.limit = some n → n < 2 ^ 64) :
    AsksPart config request (request.asking p) (request.asking p) p :=
  ⟨hadmits, request.unpaged_asking, request.ofContext_asking ho hl⟩

/-- A request for a list is answered with the records that satisfy the conditions of its path and
its parameters, each of them once, or with the part of them that it asks for. The answers to
requests that differ in the part only are parts of one list, and if what is shown does not depend on
the part, they are parts of one answer. -/
theorem lists_matching {d : SchemaDecl} {schema : Schema} (hd : d.resolve = .ok schema)
    (supply : Nat → Uuid) (steps : List Step) (config : Config σ) (server : Server σ)
    (hserver : server.store = ((Sessions.empty schema supply).after steps).store)
    (hmodel : schema.model? config.model.name = some config.model)
    (hooks : config.hooks = .none σ)
    (hgeometry : ∀ c ∈ config.model.columns, ∀ kind dimension, c.type ≠ .geometry kind dimension)
    (hshows : config.ShowsColumns) (request : Context) (hget : request.method = .get)
    {path : List (List Predicate)}
    (hpath : request.pathParams.mapM (config.lookup.condition config.model) = .ok path)
    {filters : List Predicate}
    (hfilters : config.operators.ofParams config.model request.params = .ok filters)
    (hsort : ∀ names, (request.paramList? "__sort").or config.defaultSort = some names →
      ∀ name ∈ names, config.model.isColumn (SortKey.ofText name).column = true) :
    ∃ all : List Record,
      all.Perm (server.store.tables.satisfying config.model (path.flatten ++ filters)) ∧
      (∀ ctx admitted p, AsksPart config request ctx admitted p →
        (∀ r ∈ p.part all, config.model.ShowsUnknown r) →
        ∃ data, listed config admitted server.store.tables (p.part all) = .ok data ∧
          (handle config ctx server).1 = .ok (answer p all.length data) ∧
          data.length = min (p.limit.getD all.length) (all.length - p.offset.getD 0)) ∧
      (config.IgnoresPart → (∀ r ∈ all, config.model.ShowsUnknown r) →
        ∃ whole, listed config request server.store.tables all = .ok whole ∧
          (∀ ctx admitted p, AsksPart config request ctx admitted p →
            (handle config ctx server).1 = .ok (answer p whole.length (p.part whole))) ∧
          ∀ k n, whole.length ≤ n * k →
            ((List.range n).flatMap fun i => (Pagination.page k i).part whole) = whole) := by
  have hs := SchemaDecl.wellFormed hd
  have hmem := Schema.mem_of_model? hmodel
  -- the order is fixed by the request, so that all parts are cut from one list
  obtain ⟨keys, hsorted⟩ := exists_sortFor (conditionsPlan config path filters) hsort
  obtain ⟨all, hall⟩ : ∃ all, ((conditionsPlan config path filters).orderBy keys).sorted
      server.store.tables = all := ⟨_, rfl⟩
  have hanswer : ∀ {ctx admitted p}, AsksPart config request ctx admitted p →
      (handle config ctx server).1 =
        (listed config admitted server.store.tables (p.part all)).map (answer p all.length) :=
    fun h => h.handle_eq hooks hget hpath hfilters hsorted server hall
  have hperm : all.Perm (server.store.tables.satisfying config.model (path.flatten ++ filters)) :=
    hall ▸ ((conditionsPlan config path filters).orderBy keys).sorted_perm server.store.tables
  have hvalid : ∀ r ∈ all, r.Valid config.model := by
    intro r hr
    have hrows := (Tables.mem_satisfying_iff.1 (hperm.mem_iff.1 hr)).1
    rw [hserver] at hrows
    exact (Sessions.keeps_valid hs hmem steps).committed r hrows
  refine ⟨all, hperm, ?_, ?_⟩
  · intro ctx admitted p hasks hunknown
    obtain ⟨data, hdata⟩ := exists_listed (hs.models _ hmem) hgeometry hshows
      (fun r hr => hvalid r (Pagination.part_subset hr)) hunknown admitted server.store.tables
    refine ⟨data, hdata, ?_, ?_⟩
    · rw [hanswer hasks, hdata]
      rfl
    · rw [← Pagination.length_part]
      exact (mapM_eq_ok_iff.1 hdata).length_eq.symm
  · intro hignores hunknown
    obtain ⟨whole, hwhole⟩ := exists_listed (hs.models _ hmem) hgeometry hshows hvalid hunknown
      request server.store.tables
    refine ⟨whole, hwhole, ?_, fun k n h => Pagination.flatMap_part h⟩
    intro ctx admitted p hasks
    rw [hanswer hasks, listed_part hignores hasks.same hwhole,
      (mapM_eq_ok_iff.1 hwhole).length_eq]
    rfl

/-- The steps that commit two notes. -/
def twoNoteSteps : List Step :=
  [.begin "a", .insert "a" "note" (.ofList [("text", .text "first")]),
    .insert "a" "note" (.ofList [("text", .text "second")]), .commit "a"]

/-- A server with two notes. -/
def twoNotes : Server Unit :=
  ⟨((Sessions.empty .notes fun _ => default).after twoNoteSteps).store, ()⟩

/-- A request for all notes, the last one first. -/
def allNotes : Context :=
  { Context.ofMethod .get with params := [("__sort", "-id"), ("id__lt", "3")] }

theorem lists_matching_twoNotes :
    ∃ a b : Json,
      (handle (.ofModel Unit .notes .note) allNotes twoNotes).1 =
        .ok (.ok (dataEnvelope (.array [a, b]))) ∧
      (handle (.ofModel Unit .notes .note) (allNotes.asking (.page 1 0)) twoNotes).1 =
        .ok (.ok (collectionEnvelope [a] (some 2) (.page 1 0))) ∧
      (handle (.ofModel Unit .notes .note) (allNotes.asking (.page 1 1)) twoNotes).1 =
        .ok (.ok (collectionEnvelope [b] (some 2) (.page 1 1))) := by
  have hcolumns : ∀ c ∈ Model.note.columns, c.type = .integer ∨ c.type = .string := by decide
  have hsort : ∀ names, (allNotes.paramList? "__sort").or none = some names →
      ∀ name ∈ names, Model.note.isColumn (SortKey.ofText name).column = true := by
    intro names hnames
    have hasked : allNotes.paramList? "__sort" = some ["-id"] := by decide +kernel
    rw [hasked] at hnames
    cases hnames
    decide +kernel
  have hshows : (Config.ofModel Unit .notes .note).ShowsColumns := by
    intro ctx row names hnames
    cases hnames
  have hpath : allNotes.pathParams.mapM
      ((Config.ofModel Unit .notes .note).lookup.condition .note) = .ok [] := rfl
  have hfilters : (Config.ofModel Unit .notes .note).operators.ofParams .note allNotes.params =
      .ok [.compare "id" .less (.int 3)] := rfl
  obtain ⟨all, hperm, -, htile⟩ := lists_matching SchemaDecl.resolve_notes (fun _ => default)
    twoNoteSteps (.ofModel Unit .notes .note) twoNotes rfl rfl rfl
    (fun c hc kind dimension h => by rcases hcolumns c hc with hc | hc <;> rw [hc] at h <;> cases h)
    hshows allNotes rfl hpath hfilters hsort
  obtain ⟨whole, hwhole, hanswer, -⟩ := htile ⟨fun _ _ => rfl, fun _ _ => rfl⟩
    fun r _ c hc name h => by rcases hcolumns c hc with hc | hc <;> rw [hc] at h <;> cases h
  have hlength : whole.length = 2 := by
    have hfound :
        (twoNotes.store.tables.satisfying .note [.compare "id" .less (.int 3)]).length = 2 := by
      decide +kernel
    exact (mapM_eq_ok_iff.1 hwhole).length_eq.symm.trans (hperm.length_eq.trans hfound)
  obtain ⟨a, b, rfl⟩ := List.length_eq_two.1 hlength
  have hpage : ∀ i < 2, AsksPart (.ofModel Unit .notes .note) allNotes
      (allNotes.asking (.page 1 i)) (allNotes.asking (.page 1 i)) (.page 1 i) := by
    intro i hi
    refine .of_asking rfl (fun n h => ?_) fun n h => ?_
    · cases h
      omega
    · cases h
      decide
  exact ⟨a, b, hanswer allNotes allNotes .whole ⟨rfl, rfl, rfl⟩,
    hanswer _ _ _ (hpage 0 (by decide)), hanswer _ _ _ (hpage 1 (by decide))⟩

end Collection

/-! ## A list without an answer -/

/-- A model of hosts, which have a number and an address of a type that is not known. -/
def Model.host : Model where
  name := "host"
  tableName := "host"
  schemaName := none
  attributes := [.column ⟨"id", .integer, "integer", false, false, true⟩,
    .column ⟨"address", .other "inet", "inet", true, false, false⟩]
  primaryKey := ⟨"id", .integer, "integer", false, false, true⟩
  unique := []
  versionColumn := none

/-- A schema with hosts alone. -/
def Schema.hosts : Schema :=
  ⟨[.host], []⟩

/-- The description of a schema with hosts alone. -/
def SchemaDecl.hosts : SchemaDecl where
  models := [{
    name := "host"
    table := none
    schema := none
    primaryKey := "id"
    columns := [⟨"id", ⟨"integer", []⟩, false, false, none, none, none⟩,
      ⟨"address", ⟨"inet", []⟩, true, false, none, none, none⟩]
    relationships := []
    properties := []
    unique := []
    versionColumn := none
    comment := none }]

theorem SchemaDecl.resolve_hosts : SchemaDecl.hosts.resolve = .ok .hosts :=
  resolve_eq_of_parts (by decide +kernel)

namespace Collection

/-- The collection of all notes, which tells beside each of them how many are asked for. -/
def notesWithLimit : Config Unit :=
  { Config.ofModel Unit .notes .note with
    metadata := .dynamic fun ctx _ =>
      (ctx.param? "__limit").map fun limit => [("limit", .string limit)] }

/-- A note as an answer shows it, with what is told beside it. -/
def shownNote (id : Int) (text : String) (told : List (String × Json)) : Json :=
  .ofMembers ([("id", .int id), ("text", .string text), ("version", .int 1)] ++ told)

/-- The steps that commit a host with several points as its address. -/
def hostSteps : List Step :=
  [.begin "a", .insert "a" "host" (.ofList [("address",
    .geometry (.other "MultiPoint" (.object [("coordinates", .array [])])))]), .commit "a"]

/-- A server with one host. -/
def oneHost : Server Unit :=
  ⟨((Sessions.empty .hosts fun _ => default).after hostSteps).store, ()⟩

/-- What is told beside a record may depend on the part that is asked for, so that the answer to a
request for a part is no part of the answer to the request for the whole. And if a column of a type
that is not known holds a geometry of another kind, the list of its records has no answer. -/
theorem not_parts_of_one_answer :
    (handle notesWithLimit (.ofMethod .get) twoNotes).1 =
      .ok (.ok (dataEnvelope (.array [shownNote 1 "first" [], shownNote 2 "second" []]))) ∧
    (handle notesWithLimit ((Context.ofMethod .get).asking (.page 1 0)) twoNotes).1 =
      .ok (.ok (collectionEnvelope
        [shownNote 1 "first" [("meta", .object [("limit", .string "1")])]] (some 2) (.page 1 0))) ∧
    [shownNote 1 "first" [("meta", .object [("limit", .string "1")])]] ≠
      Pagination.part (.page 1 0) [shownNote 1 "first" [], shownNote 2 "second" []] ∧
    SchemaDecl.hosts.resolve = .ok .hosts ∧
    (oneHost.store.tables.satisfying .host []).length = 1 ∧
    (handle (.ofModel Unit .hosts .host) (.ofMethod .get) oneHost).1 =
      .error (.unsupportedGeometry "MultiPoint") := by
  have hdiffer : [shownNote 1 "first" [("meta", .object [("limit", .string "1")])]] ≠
      Pagination.part (.page 1 0) [shownNote 1 "first" [], shownNote 2 "second" []] := by
    intro h
    have htold := congrArg (List.map fun j => (j.get? "meta").isSome) h
    exact absurd htold (by decide)
  exact ⟨by rfl, by rfl, hdiffer, SchemaDecl.resolve_hosts, by rfl, by rfl⟩

end Collection

end RecordApi
