import RecordApi.Proofs.Query.Paths
import RecordApi.Proofs.Resource.Creation
import RecordApi.Proofs.Resource.Named

/-!
# Where a changed record is found

A request that changes a record writes what its body makes of it to the place where it stood, and
creates the records behind it after all others (`Model.Stands`). What the path says is not set in
the record, so the same path finds it afterwards only if it has the values of the path still
(`Single.found_after_iff`).
-/

namespace RecordApi

variable {σ : Type} {m : Model}

/-! ## The place of a record -/

/-- An update by the key of a record changes this record, or one before it that has the key. -/
theorem Place.Named.eq_or_exists_before {p place : Place} {expected : Option Value}
    (hp : p.Named m (m.keyOf place.row) expected)
    (hrows : p.replace p.row = place.replace place.row) :
    p = place ∨ ∃ q ∈ place.before, (m.keyOf q).same (m.keyOf place.row) = true := by
  obtain ⟨b, row, a⟩ := p
  obtain ⟨before, r, after⟩ := place
  change b ++ row :: a = before ++ r :: after at hrows
  rcases List.append_eq_append_iff.1 hrows with ⟨gap, rfl, hgap⟩ | ⟨gap, rfl, hgap⟩
  · cases gap with
    | nil =>
        rw [List.nil_append, List.cons.injEq] at hgap
        obtain ⟨rfl, rfl⟩ := hgap
        exact .inl (by rw [List.append_nil])
    | cons q gap =>
        rw [List.cons_append, List.cons.injEq] at hgap
        obtain ⟨rfl, -⟩ := hgap
        exact .inr ⟨row, List.mem_append_right _ List.mem_cons_self, hp.found⟩
  · cases gap with
    | nil =>
        rw [List.nil_append, List.cons.injEq] at hgap
        obtain ⟨rfl, rfl⟩ := hgap
        exact .inl (by rw [List.append_nil])
    | cons q gap =>
        -- the record itself has its key, and stands before the first one with the key
        rw [List.cons_append, List.cons.injEq] at hgap
        obtain ⟨rfl, -⟩ := hgap
        have hself : (m.keyOf r).same (m.keyOf r) = true := Value.same_self_of_same _ hp.found
        rw [hp.first r (List.mem_append_right _ List.mem_cons_self)] at hself
        cases hself

/-- A transaction has put a record in a place and has added more behind all records; or it has
updated one before the place, and two records have a key unless records may get other keys. -/
def Model.Stands (m : Model) (rekeys : Prop) (schema : Schema) (tables : Tables) (place : Place)
    (r : Record) (tx : Transaction) : Prop :=
  m.Follows place.before (fun rows => ∃ new, rows = place.replace r ++ new) rekeys schema tables tx

namespace Model.Stands

variable {rekeys : Prop} {schema : Schema} {tables : Tables} {place : Place} {tx : Transaction}
  {n : Model} {name model : String} {op : Operation} {rows : List Record} {r : Record}

/-- A record is created. -/
theorem insert (hm : schema.model? m.name = some m) (h : m.Stands rekeys schema tables place r tx)
    {values stored : Record}
    (hw : tx.Writes n (.insert name model values) (.record stored) op rows) :
    m.Stands rekeys schema tables place r (tx.wrote n rows op) := by
  refine Follows.insert hm h hw ?_ fun _ _ hgood => hgood
  rintro - rows ⟨new, rfl⟩
  exact ⟨new ++ [stored], List.append_assoc _ _ _⟩

/-- The record is updated. -/
theorem update (hm : schema.model? m.name = some m)
    (hbefore : ∀ q ∈ place.before, m.keyOf q ≠ .null)
    (hversion : m.versionColumn = some m.primaryKey.name → rekeys) {current changes : Record}
    (hset : changes.contains m.primaryKey.name = true → rekeys)
    (h : m.Stands rekeys schema tables place current tx)
    (hw : tx.Writes n (.update name m.name current changes) (.record r) op rows) :
    m.Stands rekeys schema tables place r (tx.wrote n rows op) := by
  have hn : n.name = m.name := by
    cases hw with
    | update named => exact Schema.name_of_model? named
  obtain rfl := Follows.eq_of_name hm h hw hn
  have hkeeps := hw.hasClash_of_update hversion hset
  refine Follows.wrote_self h hw ?_ hkeeps
  rintro ⟨new, hnew⟩
  cases hw with
  | @update _ _ _ _ given p _ _ hplace _ =>
      obtain ⟨hrows, hnamed⟩ := Transaction.placeOf_eq_ok hplace
      have hsplit : p.replace p.row =
          (Place.mk place.before current (place.after ++ new)).replace current := by
        rw [← hrows, hnew]
        simp [Place.replace]
      rcases hnamed.eq_or_exists_before hsplit with rfl | ⟨q, hq, hsame⟩
      · exact .inl ⟨new, by simp [Place.replace]⟩
      · refine .inr ⟨⟨q, hq, hsame⟩, hkeeps ?_⟩
        rw [hnew, Place.replace, List.append_assoc]
        exact hasClash_append hq (List.mem_append_left _ List.mem_cons_self)
          (clash_key_iff.2 ⟨hbefore q hq, hsame⟩)

end Model.Stands

/-! ## Work that changes a record -/

/-- A record of a model may get another key when records behind it are created: as its version, or
since a relationship is joined on the key. -/
def Model.MayRekey (m : Model) : Prop :=
  m.versionColumn = some m.primaryKey.name ∨ m.JoinsOnKey m

section Work

open SessionM

variable {schema : Schema} {tables : Tables} {place : Place}

theorem Config.stands_link (config : Config σ) (hm : schema.model? m.name = some m)
    (hbefore : ∀ q ∈ place.before, m.keyOf q ≠ .null) (parent : Record)
    (groups : List LinkedGroup) :
    Yields (m.Stands m.MayRekey schema tables place parent) (config.link m parent groups)
      (m.Stands m.MayRekey schema tables place) := by
  refine Yields.link (fun parent target values => ?_) (fun r hr hone parent v => ?_) config parent
    groups
  · exact .insert fun _ _ _ _ _ h hw => h.insert hm hw
  · exact .update fun _ _ _ _ _ h hw =>
      h.update hm hbefore .inl (fun hc => .inr (.of_sets rfl hr hone hc)) hw

end Work

namespace Single

variable {config : Config σ} {ctx : Context} {plan : Plan}

/-- The work of changing a record that was looked up, and of creating those behind it. -/
def changing (config : Config σ) (ctx : Context) (r changes : Record) (linked : List LinkedGroup) :
    SessionM σ Written := do
  let record ← SessionM.update config.model r changes
  let record ← config.link config.model record linked
  return ⟨[config.shown ctx record], fun data => dataEnvelope (data.headD .null), false⟩

/-- The work of inserting the record of a path that names none, where that is allowed. -/
def inserting (config : Config σ) (ctx : Context) (parsed : ParsedBody) :
    SessionM σ (Record × Bool) :=
  if config.allowPutInsert then do
    let path ← config.pathAttributes config.model ctx.pathParams
    let record ← SessionM.insert config.model
      (Config.withDefaults config.putDefaults ctx (parsed.attributes.merge path))
    pure (record, true)
  else throw .notFound

theorem putRecord_apply (hooks : config.hooks = .none σ) (parsed : ParsedBody) (s : Session σ) :
    putRecord config ctx plan parsed s = match plan.matching s.tx.working with
      | [] => inserting config ctx parsed s
      | [r] => (do
          let record ← SessionM.update config.model r
            (Config.withDefaults config.putDefaults ctx parsed.attributes)
          pure (record, false) : SessionM σ (Record × Bool)) s
      | _ => (.error (ambiguous config), s) := by
  have hone : (SessionM.one plan : SessionM σ Resolution) s = (.ok (s.tx.one plan), s) := rfl
  unfold putRecord inserting
  rw [SessionM.bind_apply, hone, Transaction.one_eq, hooks]
  rcases plan.matching s.tx.working with _ | ⟨r, _ | ⟨q, rest⟩⟩
  · rfl
  · rfl
  · rfl

/-- The values that complete a body which changes a record. -/
def defaultsFor (config : Config σ) : Method → List (String × DefaultValue)
  | .put => config.putDefaults
  | _ => config.patchDefaults

/-- A request to change a record can be read, and its path names one record of some tables. -/
structure Finds (config : Config σ) (ctx : Context) (t : Tables) (plan : Plan) (b : ParsedBody)
    (r : Record) : Prop where
  located : locate config ctx.pathParams = .ok plan
  body : ∃ members, Config.objectBody ctx = .ok members ∧
    config.parseObject config.model config.allowSubresources members = .ok b
  found : plan.matching t = [r]

theorem located_eq_ok {filters : List Predicate} {t : Tables} {row : Row}
    (h : located config plan filters t = .ok row) :
    ∃ r, plan.matching t = [r] ∧ row = plan.rowOf t r := by
  unfold located at h
  split at h
  · cases h
  · next r hr =>
    split at h
    · cases h
      exact ⟨r, hr, rfl⟩
    · cases h
  · cases h

/-- A `PUT` that inserts nothing, and a `PATCH`, change the record that was looked up. -/
theorem changing_of_writing (hooks : config.hooks = .none σ) {purpose : Purpose}
    {work : SessionM σ Written} {w : Written}
    (hmethod : ctx.method = .put ∧ w.created = false ∨ ctx.method = .patch)
    (h : (Endpoint.single config).writing ctx = some (purpose, work)) {s t : Session σ}
    (hrun : work s = (.ok w, t)) :
    ∃ plan b r, Finds config ctx s.tx.working plan b r ∧
      changing config ctx r
        (Config.withDefaults (defaultsFor config ctx.method) ctx b.attributes) b.linked s =
          (.ok w, t) := by
  rcases hmethod with ⟨hm, hw⟩ | hm
  · simp only [Endpoint.writing, hm, Option.some.injEq, Prod.mk.injEq] at h
    obtain ⟨-, rfl⟩ := h
    obtain ⟨members, hmembers, hrun⟩ := SessionM.lift_bind_eq_ok hrun
    obtain ⟨plan, hplan, hrun⟩ := SessionM.lift_bind_eq_ok hrun
    obtain ⟨b, hb, hrun⟩ := SessionM.lift_bind_eq_ok hrun
    obtain ⟨⟨record, inserted⟩, u, hput, hrun⟩ := SessionM.bind_eq_ok hrun
    obtain ⟨linked, v, hlink, hanswer⟩ := SessionM.bind_eq_ok hrun
    obtain rfl : inserted = false := by
      cases hanswer
      exact hw
    rw [putRecord_apply hooks] at hput
    split at hput
    · unfold inserting at hput
      split at hput
      · obtain ⟨path, -, hput⟩ := SessionM.lift_bind_eq_ok hput
        obtain ⟨_, _, -, hput⟩ := SessionM.bind_eq_ok hput
        cases hput
      · cases hput
    · next r hr =>
      refine ⟨plan, b, r, ⟨hplan, ⟨members, hmembers, hb⟩, hr⟩, ?_⟩
      obtain ⟨_, _, hupdate, hput⟩ := SessionM.bind_eq_ok hput
      cases hput
      rw [changing, hm, SessionM.bind_apply, defaultsFor, hupdate]
      dsimp only
      rw [SessionM.bind_apply, hlink]
      exact hanswer
    · cases hput
  · simp only [Endpoint.writing, hm, Option.some.injEq, Prod.mk.injEq] at h
    obtain ⟨-, rfl⟩ := h
    obtain ⟨members, hmembers, hrun⟩ := SessionM.lift_bind_eq_ok hrun
    obtain ⟨plan, hplan, hrun⟩ := SessionM.lift_bind_eq_ok hrun
    obtain ⟨filters, -, hrun⟩ := SessionM.lift_bind_eq_ok hrun
    obtain ⟨b, hb, hrun⟩ := SessionM.lift_bind_eq_ok hrun
    obtain ⟨row, u, hlocated, hrun⟩ := SessionM.bind_eq_ok hrun
    rw [locateWith_apply, Prod.mk.injEq] at hlocated
    obtain ⟨hlocated, rfl⟩ := hlocated
    obtain ⟨r, hr, rfl⟩ := located_eq_ok hlocated
    refine ⟨plan, b, r, ⟨hplan, ⟨members, hmembers, hb⟩, hr⟩, ?_⟩
    rw [hm]
    exact hrun

/-- The answer shows the record that was stored. -/
theorem render_stored (record : Record) (created : Bool) :
    (Written.mk [config.shown ctx record] (fun data => dataEnvelope (data.headD .null))
      created).render config = (dataOf config ctx record).map fun body =>
        if created then .created body else .ok body := by
  rw [dataOf_eq, Written.render]
  cases [config.shown ctx record].mapM (Shown.render config.codec config.axes) with
  | error e => rfl
  | ok data => rfl

/-- A record is changed where it stands, and those behind it are created. -/
theorem yields_changing {schema : Schema} {t : Tables}
    (hm : schema.model? config.model.name = some config.model)
    (hunique : config.model.KeyUnique (t.rows config.model.name)) {r : Record}
    (hr : r ∈ t.rows config.model.name) (changes : Record) (linked : List LinkedGroup) :
    (changing config ctx r changes linked).Yields (fun tx => tx.From schema t ∧ tx.working = t)
      fun w tx => ∃ place record, t.rows config.model.name = place.replace place.row ∧
        place.row = r ∧ w.render config = (dataOf config ctx record).map .ok ∧
        config.model.Stands config.model.MayRekey schema t place record tx ∧
        (linked = [] → tx.working.rows config.model.name = place.replace record ∧
          Record.Patched config.model r changes record) := by
  -- the record is changed where it stands
  have hupdated : SessionM.Yields (fun tx => tx.From schema t ∧ tx.working = t)
      (SessionM.update config.model r changes : SessionM σ Record)
      fun record tx => ∃ place : Place, t.rows config.model.name = place.replace place.row ∧
        place.row = r ∧ tx.From schema t ∧
        tx.working.rows config.model.name = place.replace record ∧
        Record.Patched config.model r changes record := by
    refine .update fun tx n op rows record htx hw => ?_
    obtain ⟨hfrom, rfl⟩ := htx
    obtain rfl : n = config.model := by
      cases hw with
      | update named => exact Option.some.inj (named.symm.trans (hfrom.of.symm ▸ hm))
    obtain ⟨before, after, hbefore, hrows, hpatched⟩ := hw.of_update hunique hr
    refine ⟨⟨before, r, after⟩, hbefore, rfl, hfrom.wrote hw, ?_, hpatched.of_columnValues⟩
    exact (Tables.rows_setRows _ _ _ _).trans ((if_pos rfl).trans hrows)
  refine hupdated.bind fun record => ?_
  rintro s ⟨place, hplace, hrow, hfrom, hrows, hpatched⟩ w s' hrun
  have hbefore : ∀ q ∈ place.before, config.model.keyOf q ≠ .null := by
    intro q hq
    refine hunique.notNull q ?_
    rw [hplace]
    exact List.mem_append_left _ hq
  have hstands : config.model.Stands config.model.MayRekey schema t place record s.tx :=
    ⟨hfrom, .inl ⟨[], by rw [hrows, List.append_nil]⟩⟩
  by_cases hlinked : linked = []
  · subst hlinked
    cases hrun
    exact ⟨place, record, hplace, hrow, render_stored record false, hstands,
      fun _ => ⟨hrows, hpatched⟩⟩
  · obtain ⟨stored, u, hlink, hanswer⟩ := SessionM.bind_eq_ok hrun
    cases hanswer
    have hlast := config.stands_link hm hbefore record linked s hstands stored s' hlink
    exact ⟨place, stored, hplace, hrow, render_stored stored false, hlast,
      fun h => absurd h hlinked⟩

/-! ## Requests -/

/-- A plan that tells from a record alone whether it accepts it accepts the same records of all
tables. -/
theorem accepts_eq {names : Record → Prop} (haccepts : ∀ t r, plan.accepts t r = true ↔ names r)
    (t t' : Tables) : plan.accepts t' = plan.accepts t := by
  funext r
  exact Bool.eq_iff_iff.2 ((haccepts t' r).trans (haccepts t r).symm)

/-- A path that named one record finds of what stands in its place, and of what was added, that
which it names. -/
theorem matching_replace_eq_iff {names : Record → Prop}
    (haccepts : ∀ t r, plan.accepts t r = true ↔ names r) {t t' : Tables} {place : Place}
    {record : Record} {new : List Record} (hrows : t.rows plan.model.name = place.replace place.row)
    (hfound : plan.matching t = [place.row])
    (hrows' : t'.rows plan.model.name = place.replace record ++ new) :
    plan.matching t' = [record] ↔ names record ∧ ∀ q ∈ new, ¬names q := by
  have hsame : plan.accepts t' = plan.accepts t := accepts_eq haccepts t t'
  have hnew : new.filter (plan.accepts t) = [] ↔ ∀ q ∈ new, ¬names q := by
    simp [List.filter_eq_nil_iff, ← haccepts t]
  obtain ⟨before, row, after⟩ := place
  have hrow : plan.accepts t row = true := by
    have hmem : row ∈ plan.matching t := by simp [hfound]
    exact (List.mem_filter.1 hmem).2
  -- no other record is named, neither before the place nor after it
  obtain ⟨hbefore, hafter⟩ : before.filter (plan.accepts t) = [] ∧
      after.filter (plan.accepts t) = [] := by
    have hlen := congrArg List.length hfound
    simp only [Plan.matching, hrows, Place.replace, List.filter_append,
      List.filter_cons_of_pos hrow, List.length_append, List.length_cons, List.length_nil] at hlen
    constructor
    · exact List.length_eq_zero_iff.1 (by omega)
    · exact List.length_eq_zero_iff.1 (by omega)
  rw [← hnew, ← haccepts t]
  simp only [Plan.matching, hrows', hsame, Place.replace, List.filter_append, List.filter_cons,
    hbefore, hafter, List.nil_append, List.append_assoc]
  by_cases h : plan.accepts t record = true
  · simp [h]
  · rw [if_neg h, List.nil_append]
    refine iff_of_false (fun hall => ?_) fun hboth => h hboth.1
    have hmem : record ∈ new.filter (plan.accepts t) := by simp [hall]
    exact h (List.mem_filter.1 hmem).2

theorem model_of_locate {params : List (String × String)} (h : locate config params = .ok plan) :
    plan.model = config.model := by
  obtain ⟨conditions, -, rfl⟩ := map_eq_ok_iff.1 h
  rfl

/-- The plan of a path whose parameters stand for columns finds the records that it names. -/
theorem accepts_of_locate {params : List (String × String)}
    (htargets : ∀ p ∈ params, ∃ column, config.lookup.target p.1 = .column column)
    (h : locate config params = .ok plan) :
    plan.model = config.model ∧
      ∀ t r, plan.accepts t r = true ↔ config.lookup.Names config.model params r := by
  refine ⟨model_of_locate h, ?_⟩
  obtain ⟨conditions, hconditions, rfl⟩ := map_eq_ok_iff.1 h
  exact fun t r => PathMap.holds_conditions_iff htargets hconditions _ r

open Endpoint

/-- A `PATCH`, or a `PUT` that inserts nothing, of which the answer is that all went well has
changed the one record that its path names, where it stood. The path names one record afterwards,
and this is the one that was answered, exactly if that has the values of the path still and no
record that was created behind it has them. Only if a reference may give records of the model
another key, the request may have changed another record that had the key by then. -/
theorem found_after_iff {d : SchemaDecl} {schema : Schema} (hd : d.resolve = .ok schema)
    (supply : Nat → Uuid) (steps : List Step) (config : Config σ) (server : Server σ)
    (hserver : server.store = ((Sessions.empty schema supply).after steps).store)
    (hmodel : schema.model? config.model.name = some config.model)
    (hooks : config.hooks = .none σ) (ctx : Context) {admitted : Context}
    (hadmitted : config.receive config.singleMethods ctx = .ok admitted)
    (hmethod : admitted.method = .put ∨ admitted.method = .patch)
    (htargets : ∀ p ∈ admitted.pathParams, ∃ column, config.lookup.target p.1 = .column column)
    (hstatus : (single config).status ctx server = 200) :
    ∃ (plan : Plan) (b : ParsedBody) (place : Place) (record : Record),
      Finds config admitted server.store.tables plan b place.row ∧
      server.store.tables.rows config.model.name = place.replace place.row ∧
      ((single config).handle ctx server).1 = (dataOf config admitted record).map .ok ∧
      ((∃ new, ((single config).tablesAfter ctx server).rows config.model.name =
            place.replace record ++ new ∧
          (plan.matching ((single config).tablesAfter ctx server) = [record] ↔
            config.lookup.Names config.model admitted.pathParams record ∧
              ∀ q ∈ new, ¬config.lookup.Names config.model admitted.pathParams q) ∧
          (b.linked = [] → new = [] ∧ Record.Patched config.model place.row
            (Config.withDefaults (defaultsFor config admitted.method) admitted b.attributes)
            record)) ∨
        b.linked ≠ [] ∧ config.model.MayRekey ∧
          ∃ op ∈ config.model.writes ((single config).log ctx server),
            op.Hits config.model place.before) := by
  have hooks' : (single config).config.hooks = .none σ := hooks
  have hschema : server.store.schema = schema := by
    rw [hserver]
    exact ((Sessions.of_empty schema supply).after steps).store
  have hunique : config.model.KeyUnique (server.store.tables.rows config.model.name) := by
    rw [hserver]
    exact Sessions.keyUnique_after hd (Schema.mem_of_model? hmodel) supply steps
  obtain ⟨purpose, work, hwriting⟩ : ∃ purpose work,
      (single config).writing admitted = some (purpose, work) := by
    rcases hmethod with hm | hm
    · exact ⟨.write, putting config admitted, by simp only [writing, hm]⟩
    · exact ⟨.write, patching config admitted, by simp only [writing, hm]⟩
  have hsucceeds : (single config).status ctx server < 400 := by
    rw [hstatus]
    decide
  obtain ⟨w, s, store, hrun, hcommit, htables⟩ :=
    writes_of_status hooks' hadmitted hwriting hsucceeds
  obtain ⟨hanswer, -⟩ := handle_of_writes hooks' (.intro hadmitted hwriting hrun hcommit)
  have hcreated : w.created = false := by
    unfold status at hstatus
    rw [hanswer] at hstatus
    rw [Written.created_eq_of_status (by rw [hstatus]; decide), hstatus]
    rfl
  obtain ⟨plan, b, r, hfinds, hchanging⟩ :=
    changing_of_writing hooks (hmethod.imp_left fun hput => ⟨hput, hcreated⟩) hwriting hrun
  change Finds config admitted server.store.tables plan b r at hfinds
  obtain ⟨hplan, haccepts⟩ := accepts_of_locate htargets hfinds.located
  have hr : r ∈ server.store.tables.rows config.model.name := by
    have hfound : r ∈ plan.matching server.store.tables := by
      rw [hfinds.found]
      exact List.mem_singleton.2 rfl
    rw [← hplan]
    exact (List.mem_filter.1 hfound).1
  obtain ⟨place, record, hplace, rfl, hrender, hstands, hpatched⟩ :=
    yields_changing hmodel hunique hr _ b.linked (sessionOf server purpose)
      ⟨hschema ▸ Transaction.from_begin server.store, rfl⟩ w s hchanging
  have hkeeps : s.store.tables = server.store.tables :=
    (keeps_of_writing hwriting).tables_eq hrun
  have hworking : store.tables = s.tx.working :=
    Transaction.From.tables_of_commit (hkeeps ▸ hstands.begun) hcommit
  have hlog : (single config).log ctx server = s.tx.log :=
    log_of_writing hadmitted hwriting hrun
  have hiff : ∀ new, store.tables.rows config.model.name = place.replace record ++ new →
      (plan.matching store.tables = [record] ↔ _) := fun new hrows =>
    matching_replace_eq_iff haccepts (hplan ▸ hplace) hfinds.found (hplan ▸ hrows)
  refine ⟨plan, b, place, record, hfinds, hplace, hanswer.trans hrender, ?_⟩
  rw [htables, hlog]
  by_cases hlinked : b.linked = []
  · obtain ⟨hrows, hpatched⟩ := hpatched hlinked
    rw [← hworking, ← List.append_nil (place.replace record)] at hrows
    exact .inl ⟨[], hrows, hiff _ hrows, fun _ => ⟨rfl, hpatched⟩⟩
  · have hwf := (SchemaDecl.wellFormed hd).models _ (Schema.mem_of_model? hmodel)
    rcases Model.Follows.of_commit hwf hmodel (hkeeps ▸ hstands) hcommit with
      ⟨new, hrows⟩ | ⟨⟨op, hop, hhits⟩, hrekeys⟩
    · exact .inl ⟨new, hrows, hiff _ hrows, fun h => absurd h hlinked⟩
    · exact .inr ⟨hlinked, hrekeys, op, hop, hhits⟩

/-- A request to give the note with the number one another number. -/
def renumberNote : Context :=
  { Context.ofMethod .patch with
    pathParams := [("id", "1")]
    body := some (.object [("id", .int 2)]) }

/-- The note is not where it was afterwards. -/
theorem found_after_iff_renumberNote :
    (single (.ofModel Unit .notes .note)).status renumberNote oneNote = 200 ∧
      ∃ plan record, locate (.ofModel Unit .notes .note) renumberNote.pathParams = .ok plan ∧
        ((single (.ofModel Unit .notes .note)).handle renumberNote oneNote).1 =
          (dataOf (.ofModel Unit .notes .note) renumberNote record).map .ok ∧
        record ∈ ((single (.ofModel Unit .notes .note)).tablesAfter renumberNote oneNote).rows
          "note" ∧
        plan.matching ((single (.ofModel Unit .notes .note)).tablesAfter renumberNote oneNote) ≠
          [record] := by
  have hstatus : (single (.ofModel Unit .notes .note)).status renumberNote oneNote = 200 := by
    decide +kernel
  refine ⟨hstatus, ?_⟩
  obtain ⟨plan, b, place, record, ⟨hplan, ⟨members, hmembers, hb⟩, -⟩, -, hanswer, hcases⟩ :=
    found_after_iff SchemaDecl.resolve_notes (fun _ => default) noteSteps
      (.ofModel Unit .notes .note) oneNote rfl rfl rfl renumberNote rfl (.inr rfl)
      (fun p _ => ⟨p.1, rfl⟩) hstatus
  cases hmembers
  cases hb
  rcases hcases with ⟨new, hrows, hfound, hpatched⟩ | ⟨hlinked, -⟩
  · refine ⟨plan, record, hplan, hanswer, ?_, fun hmatching => ?_⟩
    · have hmem : record ∈ place.replace record ++ new :=
        List.mem_append_left _ (List.mem_append_right _ List.mem_cons_self)
      rw [← hrows] at hmem
      exact hmem
    · -- the path asks for the number one
      obtain ⟨column, v, hdenotes, hsame⟩ := (hfound.1 hmatching).1 _ List.mem_cons_self
      obtain ⟨rfl, rfl⟩ := hdenotes.unique
        (⟨rfl, rfl, rfl⟩ : PathMap.Denotes [] Model.note ("id", "1") "id" (.int 1))
      obtain ⟨w, hw, hget⟩ := (hpatched rfl).2.given "id" _ (.int 2) (by decide) rfl rfl
      cases hw
      rw [Record.get, hget] at hsame
      exact absurd hsame (by decide)
  · exact absurd rfl hlinked

end Single

end RecordApi
