import Mathlib.Tactic.FinCases
import RecordApi.Proofs.Resource.Reached
import RecordApi.Proofs.Store.Advanced
import RecordApi.Proofs.Value.ReadBack

/-!
# Records that are read and written back

A client that sends the data of a record back as it got them gives the record the values that it
has: from the data of a record the body parser reads values that the columns hold as those of the
record (`Config.exists_parse`). So the request succeeds, and changes the version of the record and
nothing else (`Single.written_back`).
-/

namespace RecordApi

variable {σ : Type} {m : Model} {r : Record} {members : Json.Members}

/-! ## The data of a record -/

/-- The data of a record have a wire form under the name of each column, and nothing else. -/
structure Codec.Shows (codec : Codec) (axes : AxisNames) (m : Model) (r : Record)
    (members : Json.Members) : Prop where
  sorted : Keyed.Sorted members
  column : ∀ c ∈ m.columns, ∃ j, members.get? c.name = some j ∧
    codec.serialize axes c.name (some c.type) (r.get c.name) = .ok j
  only : ∀ e ∈ members, ∃ c ∈ m.columns, c.name = e.1

namespace Codec

variable {codec : Codec} {axes : AxisNames} {others : Json.Members}

theorem Shows.unique (h : codec.Shows axes m r members) (ho : codec.Shows axes m r others) :
    members = others := by
  have hmember : ∀ {x y : Json.Members}, codec.Shows axes m r x → codec.Shows axes m r y →
      ∀ name j, x.get? name = some j → y.get? name = some j := by
    intro x y hx hy name j hj
    obtain ⟨c, hc, rfl⟩ := hx.only _ (Keyed.mem_of_get?_eq_some hj)
    obtain ⟨i, hi, hserialize⟩ := hx.column c hc
    obtain ⟨k, hk, hserialize'⟩ := hy.column c hc
    obtain rfl : i = j := Option.some.inj (hi.symm.trans hj)
    obtain rfl : i = k := Except.ok.inj (hserialize.symm.trans hserialize')
    exact hk
  refine h.sorted.ext ho.sorted fun name => Option.ext fun j => ?_
  exact ⟨hmember h ho name j, hmember ho h name j⟩

theorem Shows.of_record (hm : m.WellFormed) (h : codec.record axes m r none = .ok members) :
    codec.Shows axes m r members := by
  obtain ⟨entries, hentries, rfl⟩ := map_eq_ok_iff.1 h
  have hnames : entries.map Prod.fst = m.columns.map (·.name) := by
    refine map_eq_of_mapM_eq_ok hentries fun c e he => ?_
    obtain ⟨j, -, rfl⟩ := map_eq_ok_iff.1 he
    rfl
  have hnodup : (entries.map Prod.fst).Nodup := hnames ▸ hm.columnNames_nodup
  refine ⟨Keyed.sorted_ofList entries, fun c hc => ?_, fun e he => ?_⟩
  · obtain ⟨e, he, hcolumn⟩ := mem_of_mem_of_mapM_eq_ok hentries hc
    obtain ⟨j, hj, rfl⟩ := map_eq_ok_iff.1 hcolumn
    exact ⟨j, (Keyed.get?_ofList_eq_some_iff hnodup).2 he, hj⟩
  · have hfound := Keyed.get?_of_mem (Keyed.sorted_ofList entries).nodup he
    have hmem := (Keyed.get?_ofList_eq_some_iff hnodup).1 hfound
    obtain ⟨c, hc, hcolumn⟩ := mem_of_mapM_eq_ok hentries hmem
    obtain ⟨j, -, hj⟩ := map_eq_ok_iff.1 hcolumn
    exact ⟨c, hc, congrArg Prod.fst hj⟩

theorem Shows.record_eq (hm : m.WellFormed) (h : codec.Shows axes m r members) :
    codec.record axes m r none = .ok members := by
  have hcolumns : ∀ c ∈ m.columns, ∃ e, codec.column axes r c = .ok e := by
    intro c hc
    obtain ⟨j, -, hj⟩ := h.column c hc
    exact exists_map_eq_ok_iff.2 ⟨j, hj⟩
  obtain ⟨shown, hshown⟩ : ∃ shown, codec.record axes m r none = .ok shown :=
    exists_map_eq_ok_iff.2 (exists_mapM_eq_ok_iff.2 hcolumns)
  rw [hshown, (Shows.of_record hm hshown).unique h]

end Codec

/-- The records of a model can be read back from their data, and be written again: their columns are
of types of which the wire forms are read back, dates with times are in whole seconds, and versions
are nothing but versions and can be increased. -/
structure Tables.ReadsBack (t : Tables) (schema : Schema) (m : Model) : Prop where
  types : ∀ c ∈ m.columns, c.type.ReadsBack
  wholeSeconds : ∀ r ∈ t.rows m.name, ∀ c ∈ m.columns, (r.get c.name).WholeSeconds
  version : ∀ v, m.versionColumn = some v → m.PlainVersion schema v
  increases : ∀ r ∈ t.rows m.name, ∀ v, m.versionColumn = some v →
    r.get v ≠ .int Int64.maxValue

/-- Data of a record with the next version, where its model has versions. -/
def Model.nextData (m : Model) (members : Json.Members) : Json.Members :=
  match m.versionColumn with
  | none => members
  | some v =>
    match members.get? v with
    | some (.int n) => members.insert v (.int (n + 1))
    | _ => members

/-- A record that advances has the next data. -/
theorem Record.Advances.shows {axes : AxisNames} {r' : Record} (hm : m.WellFormed)
    (h : r.Advances m r')
    (hmax : ∀ v, m.versionColumn = some v → r.get v ≠ .int Int64.maxValue)
    (hshows : Codec.standard.Shows axes m r members) :
    Codec.standard.Shows axes m r' (m.nextData members) := by
  unfold Model.nextData
  cases hv : m.versionColumn with
  | none =>
      refine ⟨hshows.sorted, fun c hc => ?_, hshows.only⟩
      rw [h.kept c.name (by simp [hv])]
      exact hshows.column c hc
  | some v =>
      obtain ⟨n, hn, hnext⟩ := h.version v hv
      obtain ⟨d, hd, rfl⟩ := hm.version v hv
      obtain ⟨j, hj, hserialize⟩ := hshows.column d hd
      rw [hn] at hserialize
      cases hserialize
      have hsucc : (n + 1).toInt = n.toInt + 1 :=
        int64_toInt_succ fun heq => hmax d.name hv (by rw [hn, heq])
      simp only [hj, Value.plain]
      refine ⟨Keyed.sorted_insert _ _ hshows.sorted, fun c hc => ?_, fun e he => ?_⟩
      · rw [Keyed.get?_insert]
        by_cases hname : c.name = d.name
        · rw [if_pos hname, hname, hnext, ← hsucc]
          exact ⟨_, rfl, rfl⟩
        · rw [if_neg hname, h.kept c.name fun heq => hname (Option.some.inj (heq.symm.trans hv))]
          exact hshows.column c hc
      · rcases Keyed.mem_insert he with rfl | he
        · exact ⟨d, hd, rfl⟩
        · exact hshows.only e he

/-! ## The body that a record makes -/

namespace Config

variable {config : Config σ} {follow? : Option (Model → Json.Members → Except ApiError ParsedBody)}

/-- A member of a body gives a column a value that it holds as that of a record. -/
def Gives (config : Config σ) (m : Model) (r : Record) (member : String × Json) : Prop :=
  ∃ c ∈ m.columns, c.name = member.1 ∧
    ∃ w, config.codec.deserialize config.axes member.1 c member.2 = .ok w ∧
      w.coerce c.type = .ok (r.get member.1)

/-- Members that give columns the values of a record can be parsed, and do so. -/
theorem exists_foldlM_parseMember (hm : m.WellFormed) {members : Json.Members}
    (h : ∀ e ∈ members, config.Gives m r e) (b : ParsedBody) :
    ∃ b', members.foldlM (config.parseMember m follow?) b = .ok b' ∧ b'.linked = b.linked ∧
      ∀ c ∈ m.columns, b.attributes.RestoresAt r c ∨ c.name ∈ members.map Prod.fst →
        b'.attributes.RestoresAt r c := by
  induction members generalizing b with
  | nil => exact ⟨b, rfl, rfl, fun c _ hc => hc.resolve_right (by simp)⟩
  | cons e rest ih =>
      obtain ⟨hgives, hrest⟩ := List.forall_mem_cons.1 h
      obtain ⟨d, hd, hname, w, hw, hcoerce⟩ := hgives
      have hparse : config.parseMember m follow? b e = .ok (b.set e.1 w) := by
        have hattribute : m.attribute? e.1 = some (.column d) :=
          (Model.attribute?_eq_some_iff hm.names).2 ⟨Model.mem_columns.1 hd, hname⟩
        simp only [parseMember, hattribute, hw]
        rfl
      obtain ⟨b', hb', hlinked, hrestores⟩ := ih hrest (b.set e.1 w)
      refine ⟨b', ?_, hlinked, fun c hc hin => hrestores c hc ?_⟩
      · rw [List.foldlM_cons, hparse]
        exact hb'
      · by_cases hce : c.name = e.1
        · obtain rfl : c = d := by
            have hfound := hm.column?_of_mem hc
            rw [hce, ← hname, hm.column?_of_mem hd] at hfound
            exact (Option.some.inj hfound).symm
          refine .inl ⟨w, ?_, hname ▸ hcoerce⟩
          rw [ParsedBody.set, Record.get?_insert, if_pos hce]
        · rw [List.map_cons, List.mem_cons] at hin
          refine hin.imp ?_ fun hin => hin.resolve_left hce
          rintro ⟨v, hv, hcoerce⟩
          exact ⟨v, by rw [ParsedBody.set, Record.get?_insert, if_neg hce, hv], hcoerce⟩

/-- The data of a record can be parsed as a body, which has its values and links nothing. -/
theorem exists_parse (hm : m.WellFormed) (hcodec : config.codec = .standard)
    (htypes : ∀ c ∈ m.columns, c.type.ReadsBack)
    (hfits : ∀ c ∈ m.columns, (r.get c.name).Fits c.type)
    (hwhole : ∀ c ∈ m.columns, (r.get c.name).WholeSeconds)
    (hshows : Codec.standard.Shows config.axes m r members) (recurse : Bool) :
    ∃ b, config.parseObject m recurse members = .ok b ∧ b.linked = [] ∧
      (m.columnValues b.attributes).Restores m r := by
  have hgives : ∀ e ∈ members, config.Gives m r e := by
    intro e he
    obtain ⟨c, hc, hname⟩ := hshows.only e he
    obtain ⟨j, hj, hserialize⟩ := hshows.column c hc
    have hfound := Keyed.get?_of_mem hshows.sorted.nodup he
    rw [← hname, hj] at hfound
    obtain rfl := Option.some.inj hfound
    obtain ⟨w, hw, hcoerce⟩ :=
      Codec.reads_back (htypes c hc) (hfits c hc) (hwhole c hc) hserialize rfl
    exact ⟨c, hc, hname, w, by rw [hcodec, ← hname, hw], by rw [← hname, hcoerce]⟩
  have hrestores : ∀ {b : ParsedBody},
      (∀ c ∈ m.columns, ParsedBody.empty.attributes.RestoresAt r c ∨
        c.name ∈ members.map Prod.fst → b.attributes.RestoresAt r c) →
      (m.columnValues b.attributes).Restores m r := by
    intro b hb c hc
    obtain ⟨j, hj, -⟩ := hshows.column c hc
    obtain ⟨v, hv, hcoerce⟩ :=
      hb c hc (.inr (List.mem_map_of_mem (Keyed.mem_of_get?_eq_some hj)))
    refine ⟨v, ?_, hcoerce⟩
    rw [Model.columnValues, Record.get?_restrict,
      if_pos (by simp [Model.isColumn, hm.column?_of_mem hc]), hv]
  unfold parseObject parseFlat
  split
  · obtain ⟨b, hb, hlinked, hall⟩ := exists_foldlM_parseMember hm hgives .empty
    exact ⟨b, hb, hlinked, hrestores hall⟩
  · obtain ⟨b, hb, hlinked, hall⟩ := exists_foldlM_parseMember hm hgives .empty
    exact ⟨b, hb, hlinked, hrestores hall⟩

end Config

namespace Single

open Endpoint

variable {config : Config σ} {ctx : Context} {plan : Plan} {t : Tables} {b : ParsedBody}

/-! ## Requests -/

/-- A request that finds its record changes it, if its query has no conditions. -/
theorem exists_writing_of_finds (hooks : config.hooks = .none σ)
    (hmethod : ctx.method = .put ∨ ctx.method = .patch)
    (hfilters : config.operators.ofParams config.model ctx.params = .ok [])
    (h : Finds config ctx t plan b r) :
    ∃ work, (single config).writing ctx = some (.write, work) ∧
      ∀ s : Session σ, s.tx.working = t → work s =
        changing config ctx r
          (Config.withDefaults (defaultsFor config ctx.method) ctx b.attributes) b.linked s := by
  obtain ⟨hplan, ⟨members, hmembers, hb⟩, hfound⟩ := h
  rcases hmethod with hm | hm
  · refine ⟨putting config ctx, by simp only [writing, hm], fun s hs => ?_⟩
    unfold putting changing
    rw [hmembers, SessionM.ok_bind, hplan, SessionM.ok_bind, hb, SessionM.ok_bind,
      SessionM.bind_apply, putRecord_apply hooks, hs, hfound, hm]
    dsimp only [defaultsFor]
    rw [SessionM.bind_apply, SessionM.bind_apply]
    rcases SessionM.update config.model r
      (Config.withDefaults config.putDefaults ctx b.attributes) s with ⟨e | record, u⟩
    · rfl
    · rfl
  · refine ⟨patching config ctx, by simp only [writing, hm], fun s hs => ?_⟩
    unfold patching changing
    rw [hmembers, SessionM.ok_bind, hplan, SessionM.ok_bind, hfilters, SessionM.ok_bind, hb,
      SessionM.ok_bind, SessionM.bind_apply, locateWith_apply,
      located_of_one (hs ▸ hfound) (by simp), hm]
    rfl

/-- A record is changed as its update says. -/
theorem changing_apply {changes r' : Record} {s : Session σ} {tx : Transaction}
    (h : s.tx.update config.model.name r (config.model.columnValues changes) = .ok (r', tx)) :
    changing config ctx r changes [] s =
      (.ok ⟨[config.shown ctx r'], fun data => dataEnvelope (data.headD .null), false⟩,
        { s with tx := tx }) := by
  have hupdate : (SessionM.update config.model r changes : SessionM σ Record) s =
      (.ok r', { s with tx := tx }) := by
    unfold SessionM.update
    rw [SessionM.bind_apply, SessionM.get_apply]
    dsimp only
    rw [h]
    rfl
  unfold changing
  rw [SessionM.bind_apply, hupdate]
  rfl

theorem get?_singleEnvelope (data : Json.Members) (metadata : Option Json.Members)
    (included : Option (List Json)) :
    (singleEnvelope data metadata included).get? "data" = some (.object data) := by
  refine (Keyed.get?_ofList_eq_some_iff ?_).2 ?_
  · cases metadata <;> cases included <;> simp [optionalMember]
  · simp

/-- A `GET` shows the data of the one record that its path names. -/
theorem shown_of_get {server : Server σ} {request : Context} (hooks : config.hooks = .none σ)
    (hfields : config.fields = .all)
    (hadmitted : config.receive config.singleMethods request = .ok ctx)
    (hmethod : ctx.method = .get) {answer : Response}
    (hanswer : ((single config).handle request server).1 = .ok answer)
    {data : Json} (hdata : answer.body.get? "data" = some data) :
    ∃ plan r members, locate config ctx.pathParams = .ok plan ∧
      plan.matching server.store.tables = [r] ∧ r ∈ server.store.tables.rows config.model.name ∧
      data = .object members ∧
      config.codec.record config.axes config.model r none = .ok members := by
  have hhandle : (single config).handle request server = (single config).respond ctx server :=
    handle_of_admitted hadmitted
  rw [hhandle] at hanswer
  simp only [respond, hmethod] at hanswer
  change (view config ctx (sessionOf server .read)).1 = .ok answer at hanswer
  obtain ⟨plan, r, members, included, hplan, hfound, hrecord, rfl⟩ :=
    view_eq_ok hooks (Prod.ext hanswer rfl)
  change plan.matching server.store.tables = [r] at hfound
  have hr : r ∈ plan.matching server.store.tables := by
    rw [hfound]
    exact List.mem_singleton.2 rfl
  refine ⟨plan, r, members, hplan, hfound, ?_, ?_, ?_⟩
  · rw [← model_of_locate hplan]
    exact (List.mem_filter.1 hr).1
  · exact (Option.some.inj ((get?_singleEnvelope _ _ _).symm.trans hdata)).symm
  · unfold Config.data at hrecord
    rw [hfields] at hrecord
    exact hrecord

section Store

variable {d : SchemaDecl} {schema : Schema} {server : Server σ}

/-- A request that gives a stored record its own values advances it where it stands. -/
theorem advances_of_restores (hd : d.resolve = .ok schema) (supply : Nat → Uuid)
    (steps : List Step)
    (hserver : server.store = ((Sessions.empty schema supply).after steps).store)
    (hmodel : schema.model? config.model.name = some config.model)
    (hreads : server.store.tables.ReadsBack schema config.model)
    (hr : r ∈ server.store.tables.rows config.model.name) {work : SessionM σ Written}
    {changes : Record} (hrestores : (config.model.columnValues changes).Restores config.model r)
    (hwork : ∀ s : Session σ, s.tx.working = server.store.tables →
      work s = changing config ctx r changes [] s) :
    ∃ (place : Place) (r' : Record) (s : Session σ), place.row = r ∧
      r.Advances config.model r' ∧
      server.store.tables.rows config.model.name = place.replace r ∧
      work (sessionOf server .write) = (.ok ⟨[config.shown ctx r'],
        fun data => dataEnvelope (data.headD .null), false⟩, s) ∧
      s.store.commit s.tx = .ok { server.store with
        tables := server.store.tables.setRows config.model.name (place.replace r') } := by
  have hs := SchemaDecl.wellFormed hd
  have hm := Schema.mem_of_model? hmodel
  have hwf := hs.models _ hm
  have hschema : server.store.schema = schema := by
    rw [hserver]
    exact ((Sessions.of_empty schema supply).after steps).store
  have hunique : config.model.KeyUnique (server.store.tables.rows config.model.name) := by
    rw [hserver]
    exact Sessions.keyUnique_after hd hm supply steps
  have hvalid : r.Valid config.model := by
    rw [hserver] at hr
    exact (Sessions.keeps_valid hs hm steps).committed r hr
  have hversion : ∀ v, config.model.versionColumn = some v → r.Versioned v := by
    intro v hv
    obtain ⟨c, hc, rfl⟩ := hwf.version v hv
    have hfound := hwf.column?_of_mem hc
    rw [hserver] at hr
    exact Sessions.versioned_after hs hm hv hfound ((hreads.version _ hv).integer c hfound) supply
      steps r hr
  have hkey : (config.model.keyOf r).same (config.model.keyOf r) = true :=
    (hvalid.fits hwf (fun v c hv hc => (hreads.version v hv).integer c hc) hwf.key_mem).same_self
      (hreads.types _ hwf.key_mem).ordered
  have hknown : server.store.begin.schema.model? config.model.name = some config.model := by
    change server.store.schema.model? _ = _
    rw [hschema]
    exact hmodel
  obtain ⟨r', op, rows, hw, hupdate⟩ :=
    Transaction.exists_update hwf hknown hunique hr hvalid hkey hversion hrestores ""
  obtain ⟨before, after, hbefore, rfl, hpatched⟩ := hw.of_update hunique hr
  have hadvances := hpatched.advances hwf hversion hrestores
  have hchecked : server.store.tables.Checked server.store.schema := by
    rw [hschema, hserver]
    exact Sessions.checked_after hs steps
  have hcommit := Store.commit_of_advances (hschema ▸ hd) (hschema ▸ hm) (hschema ▸ hreads.version)
    hchecked hbefore hadvances hw
  refine ⟨⟨before, r, after⟩, r', { sessionOf server .write with tx := _ }, rfl, hadvances, hbefore,
    ?_, hcommit⟩
  rw [hwork _ rfl]
  exact changing_apply hupdate

/-- What a `GET` has shown can be sent back to the same path by a `PUT` or a `PATCH`, on every store
and for every model whose records can be read back. The answer shows what was sent with the next
version, and the record that the path names has this version where it stands. All else is as it
was. -/
theorem written_back (hd : d.resolve = .ok schema) (supply : Nat → Uuid) (steps : List Step)
    (config : Config σ) (server : Server σ)
    (hserver : server.store = ((Sessions.empty schema supply).after steps).store)
    (hmodel : schema.model? config.model.name = some config.model)
    (hreads : server.store.tables.ReadsBack schema config.model)
    (hooks : config.hooks = .none σ) (hcodec : config.codec = .standard)
    (hfields : config.fields = .all) (hput : config.putDefaults = [])
    (hpatch : config.patchDefaults = []) (read write : Context) {seen admitted : Context}
    (hread : config.receive config.singleMethods read = .ok seen) (hget : seen.method = .get)
    (hwrite : config.receive config.singleMethods write = .ok admitted)
    (hmethod : admitted.method = .put ∨ admitted.method = .patch)
    (hpath : admitted.pathParams = seen.pathParams)
    (hfilters : config.operators.ofParams config.model admitted.params = .ok [])
    {answer : Response} (hanswer : ((single config).handle read server).1 = .ok answer)
    {data : Json} (hdata : answer.body.get? "data" = some data)
    (hbody : admitted.body = some data) :
    ∃ (members : Json.Members) (place : Place) (r' : Record),
      data = .object members ∧
      config.codec.record config.axes config.model place.row none = .ok members ∧
      ((single config).handle write server).1 =
        .ok (.ok (dataEnvelope (.object (config.model.nextData members)))) ∧
      place.row.Advances config.model r' ∧
      server.store.tables.rows config.model.name = place.replace place.row ∧
      ((single config).tablesAfter write server).rows config.model.name = place.replace r' ∧
      ∀ name, name ≠ config.model.name →
        ((single config).tablesAfter write server).rows name = server.store.tables.rows name := by
  have hs := SchemaDecl.wellFormed hd
  have hm := Schema.mem_of_model? hmodel
  have hwf := hs.models _ hm
  obtain ⟨plan, r, members, hplan, hfound, hr, rfl, hrecord⟩ :=
    shown_of_get hooks hfields hread hget hanswer hdata
  have hshows := Codec.Shows.of_record hwf (hcodec ▸ hrecord)
  have hvalid : r.Valid config.model := by
    rw [hserver] at hr
    exact (Sessions.keeps_valid hs hm steps).committed r hr
  -- the body gives the record its own values
  obtain ⟨b, hb, hlinked, hrestores⟩ := Config.exists_parse hwf hcodec hreads.types
    (fun c => hvalid.fits hwf (fun v c hv hc => (hreads.version v hv).integer c hc))
    (hreads.wholeSeconds r hr) hshows config.allowSubresources
  have hobject : Config.objectBody admitted = .ok members := by
    unfold Config.objectBody
    rw [hbody]
  obtain ⟨work, hwriting, hwork⟩ := exists_writing_of_finds hooks hmethod hfilters
    ⟨hpath ▸ hplan, ⟨members, hobject, hb⟩, hfound⟩
  have hdefaults : Config.withDefaults (defaultsFor config admitted.method) admitted b.attributes =
      b.attributes := by
    have hnone : defaultsFor config admitted.method = [] := by
      rcases hmethod with hmethod | hmethod
      · rw [hmethod]
        exact hput
      · rw [hmethod]
        exact hpatch
    rw [hnone]
    rfl
  rw [hdefaults, hlinked] at hwork
  obtain ⟨place, r', s, rfl, hadvances, hplace, hrun, hcommit⟩ :=
    advances_of_restores hd supply steps hserver hmodel hreads hr hrestores hwork
  have hooks' : (single config).config.hooks = .none σ := hooks
  obtain ⟨hanswer', htables⟩ := handle_of_writes hooks' (.intro hwrite hwriting hrun hcommit)
  have hnext := (hadvances.shows hwf (hreads.increases _ hr) hshows).record_eq hwf
  refine ⟨members, place, r', rfl, hrecord, ?_, hadvances, hplace, ?_, fun name hname => ?_⟩
  · have hdataOf : dataOf config admitted r' =
        .ok (dataEnvelope (.object (config.model.nextData members))) := by
      unfold dataOf Config.data
      rw [hfields, hcodec]
      exact congrArg (Except.map _) hnext
    rw [hanswer']
    exact (render_stored r' false).trans (congrArg (Except.map _) hdataOf)
  · rw [htables]
    exact (Tables.rows_setRows _ _ _ _).trans (if_pos rfl)
  · rw [htables]
    exact (Tables.rows_setRows _ _ _ _).trans (if_neg hname)

end Store

/-- The data of the note that a server has. -/
def noteData : Json.Members :=
  [("id", .int 1), ("text", .string "old"), ("version", .int 1)]

/-- A request for the note with the number one. -/
def getNote : Context :=
  { Context.ofMethod .get with pathParams := [("id", "1")] }

/-- A request to put the note back. -/
def putNoteBack : Context :=
  { Context.ofMethod .put with
    pathParams := [("id", "1")]
    body := some (.object noteData) }

theorem readsBack_oneNote : oneNote.store.tables.ReadsBack .notes .note := by
  have hrows : oneNote.store.tables.rows Model.note.name =
      [.ofList [("id", .int 1), ("text", .text "old"), ("version", .int 1)]] := rfl
  constructor
  · intro c hc
    fin_cases hc <;> constructor
  · intro r hr c hc d hd
    rw [hrows, List.mem_singleton] at hr
    subst hr
    fin_cases hc <;> cases hd
  · intro v hv
    obtain rfl := Option.some.inj hv
    constructor
    · intro c hc
      obtain rfl := Option.some.inj hc
      rfl
    · intro columns hcolumns
      cases hcolumns with
      | key => decide
      | column hc hu => fin_cases hc <;> cases hu
      | together h => cases h
    · intro key hkey
      cases hkey
  · intro r hr v hv hget
    rw [hrows, List.mem_singleton] at hr
    subst hr
    obtain rfl := Option.some.inj hv
    exact absurd (Value.int.inj hget) (by decide)

theorem written_back_oneNote :
    ((single (.ofModel Unit .notes .note)).handle putNoteBack oneNote).1 =
        .ok (.ok (dataEnvelope (.object
          [("id", .int 1), ("text", .string "old"), ("version", .int 2)]))) ∧
      ∃ (place : Place) (r' : Record), place.row.Advances .note r' ∧
        oneNote.store.tables.rows "note" = place.replace place.row ∧
        ((single (.ofModel Unit .notes .note)).tablesAfter putNoteBack oneNote).rows "note" =
          place.replace r' := by
  obtain ⟨members, place, r', hdata, -, hanswer, hadvances, hrows, hafter, -⟩ :=
    written_back SchemaDecl.resolve_notes (fun _ => default) noteSteps
      (.ofModel Unit .notes .note) oneNote rfl rfl readsBack_oneNote rfl rfl rfl rfl rfl getNote
      putNoteBack rfl rfl rfl (.inl rfl) rfl rfl rfl rfl rfl
  cases hdata
  exact ⟨hanswer, place, r', hadvances, hrows, hafter⟩

end Single

end RecordApi
