import RecordApi.Proofs.Http.Captured
import RecordApi.Proofs.Resource.Staying

/-!
# The record that a path reaches

A request to a single record that succeeds has shown, changed, removed or inserted one record
(`Single.Reaches`). Where the segments of its path are texts, this is the record that they name, or
one that is inserted with their values; where one of them denotes no value, the request is refused
whatever is stored. Where one of them is no text, the request is taken for one without parameters,
and reaches the only record of its model (`Router.reaches_named`).
-/

namespace RecordApi

variable {σ : Type} {m : Model}

/-! ## What a path sets -/

namespace Config

variable {config : Config σ}

/-- A parameter that stands for a column sets the value that it denotes. -/
theorem denotes_of_pathAttribute {r r' : Record} {param : String × String}
    (htarget : ∃ column, config.inbound.target param.1 = .column column)
    (h : config.pathAttribute m r param = .ok r') :
    ∃ column v, config.inbound.Denotes m param column v ∧ r' = r.insert column v := by
  obtain ⟨column, htarget⟩ := htarget
  unfold pathAttribute at h
  rw [htarget] at h
  exact ⟨column, PathMap.exists_denotes htarget h⟩

/-- Of the parameters that stand for a column, the last one says what is set there. -/
theorem get?_of_pathAttributes {front back : List (String × String)} {p : String × String}
    (htargets : ∀ q ∈ front ++ p :: back, ∃ column, config.inbound.target q.1 = .column column)
    (hlast : ∀ q ∈ back, config.inbound.target q.1 ≠ config.inbound.target p.1) {r : Record}
    (h : config.pathAttributes m (front ++ p :: back) = .ok r) :
    ∃ column v, config.inbound.Denotes m p column v ∧ r.get? column = some v := by
  obtain ⟨a, -, h⟩ := foldlM_append_eq_ok_iff.1 h
  rw [List.foldlM_cons, bind_eq_ok_iff] at h
  obtain ⟨b, hb, h⟩ := h
  obtain ⟨column, v, hdenotes, rfl⟩ :=
    denotes_of_pathAttribute (htargets p (by simp)) hb
  refine ⟨column, v, hdenotes,
    foldlM_induct (P := fun r => r.get? column = some v) h ?_ fun q hq c d hc hd => ?_⟩
  · rw [Record.get?_insert, if_pos rfl]
  · obtain ⟨other, w, hother, rfl⟩ := denotes_of_pathAttribute (htargets q (by simp [hq])) hd
    have hne : column ≠ other := by
      rintro rfl
      obtain ⟨htarget, -, -⟩ := hdenotes
      obtain ⟨htarget', -, -⟩ := hother
      exact hlast q hq (htarget'.trans htarget.symm)
    rw [Record.get?_insert, if_neg hne]
    exact hc

/-- A default is not set over what is there. -/
theorem get?_withDefaults {defaults : List (String × DefaultValue)} {ctx : Context} {r : Record}
    {column : String} {v : Value} (h : r.get? column = some v) :
    (withDefaults defaults ctx r).get? column = some v := by
  unfold withDefaults
  induction defaults generalizing r with
  | nil => exact h
  | cons d defaults ih =>
      obtain ⟨name, value⟩ := d
      rw [List.foldl_cons]
      refine ih ?_
      by_cases hc : r.contains name = true
      · simpa [hc] using h
      · have hne : column ≠ name := by
          rintro rfl
          exact hc (by simp [Record.contains_iff, h])
        simp [hc, Record.get?_insert, hne, h]

end Config

/-- A record that is inserted with what a path sets has it. -/
theorem Transaction.Writes.sets_of_insert {config : Config σ} {tx : Transaction}
    {name model : String} {attributes path r : Record} {op : Operation} {rows : List Record}
    {defaults : List (String × DefaultValue)} {ctx : Context} {params : List (String × String)}
    (htargets : ∀ p ∈ params, ∃ column, config.inbound.target p.1 = .column column)
    (hpath : config.pathAttributes m params = .ok path)
    (h : tx.Writes m (.insert name model (m.columnValues
      (Config.withDefaults defaults ctx (attributes.merge path)))) (.record r) op rows) :
    config.inbound.Sets m params r := by
  rintro front p back rfl hlast
  obtain ⟨column, v, hdenotes, hv⟩ := Config.get?_of_pathAttributes htargets hlast hpath
  refine ⟨column, v, hdenotes, ?_⟩
  have hnull := hdenotes.ne_null
  obtain ⟨-, found, typed⟩ := hdenotes
  have hgiven : (m.columnValues (Config.withDefaults defaults ctx (attributes.merge path))).get?
      column = some v := by
    rw [Model.columnValues, Record.get?_restrict, if_pos (by simp [Model.isColumn, found])]
    refine Config.get?_withDefaults ?_
    rw [Record.get?_merge, hv, Option.some_or]
  obtain ⟨w, hw, hget⟩ := h.get?_of_insert found hgiven
  obtain rfl : w = v :=
    Except.ok.inj (hw.symm.trans (Value.fits_iff.1 (Column.fits_of_typed typed)))
  rw [Record.get, hget fun h => absurd h hnull, Option.getD_some]

/-! ## Requests that succeed -/

namespace Endpoint

variable {e : Endpoint σ} {ctx : Context} {server : Server σ}

theorem exists_answer_of_status (h : e.status ctx server < 400) :
    ∃ answer, (e.handle ctx server).1 = .ok answer := by
  unfold status at h
  cases hresult : (e.handle ctx server).1 with
  | error err =>
      rw [hresult] at h
      exact absurd h (Nat.not_lt.2 err.le_status)
  | ok answer => exact ⟨answer, rfl⟩

theorem exists_receive_of_status (h : e.status ctx server < 400) :
    ∃ admitted, e.config.receive e.methods ctx = .ok admitted := by
  obtain ⟨answer, hanswer⟩ := exists_answer_of_status h
  rw [handle_eq] at hanswer
  cases hreceive : e.config.receive e.methods ctx with
  | error err =>
      rw [hreceive] at hanswer
      cases hanswer
  | ok admitted => exact ⟨admitted, rfl⟩

end Endpoint

/-! ## What a request logs -/

section Log

open SessionM

variable {config : Config σ} {ctx : Context}

/-- Creating linked records adds to the log, if there are any to create. -/
theorem Config.logs_link (m : Model) (parent : Record) (groups : List LinkedGroup)
    (op : Operation) :
    Yields (fun tx => tx.log = [op]) (config.link m parent groups) fun _ tx =>
      ∃ rest, tx.log = op :: rest ∧ (groups = [] → rest = []) := by
  by_cases hgroups : groups = []
  · subst hgroups
    exact .pure fun tx h => ⟨[], h, fun _ => rfl⟩
  · intro s hs record t hrun
    have hwrote : ∀ (tx : Transaction) (n : Model) (rows : List Record) (next : Operation),
        (∃ rest, tx.log = op :: rest) → ∃ rest, (tx.wrote n rows next).log = op :: rest := by
      rintro tx n rows next ⟨rest, hlog⟩
      exact ⟨rest ++ [next], by rw [Transaction.wrote, hlog, List.cons_append]⟩
    have hlink := Yields.link (Q := fun _ tx => ∃ rest, tx.log = op :: rest) (m := m)
      (fun _ _ _ => .insert fun tx n next rows _ h _ => hwrote tx n rows next h)
      (fun _ _ _ _ _ => .update fun tx n next rows _ h _ => hwrote tx n rows next h)
      config parent
    obtain ⟨rest, hlog⟩ := hlink groups s ⟨[], hs⟩ record t hrun
    exact ⟨rest, hlog, fun h => absurd h hgroups⟩

namespace Single

/-- A record that is changed is changed first. -/
theorem logs_changing (r changes : Record) (linked : List LinkedGroup) :
    Yields (fun tx => tx.schema.model? config.model.name = some config.model ∧ tx.log = [])
      (changing config ctx r changes linked) fun _ tx => ∃ version given rest,
        tx.log = .update config.model.name (config.model.keyOf r) version given :: rest ∧
          (linked = [] → rest = []) := by
  have hupdated : Yields
      (fun tx => tx.schema.model? config.model.name = some config.model ∧ tx.log = [])
      (SessionM.update config.model r changes : SessionM σ Record) fun _ tx => ∃ version given,
        tx.log = [.update config.model.name (config.model.keyOf r) version given] := by
    refine .update fun tx n op rows record htx hw => ?_
    obtain ⟨hm, hlog⟩ := htx
    cases hw with
    | update named =>
        obtain rfl := Option.some.inj (named.symm.trans hm)
        exact ⟨_, _, by rw [Transaction.wrote, hlog, List.nil_append]⟩
  refine hupdated.bind fun record => ?_
  rintro s ⟨version, given, hlog⟩ w t hrun
  obtain ⟨stored, u, hlink, hanswer⟩ := bind_eq_ok hrun
  cases hanswer
  obtain ⟨rest, hrest⟩ := Config.logs_link _ _ _ _ s hlog _ _ hlink
  exact ⟨version, given, rest, hrest⟩

/-- A record that is inserted by a path has what the path sets, and stands behind those that were
there. -/
theorem yields_inserting {parsed : ParsedBody} {tx : Transaction}
    (hm : tx.schema.model? config.model.name = some config.model)
    (htargets : ∀ p ∈ ctx.pathParams, ∃ column, config.inbound.target p.1 = .column column)
    {tables : Tables} (hfrom : tx.From tx.schema tables) :
    Yields (· = tx) (inserting config ctx parsed) fun result tx' =>
      config.inbound.Sets config.model ctx.pathParams result.1 ∧
        tx' = tx.wrote config.model (tx.working.rows config.model.name ++ [result.1])
          (.insert config.model.name result.1) ∧
        tx'.From tx.schema tables := by
  unfold inserting
  split
  · refine .lift_bind fun path hpath => ?_
    refine Yields.bind (R := fun r tx' => config.inbound.Sets config.model ctx.pathParams r ∧
      tx' = tx.wrote config.model (tx.working.rows config.model.name ++ [r])
        (.insert config.model.name r) ∧ tx'.From tx.schema tables)
      (.insert fun _ n op rows r htx hw => ?_) fun _ => .pure fun _ h => h
    subst htx
    obtain rfl : n = config.model := Option.some.inj (hw.model?_of_insert.symm.trans hm)
    refine ⟨hw.sets_of_insert htargets hpath, ?_, hfrom.wrote hw⟩
    cases hw with
    | insert => rfl
  · exact .throw

/-- A record that is deleted is all that is logged. -/
theorem logs_delete (r : Record) :
    Yields (fun tx => tx.schema.model? config.model.name = some config.model ∧ tx.log = [])
      (SessionM.delete config.model r : SessionM σ Unit) fun _ tx => ∃ version,
        tx.log = [.delete config.model.name (config.model.keyOf r) version] := by
  refine .delete fun tx n op rows htx hw => ?_
  obtain ⟨hm, hlog⟩ := htx
  cases hw with
  | delete named =>
      obtain rfl := Option.some.inj (named.symm.trans hm)
      exact ⟨_, by rw [Transaction.wrote, hlog, List.nil_append]⟩

/-! ## What a request reaches -/

/-- A path names one of some records and no other. -/
structure NamesOnly (config : Config σ) (ctx : Context) (t : Tables) (r : Record) : Prop where
  stored : r ∈ t.rows config.model.name
  named : config.lookup.Names config.model ctx.pathParams r
  only : ∀ q ∈ t.rows config.model.name,
    config.lookup.Names config.model ctx.pathParams q → q = r

/-- What a request to a single record does that succeeds: it shows the one record that its path
names, changes or removes this record by its key, which no other record has, or inserts one that has
what the path sets. -/
inductive Reaches (config : Config σ) (ctx : Context) (t : Tables) (log : List Operation)
    (answer : Response) : Prop
  | shows {r : Record} {extra : List Value} {data : Json.Members} {included : Option (List Json)}
      (method : ctx.method = .get) (names : NamesOnly config ctx t r)
      (data_eq : config.data ctx ⟨r, extra⟩ = .ok data)
      (answer_eq : answer =
        .ok (singleEnvelope data (config.metadata.produce ctx ⟨r, extra⟩) included))
  | changes {r : Record} {version : Option Value} {given : Record} {rest : List Operation}
      (method : ctx.method = .put ∨ ctx.method = .patch) (names : NamesOnly config ctx t r)
      (key : ∀ q ∈ t.rows config.model.name,
        (config.model.keyOf q).same (config.model.keyOf r) = true → q = r)
      (logged : log = .update config.model.name (config.model.keyOf r) version given :: rest)
      (alone : config.allowSubresources = false → rest = [])
  | removes {r : Record} {version : Option Value} (method : ctx.method = .delete)
      (names : NamesOnly config ctx t r)
      (key : ∀ q ∈ t.rows config.model.name,
        (config.model.keyOf q).same (config.model.keyOf r) = true → q = r)
      (logged : log = [.delete config.model.name (config.model.keyOf r) version])
  | inserts {r : Record} {rest : List Operation} (method : ctx.method = .put)
      (absent : ∀ q ∈ t.rows config.model.name,
        ¬config.lookup.Names config.model ctx.pathParams q)
      (sets : config.inbound.Sets config.model ctx.pathParams r)
      (logged : log = .insert config.model.name r :: rest)
      (alone : config.allowSubresources = false → rest = [])

variable {plan : Plan} {t : Tables} {r : Record}

theorem NamesOnly.of_found
    (htargets : ∀ p ∈ ctx.pathParams, ∃ column, config.lookup.target p.1 = .column column)
    (hplan : locate config ctx.pathParams = .ok plan) (hfound : plan.matching t = [r]) :
    NamesOnly config ctx t r := by
  obtain ⟨hmodel, haccepts⟩ := accepts_of_locate htargets hplan
  have hiff : ∀ q, q ∈ plan.matching t ↔
      q ∈ t.rows config.model.name ∧ config.lookup.Names config.model ctx.pathParams q := by
    intro q
    rw [Plan.matching, List.mem_filter, hmodel, haccepts]
  obtain ⟨hstored, hnamed⟩ := (hiff r).1 (by simp [hfound])
  refine ⟨hstored, hnamed, fun q hq hqnamed => ?_⟩
  have hmem := (hiff q).2 ⟨hq, hqnamed⟩
  rw [hfound] at hmem
  exact List.mem_singleton.1 hmem

/-- A record that is shown was looked up. -/
theorem view_eq_ok (hooks : config.hooks = .none σ) {s u : Session σ} {answer : Response}
    (h : view config ctx s = (.ok answer, u)) :
    ∃ plan r data included, locate config ctx.pathParams = .ok plan ∧
      plan.matching s.tx.working = [r] ∧
      config.data ctx (plan.rowOf s.tx.working r) = .ok data ∧
      answer = .ok (singleEnvelope data
        (config.metadata.produce ctx (plan.rowOf s.tx.working r)) included) := by
  unfold view at h
  rw [hooks] at h
  simp only [Hooks.none, hookWith_pure, hook_pure, pure_bind] at h
  obtain ⟨names, -, h⟩ := lift_bind_eq_ok h
  obtain ⟨plan, hplan, h⟩ := lift_bind_eq_ok h
  obtain ⟨found, v, hone, h⟩ := bind_eq_ok h
  obtain ⟨rfl, rfl⟩ : s.tx.one plan = found ∧ s = v := by
    cases hone
    exact ⟨rfl, rfl⟩
  rw [Transaction.one_eq] at h
  rcases hfound : plan.matching s.tx.working with _ | ⟨r, _ | ⟨q, rest⟩⟩
  · rw [hfound] at h
    cases h
  · rw [hfound] at h
    obtain ⟨included, v, -, h⟩ := bind_eq_ok h
    obtain ⟨data, hdata, h⟩ := lift_bind_eq_ok h
    cases h
    exact ⟨plan, r, data, _, hplan, hfound, hdata, rfl⟩
  · rw [hfound] at h
    cases h

/-- A `PUT` that creates its record has looked up none, and inserts it. -/
theorem inserting_of_putting (hooks : config.hooks = .none σ) {s u : Session σ} {w : Written}
    (h : putting config ctx s = (.ok w, u)) (hw : w.created = true) :
    ∃ members b plan record v stored, locate config ctx.pathParams = .ok plan ∧
      config.parseObject config.model config.allowSubresources members = .ok b ∧
      plan.matching s.tx.working = [] ∧ inserting config ctx b s = (.ok record, v) ∧
      config.link config.model record.1 b.linked v = (.ok stored, u) ∧
      w = ⟨[config.shown ctx stored], fun data => dataEnvelope (data.headD .null), true⟩ := by
  obtain ⟨members, -, h⟩ := lift_bind_eq_ok h
  obtain ⟨plan, hplan, h⟩ := lift_bind_eq_ok h
  obtain ⟨b, hb, h⟩ := lift_bind_eq_ok h
  obtain ⟨⟨record, inserted⟩, v, hput, h⟩ := bind_eq_ok h
  obtain ⟨stored, _, hlink, hanswer⟩ := bind_eq_ok h
  cases hanswer
  obtain rfl : inserted = true := hw
  rw [putRecord_apply hooks] at hput
  split at hput
  · next hfound => exact ⟨members, b, plan, _, v, stored, hplan, hb, hfound, hput, hlink, rfl⟩
  · obtain ⟨_, _, -, hput⟩ := bind_eq_ok hput
    cases hput
  · cases hput

/-- A record that is deleted was looked up. -/
theorem delete_of_deleting {s u : Session σ} {w : Written}
    (h : deleting config ctx s = (.ok w, u)) :
    ∃ plan r, locate config ctx.pathParams = .ok plan ∧ plan.matching s.tx.working = [r] ∧
      (SessionM.delete config.model r : SessionM σ Unit) s = (.ok (), u) := by
  obtain ⟨plan, hplan, h⟩ := lift_bind_eq_ok h
  obtain ⟨filters, -, h⟩ := lift_bind_eq_ok h
  obtain ⟨row, v, hlocated, h⟩ := bind_eq_ok h
  rw [locateWith_apply, Prod.mk.injEq] at hlocated
  obtain ⟨hlocated, rfl⟩ := hlocated
  obtain ⟨r, hr, rfl⟩ := located_eq_ok hlocated
  obtain ⟨_, _, hdelete, hanswer⟩ := bind_eq_ok h
  cases hanswer
  exact ⟨plan, r, hplan, hr, hdelete⟩

theorem linked_eq_nil {members : Json.Members} {b : ParsedBody}
    (h : config.parseObject config.model config.allowSubresources members = .ok b)
    (hsub : config.allowSubresources = false) : b.linked = [] := by
  unfold Config.parseObject at h
  rw [hsub] at h
  exact Config.linked_of_parseFlat h

open Endpoint

section Method

variable {server : Server σ} {u : Session σ} {w : Written} {answer : Response}

/-- A `GET` shows the record that its path names. -/
theorem reaches_of_view (hooks : config.hooks = .none σ) (hmethod : ctx.method = .get)
    (htargets : ∀ p ∈ ctx.pathParams, ∃ column, config.lookup.target p.1 = .column column)
    (h : view config ctx (sessionOf server .read) = (.ok answer, u)) (log : List Operation) :
    Reaches config ctx server.store.tables log answer := by
  obtain ⟨plan, r, data, included, hplan, hfound, hdata, hanswer⟩ := view_eq_ok hooks h
  exact .shows hmethod (.of_found htargets hplan hfound) hdata hanswer

variable (hmodel : server.store.schema.model? config.model.name = some config.model)
  (htargets : ∀ p ∈ ctx.pathParams, ∃ column, config.lookup.target p.1 = .column column)

include hmodel htargets

/-- A `PUT` that inserts nothing, and a `PATCH`, change the record that their path names. -/
theorem reaches_of_changing (hooks : config.hooks = .none σ) {purpose : Purpose}
    {work : SessionM σ Written}
    (hmethod : ctx.method = .put ∧ w.created = false ∨ ctx.method = .patch)
    (hwriting : (single config).writing ctx = some (purpose, work))
    (hunique : config.model.KeyUnique (server.store.tables.rows config.model.name))
    (h : work (sessionOf server purpose) = (.ok w, u)) :
    Reaches config ctx server.store.tables u.tx.log answer := by
  obtain ⟨plan, b, r, ⟨hplan, ⟨members, -, hb⟩, hfound⟩, hrun⟩ :=
    changing_of_writing hooks hmethod hwriting h
  have hnames : NamesOnly config ctx server.store.tables r := .of_found htargets hplan hfound
  obtain ⟨version, given, rest, hlogged, hrest⟩ :=
    logs_changing r _ b.linked (sessionOf server purpose) ⟨hmodel, rfl⟩ w u hrun
  exact .changes (hmethod.imp_left And.left) hnames
    (fun q hq hsame => hunique.eq_of_same hnames.stored hq hsame) hlogged
    fun hsub => hrest (linked_eq_nil hb hsub)

/-- A `PUT` that creates a record inserts it where its path names none. -/
theorem reaches_of_inserting (hooks : config.hooks = .none σ) (hmethod : ctx.method = .put)
    (hinbound : ∀ p ∈ ctx.pathParams, ∃ column, config.inbound.target p.1 = .column column)
    (h : putting config ctx (sessionOf server .write) = (.ok w, u)) (hw : w.created = true) :
    Reaches config ctx server.store.tables u.tx.log answer := by
  obtain ⟨members, b, plan, record, v, stored, hplan, hb, hfound, hinsert, hlink, -⟩ :=
    inserting_of_putting hooks h hw
  obtain ⟨hplanModel, haccepts⟩ := accepts_of_locate htargets hplan
  obtain ⟨hsets, hwrote, -⟩ := yields_inserting hmodel hinbound
    (Transaction.from_begin server.store) (sessionOf server .write) rfl _ v hinsert
  have hinserted : v.tx.log = [.insert config.model.name record.1] := by
    rw [hwrote]
    rfl
  obtain ⟨rest, hrest, halone⟩ := Config.logs_link _ _ _ _ v hinserted _ u hlink
  refine .inserts hmethod (fun q hq hnamed => ?_) hsets hrest
    fun hsub => halone (linked_eq_nil hb hsub)
  have hmem : q ∈ plan.matching server.store.tables :=
    List.mem_filter.2 ⟨hplanModel ▸ hq, (haccepts _ q).2 hnamed⟩
  rw [show plan.matching server.store.tables = [] from hfound] at hmem
  cases hmem

/-- A `DELETE` removes the record that its path names. -/
theorem reaches_of_deleting (hmethod : ctx.method = .delete)
    (hunique : config.model.KeyUnique (server.store.tables.rows config.model.name))
    (h : deleting config ctx (sessionOf server .delete) = (.ok w, u)) :
    Reaches config ctx server.store.tables u.tx.log answer := by
  obtain ⟨plan, r, hplan, hfound, hdelete⟩ := delete_of_deleting h
  have hnames : NamesOnly config ctx server.store.tables r := .of_found htargets hplan hfound
  obtain ⟨version, hlogged⟩ :=
    logs_delete r (sessionOf server .delete) ⟨hmodel, rfl⟩ () u hdelete
  exact .removes hmethod hnames (fun q hq hsame => hunique.eq_of_same hnames.stored hq hsame)
    hlogged

end Method

/-- A request to a single record that succeeds reaches the record that its path names, or inserts
one. -/
theorem reaches_of_status {server : Server σ} {admitted : Context}
    (hmodel : server.store.schema.model? config.model.name = some config.model)
    (hunique : config.model.KeyUnique (server.store.tables.rows config.model.name))
    (hooks : config.hooks = .none σ)
    (hadmitted : config.receive config.singleMethods ctx = .ok admitted)
    (hlookup : ∀ p ∈ admitted.pathParams, ∃ column, config.lookup.target p.1 = .column column)
    (hinbound : ∀ p ∈ admitted.pathParams, ∃ column, config.inbound.target p.1 = .column column)
    (hstatus : (single config).status ctx server < 400) :
    ∃ answer, ((single config).handle ctx server).1 = .ok answer ∧
      Reaches config admitted server.store.tables ((single config).log ctx server) answer := by
  have hooks' : (single config).config.hooks = .none σ := hooks
  have hadmitted' : (single config).config.receive (single config).methods ctx = .ok admitted :=
    hadmitted
  obtain ⟨answer, hanswer⟩ := exists_answer_of_status hstatus
  refine ⟨answer, hanswer, ?_⟩
  -- what is logged by a request that writes is what its work logs
  have hwrites : ∀ purpose work, (single config).writing admitted = some (purpose, work) →
      ∃ w s, work (sessionOf server purpose) = (.ok w, s) ∧
        (single config).log ctx server = s.tx.log := by
    intro purpose work hwriting
    obtain ⟨w, s, store, hrun, -, -⟩ := writes_of_status hooks' hadmitted' hwriting hstatus
    exact ⟨w, s, hrun, log_of_writing hadmitted' hwriting hrun⟩
  cases hm : admitted.method with
  | get =>
      rw [handle_of_admitted hadmitted'] at hanswer
      simp only [respond, hm] at hanswer
      change (view config admitted (sessionOf server .read)).1 = .ok answer at hanswer
      exact reaches_of_view hooks hm hlookup (Prod.ext hanswer rfl) _
  | put =>
      have hwriting : (single config).writing admitted =
          some (.write, putting config admitted) := by
        simp only [writing, hm]
      obtain ⟨w, s, hrun, hlog⟩ := hwrites _ _ hwriting
      rw [hlog]
      cases hw : w.created with
      | false =>
          exact reaches_of_changing hmodel hlookup hooks (.inl ⟨hm, hw⟩) hwriting hunique hrun
      | true => exact reaches_of_inserting hmodel hlookup hooks hm hinbound hrun hw
  | patch =>
      have hwriting : (single config).writing admitted =
          some (.write, patching config admitted) := by
        simp only [writing, hm]
      obtain ⟨w, s, hrun, hlog⟩ := hwrites _ _ hwriting
      rw [hlog]
      exact reaches_of_changing hmodel hlookup hooks (.inr hm) hwriting hunique hrun
  | delete =>
      have hwriting : (single config).writing admitted =
          some (.delete, deleting config admitted) := by
        simp only [writing, hm]
      obtain ⟨w, s, hrun, hlog⟩ := hwrites _ _ hwriting
      rw [hlog]
      exact reaches_of_deleting hmodel hlookup hm hunique hrun
  | post | other name =>
      rw [handle_of_admitted hadmitted'] at hanswer
      simp only [respond, hm] at hanswer
      cases hanswer

/-! ## Refusals -/

/-- A path of which a parameter denotes no value has no plan. -/
theorem exists_locate_eq_error {params : List (String × String)}
    (htargets : ∀ p ∈ params, ∃ column, config.lookup.target p.1 = .column column)
    (h : ∃ p ∈ params, ∀ column v, ¬config.lookup.Denotes config.model p column v) :
    ∃ e, locate config params = .error e := by
  obtain ⟨p, hp, hnone⟩ := h
  cases hconditions : params.mapM (config.lookup.condition config.model) with
  | error e =>
      refine ⟨e, ?_⟩
      change (params.mapM (config.lookup.condition config.model)).map _ = _
      rw [hconditions]
      rfl
  | ok conditions =>
      obtain ⟨column, v, hdenotes⟩ := PathMap.denotes_of_conditions htargets hconditions p hp
      exact absurd hdenotes (hnone column v)

/-- A request whose path has no plan is refused whatever is stored. -/
theorem exists_handle_eq_error (hooks : config.hooks = .none σ)
    (h : ∀ admitted, config.receive config.singleMethods ctx = .ok admitted →
      ∃ e, locate config admitted.pathParams = .error e) :
    ∃ e, ∀ server, (single config).handle ctx server = (.error e, server) := by
  cases hreceive : config.receive config.singleMethods ctx with
  | error e =>
      refine ⟨e, fun server => ?_⟩
      have hreceive' : (single config).config.receive (single config).methods ctx = .error e :=
        hreceive
      rw [handle_eq, hreceive']
      rfl
  | ok admitted =>
      obtain ⟨e, hlocate⟩ := h admitted hreceive
      have hhandle : ∀ server, (single config).handle ctx server =
          (single config).respond admitted server := fun server => handle_of_admitted hreceive
      simp only [hhandle, respond]
      cases hm : admitted.method with
      | get =>
          simp only [view, hooks, Hooks.none, hookWith_pure, pure_bind]
          cases includedNames config admitted with
          | error e' => exact ⟨e', fun server => rfl⟩
          | ok names =>
              rw [hlocate]
              exact ⟨e, fun server => rfl⟩
      | put =>
          simp only [put]
          cases Config.objectBody admitted with
          | error e' => exact ⟨e', fun server => rfl⟩
          | ok members =>
              rw [hlocate]
              exact ⟨e, fun server => rfl⟩
      | patch =>
          simp only [patch]
          cases Config.objectBody admitted with
          | error e' => exact ⟨e', fun server => rfl⟩
          | ok members =>
              rw [hlocate]
              exact ⟨e, fun server => rfl⟩
      | delete =>
          simp only [delete]
          rw [hlocate]
          exact ⟨e, fun server => rfl⟩
      | post | other name => exact ⟨_, fun server => rfl⟩

end Single

end Log

/-! ## Routed requests -/

/-- What a route captures of a path is read off its pattern: every parameter has a segment, and
resources see the parameters with the texts of their segments, or none of them if one of the
segments is no text. -/
structure RoutePattern.Reads (pattern : RoutePattern) (path : List Char)
    (captured : List (String × List Char)) : Prop where
  names : captured.map Prod.fst = pattern.names
  segments : pattern.capture? path = some (captured.map Prod.snd)
  texts : (∀ p ∈ captured, (Uri.segment? p.2).isSome = true) →
    List.Forall₂ (fun c p => p.1 = c.1 ∧ Uri.segment? c.2 = some p.2) captured (params captured)
  noText : (∃ p ∈ captured, Uri.segment? p.2 = none) → params captured = []

namespace RoutePattern.Reads

theorem of_find? {router : Router σ}
    (htexts : ∀ route ∈ router, ∃ text, route.pattern = .ofText text) {path : List Char}
    {route : Route σ} {captured : List (String × List Char)}
    (h : router.find? path = some (route, captured)) : route.pattern.Reads path captured := by
  obtain ⟨-, hnames, hcapture⟩ := Router.find?_eq_some htexts h
  exact ⟨hnames, hcapture, params_of_segments, params_eq_nil⟩

/-- Resources see no other parameters than those of the pattern. -/
theorem mem_names {pattern : RoutePattern} {path : List Char}
    {captured : List (String × List Char)} (h : pattern.Reads path captured) {p : String × String}
    (hp : p ∈ params captured) : p.1 ∈ pattern.names := by
  by_cases htexts : ∀ c ∈ captured, (Uri.segment? c.2).isSome = true
  · have hall := h.texts htexts
    rw [← h.names]
    generalize params captured = ps at hall hp
    clear h htexts
    induction hall with
    | nil => cases hp
    | cons hc _ ih =>
        rcases List.mem_cons.1 hp with rfl | hp
        · rw [hc.1]
          exact List.mem_cons_self
        · exact List.mem_cons_of_mem _ (ih hp)
  · push Not at htexts
    obtain ⟨c, hc, hnone⟩ := htexts
    rw [h.noText ⟨c, hc, by simpa using hnone⟩] at hp
    cases hp

end RoutePattern.Reads

/-- Where nobody is identified, a request is handled as it came. -/
theorem Config.eq_of_receive {config : Config σ} {methods : List Method} {ctx admitted : Context}
    (hidentifiers : config.identifiers = []) (h : config.receive methods ctx = .ok admitted) :
    admitted = ctx := by
  unfold receive at h
  by_cases hmethod : ctx.method ∈ methods
  · simp only [hidentifiers, hmethod, List.lookup_nil] at h
    obtain ⟨_, hsame, h⟩ := bind_eq_ok_iff.1 h
    obtain rfl := pure_eq_ok_iff.1 hsame
    cases hauthorizer : config.authorizers.lookup ctx.method with
    | none =>
        rw [hauthorizer] at h
        exact (pure_eq_ok_iff.1 h).symm
    | some authorize =>
        rw [hauthorizer] at h
        obtain ⟨_, -, h⟩ := bind_eq_ok_iff.1 h
        exact (pure_eq_ok_iff.1 h).symm
  · simp [hmethod] at h

/-- Resources see the method and the parameters of a request. -/
theorem HttpRequest.of_context {request : HttpRequest} {params : List (String × String)}
    {ctx : Context} (h : request.context params = .ok ctx) :
    ctx.method = request.method ∧ ctx.pathParams = params := by
  unfold context at h
  cases hbody : readBody request.body with
  | error e => simp [hbody, Except.map] at h
  | ok body =>
      rw [hbody] at h
      cases h
      exact ⟨rfl, rfl⟩

namespace Router

open Single

/-- A request that is routed to single records, with parameters that stand for columns, reaches the
record that its path names, if it succeeds. If a parameter denotes no value, it is refused whatever
is stored. The parameters are those of the pattern, but only where all segments of the path are
texts: otherwise there are none, so that any record counts as named. Whoever identifies the caller
is to leave the parameters as they are. -/
theorem reaches_named {d : SchemaDecl} {schema : Schema} (hd : d.resolve = .ok schema)
    (supply : Nat → Uuid) (steps : List Step) (router : Router σ)
    (htexts : ∀ route ∈ router, ∃ text, route.pattern = .ofText text) (server : Server σ)
    (hserver : server.store = ((Sessions.empty schema supply).after steps).store)
    (request : HttpRequest) {pattern : RoutePattern} {config : Config σ}
    {captured : List (String × List Char)}
    (hroute : router.find? (Uri.path request.target.toList) =
      some (⟨pattern, .single config⟩, captured))
    (hmodel : schema.model? config.model.name = some config.model)
    (hooks : config.hooks = .none σ) (hinbound : config.inboundMap = none)
    (hlookup : config.lookupMap = none)
    (hcolumns : ∀ name ∈ pattern.names, ∃ column, config.pathMap.target name = .column column)
    (hidentified : ∀ ctx admitted, config.receive config.singleMethods ctx = .ok admitted →
      admitted.pathParams = ctx.pathParams) :
    pattern.Reads (Uri.path request.target.toList) captured ∧
    ((∃ p ∈ RoutePattern.params captured,
        ∀ column v, ¬config.lookup.Denotes config.model p column v) →
      ∃ answer : HttpResponse, 400 ≤ answer.status ∧
        ∀ server, router.respond request server = (answer, server)) ∧
    ((router.respond request server).1.status < 400 →
      ∃ ctx admitted answer, request.context (RoutePattern.params captured) = .ok ctx ∧
        config.receive config.singleMethods ctx = .ok admitted ∧
        admitted.pathParams = RoutePattern.params captured ∧
        (router.respond request server).1 = .ofResult (.ok answer) ∧
        Reaches config admitted server.store.tables ((Endpoint.single config).log ctx server)
          answer) := by
  have hreads : pattern.Reads (Uri.path request.target.toList) captured := .of_find? htexts hroute
  have hlookupMap : config.lookup = config.pathMap := by
    simp [Config.lookup, hlookup]
  have hinboundMap : config.inbound = config.pathMap := by
    simp [Config.inbound, hinbound]
  have htargets : ∀ p ∈ RoutePattern.params captured,
      ∃ column, config.pathMap.target p.1 = .column column :=
    fun p hp => hcolumns p.1 (hreads.mem_names hp)
  refine ⟨hreads, fun hnone => ?_, fun hstatus => ?_⟩
  · simp only [respond, hroute]
    cases hctx : request.context (RoutePattern.params captured) with
    | error e => exact ⟨_, e.le_status, fun server => rfl⟩
    | ok ctx =>
        have hlocate : ∀ admitted, config.receive config.singleMethods ctx = .ok admitted →
            ∃ e, locate config admitted.pathParams = .error e := by
          intro admitted hadmitted
          rw [hidentified _ _ hadmitted, (HttpRequest.of_context hctx).2]
          exact exists_locate_eq_error (hlookupMap ▸ htargets) hnone
        obtain ⟨e, hrefused⟩ := exists_handle_eq_error hooks hlocate
        refine ⟨.ofResult (.error e), e.le_status, fun server => ?_⟩
        change ((HttpResponse.ofResult ((Endpoint.single config).handle ctx server).1),
          ((Endpoint.single config).handle ctx server).2) = _
        rw [hrefused]
  · simp only [respond, hroute] at hstatus ⊢
    cases hctx : request.context (RoutePattern.params captured) with
    | error e =>
        rw [hctx] at hstatus
        exact absurd hstatus (Nat.not_lt.2 e.le_status)
    | ok ctx =>
        rw [hctx] at hstatus
        change (Endpoint.single config).status ctx server < 400 at hstatus
        obtain ⟨admitted, hreceive⟩ := Endpoint.exists_receive_of_status hstatus
        have hparams := (hidentified _ _ hreceive).trans ((HttpRequest.of_context hctx).2)
        have hschema : server.store.schema = schema := by
          rw [hserver]
          exact ((Sessions.of_empty schema supply).after steps).store
        have hunique : config.model.KeyUnique (server.store.tables.rows config.model.name) := by
          rw [hserver]
          exact Sessions.keyUnique_after hd (Schema.mem_of_model? hmodel) supply steps
        obtain ⟨answer, hanswer, hreaches⟩ := reaches_of_status (hschema ▸ hmodel) hunique hooks
          hreceive (by rw [hparams, hlookupMap]; exact htargets)
          (by rw [hparams, hinboundMap]; exact htargets) hstatus
        refine ⟨ctx, admitted, answer, rfl, hreceive, hparams, ?_, hreaches⟩
        change HttpResponse.ofResult ((Endpoint.single config).handle ctx server).1 = _
        rw [hanswer]

/-- A router with a route to single notes by their number. -/
def notes : Router Unit :=
  [⟨.ofText "/notes/:id", .single (.ofModel Unit .notes .note)⟩]

/-- A request to delete the note with a number that is no text. -/
def deleteNoText : HttpRequest := ⟨.delete, "/notes/%FF", [], ⟨#[]⟩⟩

/-- The path names no note, and the only one there is deleted. -/
theorem reaches_named_deleteNoText :
    Uri.segment? ['%', 'F', 'F'] = none ∧ (notes.respond deleteNoText oneNote).1.status = 200 ∧
      ∃ ctx r version, deleteNoText.context [] = .ok ctx ∧ r ∈ oneNote.store.tables.rows "note" ∧
        (Endpoint.single (.ofModel Unit .notes .note)).log ctx oneNote =
          [.delete "note" (Model.note.keyOf r) version] := by
  have hsegment : Uri.segment? ['%', 'F', 'F'] = none := by decide +kernel
  have hstatus : (notes.respond deleteNoText oneNote).1.status = 200 := by decide +kernel
  refine ⟨hsegment, hstatus, ?_⟩
  have htexts : ∀ route ∈ notes, ∃ text, route.pattern = .ofText text := by
    intro route hroute
    rw [List.mem_singleton.1 hroute]
    exact ⟨_, rfl⟩
  have hfound : (notes.find? (Uri.path deleteNoText.target.toList)).map (·.2) =
      some [("id", ['%', 'F', 'F'])] := by
    decide +kernel
  obtain ⟨⟨route, captured⟩, hroute, rfl⟩ := Option.map_eq_some_iff.1 hfound
  obtain rfl := List.mem_singleton.1 (find?_eq_some htexts hroute).1
  obtain ⟨hreads, -, hreaches⟩ := reaches_named SchemaDecl.resolve_notes (fun _ => default)
    noteSteps notes htexts oneNote rfl deleteNoText hroute rfl rfl rfl rfl
    (fun name _ => ⟨name, rfl⟩) (fun ctx admitted h => by rw [Config.eq_of_receive rfl h])
  rw [hreads.noText ⟨_, List.mem_cons_self, hsegment⟩] at hreaches
  obtain ⟨ctx, admitted, answer, hctx, hadmitted, -, -, hdone⟩ := hreaches (by rw [hstatus]; decide)
  obtain rfl := Config.eq_of_receive rfl hadmitted
  have hmethod : admitted.method = .delete := (HttpRequest.of_context hctx).1
  cases hdone with
  | shows method => simp [hmethod] at method
  | changes method => simp [hmethod] at method
  | removes _ names _ logged => exact ⟨_, _, _, hctx, names.stored, logged⟩
  | inserts method => simp [hmethod] at method

end Router

end RecordApi
