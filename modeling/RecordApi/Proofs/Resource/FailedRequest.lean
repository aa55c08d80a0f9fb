import RecordApi.Http.Router
import RecordApi.Proofs.Resource.Writing

/-!
# Requests that fail

Without hooks, a request changes the tables of a store only if it commits, and after the commit only
the rendering of the answer is left (`handle_of_writes`). So a request that fails leaves the tables
as they are, with one exception: its writes are committed, and one of the records to show cannot be
shown. `failed_and_wrote_iff` says that this is exactly when a request fails and has changed the
tables.
-/

namespace RecordApi

variable {σ : Type}

/-! ## Rendering what was written -/

theorem ApiError.le_status (e : ApiError) : 400 ≤ e.status := by
  cases e <;> simp [ApiError.status]

/-- An answer says by its status whether something was created. -/
theorem Written.status_answer (w : Written) (data : List Json) :
    (w.answer data).status = if w.created then 201 else 200 := by
  unfold Written.answer
  split <;> rfl

theorem Written.answer_status_lt (w : Written) (data : List Json) :
    (w.answer data).status < 400 := by
  rw [w.status_answer]
  split <;> decide

/-- Only what is rendered has a status below those of errors. -/
theorem Written.exists_render_of_status (config : Config σ) (w : Written)
    (h : (HttpResponse.ofResult (w.render config)).status < 400) :
    ∃ data, w.render config = .ok (w.answer data) := by
  unfold Written.render at h ⊢
  cases hd : w.shown.mapM (Shown.render config.codec config.axes) with
  | error e =>
      rw [hd] at h
      exact absurd h (Nat.not_lt.2 e.le_status)
  | ok data => exact ⟨data, rfl⟩

/-- What is answered below the statuses of errors says whether something was created. -/
theorem Written.created_eq_of_status {config : Config σ} {w : Written}
    (h : (HttpResponse.ofResult (w.render config)).status < 400) :
    w.created = ((HttpResponse.ofResult (w.render config)).status == 201) := by
  obtain ⟨data, hdata⟩ := exists_render_of_status config w h
  rw [hdata]
  change w.created = ((w.answer data).status == 201)
  rw [w.status_answer]
  cases w.created <;> rfl

theorem Written.le_status_render_iff {config : Config σ} (h : config.codec.plugins = [])
    (w : Written) :
    400 ≤ (HttpResponse.ofResult (w.render config)).status ↔ ∃ x ∈ w.shown, ¬x.CanShow := by
  have hr := Shown.exists_render_all_iff h config.axes w.shown
  unfold Written.render
  cases hd : w.shown.mapM (Shown.render config.codec config.axes) with
  | error e =>
      rw [hd] at hr
      have hne : ¬∀ x ∈ w.shown, x.CanShow := by simp [← hr]
      exact ⟨fun _ => by simpa using hne, fun _ => e.le_status⟩
  | ok data =>
      have hall : ∀ x ∈ w.shown, x.CanShow := hr.1 ⟨data, hd⟩
      have hlt := w.answer_status_lt data
      constructor
      · intro hle
        exact absurd hle (Nat.not_le.2 hlt)
      · rintro ⟨x, hx, hn⟩
        exact absurd (hall x hx) hn

/-! ## Endpoints -/

namespace SessionM

/-- The commit comes after the work, and the answer after the commit. -/
theorem answering_apply (config : Config σ) (work : SessionM σ Written) (s : Session σ) :
    answering config work s = match work s with
      | (.error e, t) => (.error e, t)
      | (.ok w, t) => match t.store.commit t.tx with
        | .error e => (.error (.ofStore t.purpose e), t)
        | .ok store => (w.render config, { t with store := store }) := by
  unfold answering
  rw [bind_apply]
  rcases work s with ⟨e | w, t⟩
  · rfl
  · dsimp only
    rw [bind_apply, commit, bind_apply, get_apply]
    dsimp only
    rw [bind_apply]
    cases t.store.commit t.tx with
    | error e => rfl
    | ok store => rfl

theorem onServer_answering (config : Config σ) (purpose : Purpose) (work : SessionM σ Written)
    (server : Server σ) :
    (answering config work).onServer purpose server =
      match work ⟨server.store, server.store.begin, purpose, server.hooks⟩ with
      | (.error e, s) => (.error e, ⟨s.store, s.hooks⟩)
      | (.ok w, s) => match s.store.commit s.tx with
        | .error e => (.error (.ofStore s.purpose e), ⟨s.store, s.hooks⟩)
        | .ok store => (w.render config, ⟨store, s.hooks⟩) := by
  unfold onServer
  rw [ExceptT.run, answering_apply]
  rcases work ⟨server.store, server.store.begin, purpose, server.hooks⟩ with ⟨e | w, s⟩
  · rfl
  · dsimp only
    cases s.store.commit s.tx with
    | error e => rfl
    | ok store => rfl

end SessionM

namespace Endpoint

/-- The configuration of an endpoint. -/
def config : Endpoint σ → Config σ
  | .collection config => config
  | .single config => config

/-- The methods that an endpoint allows. -/
def methods : Endpoint σ → List Method
  | .collection config => config.collectionMethods
  | .single config => config.singleMethods

/-- What an endpoint does with a request that writes: what the session is for, and the work before
the commit. -/
def writing (e : Endpoint σ) (ctx : Context) : Option (Purpose × SessionM σ Written) :=
  match e, ctx.method with
  | .collection config, .post => some (.write, Collection.posting config ctx)
  | .collection config, .patch => some (.write, Collection.patching config ctx)
  | .single config, .put => some (.write, Single.putting config ctx)
  | .single config, .patch => some (.write, Single.patching config ctx)
  | .single config, .delete => some (.delete, Single.deleting config ctx)
  | _, _ => none

/-- The answer of an endpoint to a request that is admitted. -/
def respond (e : Endpoint σ) (ctx : Context) : ServerM σ Response :=
  match e with
  | .collection config =>
    match ctx.method with
    | .get => (Collection.list config ctx).onServer .read
    | .post => (Collection.post config ctx).onServer .write
    | .patch => (Collection.patch config ctx).onServer .write
    | _ => throw (.methodNotAllowed config.collectionMethods)
  | .single config =>
    match ctx.method with
    | .get => (Single.view config ctx).onServer .read
    | .put => (Single.put config ctx).onServer .write
    | .patch => (Single.patch config ctx).onServer .write
    | .delete => (Single.delete config ctx).onServer .delete
    | _ => throw (.methodNotAllowed config.singleMethods)

/-- The status of the answer to a request. -/
def status (e : Endpoint σ) (ctx : Context) (server : Server σ) : Nat :=
  (HttpResponse.ofResult (e.handle ctx server).1).status

/-- The tables that are committed after a request. -/
def tablesAfter (e : Endpoint σ) (ctx : Context) (server : Server σ) : Tables :=
  (e.handle ctx server).2.store.tables

/-- A request is admitted, its work goes through, and the work is committed: what it wrote, and the
store after it. -/
inductive Writes (e : Endpoint σ) (ctx : Context) (server : Server σ) (w : Written)
    (store : Store) : Prop
  | intro {admitted : Context} {purpose : Purpose} {work : SessionM σ Written} {s : Session σ}
    (admits : e.config.receive e.methods ctx = .ok admitted)
    (writes : e.writing admitted = some (purpose, work))
    (works : work ⟨server.store, server.store.begin, purpose, server.hooks⟩ = (.ok w, s))
    (commits : s.store.commit s.tx = .ok store)

variable {e : Endpoint σ} {ctx admitted : Context} {server : Server σ}

theorem handle_eq : e.handle ctx = (do e.respond (← e.config.receive e.methods ctx)) := by
  cases e with
  | collection config => rfl
  | single config => rfl

/-- A request that writes goes through work, commit and answer. -/
theorem respond_of_writing (hooks : e.config.hooks = .none σ) {purpose : Purpose}
    {work : SessionM σ Written} (h : e.writing ctx = some (purpose, work)) :
    e.respond ctx = (SessionM.answering e.config work).onServer purpose := by
  unfold writing at h
  split at h
  next config hm =>
    cases h
    simp only [respond, hm]
    exact congrArg (·.onServer .write) (Collection.post_eq hooks)
  next config hm =>
    cases h
    simp only [respond, hm]
    exact congrArg (·.onServer .write) (Collection.patch_eq hooks)
  next config hm =>
    cases h
    simp only [respond, hm]
    exact congrArg (·.onServer .write) (Single.put_eq hooks)
  next config hm =>
    cases h
    simp only [respond, hm]
    exact congrArg (·.onServer .write) (Single.patch_eq hooks)
  next config hm =>
    cases h
    simp only [respond, hm]
    exact congrArg (·.onServer .delete) (Single.delete_eq hooks)
  next => cases h

theorem keeps_of_writing {purpose : Purpose} {work : SessionM σ Written}
    (h : e.writing ctx = some (purpose, work)) : work.Keeps := by
  unfold writing at h
  split at h
  · cases h
    exact Collection.keeps_posting
  · cases h
    exact Collection.keeps_patching
  · cases h
    exact Single.keeps_putting
  · cases h
    exact Single.keeps_patching
  · cases h
    exact Single.keeps_deleting
  · cases h

theorem tables_respond_of_not_writing (h : e.writing ctx = none) :
    (e.respond ctx server).2.store.tables = server.store.tables := by
  cases e with
  | collection config =>
      cases hm : ctx.method with
      | get =>
          simp only [respond, hm]
          exact Collection.keeps_list _
      | post => simp [writing, hm] at h
      | patch => simp [writing, hm] at h
      | put | delete | other name =>
          simp only [respond, hm]
          rfl
  | single config =>
      cases hm : ctx.method with
      | get =>
          simp only [respond, hm]
          exact Single.keeps_view _
      | put | patch | delete => simp [writing, hm] at h
      | post | other name =>
          simp only [respond, hm]
          rfl

theorem handle_of_admitted (h : e.config.receive e.methods ctx = .ok admitted) :
    e.handle ctx server = e.respond admitted server := by
  rw [handle_eq, h]
  rfl

/-- Once the work of a request is committed, its records are rendered, and nothing is undone. -/
theorem handle_of_writes (hooks : e.config.hooks = .none σ) {w : Written} {store : Store}
    (h : e.Writes ctx server w store) :
    (e.handle ctx server).1 = w.render e.config ∧ e.tablesAfter ctx server = store.tables := by
  obtain ⟨admits, writes, works, commits⟩ := h
  unfold tablesAfter
  rw [handle_of_admitted admits, respond_of_writing hooks writes, SessionM.onServer_answering,
    works]
  dsimp only
  rw [commits]
  exact ⟨rfl, rfl⟩

/-- A request whose work is not committed keeps the tables. -/
theorem tablesAfter_of_not_writes (hooks : e.config.hooks = .none σ)
    (h : ∀ w store, ¬e.Writes ctx server w store) :
    e.tablesAfter ctx server = server.store.tables := by
  unfold tablesAfter
  cases ha : e.config.receive e.methods ctx with
  | error err =>
      rw [handle_eq, ha]
      rfl
  | ok admitted =>
      rw [handle_of_admitted ha]
      cases hw : e.writing admitted with
      | none => exact tables_respond_of_not_writing hw
      | some p =>
          obtain ⟨purpose, work⟩ := p
          have hkeeps := keeps_of_writing hw
            ⟨server.store, server.store.begin, purpose, server.hooks⟩
          rw [respond_of_writing hooks hw, SessionM.onServer_answering]
          rcases hrun : work ⟨server.store, server.store.begin, purpose, server.hooks⟩
            with ⟨err | w, s⟩
          · rw [hrun] at hkeeps
            exact hkeeps
          · rw [hrun] at hkeeps
            dsimp only
            cases hc : s.store.commit s.tx with
            | error err => exact hkeeps
            -- here all steps of `Writes` went through
            | ok store => exact absurd ⟨ha, hw, hrun, hc⟩ (h w store)

/-- A request fails and changes the tables of the store if its writes are committed and change them,
and one of the records that the answer is to show cannot be shown. -/
theorem failed_and_wrote_iff (e : Endpoint σ) (ctx : Context) (server : Server σ)
    (hooks : e.config.hooks = .none σ) (plugins : e.config.codec.plugins = []) :
    400 ≤ e.status ctx server ∧ e.tablesAfter ctx server ≠ server.store.tables ↔
      ∃ w store, e.Writes ctx server w store ∧ store.tables ≠ server.store.tables ∧
        ∃ x ∈ w.shown, ¬x.CanShow := by
  constructor
  · rintro ⟨hstatus, htables⟩
    by_cases h : ∃ w store, e.Writes ctx server w store
    · obtain ⟨w, store, hw⟩ := h
      obtain ⟨hanswer, hafter⟩ := handle_of_writes hooks hw
      rw [status, hanswer, Written.le_status_render_iff plugins] at hstatus
      rw [hafter] at htables
      exact ⟨w, store, hw, htables, hstatus⟩
    · have hnone : ∀ w store, ¬e.Writes ctx server w store :=
        fun w store hw => h ⟨w, store, hw⟩
      exact absurd (tablesAfter_of_not_writes hooks hnone) htables
  · rintro ⟨w, store, hw, htables, hshown⟩
    obtain ⟨hanswer, hafter⟩ := handle_of_writes hooks hw
    rw [status, hanswer, Written.le_status_render_iff plugins, hafter]
    exact ⟨hshown, htables⟩

end Endpoint

/-! ## A record that cannot be shown -/

/-- A model of places, which have a number and a shape. -/
def Model.place : Model where
  name := "place"
  tableName := "place"
  schemaName := none
  attributes := [.column ⟨"id", .integer, "integer", false, false, true⟩,
    .column ⟨"shape", .geometry .any 2, "geometry", true, false, false⟩]
  primaryKey := ⟨"id", .integer, "integer", false, false, true⟩
  unique := []
  versionColumn := none

/-- A schema with places alone. -/
def Schema.places : Schema :=
  ⟨[.place], []⟩

/-- The collection of all places. -/
def Endpoint.places : Endpoint Unit :=
  .collection (.ofModel Unit .places .place)

/-- A request to create a place with a shape of several points. -/
def Context.createPoints : Context :=
  { Context.ofMethod .post with
    body := some (.object [("shape", .object [("coordinates", .array []),
      ("type", .string "MultiPoint")])]) }

/-- A server without places. -/
def Server.noPlaces : Server Unit :=
  ⟨.empty .places fun _ => default, ()⟩

theorem Endpoint.failed_and_wrote_createPoints :
    (400 ≤ places.status .createPoints .noPlaces ∧
      places.tablesAfter .createPoints .noPlaces ≠ Server.noPlaces.store.tables) ∧
    ∃ w store, places.Writes .createPoints .noPlaces w store ∧
      store.tables ≠ Server.noPlaces.store.tables ∧ ∃ x ∈ w.shown, ¬x.CanShow := by
  have hfailed : 400 ≤ places.status .createPoints .noPlaces ∧
      places.tablesAfter .createPoints .noPlaces ≠ Server.noPlaces.store.tables := by
    refine ⟨by decide +kernel, fun h => ?_⟩
    have hlength : (places.tablesAfter .createPoints .noPlaces).length = 1 := by decide +kernel
    rw [h] at hlength
    exact absurd hlength (by decide)
  exact ⟨hfailed, (failed_and_wrote_iff places .createPoints .noPlaces rfl rfl).1 hfailed⟩

end RecordApi
