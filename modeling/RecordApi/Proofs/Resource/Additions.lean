import RecordApi.Proofs.Resource.Subresources

/-!
# Creations and additions

An array of objects that is posted to a collection and a list of additions with the same objects are
read, written and shown by different steps. Both give the same bodies (`Collection.bodiesOf`) or
fail both, though not always with the same error, and the bodies are created one after the other
(`Collection.creating`). So the work of the additions is that of the creation, except that the
answer does not say that something was created, and the two requests have the same effect and the
same data. Only what comes before and after tells them apart: which methods a collection takes, and
fields that are chosen by the request.
-/

namespace RecordApi

variable {σ : Type}

namespace Json

/-- The addition of an object to a collection. -/
def addition (members : Members) : Json :=
  .ofMembers [("op", .string "add"), ("path", .string "/"), ("value", .object members)]

/-- The body with an addition for each of some objects. -/
def additions (objects : List Members) : Json :=
  .ofMembers [("patches", .array (objects.map addition))]

theorem get?_addition (members : Members) :
    (addition members).get? "op" = some (.string "add") ∧
      (addition members).get? "path" = some (.string "/") ∧
      (addition members).get? "value" = some (.object members) := by
  refine ⟨(Keyed.get?_ofList_eq_some_iff ?_).2 ?_, (Keyed.get?_ofList_eq_some_iff ?_).2 ?_,
    (Keyed.get?_ofList_eq_some_iff ?_).2 ?_⟩ <;> simp

end Json

namespace Collection

/-! ## What is asked for -/

/-- The bodies that some objects give, with what the path sets. -/
def bodiesOf (config : Config σ) (path : List (String × String)) (objects : List Json.Members) :
    Except ApiError (List ParsedBody) := do
  let attributes ← config.pathAttributes config.model path
  let parsed ← objects.mapM (config.parseObject config.model config.allowSubresources)
  pure (parsed.map (·.override attributes))

variable {config : Config σ} {ctx : Context} {objects : List Json.Members}

theorem bodiesOf_eq_ok_iff {path : List (String × String)} {bodies : List ParsedBody} :
    bodiesOf config path objects = .ok bodies ↔
      ∃ attributes, config.pathAttributes config.model path = .ok attributes ∧
        List.Forall₂ (fun members b => ∃ parsed, config.parseObject config.model
          config.allowSubresources members = .ok parsed ∧ b = parsed.override attributes)
          objects bodies := by
  unfold bodiesOf
  simp only [bind_eq_ok_iff, pure_eq_ok_iff, mapM_eq_ok_iff]
  refine exists_congr fun attributes => and_congr_right fun _ => ?_
  constructor
  · rintro ⟨parsed, hparsed, rfl⟩
    rw [List.forall₂_map_right_iff]
    exact hparsed.imp fun members b hb => ⟨b, hb, rfl⟩
  · intro h
    induction h with
    | nil => exact ⟨[], .nil, rfl⟩
    | cons hb _ ih =>
        obtain ⟨parsed, hparsed, rfl⟩ := hb
        obtain ⟨rest, hrest, rfl⟩ := ih
        exact ⟨parsed :: rest, .cons hparsed hrest, rfl⟩

theorem bodyObjects_array (objects : List Json.Members) :
    Config.bodyObjects (.array (objects.map .object)) = .ok (objects, true) := by
  have hobjects : (objects.map Json.object).mapM (Config.objectOr (.badRequest .arrayElement)) =
      .ok objects :=
    mapM_eq_ok_iff.2 (List.forall₂_map_left_iff.2 (List.forall₂_same.2 fun _ _ => rfl))
  change ((objects.map Json.object).mapM (Config.objectOr (.badRequest .arrayElement))).map
    (·, true) = _
  rw [hobjects]
  rfl

/-- An array of objects asks for the creation of their bodies. -/
theorem creations_eq_ok_iff (defaults : config.postDefaults = []) (arrays : config.allowArrayPost)
    (hbody : ctx.body = some (.array (objects.map .object))) {x : List ParsedBody × Bool} :
    creations config ctx = .ok x ↔
      ∃ bodies, bodiesOf config ctx.pathParams objects = .ok bodies ∧ (bodies, true) = x := by
  have hcreation : creationBody config ctx = .ok (.array (objects.map .object)) := by
    unfold creationBody
    rw [hbody]
    simp only [arrays, if_true]
  have hdefaults (bodies : List ParsedBody) : (bodies.map fun b =>
      { b with attributes := Config.withDefaults config.postDefaults ctx b.attributes }) =
        bodies := by
    rw [defaults]
    exact List.map_id'' (fun b => by cases b; rfl) bodies
  unfold creations bodiesOf Config.parseBody
  simp only [hcreation, bodyObjects_array, hdefaults, bind_eq_ok_iff, pure_eq_ok_iff,
    Except.ok.injEq, exists_eq_left']
  constructor
  · rintro ⟨attributes, hattributes, _, ⟨parsed, hparsed, rfl⟩, rfl⟩
    exact ⟨_, ⟨attributes, hattributes, parsed, hparsed, rfl⟩, rfl⟩
  · rintro ⟨_, ⟨attributes, hattributes, parsed, hparsed, rfl⟩, rfl⟩
    exact ⟨attributes, hattributes, _, ⟨parsed, hparsed, rfl⟩, rfl⟩

theorem addition_eq_ok_iff (paths : config.patchPaths = []) {members : Json.Members}
    {x : Model × ParsedBody} :
    addition config ctx (Json.addition members) = .ok x ↔
      ∃ parsed attributes,
        config.parseObject config.model config.allowSubresources members = .ok parsed ∧
          config.pathAttributes config.model ctx.pathParams = .ok attributes ∧
            (config.model, parsed.override attributes) = x := by
  obtain ⟨hop, hpath, hvalue⟩ := Json.get?_addition members
  have htarget : config.patchTargets.lookup "/" = some config.model := by
    unfold Config.patchTargets
    rw [paths]
    rfl
  unfold addition
  simp only [hop, hpath, hvalue, Option.bind_some, Json.asString?, Json.asObject?, htarget,
    beq_self_eq_true, if_true, bind_eq_ok_iff, pure_eq_ok_iff, exists_and_left]

/-- A list of additions gives the bodies of its objects, provided that there are some: without any
the path is not looked at. -/
theorem additions_eq_ok_iff (paths : config.patchPaths = [])
    (hbody : ctx.body = some (.additions objects)) (hsome : objects ≠ [])
    {parsed : List (Model × ParsedBody)} :
    additions config ctx = .ok parsed ↔
      ∃ bodies, bodiesOf config ctx.pathParams objects = .ok bodies ∧
        bodies.map (config.model, ·) = parsed := by
  have hadditions : additions config ctx =
      (objects.map Json.addition).mapM (addition config ctx) := by
    unfold additions
    rw [hbody]
    rfl
  simp only [hadditions, mapM_eq_ok_iff, List.forall₂_map_left_iff, addition_eq_ok_iff paths,
    bodiesOf_eq_ok_iff]
  constructor
  · intro h
    -- every addition has read the same path, and there is one
    obtain ⟨attributes, hattributes⟩ : ∃ attributes,
        config.pathAttributes config.model ctx.pathParams = .ok attributes := by
      cases h with
      | nil => exact absurd rfl hsome
      | cons hx _ =>
          obtain ⟨-, attributes, -, hattributes, -⟩ := hx
          exact ⟨attributes, hattributes⟩
    refine ⟨parsed.map (·.2), ⟨attributes, hattributes, ?_⟩, ?_⟩
    · rw [List.forall₂_map_right_iff]
      refine h.imp ?_
      rintro members _ ⟨b, attributes', hb, hattributes', rfl⟩
      obtain rfl := Except.ok.inj (hattributes.symm.trans hattributes')
      exact ⟨b, hb, rfl⟩
    · rw [List.map_map]
      refine (List.map_congr_left fun x hx => ?_).trans (List.map_id parsed)
      obtain ⟨members, -, b, -, -, -, rfl⟩ := exists_mem_of_forall₂ h hx
      rfl
  · rintro ⟨bodies, ⟨attributes, hattributes, hbodies⟩, rfl⟩
    rw [List.forall₂_map_right_iff]
    refine hbodies.imp ?_
    rintro members _ ⟨b, hb, rfl⟩
    exact ⟨b, attributes, hb, hattributes, rfl⟩

/-! ## What is done -/

/-- Creates a record of the model for each of some bodies, in order. -/
def creating (config : Config σ) (bodies : List ParsedBody) : SessionM σ (List Record) :=
  bodies.mapM fun b => create config config.model b.attributes b.linked

/-- What a request has written that has created some records, and shows them as an array. -/
def written (config : Config σ) (ctx : Context) (created : Bool) (stored : List Record) : Written :=
  ⟨stored.map (config.shown ctx), fun data => dataEnvelope (.array data), created⟩

theorem posting_eq {bodies : List ParsedBody} (h : creations config ctx = .ok (bodies, true)) :
    posting config ctx = (do
      let stored ← creating config bodies
      return written config ctx true stored) := by
  unfold posting creating
  rw [h, SessionM.ok_bind]
  simp only [List.zip_map', List.mapM_map, if_true]
  rfl

theorem mapM_pair {α β γ : Type} (a : α) (f : β → SessionM σ γ) (xs : List β) :
    (xs.mapM fun x => (a, ·) <$> f x) = (·.map (a, ·)) <$> xs.mapM f := by
  induction xs with
  | nil => simp
  | cons x xs ih => simp [List.mapM_cons, ih]

theorem patching_eq {bodies : List ParsedBody}
    (h : additions config ctx = .ok (bodies.map (config.model, ·))) :
    patching config ctx = (do
      let stored ← creating config bodies
      return written config ctx false stored) := by
  have hcreated : (bodies.mapM fun b =>
      (config.model, ·) <$> create config config.model b.attributes b.linked) =
        (·.map (config.model, ·)) <$> creating config bodies :=
    mapM_pair config.model _ bodies
  have hshown (r : Record) : shownAddition config ctx config.model r = config.shown ctx r :=
    if_pos rfl
  unfold patching
  rw [h, SessionM.ok_bind, List.mapM_map]
  change (bodies.mapM (fun b =>
    (config.model, ·) <$> create config config.model b.attributes b.linked) >>= _) = _
  rw [hcreated, bind_map_left]
  simp only [List.map_map, Function.comp_def, hshown]
  rfl

end Collection

namespace Endpoint

open Collection

variable {config : Config σ} {ctx admitted : Context}

/-- The effect and the answer of a request whose work creates a record for each of some bodies. -/
theorem handle_creating (server : Server σ) (hooks : config.hooks = .none σ)
    (admits : config.receive config.collectionMethods ctx = .ok admitted)
    {work : SessionM σ Written}
    (writes : (collection config).writing admitted = some (.write, work))
    {bodies : List ParsedBody} {created : Bool}
    (hwork : work = do
      let stored ← creating config bodies
      return written config admitted created stored) :
    (collection config).handle ctx server = match creating config bodies
        (sessionOf server .write) with
      | (.error e, s) => (.error e, ⟨s.store, s.hooks⟩)
      | (.ok stored, s) => match s.store.commit s.tx with
        | .error e => (.error (.ofStore s.purpose e), ⟨s.store, s.hooks⟩)
        | .ok store => ((written config admitted created stored).render config,
            ⟨store, s.hooks⟩) := by
  have hooks' : (collection config).config.hooks = .none σ := hooks
  have admits' : (collection config).config.receive (collection config).methods ctx =
    .ok admitted := admits
  rw [handle_of_admitted admits', respond_of_writing hooks' writes, SessionM.onServer_answering,
    hwork, SessionM.bind_apply]
  unfold sessionOf
  rcases creating config bodies _ with ⟨e | stored, s⟩ <;> rfl

/-- An array that is posted and a list of additions with the same objects succeed both or fail both,
and when they succeed they leave the same state and answer with the same data, provided that both
are admitted, with the same path, and that the fields of a record are the same for both. -/
theorem status_post_lt_iff_patch (hooks : config.hooks = .none σ)
    (defaults : config.postDefaults = []) (arrays : config.allowArrayPost)
    (paths : config.patchPaths = []) {objects : List Json.Members} (hsome : objects ≠ [])
    {post patch posted patched : Context}
    (hposted : config.receive config.collectionMethods post = .ok posted)
    (hpatched : config.receive config.collectionMethods patch = .ok patched)
    (hpost : posted.method = .post) (hpatch : patched.method = .patch)
    (hobjects : posted.body = some (.array (objects.map .object)))
    (hadditions : patched.body = some (.additions objects))
    (hpath : posted.pathParams = patched.pathParams)
    (hfields : ∀ row, config.fields.resolve posted row = config.fields.resolve patched row)
    (server : Server σ) :
    ((collection config).status post server < 400 ↔
        (collection config).status patch server < 400) ∧
      ((collection config).status post server < 400 → ∃ data,
        ((collection config).handle post server).1 = .ok (.created (dataEnvelope (.array data))) ∧
        ((collection config).handle patch server).1 = .ok (.ok (dataEnvelope (.array data))) ∧
        ((collection config).handle post server).2 =
          ((collection config).handle patch server).2) := by
  have hooks' : (collection config).config.hooks = .none σ := hooks
  have hposting : (collection config).writing posted = some (.write, posting config posted) := by
    simp only [writing, hpost]
  have hpatching : (collection config).writing patched =
      some (.write, patching config patched) := by
    simp only [writing, hpatch]
  have hshown : config.shown posted = config.shown patched :=
    funext fun r => congrArg (Shown.mk config.model r) (hfields ⟨r, []⟩)
  cases hbodies : bodiesOf config posted.pathParams objects with
  | error e =>
      -- neither of the two gets to its work
      have hfails : ¬(collection config).status post server < 400 := by
        intro h
        obtain ⟨w, s, -, hrun, -⟩ := writes_of_status hooks' hposted hposting h
        obtain ⟨x, hx, -⟩ := SessionM.lift_bind_eq_ok hrun
        obtain ⟨bodies, hok, -⟩ := (creations_eq_ok_iff defaults arrays hobjects).1 hx
        cases hbodies.symm.trans hok
      have hfails' : ¬(collection config).status patch server < 400 := by
        intro h
        obtain ⟨w, s, -, hrun, -⟩ := writes_of_status hooks' hpatched hpatching h
        obtain ⟨x, hx, -⟩ := SessionM.lift_bind_eq_ok hrun
        obtain ⟨bodies, hok, -⟩ := (additions_eq_ok_iff paths hadditions hsome).1 hx
        cases hbodies.symm.trans (hpath ▸ hok)
      exact ⟨iff_of_false hfails hfails', fun h => absurd h hfails⟩
  | ok bodies =>
      have hcreations : creations config posted = .ok (bodies, true) :=
        (creations_eq_ok_iff defaults arrays hobjects).2 ⟨bodies, hbodies, rfl⟩
      have hadded : additions config patched = .ok (bodies.map (config.model, ·)) :=
        (additions_eq_ok_iff paths hadditions hsome).2 ⟨bodies, hpath ▸ hbodies, rfl⟩
      have hanswered := handle_creating server hooks hposted hposting
        (posting_eq hcreations)
      have hanswered' := handle_creating server hooks hpatched hpatching
        (patching_eq hadded)
      unfold status
      rw [hanswered, hanswered']
      -- from here on both have done the same, and only the last step tells them apart
      rcases creating config bodies (sessionOf server .write) with ⟨e | stored, s⟩
      · exact ⟨Iff.rfl, fun h => absurd h (Nat.not_lt.2 e.le_status)⟩
      · dsimp only
        cases s.store.commit s.tx with
        | error e => exact ⟨Iff.rfl, fun h => absurd h (Nat.not_lt.2 (ApiError.le_status _))⟩
        | ok store =>
            unfold Written.render written
            dsimp only
            rw [hshown]
            cases (stored.map (config.shown patched)).mapM
                (Shown.render config.codec config.axes) with
            | error e => exact ⟨Iff.rfl, fun h => absurd h (Nat.not_lt.2 e.le_status)⟩
            | ok data =>
                refine ⟨iff_of_true ?_ ?_, fun _ => ⟨data, rfl, rfl, rfl⟩⟩
                · exact Written.answer_status_lt _ data
                · exact Written.answer_status_lt _ data

end Endpoint

/-- A server without notes. -/
def Server.noNotes : Server Unit :=
  ⟨.empty .notes fun _ => default, ()⟩

/-- A request to add some objects to a collection. -/
def Context.adding (objects : List Json.Members) : Context :=
  { Context.ofMethod .patch with body := some (.additions objects) }

namespace Endpoint

theorem status_post_lt_iff_patch_shopsWithItems :
    let shops := collection (.withSubresources .shop)
    shops.status (.creating shopsWithItems) .noShops < 400 ∧
      (shops.status (.creating shopsWithItems) .noShops < 400 ↔
        shops.status (.adding shopsWithItems) .noShops < 400) ∧
      ∃ data, (shops.handle (.creating shopsWithItems) .noShops).1 =
          .ok (.created (dataEnvelope (.array data))) ∧
        (shops.handle (.adding shopsWithItems) .noShops).1 =
          .ok (.ok (dataEnvelope (.array data))) ∧
        (shops.handle (.creating shopsWithItems) .noShops).2 =
          (shops.handle (.adding shopsWithItems) .noShops).2 := by
  have hstatus : (collection (.withSubresources .shop)).status (.creating shopsWithItems)
      .noShops < 400 := by decide +kernel
  have hsome : shopsWithItems ≠ [] := by decide
  have hposted : (Config.withSubresources .shop).receive [.get, .post, .patch]
      (.creating shopsWithItems) = .ok (.creating shopsWithItems) := rfl
  have hpatched : (Config.withSubresources .shop).receive [.get, .post, .patch]
      (.adding shopsWithItems) = .ok (.adding shopsWithItems) := rfl
  obtain ⟨hiff, hsame⟩ := status_post_lt_iff_patch rfl rfl rfl rfl hsome hposted hpatched rfl rfl
    rfl rfl rfl (fun _ => rfl) .noShops
  exact ⟨hstatus, hiff, hsame hstatus⟩

/-- The collection of all notes, which takes new ones only as they are posted. -/
def notesToPost : Endpoint Unit :=
  .collection { Config.ofModel Unit .notes .note with collectionMethods := [.post] }

/-- The collection of all notes, where the answer to a `POST` shows the number alone. -/
def notesShownByMethod : Endpoint Unit :=
  .collection { Config.ofModel Unit .notes .note with
    fields := .dynamic fun ctx _ => if ctx.method = .post then some ["id"] else none }

/-- One note with a text. -/
def oneText : List Json.Members :=
  [[("text", .string "first")]]

/-- A collection may take what is posted and no additions, and the fields that an answer shows may
depend on the method. -/
theorem post_differs_from_patch :
    (∀ e ∈ [notesToPost, notesShownByMethod], e.config.hooks = .none Unit ∧
      e.config.codec.plugins = [] ∧ e.config.postDefaults = [] ∧
      e.config.allowArrayPost = true ∧ e.config.patchPaths = []) ∧
    notesToPost.status (.creating oneText) .noNotes = 201 ∧
    notesToPost.status (.adding oneText) .noNotes = 405 ∧
    (notesShownByMethod.handle (.creating oneText) .noNotes).1 =
      .ok (.created (dataEnvelope (.array [.object [("id", .int 1)]]))) ∧
    (notesShownByMethod.handle (.adding oneText) .noNotes).1 =
      .ok (.ok (dataEnvelope (.array [.object [("id", .int 1), ("text", .string "first"),
        ("version", .int 1)]]))) := by
  refine ⟨?_, by decide +kernel, by decide +kernel, by rfl, by rfl⟩
  simp only [List.forall_mem_cons, List.not_mem_nil, false_implies, implies_true, and_true]
  exact ⟨⟨rfl, rfl, rfl, rfl, rfl⟩, rfl, rfl, rfl, rfl, rfl⟩

end Endpoint

end RecordApi
