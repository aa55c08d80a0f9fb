import RecordApi.Resource.Admission

/-!
# Collections

A collection lists its records (`GET`), takes new ones (`POST`), and takes a list of additions
(`PATCH`), each of which creates a record of the model that its path stands for.
-/

namespace RecordApi.Collection

variable {σ : Type}

/-! ## Listing -/

/-- The plan of a list, once hooks have said what the path is, without its part. -/
def listPlan (config : Config σ) (ctx : Context) (path : List (String × String)) :
    SessionM σ Plan := do
  let plan ← ((Plan.ofModel config.model).withExtra config.extra).filterByPath config.lookup path
  let plan ← SessionM.hook (config.hooks.queryFilter ctx plan)
  let filters ← config.operators.ofParams config.model ctx.params
  (plan.filters filters).sortFor config.model ctx config.defaultSort

/-- The data of a list. -/
def elements (config : Config σ) (ctx : Context) (rows : List Row) :
    Except ApiError (List Json) :=
  rows.mapM (config.element ctx)

/-- Lists records. The number of all records is told where a part of them is asked for. -/
def list (config : Config σ) (ctx : Context) : SessionM σ Response := do
  let path ← SessionM.hookWith (config.hooks.beforeGet ctx · ctx.pathParams)
  let plan ← listPlan config ctx path
  let pagination ← Pagination.ofContext ctx
  let total ←
    if pagination.requested then some <$> SessionM.count plan.counting else pure none
  let rows ← SessionM.fetch (plan.window pagination.offset pagination.limit)
  SessionM.hook (config.hooks.afterGet ctx rows)
  let data ← elements config ctx rows
  return .ok (collectionEnvelope data total pagination)

/-! ## Creating -/

/-- The body of a creation. Objects and arrays may be refused. -/
def creationBody (config : Config σ) (ctx : Context) : Except ApiError Json :=
  match ctx.body with
  | none => .error (.badRequest .bodyRequired)
  | some (.object members) =>
    if config.allowObjectPost then .ok (.object members)
    else .error (.badRequest .objectBodyRefused)
  | some (.array items) =>
    if config.allowArrayPost then .ok (.array items) else .error (.badRequest .arrayBodyRefused)
  | some other => .ok other

/-- The parsed bodies of a creation with what path and defaults give, and whether they came as an
array. -/
def creations (config : Config σ) (ctx : Context) : Except ApiError (List ParsedBody × Bool) := do
  let body ← creationBody config ctx
  let path ← config.pathAttributes config.model ctx.pathParams
  let (parsed, isArray) ← config.parseBody body path
  let parsed := parsed.map fun b =>
    { b with attributes := Config.withDefaults config.postDefaults ctx b.attributes }
  pure (parsed, isArray)

/-- Inserts a record and creates what is linked to it. -/
def create (config : Config σ) (m : Model) (attributes : Record) (linked : List LinkedGroup) :
    SessionM σ Record := do
  let record ← SessionM.insert m attributes
  config.link m record linked

/-- The data of created records. -/
def createdData (config : Config σ) (ctx : Context) (stored : List Record) :
    Except ApiError (List Json) :=
  stored.mapM fun r => (config.data ctx ⟨r, []⟩).map .object

/-- Creates the records of a body. -/
def post (config : Config σ) (ctx : Context) : SessionM σ Response := do
  let (parsed, isArray) ← creations config ctx
  let records ← SessionM.hookWith
    (config.hooks.beforePost ctx · (parsed.map (·.attributes)))
  let stored ← (records.zip (parsed.map (·.linked))).mapM fun (attributes, linked) =>
    create config config.model attributes linked
  SessionM.commit
  SessionM.hook (config.hooks.afterPost ctx stored)
  let data ← createdData config ctx stored
  return .created (dataEnvelope (if isArray then .array data else data.getLastD .null))

/-! ## Additions -/

/-- One addition: the model of its path and the parsed body. -/
def addition (config : Config σ) (ctx : Context) (patch : Json) :
    Except ApiError (Model × ParsedBody) := do
  let fault : ApiError := .badRequest .patchDocument
  unless (patch.get? "op").bind Json.asString? == some "add" do
    throw fault
  let some path := (patch.get? "path").bind Json.asString? | throw fault
  let some m := config.patchTargets.lookup path | throw fault
  let some members := (patch.get? "value").bind Json.asObject? | throw fault
  let parsed ← config.parseObject m config.allowSubresources members
  let attributes ← config.pathAttributes m ctx.pathParams
  pure (m, parsed.override attributes)

/-- The additions of a body. -/
def additions (config : Config σ) (ctx : Context) : Except ApiError (List (Model × ParsedBody)) :=
  match (ctx.body.bind (·.get? "patches")).bind Json.asArray? with
  | none => .error (.badRequest .patchDocument)
  | some patches => patches.mapM (addition config ctx)

/-- The data of a created record. One of another model shows all its columns. -/
def additionData (config : Config σ) (ctx : Context) (m : Model) (r : Record) :
    Except ApiError Json :=
  if m.name = config.model.name then (config.data ctx ⟨r, []⟩).map .object
  else (config.codec.record config.axes m r none).map .object

/-- The data of the created records of a list of additions. -/
def additionsData (config : Config σ) (ctx : Context) (created : List (Model × Record)) :
    Except ApiError (List Json) :=
  created.mapM fun (m, r) => additionData config ctx m r

/-- Creates the records of a list of additions. -/
def patch (config : Config σ) (ctx : Context) : SessionM σ Response := do
  let parsed ← additions config ctx
  let created ← parsed.mapM fun (m, b) =>
    (m, ·) <$> create config m b.attributes b.linked
  SessionM.commit
  SessionM.hook (config.hooks.afterPatch ctx none)
  let data ← additionsData config ctx created
  return .ok (dataEnvelope (.array data))

/-- Answers a request to a collection. -/
def handle (config : Config σ) (ctx : Context) : ServerM σ Response := do
  let ctx ← config.receive config.collectionMethods ctx
  match ctx.method with
  | .get => (list config ctx).onServer .read
  | .post => (post config ctx).onServer .write
  | .patch => (patch config ctx).onServer .write
  | _ => throw (.methodNotAllowed config.collectionMethods)

end RecordApi.Collection
