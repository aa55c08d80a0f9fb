import RecordApi.Resource.Admission
import RecordApi.Resource.Included

/-!
# Single records

The one record that a path names is shown (`GET`), changed or put there (`PUT`), changed (`PATCH`),
and deleted (`DELETE`). A path that names several records is a fault of the configuration.
-/

namespace RecordApi.Single

variable {σ : Type}

/-- The path names several records. -/
def ambiguous (config : Config σ) : ApiError :=
  .misconfigured (.ambiguousLookup config.model.name)

/-- The plan for the record that a path names. -/
def locate (config : Config σ) (path : List (String × String)) : Except ApiError Plan :=
  ((Plan.ofModel config.model).withExtra config.extra).filterByPath config.lookup path

/-- The one record of a plan, which has to satisfy the precondition as well. -/
def locateWith (config : Config σ) (plan precondition : Plan) : SessionM σ Row := do
  match ← SessionM.one plan with
  | .nothing => throw .notFound
  | .several => throw (ambiguous config)
  | .one _ =>
    match ← SessionM.one precondition with
    | .one row => pure row
    | .nothing => throw (.conflict .conditions)
    | .several => throw (ambiguous config)

/-! ## Showing -/

/-- The names of the records to include, all of which have to be configured. -/
def includedNames (config : Config σ) (ctx : Context) : Except ApiError (List String) :=
  ((ctx.paramList? "__included").getD []).mapM fun name =>
    if config.included.contains name then .ok name else .error (.badRequest (.notIncludable name))

/-- The items of some records that are included under a name. -/
def includedItems (config : Config σ) (ctx : Context) (name : String) (spec : IncludedSpec)
    (records : List Record) : Except ApiError (List Json) :=
  records.mapM (config.includedItem name spec ctx)

/-- The records that are included under a name. -/
def includedUnder (config : Config σ) (ctx : Context) (row : Row) (name : String) :
    SessionM σ (List Json) := do
  match config.included.get? name with
  | none => pure []
  | some spec =>
    let records ← spec.resolve ctx (← get).tx row
    includedItems config ctx name spec records

/-- Shows the record, with the records that are to be included. -/
def view (config : Config σ) (ctx : Context) : SessionM σ Response := do
  let names ← includedNames config ctx
  let path ← SessionM.hookWith (config.hooks.beforeGet ctx · ctx.pathParams)
  let plan ← locate config path
  let plan ← SessionM.hook (config.hooks.queryFilter ctx plan)
  match ← SessionM.one plan with
  | .nothing => throw .notFound
  | .several => throw (ambiguous config)
  | .one row =>
    let included ← names.mapM (includedUnder config ctx row)
    SessionM.hook (config.hooks.afterGet ctx [row])
    let data ← config.data ctx row
    let included := if names.isEmpty then none else some included.flatten
    return .ok (singleEnvelope data (config.metadata.produce ctx row) included)

/-! ## Changing -/

/-- The record of a `PUT` as it is stored, and whether it was inserted. -/
def putRecord (config : Config σ) (ctx : Context) (plan : Plan) (parsed : ParsedBody) :
    SessionM σ (Record × Bool) := do
  match ← SessionM.one plan with
  | .several => throw (ambiguous config)
  | .nothing =>
    if config.allowPutInsert then
      let path ← config.pathAttributes config.model ctx.pathParams
      let attributes :=
        Config.withDefaults config.putDefaults ctx (parsed.attributes.merge path)
      let attributes ← SessionM.hookWith (config.hooks.beforePut ctx · none attributes)
      let record ← SessionM.insert config.model attributes
      pure (record, true)
    else throw .notFound
  | .one current =>
    let changes := Config.withDefaults config.putDefaults ctx parsed.attributes
    let changes ← SessionM.hookWith (config.hooks.beforePut ctx · (some current) changes)
    let record ← SessionM.update config.model current.record changes
    pure (record, false)

/-- The answer with the data of a stored record. -/
def dataOf (config : Config σ) (ctx : Context) (r : Record) : Except ApiError Json :=
  (config.data ctx ⟨r, []⟩).map fun members => dataEnvelope (.object members)

/-- Changes the record, or inserts one where there is none and that is allowed. -/
def put (config : Config σ) (ctx : Context) : SessionM σ Response := do
  let members ← Config.objectBody ctx
  let plan ← locate config ctx.pathParams
  let parsed ← config.parseObject config.model config.allowSubresources members
  let (record, inserted) ← putRecord config ctx plan parsed
  let record ← config.link config.model record parsed.linked
  SessionM.commit
  SessionM.hook (config.hooks.afterPut ctx record)
  let body ← dataOf config ctx record
  return if inserted then .created body else .ok body

/-- A plan with what hooks and the filters of a request add as a precondition. -/
def preconditionOf (config : Config σ) (ctx : Context) (hook : Context → Plan → HookM σ Plan)
    (plan : Plan) : SessionM σ Plan := do
  let precondition ← SessionM.hook (hook ctx plan)
  let filters ← config.operators.ofParams config.model ctx.params
  pure (precondition.filters filters)

/-- Changes the record. -/
def patch (config : Config σ) (ctx : Context) : SessionM σ Response := do
  let members ← Config.objectBody ctx
  let plan ← locate config ctx.pathParams
  let precondition ← preconditionOf config ctx config.hooks.patchPrecondition plan
  let parsed ← config.parseObject config.model config.allowSubresources members
  let current ← locateWith config plan precondition
  let changes := Config.withDefaults config.patchDefaults ctx parsed.attributes
  let changes ← SessionM.hook (config.hooks.modifyPatch ctx current changes)
  let changes ← SessionM.hookWith (config.hooks.beforePatch ctx · current changes)
  let record ← SessionM.update config.model current.record changes
  let record ← config.link config.model record parsed.linked
  SessionM.commit
  SessionM.hook (config.hooks.afterPatch ctx (some record))
  return .ok (← dataOf config ctx record)

/-! ## Deleting -/

/-- Deletes the record, or changes it where hooks mark it as deleted. -/
def delete (config : Config σ) (ctx : Context) : SessionM σ Response := do
  let plan ← locate config ctx.pathParams
  let precondition ← preconditionOf config ctx config.hooks.deletePrecondition plan
  let current ← locateWith config plan precondition
  SessionM.hookWith (config.hooks.beforeDelete ctx · current)
  match config.hooks.markDeleted ctx current with
  | some changes =>
    let _ ← SessionM.update config.model current.record changes
  | none => SessionM.delete config.model current.record
  SessionM.commit
  SessionM.hook (config.hooks.afterDelete ctx current)
  return .ok (.object [])

/-- Answers a request to a single record. -/
def handle (config : Config σ) (ctx : Context) : ServerM σ Response := do
  let ctx ← config.receive config.singleMethods ctx
  match ctx.method with
  | .get => (view config ctx).onServer .read
  | .put => (put config ctx).onServer .write
  | .patch => (patch config ctx).onServer .write
  | .delete => (delete config ctx).onServer .delete
  | _ => throw (.methodNotAllowed config.singleMethods)

end RecordApi.Single
