import RecordApi.Codec
import RecordApi.Query.Assembly
import RecordApi.Resource.Hooks

/-!
# Configuration of resources

What a resource allows, how the names of its requests map to the attributes of its model, and what
its answers show. `Config.ofModel` is the configuration that an application starts from.
-/

namespace RecordApi

/-- Which columns an answer shows: all, some, or what a function of the request and the record
says, where nothing means all. -/
inductive ResponseFields where
  | all
  | fixed (names : List String)
  | dynamic (choose : Context → Row → Option (List String))

/-- The columns that an answer shows for a record; nothing means all. -/
def ResponseFields.resolve (f : ResponseFields) (ctx : Context) (row : Row) :
    Option (List String) :=
  match f with
  | .all => none
  | .fixed names => some names
  | .dynamic choose => choose ctx row

/-- What is told about a record beside its data. -/
inductive Metadata where
  | none
  | fixed (entries : List (String × (Row → Json)))
  | dynamic (produce : Context → Row → Option Json.Members)

/-- What is told about a record, if anything. -/
def Metadata.produce (d : Metadata) (ctx : Context) (row : Row) : Option Json.Members :=
  match d with
  | .none => Option.none
  | .fixed [] => Option.none
  | .fixed entries => some (Keyed.ofList (entries.map fun (name, value) => (name, value row)))
  | .dynamic produce => produce ctx row

/-- Records that the answer to a request for one record may include. -/
structure IncludedSpec where
  target : Model
  resolve : Context → Transaction → Row → Except ApiError (List Record)
  fields : ResponseFields
  axes : AxisNames

/-- A value for a column that a body leaves out. -/
abbrev DefaultValue := Context → Record → Value

/-- The configuration of a resource with the records of one model. -/
structure Config (σ : Type) where
  schema : Schema
  model : Model
  collectionMethods : List Method
  singleMethods : List Method
  pathMap : PathMap
  inboundMap : Option PathMap
  lookupMap : Option PathMap
  fields : ResponseFields
  defaultSort : Option (List String)
  extra : List Projection
  metadata : Metadata
  hooks : Hooks σ
  identifiers : List (Method × (Context → Except ApiError Context))
  authorizers : List (Method × (Context → Except ApiError Unit))
  axes : AxisNames
  codec : Codec
  operators : OperatorTable
  allowSubresources : Bool
  allowObjectPost : Bool
  allowArrayPost : Bool
  allowPutInsert : Bool
  included : Keyed IncludedSpec
  patchPaths : List (String × Model)
  postDefaults : List (String × DefaultValue)
  putDefaults : List (String × DefaultValue)
  patchDefaults : List (String × DefaultValue)
  rejectUnknown : Bool

namespace Config

variable {σ : Type}

/-- The configuration of a model without anything out of the ordinary. -/
def ofModel (σ : Type) (schema : Schema) (model : Model) : Config σ where
  schema := schema
  model := model
  collectionMethods := [.get, .post, .patch]
  singleMethods := [.get, .put, .patch, .delete]
  pathMap := []
  inboundMap := none
  lookupMap := none
  fields := .all
  defaultSort := none
  extra := []
  metadata := .none
  hooks := .none σ
  identifiers := []
  authorizers := []
  axes := []
  codec := .standard
  operators := .standard
  allowSubresources := false
  allowObjectPost := true
  allowArrayPost := true
  allowPutInsert := false
  included := []
  patchPaths := []
  postDefaults := []
  putDefaults := []
  patchDefaults := []
  rejectUnknown := false

/-- The configuration of the model of a schema with a name. -/
def ofName (σ : Type) (schema : Schema) (name : String) : Except SchemaError (Config σ) :=
  match schema.model? name with
  | some m => .ok (ofModel σ schema m)
  | none => .error (.missingReference .model name)

/-- What the parameters of a path stand for where records are built. -/
def inbound (config : Config σ) : PathMap :=
  config.inboundMap.getD config.pathMap

/-- What the parameters of a path stand for where records are looked up. -/
def lookup (config : Config σ) : PathMap :=
  config.lookupMap.getD config.pathMap

/-- The paths of patches with the models of which they create records. -/
def patchTargets (config : Config σ) : List (String × Model) :=
  if config.patchPaths.isEmpty then [("/", config.model)] else config.patchPaths

end Config

end RecordApi
