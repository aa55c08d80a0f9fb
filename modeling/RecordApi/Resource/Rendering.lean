import RecordApi.Resource.Config

/-!
# Answers

The JSON of records and of the answers that hold them.
-/

namespace RecordApi

/-- An answer to a request. -/
structure Response where
  status : Nat
  body : Json

namespace Response

/-- The answer that all went well. -/
def ok (body : Json) : Response := ⟨200, body⟩

/-- The answer that something was created. -/
def created (body : Json) : Response := ⟨201, body⟩

end Response

/-- An object with data. -/
def dataEnvelope (data : Json) : Json :=
  .ofMembers [("data", data)]

/-- The wire form of a column of a record. -/
def Codec.column (codec : Codec) (axes : AxisNames) (r : Record) (c : Column) :
    Except ApiError (String × Json) :=
  (codec.serialize axes c.name (some c.type) (r.get c.name)).map (c.name, ·)

/-- The wire form of a named attribute of a record. Relationships and properties have none. -/
def Codec.namedAttribute (codec : Codec) (axes : AxisNames) (m : Model) (r : Record)
    (name : String) : Except ApiError (List (String × Json)) :=
  match m.attribute? name with
  | none => .error (.misconfigured (.responseField m.name name))
  | some (.column c) => (codec.column axes r c).map ([·])
  | some _ => .ok []

/-- The wire form of a record: all its columns, or those that are named. -/
def Codec.record (codec : Codec) (axes : AxisNames) (m : Model) (r : Record)
    (fields : Option (List String)) : Except ApiError Json.Members :=
  match fields with
  | none => (m.columns.mapM (codec.column axes r)).map Keyed.ofList
  | some names =>
    (names.mapM (codec.namedAttribute axes m r)).map fun entries => Keyed.ofList entries.flatten

namespace Config

variable {σ : Type}

/-- The data of a record in an answer. -/
def data (config : Config σ) (ctx : Context) (row : Row) : Except ApiError Json.Members :=
  config.codec.record config.axes config.model row.record (config.fields.resolve ctx row)

/-- A record as an element of a collection, with what is told about it beside the data. -/
def element (config : Config σ) (ctx : Context) (row : Row) : Except ApiError Json := do
  let data ← config.data ctx row
  match config.metadata.produce ctx row with
  | none => pure (.object data)
  | some members => pure (.object (data.insert "meta" (.object members)))

/-- An included record: its identifier, the name under which it is included, and its data. -/
def includedItem (config : Config σ) (name : String) (spec : IncludedSpec) (ctx : Context)
    (r : Record) : Except ApiError Json := do
  let fields := spec.fields.resolve ctx ⟨r, []⟩
  let id ← config.codec.column spec.axes r spec.target.primaryKey
  let data ← config.codec.record spec.axes spec.target r fields
  pure (.ofMembers [("id", id.2), ("type", .string name), ("attributes", .object data)])

end Config

/-- A member that is there or not. -/
def optionalMember (name : String) (value : Option Json) : List (String × Json) :=
  value.toList.map (name, ·)

/-- The body of a collection: its data, and what part of how many records it is. -/
def collectionEnvelope (data : List Json) (total : Option Nat) (pagination : Pagination) : Json :=
  let part : Option Json := total.map fun n =>
    .ofMembers ([("total", .int n)] ++
      optionalMember "offset" (pagination.offset.map fun n => .int n) ++
      optionalMember "limit" (pagination.limit.map fun n => .int n))
  .ofMembers ([("data", .array data)] ++ optionalMember "meta" part)

/-- The body of one record: its data, what is told about it, and the records included. -/
def singleEnvelope (data : Json.Members) (metadata : Option Json.Members)
    (included : Option (List Json)) : Json :=
  .ofMembers ([("data", .object data)] ++ optionalMember "meta" (metadata.map .object) ++
    optionalMember "included" (included.map .array))

end RecordApi
