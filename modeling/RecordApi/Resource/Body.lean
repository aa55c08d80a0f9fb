import RecordApi.Resource.Config

/-!
# Bodies of requests

An object of a body gives values to the attributes of a model: columns, properties that are kept in
a column or seen by hooks alone, and, where that is allowed, records to create behind a
relationship. Those are objects of the target model, in which relationships are not followed. What
the path says is set last.
-/

namespace RecordApi

mutual

/-- An object of a body: the values of attributes, and records to create behind relationships. -/
structure ParsedBody where
  attributes : Record
  linked : List LinkedGroup

/-- Records to create behind a relationship. -/
structure LinkedGroup where
  relationship : String
  records : List ParsedBody

end

namespace ParsedBody

/-- A body that says nothing. -/
def empty : ParsedBody := ⟨.empty, []⟩

/-- The body with a value for an attribute. -/
def set (b : ParsedBody) (name : String) (v : Value) : ParsedBody :=
  { b with attributes := b.attributes.insert name v }

/-- The body with records behind a further relationship. -/
def link (b : ParsedBody) (relationship : String) (records : List ParsedBody) : ParsedBody :=
  { b with linked := b.linked ++ [⟨relationship, records⟩] }

/-- The body with other values set over its own. -/
def override (b : ParsedBody) (attributes : Record) : ParsedBody :=
  { b with attributes := b.attributes.merge attributes }

end ParsedBody

namespace Config

variable {σ : Type}

/-- The members of an object; anything else is a fault. -/
def objectOr (fault : ApiError) : Json → Except ApiError Json.Members
  | .object members => .ok members
  | _ => .error fault

/-- The objects that the value of a relationship gives: those of an array where several records may
be behind it, else one object, or none for null. -/
def linkedObjects (r : Relationship) (v : Json) : Except ApiError (List Json.Members) :=
  let fault : ApiError := .badRequest (.linked r.name)
  match r.isToMany, v with
  | true, .array items => items.mapM (objectOr fault)
  | false, .object members => .ok [members]
  | false, .null => .ok []
  | _, _ => .error fault

/-- A member of an object that is not known: it is passed over, or refused. -/
def unknownMember (config : Config σ) (b : ParsedBody) (name : String) :
    Except ApiError ParsedBody :=
  if config.rejectUnknown then .error (.badRequest (.unknownAttribute name)) else .ok b

/-- The value of a property: that of the column in which it is kept, or for hooks. -/
def parseProperty (config : Config σ) (m : Model) (b : ParsedBody) (p : Property) (v : Json) :
    Except ApiError ParsedBody :=
  match p.writes with
  | none => .ok (b.set p.name (.ofJson v))
  | some target =>
    match m.column? target with
    | none => .error (.misconfigured (.propertyTarget m.name p.name target))
    | some c => (config.codec.deserialize config.axes target c v).map (b.set target)

/-- One member of an object. Relationships are known where `follow?` says what to make of the
objects behind them. -/
def parseMember (config : Config σ) (m : Model)
    (follow? : Option (Model → Json.Members → Except ApiError ParsedBody)) (b : ParsedBody)
    (member : String × Json) : Except ApiError ParsedBody :=
  match m.attribute? member.1, follow? with
  | some (.column c), _ =>
    (config.codec.deserialize config.axes member.1 c member.2).map (b.set member.1)
  | some (.property p), _ => config.parseProperty m b p member.2
  | some (.relationship r), some follow =>
    match config.schema.model? r.target with
    | none => .error (.misconfigured (.linkTarget m.name member.1 r.target))
    | some target => do
      let objects ← linkedObjects r member.2
      let records ← objects.mapM (follow target)
      pure (b.link member.1 records)
  | _, _ => config.unknownMember b member.1

/-- An object in which relationships are not followed. -/
def parseFlat (config : Config σ) (m : Model) (members : Json.Members) :
    Except ApiError ParsedBody :=
  members.foldlM (config.parseMember m none) .empty

/-- An object in which relationships are followed where `recurse` is set. -/
def parseObject (config : Config σ) (m : Model) (recurse : Bool) (members : Json.Members) :
    Except ApiError ParsedBody :=
  if recurse then members.foldlM (config.parseMember m (some config.parseFlat)) .empty
  else config.parseFlat m members

/-- What one parameter of a path sets in a record. A text that is no value of its column can name no
record. -/
def pathAttribute (config : Config σ) (m : Model) (r : Record) (param : String × String) :
    Except ApiError Record :=
  match config.inbound.target param.1 with
  | .ignore | .lookup _ => .ok r
  | .column name =>
    match m.column? name with
    | none => .error (.misconfigured (.inboundAttribute m.name name))
    | some c =>
      match c.typed param.2 with
      | .ok v => .ok (r.insert name v)
      | .error _ => .error .notFound

/-- What the parameters of a path set in a record. -/
def pathAttributes (config : Config σ) (m : Model) (params : List (String × String)) :
    Except ApiError Record :=
  params.foldlM (config.pathAttribute m) .empty

/-- The objects of a body, and whether it is an array of them. -/
def bodyObjects : Json → Except ApiError (List Json.Members × Bool)
  | .object members => .ok ([members], false)
  | .array items =>
    (items.mapM (objectOr (.badRequest .arrayElement))).map (·, true)
  | _ => .error (.badRequest .bodyShape)

/-- The objects of a body with what the path sets, and whether it is an array of them. -/
def parseBody (config : Config σ) (body : Json) (path : Record) :
    Except ApiError (List ParsedBody × Bool) := do
  let (objects, isArray) ← bodyObjects body
  let parsed ← objects.mapM (config.parseObject config.model config.allowSubresources)
  pure (parsed.map (·.override path), isArray)

end Config

end RecordApi
