import RecordApi.Http.Method
import RecordApi.Json.Basic
import RecordApi.Schema.Error
import RecordApi.Store.Error

/-!
# Errors of requests

Why a request is not answered with what it asks for. Each error has a status, a code and a text for
the client (`publicMessage`) that says nothing of the inside, and a full text (`message`).
-/

namespace RecordApi

/-- What is wrong with a request. -/
inductive BadRequest where
  | date (name : String)
  | time (name : String)
  | dateTime (name : String)
  | geometry (name : String)
  | linked (name : String)
  | unknownAttribute (name : String)
  | arrayElement
  | bodyShape
  | bodyRequired
  | objectBodyRequired
  | objectBodyRefused
  | arrayBodyRefused
  | arrayBodyMisplaced
  | patchDocument
  | filterAttribute
  | filterOperator (name : String)
  | filterValue (column : String) (reason : CoerceError)
  | listValue
  | sortAttribute
  | parameter (name : String)
  | notIncludable (name : String)
  | storedValue
  | unreadableBody
  | malformedBody
  | custom (text : String)

/-- The text of what is wrong. -/
def BadRequest.message : BadRequest → String
  | .date name => "Invalid date value for " ++ name
  | .time name => "Invalid time value for " ++ name
  | .dateTime name => "Invalid datetime value for " ++ name
  | .geometry name => "Invalid geometry value for " ++ name
  | .linked name => "Invalid value for linked attribute '" ++ name ++ "'"
  | .unknownAttribute name => "Unknown attribute '" ++ name ++ "'"
  | .arrayElement => "Every element of an array body must be an object"
  | .bodyShape => "The request body must be a JSON object or array"
  | .bodyRequired => "A JSON body is required"
  | .objectBodyRequired => "A JSON object body is required"
  | .objectBodyRefused => "Object bodies are not allowed for this resource"
  | .arrayBodyRefused => "Array bodies are not allowed for this resource"
  | .arrayBodyMisplaced => "Array bodies are only allowed with POST requests"
  | .patchDocument => "Invalid patch document"
  | .filterAttribute => "An attribute provided for filtering is invalid"
  | .filterOperator name => "Unknown filter operator '" ++ name ++ "'"
  | .filterValue column reason => "Invalid filter value for " ++ column ++ ": " ++ reason.message
  | .listValue => "Invalid list value; expected [value,value,...]"
  | .sortAttribute => "An attribute provided for sorting is invalid"
  | .parameter name => "The \"" ++ name ++ "\" parameter is invalid"
  | .notIncludable name => "'" ++ name ++ "' cannot be included"
  | .storedValue => "A value provided is invalid or missing"
  | .unreadableBody => "Could not read request body"
  | .malformedBody => "Malformed JSON body"
  | .custom text => text

/-- What is wrong with the configuration of a resource. -/
inductive Misconfiguration where
  | propertyTarget (model property target : String)
  | linkTarget (model relationship target : String)
  | inboundAttribute (model name : String)
  | lookupAttribute (model name : String)
  | noRelationship (model relationship : String)
  | unknownModel (model : String)
  | defaultSort (model name : String)
  | ambiguousLookup (model : String)
  | responseField (model name : String)

/-- The text of what is wrong. -/
def Misconfiguration.message : Misconfiguration → String
  | .propertyTarget model property target =>
    model ++ "." ++ property ++ " writes to " ++ target ++ ", which is not a column"
  | .linkTarget model relationship target =>
    model ++ "." ++ relationship ++ " targets unknown model " ++ target
  | .inboundAttribute model name =>
    model ++ ".inbound_attr_map['" ++ name ++ "'] does not exist or is not a column"
  | .lookupAttribute model name =>
    model ++ ".attr_map['" ++ name ++ "'] does not exist or is not a column"
  | .noRelationship model relationship => model ++ " has no relationship " ++ relationship
  | .unknownModel model => "unknown model " ++ model
  | .defaultSort model name =>
    "Sort field " ++ model ++ "." ++ name ++ " does not exist or is not a column"
  | .ambiguousLookup model =>
    "Lookup on " ++ model ++
      " matched more than one record; the path does not identify a single resource"
  | .responseField model name =>
    "Response field " ++ model ++ "." ++ name ++ " does not exist"

/-- What a request is in conflict with. -/
inductive Conflict where
  | unique
  | foreignKey
  | linkedContent
  | conditions
  deriving DecidableEq

/-- The text of a conflict. -/
def Conflict.message : Conflict → String
  | .unique => "Unique constraint violated"
  | .foreignKey => "Foreign key constraint violated"
  | .linkedContent => "Other content links to this"
  | .conditions => "Resource found but conditions violated"

/-- Why a request fails. -/
inductive ApiError where
  | schema (reason : SchemaError)
  | badRequest (reason : BadRequest)
  | unauthorized (text : String)
  | forbidden (text : String)
  | notFound
  | conflict (reason : Conflict)
  | methodNotAllowed (allowed : List Method)
  | misconfigured (reason : Misconfiguration)
  | unsupportedGeometry (kind : String)
  | store (reason : StoreError)

namespace ApiError

/-- The full text of an error. -/
def message : ApiError → String
  | .schema reason => reason.message
  | .badRequest reason => "bad request: " ++ reason.message
  | .unauthorized text => "unauthorized: " ++ text
  | .forbidden text => "forbidden: " ++ text
  | .notFound => "not found"
  | .conflict reason => "conflict: " ++ reason.message
  | .methodNotAllowed _ => "method not allowed"
  | .misconfigured reason => "programming error: " ++ reason.message
  | .unsupportedGeometry kind => "unsupported geometry type " ++ kind
  | .store reason => reason.message

/-- The status of the answer. -/
def status : ApiError → Nat
  | .badRequest _ => 400
  | .unauthorized _ => 401
  | .forbidden _ => 403
  | .notFound => 404
  | .methodNotAllowed _ => 405
  | .conflict _ => 409
  | .schema _ | .misconfigured _ | .unsupportedGeometry _ | .store _ => 500

/-- The word for the kind of error in an answer. -/
def code : ApiError → String
  | .badRequest _ => "bad_request"
  | .unauthorized _ => "unauthorized"
  | .forbidden _ => "forbidden"
  | .notFound => "not_found"
  | .conflict _ => "conflict"
  | .methodNotAllowed _ => "method_not_allowed"
  | .schema _ => "config_error"
  | .misconfigured _ | .unsupportedGeometry _ => "internal_error"
  | .store _ => "database_error"

/-- The text that a client sees. -/
def publicMessage : ApiError → String
  | .badRequest reason => reason.message
  | .unauthorized text => text
  | .forbidden text => text
  | .notFound => "The requested resource was not found"
  | .conflict reason => reason.message
  | .methodNotAllowed _ => "Method not allowed for this resource"
  | .schema _ | .misconfigured _ | .unsupportedGeometry _ | .store _ =>
    "An internal server error occurred"

/-- The body of the answer. -/
def body (e : ApiError) : Json :=
  .ofMembers [("error",
    .ofMembers [("code", .string e.code), ("message", .string e.publicMessage)])]

end ApiError

end RecordApi
