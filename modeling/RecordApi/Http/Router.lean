import RecordApi.Http.Branch
import RecordApi.Json.Reader
import RecordApi.Json.Writer
import RecordApi.Resource.Collection
import RecordApi.Resource.Single

/-!
# From requests to answers

A router hands a request to the resource of the route that its path takes. Before that the body is
read, which may fail, and a body of nothing but blanks is none.
-/

namespace RecordApi

/-- A request as it comes in. -/
structure HttpRequest where
  method : Method
  target : String
  headers : List (String × String)
  body : ByteArray

/-- An answer as it goes out: a status, the text of the body, and the methods that are allowed, if
they are told. -/
structure HttpResponse where
  status : Nat
  body : String
  allow : Option String

namespace HttpResponse

/-- The answer to a path that takes no route. -/
def notRouted : HttpResponse := ⟨404, "", none⟩

/-- The methods that an error says are allowed. -/
def allowed? : ApiError → Option String
  | .methodNotAllowed methods => some (", ".intercalate (methods.map Method.name))
  | _ => none

/-- The answer that a resource gives. -/
def ofResult : Except ApiError Response → HttpResponse
  | .ok r => ⟨r.status, r.body.write, none⟩
  | .error e => ⟨e.status, e.body.write, allowed? e⟩

end HttpResponse

/-- The greatest size of a body in bytes. -/
abbrev bodyLimit : Nat := 2 * 1024 * 1024

/-- The JSON of a body, if it is not blank. -/
def readBody (body : ByteArray) : Except ApiError (Option Json) :=
  if bodyLimit < body.size then .error (.badRequest .unreadableBody)
  else if body.data.all Text.isBlankByte then .ok none
  else
    match (String.fromUTF8? body).bind Json.read? with
    | some v => .ok (some v)
    | none => .error (.badRequest .malformedBody)

/-- What resources see of a request whose path has the given parameters. -/
def HttpRequest.context (r : HttpRequest) (pathParams : List (String × String)) :
    Except ApiError Context :=
  (readBody r.body).map fun body => {
    method := r.method
    params := Uri.queryPairs (Uri.query r.target.toList)
    pathParams := pathParams
    headers := r.headers
    body := body
    identity := none }

/-- What a route leads to. -/
inductive Endpoint (σ : Type) where
  | collection (config : Config σ)
  | single (config : Config σ)

/-- The answer of an endpoint. -/
def Endpoint.handle {σ : Type} : Endpoint σ → Context → ServerM σ Response
  | .collection config => Collection.handle config
  | .single config => Single.handle config

/-- A pattern of paths and what it leads to. -/
structure Route (σ : Type) where
  pattern : RoutePattern
  endpoint : Endpoint σ

/-- The routes of an application. -/
abbrev Router (σ : Type) := List (Route σ)

namespace Router

variable {σ : Type}

/-- The routes of a model: one to its collection and one to its single records. -/
def ofModel (collectionPath singlePath : String) (collection single : Config σ) : Router σ :=
  [⟨.ofText collectionPath, .collection collection⟩, ⟨.ofText singlePath, .single single⟩]

/-- The route that a path takes, with the parameters as they are written. -/
def find? (router : Router σ) (path : List Char) : Option (Route σ × List (String × List Char)) :=
  match Branch.find (router.map fun route => (route.pattern, route)) path with
  | .route route values => some (route, route.pattern.names.zip values)
  | _ => none

/-- The answer to a request, and the server after it. -/
def respond (router : Router σ) (r : HttpRequest) (server : Server σ) :
    HttpResponse × Server σ :=
  match router.find? (Uri.path r.target.toList) with
  | none => (.notRouted, server)
  | some (route, captured) =>
    match r.context (RoutePattern.params captured) with
    | .error e => (.ofResult (.error e), server)
    | .ok ctx =>
      let (result, server) := (route.endpoint.handle ctx).run server
      (.ofResult result, server)

end Router

end RecordApi
