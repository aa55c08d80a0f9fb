import RecordApi.Resource.Session
import RecordApi.Resource.Rendering

/-!
# Admission

What a request has to pass before it is handled: its method is among those that are allowed, the
caller is identified, and is authorized, where the method asks for that. And the body that is one
object.
-/

namespace RecordApi.Config

variable {σ : Type}

/-- The request as it is handled, with the caller identified. -/
def receive (config : Config σ) (allowed : List Method) (ctx : Context) :
    Except ApiError Context := do
  unless ctx.method ∈ allowed do
    throw (.methodNotAllowed allowed)
  let ctx ← match config.identifiers.lookup ctx.method with
    | some identify => identify ctx
    | none => pure ctx
  match config.authorizers.lookup ctx.method with
  | some authorize => authorize ctx
  | none => pure ()
  pure ctx

/-- The members of a body that is one object. -/
def objectBody (ctx : Context) : Except ApiError Json.Members :=
  match ctx.body with
  | some (.object members) => .ok members
  | some (.array _) => .error (.badRequest .arrayBodyMisplaced)
  | _ => .error (.badRequest .objectBodyRequired)

/-- A record with a default for every column that it leaves out, in order. -/
def withDefaults (defaults : List (String × DefaultValue)) (ctx : Context) (r : Record) :
    Record :=
  defaults.foldl
    (fun r (name, value) => if r.contains name then r else r.insert name (value ctx r)) r

end RecordApi.Config
