import RecordApi.Query.Plan
import RecordApi.Resource.Context
import RecordApi.Store.Transaction

/-!
# Hooks

What an application adds to the handling of requests, at fixed points. Hooks have a state of their
own, which they keep also when they refuse a request; they read from the transaction of the request.
-/

namespace RecordApi

/-- A hook: it may refuse the request, and keeps a state. -/
abbrev HookM (σ : Type) := ExceptT ApiError (StateM σ)

/-- The hooks of a resource. `beforeGet` gives the path parameters by which records are looked up;
`queryFilter` and the preconditions add to plans; `beforePost` gives the records to insert, and
`beforePut`, `modifyPatch` and `beforePatch` the changes to make. With `markDeleted` a record is
changed instead of deleted. -/
structure Hooks (σ : Type) where
  beforeGet : Context → Transaction → List (String × String) → HookM σ (List (String × String))
  afterGet : Context → List Row → HookM σ Unit
  queryFilter : Context → Plan → HookM σ Plan
  beforePost : Context → Transaction → List Record → HookM σ (List Record)
  afterPost : Context → List Record → HookM σ Unit
  beforePut : Context → Transaction → Option Row → Record → HookM σ Record
  afterPut : Context → Record → HookM σ Unit
  patchPrecondition : Context → Plan → HookM σ Plan
  modifyPatch : Context → Row → Record → HookM σ Record
  beforePatch : Context → Transaction → Row → Record → HookM σ Record
  afterPatch : Context → Option Record → HookM σ Unit
  deletePrecondition : Context → Plan → HookM σ Plan
  beforeDelete : Context → Transaction → Row → HookM σ Unit
  markDeleted : Context → Row → Option Record
  afterDelete : Context → Row → HookM σ Unit

/-- Hooks that change and refuse nothing. -/
def Hooks.none (σ : Type) : Hooks σ where
  beforeGet _ _ path := pure path
  afterGet _ _ := pure ()
  queryFilter _ plan := pure plan
  beforePost _ _ records := pure records
  afterPost _ _ := pure ()
  beforePut _ _ _ changes := pure changes
  afterPut _ _ := pure ()
  patchPrecondition _ plan := pure plan
  modifyPatch _ _ changes := pure changes
  beforePatch _ _ _ changes := pure changes
  afterPatch _ _ := pure ()
  deletePrecondition _ plan := pure plan
  beforeDelete _ _ _ := pure ()
  markDeleted _ _ := Option.none
  afterDelete _ _ := pure ()

end RecordApi
