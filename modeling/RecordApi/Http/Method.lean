/-!
# Request methods

The methods that resources answer, and any other by its name.
-/

namespace RecordApi

/-- The method of a request. -/
inductive Method where
  | get
  | post
  | put
  | patch
  | delete
  | other (name : String)
  deriving DecidableEq

namespace Method

/-- The name of a method. -/
def name : Method → String
  | .get => "GET"
  | .post => "POST"
  | .put => "PUT"
  | .patch => "PATCH"
  | .delete => "DELETE"
  | .other name => name

/-- The method with a name. Names are in capitals. -/
def ofName (name : String) : Method :=
  if name = "GET" then .get
  else if name = "POST" then .post
  else if name = "PUT" then .put
  else if name = "PATCH" then .patch
  else if name = "DELETE" then .delete
  else .other name

theorem name_ofName (s : String) : (ofName s).name = s := by
  unfold ofName
  repeat' split
  all_goals simp_all [name]

end Method

end RecordApi
