import RecordApi.Http.Uri

/-!
# Routes

A pattern of paths is made of characters that stand for themselves and of parameters. A parameter
begins with a colon and takes the characters up to the next slash, at least one; one that begins
with a star takes all that is left, at least one character. `RoutePattern.capture?` says which paths
a single pattern takes.
-/

namespace RecordApi

/-- A part of a pattern. -/
inductive RoutePart where
  | char (c : Char)
  | param (name : List Char)
  | rest (name : List Char)
  deriving DecidableEq

/-- A pattern of paths. -/
abbrev RoutePattern := List RoutePart

namespace RoutePattern

/-- The name of a parameter at the start of a text: all up to the next slash. -/
def nameOf (s : List Char) : List Char :=
  s.takeWhile (· != '/')

/-- What follows the name of a parameter. -/
def behindName (s : List Char) : List Char :=
  s.dropWhile (· != '/')

theorem length_behindName_le (s : List Char) : (behindName s).length ≤ s.length :=
  (List.dropWhile_sublist _).length_le

/-- The pattern that a text describes. -/
def ofChars : List Char → RoutePattern
  | [] => []
  | ':' :: s => .param (nameOf s) :: ofChars (behindName s)
  | '*' :: s => [.rest s]
  | c :: s => .char c :: ofChars s
termination_by s => s.length
decreasing_by
  · have := length_behindName_le s; simp only [List.length_cons]; omega
  · simp

/-- The pattern that a text describes. -/
def ofText (s : String) : RoutePattern :=
  ofChars s.toList

/-- The names of the parameters, in order. -/
def names : RoutePattern → List String
  | [] => []
  | .char _ :: pattern => names pattern
  | .param name :: pattern | .rest name :: pattern => String.ofList name :: names pattern

/-- What the parameters of a pattern take from a path, as it is written there. -/
def capture? : RoutePattern → List Char → Option (List (List Char))
  | [], [] => some []
  | .char c :: pattern, d :: path => if c = d then capture? pattern path else none
  | .param _ :: pattern, path =>
    if (nameOf path).isEmpty then none
    else (capture? pattern (behindName path)).map (nameOf path :: ·)
  | [.rest _], path => if path.isEmpty then none else some [path]
  | _, _ => none

/-- The parameters of a path, none at all if one of them is no text. -/
def params (captured : List (String × List Char)) : List (String × String) :=
  (captured.mapM fun c => (Uri.segment? c.2).map (c.1, ·)).getD []

end RoutePattern

end RecordApi
