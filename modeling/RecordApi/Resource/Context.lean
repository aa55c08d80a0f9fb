import RecordApi.Error
import RecordApi.Text.Blank
import RecordApi.Text.Digits
import RecordApi.Text.Split

/-!
# Requests as resources see them

The method, the parameters of the query and of the path, the headers, and the body that came as
JSON. Of a parameter that is given several times the last value counts.
-/

namespace RecordApi

/-- A request. -/
structure Context where
  method : Method
  params : List (String × String)
  pathParams : List (String × String)
  headers : List (String × String)
  body : Option Json
  identity : Option Json

namespace Context

/-- A request with nothing but a method. -/
def ofMethod (method : Method) : Context :=
  ⟨method, [], [], [], none, none⟩

/-- Whether a parameter is given. -/
def hasParam (ctx : Context) (name : String) : Bool :=
  ctx.params.any (·.1 == name)

/-- The last value of a parameter. -/
def param? (ctx : Context) (name : String) : Option String :=
  List.lookup name ctx.params.reverse

/-- The items of a text between commas, without white space around them and without empty ones. -/
def listItems (raw : String) : List String :=
  (((Text.splitOn ',' raw.toList).map Text.trim).filter (!·.isEmpty)).map String.ofList

/-- A parameter as a list. -/
def paramList? (ctx : Context) (name : String) : Option (List String) :=
  (ctx.param? name).map listItems

/-- A parameter as a number of 64 bits without a sign. One that is something else is refused. -/
def paramNat? (ctx : Context) (name : String) : Except ApiError (Option Nat) :=
  match ctx.param? name with
  | none => .ok none
  | some raw =>
    match Text.unsigned? (2 ^ 64) (Text.trim raw.toList) with
    | some n => .ok (some n)
    | none => .error (.badRequest (.parameter name))

/-- Whether the value of a header is a text: ASCII characters that can be seen, blanks and tabs. -/
def isHeaderText (value : String) : Bool :=
  value.toList.all fun c => c == '\t' || (' ' ≤ c && c ≤ '~')

/-- The first value of a header, whose name may be in any case, if it is a text. -/
def header? (ctx : Context) (name : String) : Option String :=
  ((ctx.headers.find? fun h => h.1.toLower == name.toLower).map (·.2)).filter isHeaderText

end Context

end RecordApi
