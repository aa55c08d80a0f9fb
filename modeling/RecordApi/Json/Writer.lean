import RecordApi.Json.Basic
import RecordApi.Number.FloatText
import RecordApi.Text.Quoted

/-!
# Writing JSON

`Json.write` gives the shortest text of a value, without white space. `Json.inspect` gives the text
that messages use, where every value is shown with its kind.
-/

namespace RecordApi.Json

/-- One character of a string: quotes, backslashes and control characters are escaped. -/
def escapedChar (c : Char) : List Char :=
  if c == '\"' || c == '\\' then ['\\', c]
  else if c == '\n' then ['\\', 'n']
  else if c == '\r' then ['\\', 'r']
  else if c == '\t' then ['\\', 't']
  else if c == '\x08' then ['\\', 'b']
  else if c == '\x0c' then ['\\', 'f']
  else if c.toNat < 0x20 then
    ['\\', 'u', '0', '0', Nat.digitChar (c.toNat / 16), Nat.digitChar (c.toNat % 16)]
  else [c]

/-- A string in quotes. -/
def writeString (s : String) : String :=
  String.ofList ('\"' :: (s.toList.flatMap escapedChar ++ ['\"']))

mutual

/-- The text of a value. -/
def write : Json → String
  | .null => "null"
  | .bool b => if b then "true" else "false"
  | .int n => String.ofList (Text.intDigits n)
  | .float x => Binary64.jsonLayout.write x.val
  | .string s => writeString s
  | .array items => "[" ++ ",".intercalate (writeItems items) ++ "]"
  | .object members => "\x7b" ++ ",".intercalate (writeMembers members) ++ "\x7d"

/-- The texts of the items of an array. -/
def writeItems : List Json → List String
  | [] => []
  | a :: as => write a :: writeItems as

/-- The texts of the members of an object. -/
def writeMembers : List (String × Json) → List String
  | [] => []
  | (k, a) :: as => (writeString k ++ ":" ++ write a) :: writeMembers as

end

mutual

/-- A value with its kind. -/
def inspect : Json → String
  | .null => "Null"
  | .bool b => if b then "Bool(true)" else "Bool(false)"
  | .int n => "Number(" ++ String.ofList (Text.intDigits n) ++ ")"
  | .float x => "Number(" ++ Binary64.jsonLayout.write x.val ++ ")"
  | .string s => "String(" ++ Text.quoted s ++ ")"
  | .array items => "Array [" ++ ", ".intercalate (inspectItems items) ++ "]"
  | .object members => "Object \x7b" ++ ", ".intercalate (inspectMembers members) ++ "\x7d"

/-- The items of an array with their kinds. -/
def inspectItems : List Json → List String
  | [] => []
  | a :: as => inspect a :: inspectItems as

/-- The members of an object with their kinds. -/
def inspectMembers : List (String × Json) → List String
  | [] => []
  | (k, a) :: as => (Text.quoted k ++ ": " ++ inspect a) :: inspectMembers as

end

end RecordApi.Json
