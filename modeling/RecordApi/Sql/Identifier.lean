/-!
# Names in statements

A name stands between double quotes, and a double quote in it is written twice.
-/

namespace RecordApi.Sql

/-- The characters of a name with its double quotes doubled. -/
def doubled : List Char → List Char
  | [] => []
  | c :: rest => if c = '\"' then '\"' :: '\"' :: doubled rest else c :: doubled rest

/-- A name between double quotes. -/
def quoteName (name : String) : String :=
  String.ofList ('\"' :: doubled name.toList ++ ['\"'])

end RecordApi.Sql
