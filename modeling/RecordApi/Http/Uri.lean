import RecordApi.Text.Digits
import RecordApi.Text.Split
import RecordApi.Text.Utf8

/-!
# Targets of requests

The path and the query of the target of a request. A target is a path with a query, or has a scheme
and a host in front of them; the star stands for itself, and a host alone has no path. A byte may be
written as a percent sign and two digits in base sixteen; a percent sign without them stands for
itself. In a query a plus sign is a blank besides.
-/

namespace RecordApi.Uri

/-- The bytes that a text denotes. -/
def percentDecode : List Char → List UInt8
  | [] => []
  | '%' :: h :: l :: rest =>
    match Text.hexDigit? h, Text.hexDigit? l with
    | some high, some low => UInt8.ofNat (high * 16 + low) :: percentDecode rest
    | _, _ => 0x25 :: percentDecode (h :: l :: rest)
  | c :: rest => String.utf8EncodeChar c ++ percentDecode rest

/-- The text that a segment of a path denotes, if its bytes are characters. -/
def segment? (s : List Char) : Option String :=
  (Text.Utf8.decode? (percentDecode s)).map String.ofList

/-- The text that a name or a value in a query denotes. -/
def formText (s : List Char) : String :=
  String.ofList (Text.Utf8.decodeLossy
    (percentDecode (s.map fun c => if c = '+' then ' ' else c)))

/-- A name and a value with an equals sign between them; a name alone has an empty value. -/
def formPair (s : List Char) : String × String :=
  (formText (s.takeWhile (· != '=')), formText ((s.dropWhile (· != '=')).drop 1))

/-- The names and values of a query, in order. -/
def queryPairs (query : List Char) : List (String × String) :=
  ((Text.splitOn '&' query).filter (!·.isEmpty)).map formPair

/-- A target without its fragment. -/
def withoutFragment (target : List Char) : List Char :=
  target.takeWhile (· != '#')

/-- What follows the scheme and the host of a target that has both. -/
def behindHost? (target : List Char) : Option (List Char) :=
  match target.dropWhile (· != ':') with
  | ':' :: '/' :: '/' :: rest => some (rest.dropWhile fun c => c != '/' && c != '?' && c != '#')
  | _ => none

/-- The path and the query of a target without its fragment. A path that is missing behind a host is
the root. -/
def pathAndQuery (target : List Char) : List Char :=
  match target with
  | '/' :: _ | ['*'] => withoutFragment target
  | _ =>
    match (behindHost? target).map withoutFragment with
    | none => []
    | some ('/' :: rest) => '/' :: rest
    | some rest => '/' :: rest

/-- The path of a target. -/
def path (target : List Char) : List Char :=
  (pathAndQuery target).takeWhile (· != '?')

/-- The query of a target. -/
def query (target : List Char) : List Char :=
  ((pathAndQuery target).dropWhile (· != '?')).drop 1

end RecordApi.Uri
