import RecordApi.Schema.ColumnType
import RecordApi.Text.Case
import RecordApi.Value.Basic

/-!
# Values of a column

`Value.coerce` turns a value into one that a column of a type holds, as a database does on writing,
or says why it cannot. Texts are read in the way of the type, numbers are converted where nothing
is lost but precision, and null is a value of every type.
-/

namespace RecordApi

/-- Why a value cannot be stored in a column. -/
inductive CoerceError where
  | notInteger (text : String)
  | notNumber (text : String)
  | notDecimal (text : String)
  | floatNotDecimal (x : Binary64)
  | notBoolean (text : String)
  | notUuid (text : String)
  | notDateTime (text : String)
  | notDate (text : String)
  | notTime (text : String)
  | notGeometry (fault : Geometry.Fault)
  | mismatch (value : Value) (type : ColumnType)

/-- The text of the reason. -/
def CoerceError.message : CoerceError → String
  | .notInteger s => "'" ++ s ++ "' is not an integer"
  | .notNumber s => "'" ++ s ++ "' is not a number"
  | .notDecimal s => "'" ++ s ++ "' is not a decimal"
  | .floatNotDecimal x => Binary64.plainLayout.write x ++ " is not a decimal"
  | .notBoolean s => "'" ++ s ++ "' is not a boolean"
  | .notUuid s => "'" ++ s ++ "' is not a uuid"
  | .notDateTime s => "'" ++ s ++ "' is not a datetime"
  | .notDate s => "'" ++ s ++ "' is not a date"
  | .notTime s => "'" ++ s ++ "' is not a time"
  | .notGeometry fault => fault.message
  | .mismatch v type => v.inspect ++ " cannot be stored in a " ++ type.cast ++ " column"

namespace Value

/-- The truth value that a word denotes, in any case. -/
def boolOfText? (s : List Char) : Option Bool :=
  let word := String.ofList (Text.lowercase (Text.trim s))
  if word ∈ ["true", "t", "1", "yes"] then some true
  else if word ∈ ["false", "f", "0", "no"] then some false
  else none

/-- The forms in which a date with a time is read, in the order in which they are tried. -/
def dateTimeForms : List DateTimeForm :=
  [⟨'T', true, true⟩, ⟨'T', true, false⟩, ⟨' ', true, false⟩]

/-- The date with a time that a text denotes, in one of the forms or with an offset. -/
def dateTimeOfText? (s : List Char) : Option DateTime :=
  match dateTimeForms.findSome? fun form => DateTime.ofForm? form s with
  | some d => some d
  | none => DateTime.ofOffsetText? s

/-- The value of a type that a text denotes. White space around it is passed over; messages show
the text with it, but for dates with a time. -/
def ofText (type : ColumnType) (s : String) : Except CoerceError Value :=
  let bare := Text.trim s.toList
  match type with
  | .integer => ((Text.int64? bare).map Value.int).elim (.error (.notInteger s)) .ok
  | .float => ((Binary64.ofText? bare).map Value.float).elim (.error (.notNumber s)) .ok
  | .decimal => ((Decimal.ofText? bare).map Value.decimal).elim (.error (.notDecimal s)) .ok
  | .boolean => ((boolOfText? s.toList).map Value.bool).elim (.error (.notBoolean s)) .ok
  | .uuid => ((Uuid.ofText? bare).map Value.uuid).elim (.error (.notUuid s)) .ok
  | .dateTime _ =>
    ((dateTimeOfText? bare).map Value.dateTime).elim
      (.error (.notDateTime (String.ofList bare))) .ok
  | .date => ((Date.ofText? bare).map Value.date).elim (.error (.notDate s)) .ok
  | .time => ((Time.ofText? bare).map Value.time).elim (.error (.notTime s)) .ok
  | .string => .ok (.text s)
  | .json => .ok (.json (.string s))
  | .other _ => .ok (.text s)
  | .geometry _ _ => .error (.mismatch (.text s) type)

/-- The value that a column of a type holds for a value that is written to it. -/
def coerce (type : ColumnType) (v : Value) : Except CoerceError Value :=
  match type, v with
  | _, .null => .ok .null
  | _, .text s => ofText type s
  | .integer, .int n => .ok (.int n)
  | .integer, .float x =>
    if x.isWhole then .ok (.int x.toInt64) else .error (.mismatch v type)
  | .float, .int n => .ok (.float (.ofInt n.toInt))
  | .float, .float x => .ok (.float x)
  | .float, .decimal d => .ok (.float d.toBinary64)
  | .decimal, .decimal d => .ok (.decimal d)
  | .decimal, .int n => .ok (.decimal (.ofInt64 n))
  | .decimal, .float x =>
    match Decimal.ofBinary64? x with
    | some d => .ok (.decimal d)
    | none => .error (.floatNotDecimal x)
  | .boolean, .bool b => .ok (.bool b)
  | .boolean, .int n => .ok (.bool (n != 0))
  | .uuid, .uuid u => .ok (.uuid u)
  | .dateTime _, .dateTime d => .ok (.dateTime d)
  | .date, .date d => .ok (.date d)
  | .date, .dateTime d => .ok (.date d.date)
  | .time, .time t => .ok (.time t)
  | .string, .int n => .ok (.text (int64Text n))
  | .string, .float x => .ok (.text (Binary64.plainLayout.write x))
  | .string, .bool b => .ok (.text (if b then "true" else "false"))
  | .json, v => .ok (.json v.plain)
  | .geometry _ _, .geometry g => .ok (.geometry g)
  | .geometry _ _, .json j =>
    match Geometry.ofGeoJson j with
    | .ok g => .ok (.geometry g)
    | .error fault => .error (.notGeometry fault)
  | .other _, v => .ok v
  | type, v => .error (.mismatch v type)

end Value

end RecordApi
