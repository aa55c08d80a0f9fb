import RecordApi.Error
import RecordApi.Schema.Basic
import RecordApi.Text.Digits
import RecordApi.Text.Split

/-!
# Wire forms of values

A codec turns values into the JSON that clients see and back. Temporal values, decimals,
identifiers and geometries have forms of their own; all others go as plain JSON. Plugins come first,
in order, and the first that answers decides.
-/

namespace RecordApi

/-- The names of the axes of the positions of an attribute. -/
abbrev AxisNames := Keyed (List String)

/-- A conversion that comes before those of the codec. It may leave a value to what follows. -/
structure CodecPlugin where
  serialize : String → Value → Option Json
  deserialize : String → Column → Json → Option (Except ApiError Value)

/-- A codec: the attributes with dates without a zone, those with dates as seconds, and its
plugins. -/
structure Codec where
  naive : List String
  epoch : List String
  plugins : List CodecPlugin

namespace Codec

/-- The codec without exceptions. -/
def standard : Codec := ⟨[], [], []⟩

/-! ## Dates -/

/-- A date with a time in seconds, followed by a zone. -/
def zonedForm : DateTimeForm := ⟨'T', false, true⟩

/-- A date with a time in seconds. -/
def naiveForm : DateTimeForm := ⟨'T', false, false⟩

/-- The wire form of a date with a time. -/
def dateTimeJson (codec : Codec) (name : String) (d : DateTime) : Json :=
  if name ∈ codec.naive then .string (d.writeIn naiveForm)
  else if name ∈ codec.epoch then .int d.epochSeconds
  else .string (d.writeIn zonedForm)

/-- The whole number that a JSON number amounts to. What is beyond 64 bits, or no whole number, is
cut. -/
def wholeSeconds? : Json → Option Int
  | .int n => some (if Value.fitsInt64 n then n else (Binary64.ofInt n).toInt64.toInt)
  | .float x => some x.val.toInt64.toInt
  | _ => none

/-- The date with a time that a wire form denotes. -/
def dateTime? (codec : Codec) (name : String) (v : Json) : Option DateTime :=
  if name ∈ codec.epoch then (wholeSeconds? v).bind DateTime.ofEpochSeconds?
  else
    let form := if name ∈ codec.naive then naiveForm else zonedForm
    v.asString?.bind fun s => DateTime.ofForm? form s.toList

/-- The time of hours, minutes and seconds with colons between them. There is no leap second. -/
def time? (s : List Char) : Option Time :=
  match Text.splitOn ':' s with
  | [hour, minute, second] => do
    let hour ← Text.unsigned? (2 ^ 32) hour
    let minute ← Text.unsigned? (2 ^ 32) minute
    let second ← Text.unsigned? (2 ^ 32) second
    if second < 60 then Time.of? hour minute second 0 else none
  | _ => none

/-! ## Geometries -/

/-- The names of axes where no others are given. -/
def standardAxes : List String := ["x", "y", "z"]

/-- A position as an object of its ordinates. An axis without ordinate is null. -/
def namedPosition (names : List String) (p : Position) : Json :=
  .ofMembers (names.zipIdx.map fun (name, i) => (name, (p[i]?.map Json.ofBinary64).getD .null))

/-- The wire form of a position of an attribute, cut to a dimension. -/
def positionJson (axes : AxisNames) (name : String) (dimension : Option Nat) (p : Position) :
    Json :=
  namedPosition (((axes.get? name).getD standardAxes).take (dimension.getD p.length)) p

/-- The number of ordinates that a column declares. -/
def dimensionOf : Option ColumnType → Option Nat
  | some (.geometry _ dimension) => some dimension
  | _ => none

/-- The wire form of a geometry. Of a polygon it is the exterior ring. -/
def geometryJson (axes : AxisNames) (name : String) (type : Option ColumnType) (g : Geometry) :
    Except ApiError Json :=
  let position := positionJson axes name (dimensionOf type)
  match g with
  | .point p => .ok (position p)
  | .lineString ps => .ok (.array (ps.map position))
  | .polygon rings => .ok (.array ((rings.head?.getD []).map position))
  | .other kind _ => .error (.unsupportedGeometry kind)

/-- The ordinates that an object gives to the axes, zero where it gives none. -/
def position? (names : List String) (v : Json) : Option Position := do
  let members ← v.asObject?
  names.mapM fun name =>
    match Keyed.get? members name with
    | none | some .null => some (Binary64.zero false)
    | some ordinate => ordinate.asNumber?

/-- The geometry of a kind that a wire form denotes. -/
def geometryValue (axes : AxisNames) (name : String) (kind : GeometryKind) (dimension : Nat)
    (v : Json) : Option Geometry :=
  let names := (axes.get? name).getD (standardAxes.take dimension)
  let positions := v.asArray?.bind (·.mapM (position? names))
  match kind with
  | .point => (position? names v).map .point
  | .lineString => positions.map .lineString
  | .polygon => positions.map .ofExterior
  | .any => (Geometry.ofGeoJson v).toOption

/-! ## Values -/

mutual

/-- The wire form of the value of an attribute. The type is that of its column, if it has one. -/
def serialize (codec : Codec) (axes : AxisNames) (name : String) (type : Option ColumnType)
    (v : Value) : Except ApiError Json :=
  match codec.plugins.findSome? fun plugin => plugin.serialize name v with
  | some j => .ok j
  | none =>
    match v with
    | .list items => (codec.serializeItems axes name type items).map .array
    | .dateTime d => .ok (codec.dateTimeJson name d)
    | .date d => .ok (.string d.write)
    | .time t => .ok (.string t.write)
    | .decimal d => .ok (.ofBinary64 d.toBinary64)
    | .uuid u => .ok (.string u.writeSimple)
    | .geometry g => geometryJson axes name type g
    | other => .ok other.plain

/-- The wire forms of the items of a list. -/
def serializeItems (codec : Codec) (axes : AxisNames) (name : String) (type : Option ColumnType) :
    List Value → Except ApiError (List Json)
  | [] => .ok []
  | v :: rest => do
    let item ← codec.serialize axes name type v
    let items ← codec.serializeItems axes name type rest
    pure (item :: items)

end

/-- The value of a column that a wire form denotes where no plugin answers. -/
def read (codec : Codec) (axes : AxisNames) (name : String) (type : ColumnType) (v : Json) :
    Except ApiError Value :=
  match type, v with
  | _, .null => .ok .null
  | .dateTime _, v =>
    ((codec.dateTime? name v).map .dateTime).elim (.error (.badRequest (.dateTime name))) .ok
  | .date, v =>
    ((v.asString?.bind fun s => Date.ofText? s.toList).map Value.date).elim
      (.error (.badRequest (.date name))) .ok
  | .time, v =>
    ((v.asString?.bind fun s => time? s.toList).map Value.time).elim
      (.error (.badRequest (.time name))) .ok
  | .geometry kind dimension, v =>
    ((geometryValue axes name kind dimension v).map Value.geometry).elim
      (.error (.badRequest (.geometry name))) .ok
  | _, v => .ok (.ofJson v)

/-- The value of a column that a wire form denotes. -/
def deserialize (codec : Codec) (axes : AxisNames) (name : String) (c : Column) (v : Json) :
    Except ApiError Value :=
  match codec.plugins.findSome? fun plugin => plugin.deserialize name c v with
  | some result => result
  | none => codec.read axes name c.type v

end Codec

end RecordApi
