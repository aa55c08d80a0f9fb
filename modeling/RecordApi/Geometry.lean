import RecordApi.Json.Writer

/-!
# Geometries

Points, lines and polygons as lists of positions, a position being a list of ordinates. Any other
GeoJSON geometry is kept as it was received. `Geometry.ofGeoJson` reads the GeoJSON form and says
what is wrong with one that cannot be read; `Geometry.toGeoJson` writes it.
-/

namespace RecordApi

/-- The ordinates of one position. -/
abbrev Position := List Binary64

/-- A shape. The rings of a polygon begin with the exterior one. -/
inductive Geometry where
  | point (position : Position)
  | lineString (positions : List Position)
  | polygon (rings : List (List Position))
  | other (kind : String) (geoJson : Json)

namespace Geometry

/-- What stood where something else was wanted in the coordinates of a geometry. -/
inductive Wanted where
  | sequence
  | number

/-- Why a JSON value is no geometry. -/
inductive Fault where
  | noType
  | noCoordinates (kind : String)
  | badCoordinates (kind : String) (wanted : Wanted) (found : Json)

/-- The GeoJSON name of the kind of a geometry. -/
def kindName : Geometry → String
  | .point _ => "Point"
  | .lineString _ => "LineString"
  | .polygon _ => "Polygon"
  | .other kind _ => kind

/-! ## Equality -/

/-- Equality of positions, ordinate by ordinate. -/
def samePosition (p q : Position) : Bool :=
  p.length == q.length && (p.zip q).all fun (a, b) => a.same b

/-- Equality of lines, position by position. -/
def samePositions (ps qs : List Position) : Bool :=
  ps.length == qs.length && (ps.zip qs).all fun (p, q) => samePosition p q

/-- Equality of geometries of one kind. -/
def same : Geometry → Geometry → Bool
  | .point p, .point q => samePosition p q
  | .lineString ps, .lineString qs => samePositions ps qs
  | .polygon rs, .polygon ss =>
    rs.length == ss.length && (rs.zip ss).all fun (r, s) => samePositions r s
  | .other k a, .other l b => k == l && a.same b
  | _, _ => false

/-! ## Rings -/

/-- A ring that ends where it begins. One that does not gets its first position once more. -/
def closeRing (ring : List Position) : List Position :=
  match ring.head?, ring.getLast? with
  | some first, some last => if samePosition first last then ring else ring ++ [first]
  | _, _ => ring

/-- The polygon with one ring, closed if need be. -/
def ofExterior (ring : List Position) : Geometry :=
  .polygon [closeRing ring]

/-! ## GeoJSON -/

/-- A position as an array of numbers. -/
def positionJson (p : Position) : Json :=
  .array (p.map Json.ofBinary64)

/-- The GeoJSON object with a type and coordinates. -/
def shapeJson (kind : String) (coordinates : Json) : Json :=
  .object [("coordinates", coordinates), ("type", .string kind)]

/-- The GeoJSON form of a geometry. -/
def toGeoJson : Geometry → Json
  | .point p => shapeJson "Point" (positionJson p)
  | .lineString ps => shapeJson "LineString" (.array (ps.map positionJson))
  | .polygon rs => shapeJson "Polygon" (.array (rs.map fun r => .array (r.map positionJson)))
  | .other _ geoJson => geoJson

/-- Reads an array, item by item. -/
def itemsOf {α : Type} (kind : String) (item : Json → Except Fault α) (v : Json) :
    Except Fault (List α) :=
  match v with
  | .array items => items.mapM item
  | _ => .error (.badCoordinates kind .sequence v)

/-- Reads an ordinate. -/
def ordinateOf (kind : String) (v : Json) : Except Fault Binary64 :=
  match v.asNumber? with
  | some x => .ok x
  | none => .error (.badCoordinates kind .number v)

/-- Reads a position. -/
def positionOf (kind : String) : Json → Except Fault Position :=
  itemsOf kind (ordinateOf kind)

/-- Reads a line. -/
def positionsOf (kind : String) : Json → Except Fault (List Position) :=
  itemsOf kind (positionOf kind)

/-- Reads the GeoJSON form. A type of another kind is taken as it is. -/
def ofGeoJson (v : Json) : Except Fault Geometry :=
  match (v.get? "type").bind Json.asString? with
  | none => .error .noType
  | some kind =>
    let coordinates : Except Fault Json :=
      match v.get? "coordinates" with
      | some c => .ok c
      | none => .error (.noCoordinates kind)
    match kind with
    | "Point" => do pure (.point (← positionOf kind (← coordinates)))
    | "LineString" => do pure (.lineString (← positionsOf kind (← coordinates)))
    | "Polygon" => do pure (.polygon (← itemsOf kind (positionsOf kind) (← coordinates)))
    | _ => .ok (.other kind v)

/-! ## Messages -/

/-- A JSON value as it is named in a fault. -/
def foundText : Json → String
  | .null => "null"
  | .bool b => if b then "boolean `true`" else "boolean `false`"
  | .int n => "integer `" ++ String.ofList (Text.intDigits n) ++ "`"
  | .float x => "floating point `" ++ Binary64.jsonLayout.write x.val ++ "`"
  | .string s => "string " ++ Text.quoted s
  | .array _ => "sequence"
  | .object _ => "map"

/-- The text of a fault. -/
def Fault.message : Fault → String
  | .noType => "geometry without a type"
  | .noCoordinates kind => kind ++ " without coordinates"
  | .badCoordinates kind wanted found =>
    let expected := match wanted with
      | .sequence => "a sequence"
      | .number => "f64"
    "bad " ++ kind ++ ": invalid type: " ++ foundText found ++ ", expected " ++ expected

/-- Texts in brackets with commas between them. -/
def bracketed (texts : List String) : String :=
  "[" ++ ", ".intercalate texts ++ "]"

/-- A position as messages show it. -/
def inspectPosition (p : Position) : String :=
  bracketed (p.map Binary64.inspectLayout.write)

/-- A geometry with its kind. -/
def inspect : Geometry → String
  | .point p => "Point(" ++ inspectPosition p ++ ")"
  | .lineString ps => "LineString(" ++ bracketed (ps.map inspectPosition) ++ ")"
  | .polygon rs =>
    "Polygon(" ++ bracketed (rs.map fun r => bracketed (r.map inspectPosition)) ++ ")"
  | .other kind geoJson =>
    "Other \x7b kind: " ++ Text.quoted kind ++ ", geojson: " ++ geoJson.inspect ++ " \x7d"

end Geometry

end RecordApi
