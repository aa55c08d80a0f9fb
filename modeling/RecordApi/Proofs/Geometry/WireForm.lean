import RecordApi.Proofs.Geometry.Ordinates
import RecordApi.Proofs.Json.Words

/-!
# The wire form of a geometry

What is read of a wire form can be written, and what is written is a wire form that is read and
written as it is (`Codec.wire_form_stable`; `Codec.stable_of_read?` for the values that stand in
texts). Writing takes away the ordinates of axes beyond the dimension of the column, merges axes of
one name, and keeps only the exterior ring of a polygon. The argument is that a position that was
read is nothing but an ordinate for each name (`Ordinates`): axes of one name have one ordinate, and
an axis that is taken away has the ordinate zero when it is read again.
-/

namespace RecordApi

/-- An ordinate for every name of an axis. -/
abbrev Ordinates := String → Binary64.Finite

namespace Ordinates

/-- The position that has the ordinates of the named axes, in the order of the names. -/
def position (o : Ordinates) (names : List String) : Position :=
  names.map fun axis => (o axis).val

/-- Zero for every axis. -/
def origin : Ordinates := fun _ =>
  ⟨Binary64.zero false, rfl⟩

/-- The ordinates of the named axes, and zero for every other axis. -/
def only (o : Ordinates) (names : List String) : Ordinates := fun axis =>
  if axis ∈ names then o axis else origin axis

/-- The members of the object that a position is written as. -/
def members (o : Ordinates) (names : List String) : Json.Members :=
  Keyed.ofList (names.map fun axis => (axis, .float (o axis)))

variable {o q : Ordinates} {names : List String}

theorem only_of_mem {axis : String} (h : axis ∈ names) : o.only names axis = o axis :=
  if_pos h

theorem only_of_not_mem {axis : String} (h : axis ∉ names) : o.only names axis = origin axis :=
  if_neg h

theorem get?_members (o : Ordinates) (names : List String) (axis : String) :
    Keyed.get? (o.members names) axis = if axis ∈ names then some (.float (o axis)) else none := by
  have hreverse : axis ∈ names ↔ axis ∈ names.reverse := List.mem_reverse.symm
  rw [members, Keyed.ofList, Keyed.get?_merge, Keyed.get?_nil, Option.or_none, ← List.map_reverse,
    if_congr hreverse rfl rfl]
  induction names.reverse with
  | nil => rfl
  | cons next rest ih =>
      rw [List.map_cons, Keyed.get?_cons, ih]
      by_cases h : axis = next
      · simp [h]
      · simp [h]

/-- Positions are the same if their ordinates are. -/
theorem samePosition_iff :
    Geometry.samePosition (o.position names) (q.position names) = true ↔
      ∀ axis ∈ names, (o axis).val.same (q axis).val = true := by
  unfold Geometry.samePosition position
  rw [List.length_map, List.length_map, beq_self_eq_true, Bool.true_and]
  induction names with
  | nil => simp
  | cons axis rest ih =>
      simp only [List.map_cons, List.zip_cons_cons, List.all_cons, Bool.and_eq_true, ih,
        List.forall_mem_cons]

/-- What is written of the axes of some names depends on their ordinates alone. -/
theorem members_only : (o.only names).members names = o.members names := by
  unfold members
  congr 1
  refine List.map_congr_left fun axis haxis => ?_
  rw [only_of_mem haxis]

/-! ## Rings -/

/-- A ring ends where it begins. -/
def Closed (names : List String) (ring : List Ordinates) : Prop :=
  ∀ first ∈ ring.head?, ∀ last ∈ ring.getLast?,
    Geometry.samePosition (first.position names) (last.position names) = true

theorem Closed.closeRing_eq {ring : List Ordinates} (h : Closed names ring) :
    Geometry.closeRing (ring.map (·.position names)) = ring.map (·.position names) := by
  unfold Geometry.closeRing
  rw [List.head?_map, List.getLast?_map]
  cases hfirst : ring.head? with
  | none => rfl
  | some first =>
      cases hlast : ring.getLast? with
      | none => rfl
      | some last =>
          dsimp only [Option.map_some]
          rw [if_pos (h first hfirst last hlast)]

theorem samePosition_self (o : Ordinates) (names : List String) :
    Geometry.samePosition (o.position names) (o.position names) = true := by
  refine samePosition_iff.2 fun axis _ => ?_
  obtain ⟨x, hx⟩ := o axis
  cases x with
  | nan => cases hx
  | signed => simp [Binary64.same, Binary64.compare]

/-- A ring that is closed has ordinates for its names as the given one has. -/
theorem exists_closed (names : List String) (ring : List Ordinates) :
    ∃ closed : List Ordinates, Closed names closed ∧
      Geometry.closeRing (ring.map (·.position names)) = closed.map (·.position names) := by
  cases ring with
  | nil => exact ⟨[], nofun, rfl⟩
  | cons first rest =>
      obtain ⟨last, hlast⟩ : ∃ last, (first :: rest).getLast? = some last :=
        ⟨_, List.getLast?_eq_some_getLast (List.cons_ne_nil first rest)⟩
      by_cases hsame : Geometry.samePosition (first.position names) (last.position names) = true
      · have hclosed : Closed names (first :: rest) := by
          intro a ha b hb
          cases ha
          cases hlast.symm.trans hb
          exact hsame
        exact ⟨first :: rest, hclosed, hclosed.closeRing_eq⟩
      · refine ⟨first :: rest ++ [first], ?_, ?_⟩
        · intro a ha b hb
          cases ha
          rw [List.getLast?_concat] at hb
          cases hb
          exact samePosition_self first names
        · unfold Geometry.closeRing
          rw [List.head?_map, List.getLast?_map, hlast]
          dsimp only [List.head?_cons, Option.map_some]
          rw [if_neg hsame, List.map_append, List.map_singleton]

/-- A ring stays closed when the ordinates of some axes become zero. -/
theorem Closed.only {ring : List Ordinates} (h : Closed names ring) (kept : List String) :
    Closed names (ring.map (·.only kept)) := by
  intro a ha b hb
  rw [List.head?_map] at ha
  rw [List.getLast?_map] at hb
  obtain ⟨first, hfirst, rfl⟩ := Option.map_eq_some_iff.1 ha
  obtain ⟨last, hlast, rfl⟩ := Option.map_eq_some_iff.1 hb
  have hsame := samePosition_iff.1 (h first hfirst last hlast)
  refine samePosition_iff.2 fun axis haxis => ?_
  by_cases hkept : axis ∈ kept
  · rw [only_of_mem hkept, only_of_mem hkept]
    exact hsame axis haxis
  · rw [only_of_not_mem hkept, only_of_not_mem hkept]
    rfl

end Ordinates

namespace Codec

/-! ## Positions -/

/-- The ordinate that an object gives to an axis, zero where it gives none. -/
def ordinate? (members : Json.Members) (axis : String) : Option Binary64 :=
  match Keyed.get? members axis with
  | none | some .null => some (Binary64.zero false)
  | some ordinate => ordinate.asNumber?

theorem position?_object (names : List String) (members : Json.Members) :
    position? names (.object members) = names.mapM (ordinate? members) :=
  rfl

theorem isFinite_of_ordinate? {members : Json.Members} (hv : (Json.object members).OfWords)
    {axis : String} {x : Binary64} (h : ordinate? members axis = some x) : x.isFinite = true := by
  unfold ordinate? at h
  split at h
  · cases h
    rfl
  · cases h
    rfl
  · next hget => exact (hv.of_get? hget).isFinite_of_asNumber? h

/-- A position that is read is an ordinate for each name. -/
theorem exists_ordinates_of_position? {names : List String} {v : Json} (hv : v.OfWords)
    {p : Position} (h : position? names v = some p) : ∃ o : Ordinates, p = o.position names := by
  obtain ⟨members, hmembers, hread⟩ := Option.bind_eq_some_iff.1 h
  cases v with
  | object =>
      cases hmembers
      have hread : List.Forall₂ (fun axis x => ordinate? members axis = some x) names p :=
        mapM_eq_some_iff.1 hread
      refine ⟨fun axis => ((ordinate? members axis).bind Binary64.finite?).getD
        (Ordinates.origin axis), ?_⟩
      refine List.forall₂_eq_eq_eq ▸ List.forall₂_map_right_iff.2 (hread.flip.imp ?_)
      intro x axis hx
      dsimp only
      rw [hx, Option.bind_some, Binary64.finite?, dif_pos (isFinite_of_ordinate? hv hx)]
      rfl
  | null | bool | int | float | string | array => cases hmembers

theorem ordinate?_members (o : Ordinates) (names : List String) (axis : String) :
    ordinate? (o.members names) axis = some (o.only names axis).val := by
  unfold ordinate?
  rw [Ordinates.get?_members]
  by_cases h : axis ∈ names
  · rw [if_pos h, Ordinates.only_of_mem h]
    rfl
  · rw [if_neg h, Ordinates.only_of_not_mem h]
    rfl

/-- What is written of some axes is read again, with zero for the other axes. -/
theorem position?_members (o : Ordinates) (names kept : List String) :
    position? names (.object (o.members kept)) = some ((o.only kept).position names) := by
  rw [position?_object]
  refine mapM_eq_some_iff.2 (List.forall₂_map_right_iff.2 (List.forall₂_same.2 ?_))
  exact fun axis _ => ordinate?_members o kept axis

theorem ofBinary64_val (x : Binary64.Finite) : Json.ofBinary64 x.val = .float x := by
  rw [Json.ofBinary64, Binary64.finite?, dif_pos x.property]

/-- A position is written as an object with the ordinates of the first names. -/
theorem namedPosition_position (o : Ordinates) (names : List String) (n : Nat) :
    namedPosition (names.take n) (o.position names) = .object (o.members (names.take n)) := by
  unfold namedPosition Json.ofMembers Ordinates.members
  congr 2
  refine List.ext_getElem (by simp) fun i hi hi' => ?_
  have hlt : i < names.length := by
    rw [List.length_map, List.length_take] at hi'
    omega
  simp [Ordinates.position, hlt, ofBinary64_val]

/-! ## Lines -/

/-- The wire form of a line. -/
def lineJson (line : List Ordinates) (names : List String) : Json :=
  .array (line.map fun o => .object (o.members names))

theorem exists_ordinates_of_forall₂ {names : List String} {items : List Json}
    {ps : List Position} (hitems : ∀ v ∈ items, v.OfWords)
    (h : List.Forall₂ (fun v p => position? names v = some p) items ps) :
    ∃ line : List Ordinates, ps = line.map (·.position names) := by
  induction h with
  | nil => exact ⟨[], rfl⟩
  | cons hp _ ih =>
      obtain ⟨hv, hrest⟩ := List.forall_mem_cons.1 hitems
      obtain ⟨o, rfl⟩ := exists_ordinates_of_position? hv hp
      obtain ⟨line, rfl⟩ := ih hrest
      exact ⟨o :: line, rfl⟩

theorem exists_ordinates_of_positions {names : List String} {v : Json} (hv : v.OfWords)
    {ps : List Position} (h : v.asArray?.bind (·.mapM (position? names)) = some ps) :
    ∃ line : List Ordinates, ps = line.map (·.position names) := by
  obtain ⟨items, hitems, hread⟩ := Option.bind_eq_some_iff.1 h
  cases hv with
  | array hall =>
      cases hitems
      exact exists_ordinates_of_forall₂ hall (mapM_eq_some_iff.1 hread)
  | null | bool | int | float | string | object => cases hitems

theorem positions_lineJson (line : List Ordinates) (names kept : List String) :
    (lineJson line kept).asArray?.bind (·.mapM (position? names)) =
      some ((line.map (·.only kept)).map (·.position names)) := by
  change (line.map fun o => Json.object (o.members kept)).mapM (position? names) = _
  rw [mapM_eq_some_iff, List.map_map]
  refine List.forall₂_map_left_iff.2 (List.forall₂_map_right_iff.2 (List.forall₂_same.2 ?_))
  exact fun o _ => position?_members o names kept

theorem lineJson_only (line : List Ordinates) (kept : List String) :
    lineJson (line.map (·.only kept)) kept = lineJson line kept := by
  rw [lineJson, List.map_map]
  exact congrArg Json.array (List.map_congr_left fun o _ => congrArg Json.object o.members_only)

/-! ## Geometries -/

section

variable {axes : AxisNames} {name : String} {kind : GeometryKind} {dimension : Nat}

/-- The names of the axes for which ordinates are written: as many of those that are read as the
column has dimensions. -/
def axesWritten (axes : AxisNames) (name : String) (dimension : Nat) : List String :=
  (axesRead axes name dimension).take dimension

theorem axesWritten_eq (axes : AxisNames) (name : String) (dimension : Nat) :
    axesWritten axes name dimension = ((axes.get? name).getD standardAxes).take dimension := by
  unfold axesWritten axesRead
  cases axes.get? name with
  | none => exact (List.take_take ..).trans (congrArg standardAxes.take (Nat.min_self dimension))
  | some names => rfl

theorem positionJson_position (o : Ordinates) :
    positionJson axes name (some dimension) (o.position (axesRead axes name dimension)) =
      .object (o.members (axesWritten axes name dimension)) := by
  rw [positionJson, Option.getD_some, ← axesWritten_eq]
  exact namedPosition_position o _ dimension

theorem map_positionJson (line : List Ordinates) :
    Json.array ((line.map (·.position (axesRead axes name dimension))).map
      (positionJson axes name (some dimension))) =
        lineJson line (axesWritten axes name dimension) := by
  rw [List.map_map]
  exact congrArg Json.array (List.map_congr_left fun o _ => positionJson_position o)

/-- What was read is written in a form that is read and written as it is. -/
theorem exists_stable_form (hkind : kind ≠ .any) {v : Json} (hv : v.OfWords) {g : Geometry}
    (h : geometryValue axes name kind dimension v = some g) :
    ∃ form again, form ≠ Json.null ∧
      geometryJson axes name (some (.geometry kind dimension)) g = .ok form ∧
      geometryValue axes name kind dimension form = some again ∧
      geometryJson axes name (some (.geometry kind dimension)) again = .ok form := by
  unfold geometryValue at h
  cases kind with
  | any => exact absurd rfl hkind
  | point =>
      obtain ⟨p, hp, rfl⟩ := Option.map_eq_some_iff.1 h
      obtain ⟨o, rfl⟩ := exists_ordinates_of_position? hv hp
      refine ⟨.object (o.members (axesWritten axes name dimension)),
        .point ((o.only (axesWritten axes name dimension)).position _), nofun,
        congrArg Except.ok (positionJson_position o),
        congrArg (Option.map _) (position?_members o _ _), ?_⟩
      refine congrArg Except.ok ((positionJson_position _).trans ?_)
      rw [Ordinates.members_only]
  | lineString =>
      obtain ⟨ps, hps, rfl⟩ := Option.map_eq_some_iff.1 h
      obtain ⟨line, rfl⟩ := exists_ordinates_of_positions hv hps
      refine ⟨lineJson line (axesWritten axes name dimension), _, nofun,
        congrArg Except.ok (map_positionJson line),
        congrArg (Option.map _) (positions_lineJson line _ _), ?_⟩
      exact congrArg Except.ok ((map_positionJson _).trans (lineJson_only line _))
  | polygon =>
      obtain ⟨ps, hps, rfl⟩ := Option.map_eq_some_iff.1 h
      have hline : ∃ line : List Ordinates,
          ps = line.map (·.position (axesRead axes name dimension)) :=
        exists_ordinates_of_positions hv hps
      obtain ⟨line, rfl⟩ := hline
      obtain ⟨ring, hclosed, hring⟩ := Ordinates.exists_closed (axesRead axes name dimension) line
      refine ⟨lineJson ring (axesWritten axes name dimension),
        .polygon [(ring.map (·.only (axesWritten axes name dimension))).map
          (·.position (axesRead axes name dimension))], nofun, ?_, ?_, ?_⟩
      · rw [Geometry.ofExterior, hring]
        exact congrArg Except.ok (map_positionJson ring)
      · -- the ring is not closed a second time
        rw [← (hclosed.only _).closeRing_eq]
        exact congrArg (Option.map _) (positions_lineJson ring _ _)
      · exact congrArg Except.ok ((map_positionJson _).trans (lineJson_only ring _))

end

/-! ## Columns -/

variable {codec : Codec} {c : Column} {kind : GeometryKind} {dimension : Nat}

theorem serialize_geometry (hplugins : codec.plugins = []) (axes : AxisNames) (name : String)
    (type : Option ColumnType) (g : Geometry) :
    codec.serialize axes name type (.geometry g) = geometryJson axes name type g := by
  unfold serialize
  rw [hplugins]
  rfl

/-- A value of a column is written in a wire form that is read again, and what is read is written in
this form. -/
def Stable (codec : Codec) (axes : AxisNames) (name : String) (c : Column) (w : Value) : Prop :=
  ∃ form again, codec.serialize axes name (some c.type) w = .ok form ∧
    codec.deserialize axes name c form = .ok again ∧
    codec.serialize axes name (some c.type) again = .ok form

/-- What is read of a wire form with whole numbers of 64 bits is written stably. -/
theorem stable_of_deserialize (hplugins : codec.plugins = []) {axes : AxisNames} {name : String}
    (hc : c.type = .geometry kind dimension) (hkind : kind ≠ .any) {v : Json} (hv : v.OfWords)
    {w : Value} (h : codec.deserialize axes name c v = .ok w) : codec.Stable axes name c w := by
  rcases (deserialize_geometry_eq_ok_iff hplugins hc).1 h with ⟨rfl, rfl⟩ | ⟨-, g, hg, rfl⟩
  · have hnull : codec.serialize axes name (some c.type) .null = .ok .null := by
      unfold serialize
      rw [hplugins]
      rfl
    exact ⟨.null, .null, hnull, h, hnull⟩
  · obtain ⟨form, again, hform, hwritten, hread, hagain⟩ := exists_stable_form hkind hv hg
    refine ⟨form, .geometry again, ?_, ?_, ?_⟩
    · rw [serialize_geometry hplugins, hc, hwritten]
    · exact (deserialize_geometry_eq_ok_iff hplugins hc).2 (.inr ⟨hform, again, hread, rfl⟩)
    · rw [serialize_geometry hplugins, hc, hagain]

/-- Whatever a text holds, what is read of it is written stably. -/
theorem stable_of_read? (hplugins : codec.plugins = []) {axes : AxisNames} {name : String}
    (hc : c.type = .geometry kind dimension) (hkind : kind ≠ .any) {text : String} {v : Json}
    (hread : Json.read? text = some v) {w : Value} (h : codec.deserialize axes name c v = .ok w) :
    codec.Stable axes name c w :=
  stable_of_deserialize hplugins hc hkind (Json.ofWords_of_read? hread) h

/-- The wire form of a column of points, lines or polygons is stable, whatever the names of its axes
are: what is read of any wire form is written in one that is read again, and is then written as it
is. The whole numbers of a wire form have 64 bits, as they do in every JSON value that is read
(`stable_of_read?`). -/
theorem wire_form_stable (hplugins : codec.plugins = []) (axes : AxisNames) (name : String)
    (hc : c.type = .geometry kind dimension) (hkind : kind ≠ .any) {v : Json} (hv : v.OfWords)
    {w : Value} (h : codec.deserialize axes name c v = .ok w) :
    ∃ form again, codec.serialize axes name (some c.type) w = .ok form ∧
      codec.deserialize axes name c form = .ok again ∧
      codec.serialize axes name (some c.type) again = .ok form :=
  stable_of_deserialize hplugins hc hkind hv h

end Codec

/-- A column of polygons with two ordinates. -/
def Column.area : Column :=
  ⟨"area", .geometry .polygon 2, "geometry", true, false, false⟩

/-- A ring whose ends differ in one axis. -/
def Json.openRing : Json :=
  .array [.object [("x", .int 1), ("y", .int 0), ("z", .int 5)],
    .object [("w", .int 7), ("x", .int 2)], .object [("x", .int 1), ("y", .int 0)]]

/-- The ends of the ring differ in an axis that is not written, so that it gets its first position
once more when it is read. From then on it stays as it is. -/
theorem Codec.wire_form_stable_area :
    Json.openRing.OfWords ∧
    standard.deserialize [("area", ["x", "y", "z", "x"])] "area" .area .openRing =
      .ok (.geometry (.polygon [[[.ofInt 1, .ofInt 0, .ofInt 5, .ofInt 1],
        [.ofInt 2, .ofInt 0, .ofInt 0, .ofInt 2], [.ofInt 1, .ofInt 0, .ofInt 0, .ofInt 1],
        [.ofInt 1, .ofInt 0, .ofInt 5, .ofInt 1]]])) ∧
    ∃ form again,
      standard.serialize [("area", ["x", "y", "z", "x"])] "area" (some Column.area.type)
        (.geometry (.polygon [[[.ofInt 1, .ofInt 0, .ofInt 5, .ofInt 1],
          [.ofInt 2, .ofInt 0, .ofInt 0, .ofInt 2], [.ofInt 1, .ofInt 0, .ofInt 0, .ofInt 1],
          [.ofInt 1, .ofInt 0, .ofInt 5, .ofInt 1]]])) = .ok form ∧
      standard.deserialize [("area", ["x", "y", "z", "x"])] "area" .area form = .ok again ∧
      standard.serialize [("area", ["x", "y", "z", "x"])] "area" (some Column.area.type) again =
        .ok form := by
  have hwords : Json.openRing.OfWords := by simp [Json.openRing]
  have hok : standard.deserialize [("area", ["x", "y", "z", "x"])] "area" .area .openRing =
      .ok (.geometry (.polygon [[[.ofInt 1, .ofInt 0, .ofInt 5, .ofInt 1],
        [.ofInt 2, .ofInt 0, .ofInt 0, .ofInt 2], [.ofInt 1, .ofInt 0, .ofInt 0, .ofInt 1],
        [.ofInt 1, .ofInt 0, .ofInt 5, .ofInt 1]]])) := rfl
  exact ⟨hwords, hok, @wire_form_stable standard .area .polygon 2 rfl
    [("area", ["x", "y", "z", "x"])] "area" rfl (by decide) _ hwords _ hok⟩

end RecordApi
