import RecordApi.Codec
import RecordApi.Proofs.Success

/-!
# Ordinates of positions

Every position that the codec reads for a column of points, lines or polygons has one ordinate for
each name of an axis. The names are those that are configured for the attribute, however many these
are, and only where none are configured they are cut to the dimension of the column. So the
positions have the dimension of the column exactly if there are as many names
(`Codec.ordinates_read`).
-/

namespace RecordApi

/-- The positions of a geometry. One that is kept as it came has none that are known. -/
def Geometry.positions : Geometry → List Position
  | .point p => [p]
  | .lineString ps => ps
  | .polygon rings => rings.flatten
  | .other _ _ => []

/-- All positions of a geometry have so many ordinates. -/
def Geometry.HasOrdinates (g : Geometry) (n : Nat) : Prop :=
  ∀ p ∈ g.positions, p.length = n

/-- A ring that is closed has no new positions. -/
theorem Geometry.mem_of_mem_closeRing {ring : List Position} {p : Position}
    (h : p ∈ closeRing ring) : p ∈ ring := by
  unfold closeRing at h
  split at h
  · next first last hfirst hlast =>
    split at h
    · exact h
    · rcases List.mem_append.1 h with h | h
      · exact h
      · rw [List.mem_singleton.1 h]
        exact List.mem_of_mem_head? hfirst
  · exact h

namespace Codec

/-- The names of the axes for which ordinates are read: those that are configured for an attribute,
else the standard ones up to a dimension. -/
def axesRead (axes : AxisNames) (name : String) (dimension : Nat) : List String :=
  (axes.get? name).getD (standardAxes.take dimension)

theorem length_of_position? {names : List String} {v : Json} {p : Position}
    (h : position? names v = some p) : p.length = names.length := by
  obtain ⟨members, -, h⟩ := Option.bind_eq_some_iff.1 h
  exact (mapM_eq_some_iff.1 h).length_eq.symm

/-- An object without members is the position at zero. -/
theorem exists_position?_empty (names : List String) :
    ∃ p, position? names (.object []) = some p := by
  refine ⟨names.map fun _ => Binary64.zero false, mapM_eq_some_iff.2 ?_⟩
  exact List.forall₂_map_right_iff.2 (List.forall₂_same.2 fun _ _ => rfl)

section

variable {axes : AxisNames} {name : String} {kind : GeometryKind} {dimension : Nat}

/-- Every position that is read has one ordinate for each name. -/
theorem hasOrdinates_of_geometryValue (hkind : kind ≠ .any) {v : Json} {g : Geometry}
    (h : geometryValue axes name kind dimension v = some g) :
    g.HasOrdinates (axesRead axes name dimension).length := by
  have hall : ∀ {ps : List Position},
      v.asArray?.bind (·.mapM (position? (axesRead axes name dimension))) = some ps →
        ∀ p ∈ ps, p.length = (axesRead axes name dimension).length := by
    intro ps hps p hp
    obtain ⟨items, -, hitems⟩ := Option.bind_eq_some_iff.1 hps
    obtain ⟨item, -, hitem⟩ := exists_mem_of_forall₂ (mapM_eq_some_iff.1 hitems) hp
    exact length_of_position? hitem
  unfold geometryValue at h
  intro p hp
  cases kind with
  | any => exact absurd rfl hkind
  | point =>
      obtain ⟨q, hq, rfl⟩ := Option.map_eq_some_iff.1 h
      rw [List.mem_singleton.1 hp]
      exact length_of_position? hq
  | lineString =>
      obtain ⟨ps, hps, rfl⟩ := Option.map_eq_some_iff.1 h
      exact hall hps p hp
  | polygon =>
      obtain ⟨ring, hring, rfl⟩ := Option.map_eq_some_iff.1 h
      obtain ⟨closed, hclosed, hp⟩ := List.mem_flatten.1 hp
      rw [List.mem_singleton.1 hclosed] at hp
      exact hall hring p (Geometry.mem_of_mem_closeRing hp)

/-- There is a wire form of which a position is read, whatever the names are. -/
theorem exists_position_of_kind (hkind : kind ≠ .any) :
    ∃ v g p, v ≠ Json.null ∧ geometryValue axes name kind dimension v = some g ∧
      p ∈ g.positions := by
  obtain ⟨p, hp⟩ := exists_position?_empty (axesRead axes name dimension)
  have hline : (Json.array [.object []]).asArray?.bind
      (·.mapM (position? (axesRead axes name dimension))) = some [p] := by
    change [Json.object []].mapM _ = some [p]
    exact mapM_eq_some_iff.2 (.cons hp .nil)
  cases kind with
  | any => exact absurd rfl hkind
  | point =>
      exact ⟨.object [], .point p, p, nofun, congrArg (Option.map _) hp, List.mem_singleton.2 rfl⟩
  | lineString =>
      exact ⟨.array [.object []], .lineString [p], p, nofun, congrArg (Option.map _) hline,
        List.mem_singleton.2 rfl⟩
  | polygon =>
      refine ⟨.array [.object []], .ofExterior [p], p, nofun, congrArg (Option.map _) hline, ?_⟩
      unfold Geometry.ofExterior Geometry.closeRing
      simp only [List.head?_cons, List.getLast?_singleton]
      split <;> simp [Geometry.positions]

end

/-! ## Columns -/

variable {codec : Codec} {c : Column} {kind : GeometryKind} {dimension : Nat}

/-- What is read for a column of geometries is null, or the geometry of the wire form. -/
theorem deserialize_geometry_eq_ok_iff (hplugins : codec.plugins = [])
    (hc : c.type = .geometry kind dimension) {axes : AxisNames} {name : String} {v : Json}
    {w : Value} : codec.deserialize axes name c v = .ok w ↔
      v = .null ∧ w = .null ∨
        v ≠ .null ∧ ∃ g, geometryValue axes name kind dimension v = some g ∧ w = .geometry g := by
  have hread : codec.deserialize axes name c v =
      codec.read axes name (.geometry kind dimension) v := by
    rw [deserialize, hplugins, hc]
    rfl
  have hshape : v ≠ .null → codec.read axes name (.geometry kind dimension) v =
      ((geometryValue axes name kind dimension v).map Value.geometry).elim
        (.error (.badRequest (.geometry name))) .ok := by
    intro hv
    cases v with
    | null => exact absurd rfl hv
    | _ => rfl
  rw [hread]
  by_cases hv : v = .null
  · subst hv
    simp [read, eq_comm]
  · rw [hshape hv]
    cases geometryValue axes name kind dimension v with
    | none => simp [hv]
    | some g => simp [hv, eq_comm]

/-- What is read for a column of points, lines or polygons is null, or a geometry with positions of
one ordinate for each name of an axis. All positions that can be read have the dimension of the
column exactly if there are as many names, as there are where none are configured. -/
theorem ordinates_read (hplugins : codec.plugins = []) (axes : AxisNames) (name : String)
    (hc : c.type = .geometry kind dimension) (hkind : kind ≠ .any) :
    (∀ v w, codec.deserialize axes name c v = .ok w →
      w = .null ∨ ∃ g, w = .geometry g ∧ g.HasOrdinates (axesRead axes name dimension).length) ∧
    ((∀ v g, codec.deserialize axes name c v = .ok (.geometry g) → g.HasOrdinates dimension) ↔
      (axesRead axes name dimension).length = dimension) ∧
    (axes.get? name = none → dimension ≤ 3 →
      (axesRead axes name dimension).length = dimension) := by
  have hread : ∀ v w, codec.deserialize axes name c v = .ok w →
      w = .null ∨ ∃ g, w = .geometry g ∧ g.HasOrdinates (axesRead axes name dimension).length := by
    intro v w hw
    rcases (deserialize_geometry_eq_ok_iff hplugins hc).1 hw with ⟨-, rfl⟩ | ⟨-, g, hg, rfl⟩
    · exact .inl rfl
    · exact .inr ⟨g, rfl, hasOrdinates_of_geometryValue hkind hg⟩
  refine ⟨hread, ⟨fun hall => ?_, fun hsame v g hg => ?_⟩, fun hnone hdimension => ?_⟩
  · obtain ⟨v, g, p, hv, hg, hp⟩ := @exists_position_of_kind axes name kind dimension hkind
    have hok : codec.deserialize axes name c v = .ok (.geometry g) :=
      (deserialize_geometry_eq_ok_iff hplugins hc).2 (.inr ⟨hv, g, hg, rfl⟩)
    rw [← hasOrdinates_of_geometryValue hkind hg p hp, hall v g hok p hp]
  · rcases hread v _ hg with hnull | ⟨g', heq, hall⟩
    · cases hnull
    · cases heq
      exact hsame ▸ hall
  · rw [axesRead, hnone]
    exact (List.length_take ..).trans (Nat.min_eq_left hdimension)

end Codec

/-- A column of points with two ordinates. -/
def Column.location : Column :=
  ⟨"location", .geometry .point 2, "geometry", true, false, false⟩

/-- With three names of axes, a point of three ordinates is read for a column of two. -/
theorem Codec.ordinates_read_location :
    ¬(∀ v g, standard.deserialize [("location", ["lon", "lat", "alt"])] "location" .location v =
      .ok (.geometry g) → g.HasOrdinates 2) ∧
    standard.deserialize [("location", ["lon", "lat", "alt"])] "location" .location
        (.object [("alt", .int 3), ("lat", .int 2), ("lon", .int 1)]) =
      .ok (.geometry (.point [.ofInt 1, .ofInt 2, .ofInt 3])) := by
  obtain ⟨-, hiff, -⟩ := @ordinates_read standard .location .point 2 rfl
    [("location", ["lon", "lat", "alt"])] "location" rfl (by decide)
  exact ⟨fun hall => absurd (hiff.1 hall) (by decide), rfl⟩

end RecordApi
