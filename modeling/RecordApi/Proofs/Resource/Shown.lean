import RecordApi.Proofs.Success
import RecordApi.Resource.Rendering

/-!
# What answers can show

A codec without plugins has a wire form for every value but geometries that are kept as they came,
and lists that hold one (`HasWireForm`). So an answer can show a record if all columns that it is to
show hold values with a wire form, and all names that it is to show are attributes of the model
(`Shown.CanShow`). That is a condition on the record alone: no codec and no axes occur in it.
-/

namespace RecordApi

namespace Value

mutual

/-- A value that has a wire form. -/
def HasWireForm : Value → Prop
  | .geometry (.other _ _) => False
  | .list items => ItemsHaveWireForm items
  | _ => True

/-- Items of a list that all have a wire form. -/
def ItemsHaveWireForm : List Value → Prop
  | [] => True
  | v :: rest => HasWireForm v ∧ ItemsHaveWireForm rest

end

end Value

namespace Codec

variable {codec : Codec} {axes : AxisNames} {name : String} {type : Option ColumnType}

theorem exists_geometryJson_iff {g : Geometry} :
    (∃ j, geometryJson axes name type g = .ok j) ↔ (Value.geometry g).HasWireForm := by
  cases g <;> simp [geometryJson, Value.HasWireForm]

mutual

theorem exists_serialize_iff (h : codec.plugins = []) :
    ∀ v : Value, (∃ j, codec.serialize axes name type v = .ok j) ↔ v.HasWireForm
  | .list items => by
      rw [Value.HasWireForm, ← exists_serializeItems_iff h items]
      simp [serialize, h]
  | .geometry g => by simpa [serialize, h] using exists_geometryJson_iff
  | .null | .bool _ | .int _ | .float _ | .text _ | .dateTime _ | .date _ | .time _ | .decimal _
  | .uuid _ | .json _ => by simp [serialize, h, Value.HasWireForm]

theorem exists_serializeItems_iff (h : codec.plugins = []) :
    ∀ items : List Value, (∃ js, codec.serializeItems axes name type items = .ok js) ↔
      Value.ItemsHaveWireForm items
  | [] => by simp [serializeItems, Value.ItemsHaveWireForm]
  | v :: rest => by
      rw [Value.ItemsHaveWireForm, ← exists_serialize_iff h v, ← exists_serializeItems_iff h rest]
      simp only [serializeItems, bind_eq_ok_iff, pure_eq_ok_iff]
      constructor
      · rintro ⟨_, j, hj, js, hjs, -⟩
        exact ⟨⟨j, hj⟩, js, hjs⟩
      · rintro ⟨⟨j, hj⟩, js, hjs⟩
        exact ⟨_, j, hj, js, hjs, rfl⟩

end

end Codec

/-! ## Plugins -/

namespace Codec

variable {codec : Codec} {axes : AxisNames} {name : String} {type : Option ColumnType}

mutual

/-- Plugins make wire forms and take none away. -/
theorem exists_serialize_of_hasWireForm :
    ∀ v : Value, v.HasWireForm → ∃ j, codec.serialize axes name type v = .ok j
  | .list items => fun hv => by
      rw [Value.HasWireForm] at hv
      obtain ⟨js, hjs⟩ := exists_serializeItems_of_haveWireForm items hv
      rw [serialize]
      split
      · exact ⟨_, rfl⟩
      · rw [hjs]
        exact ⟨_, rfl⟩
  | .geometry g => fun hv => by
      rw [serialize]
      split
      · exact ⟨_, rfl⟩
      · exact exists_geometryJson_iff.2 hv
  | .null | .bool _ | .int _ | .float _ | .text _ | .dateTime _ | .date _ | .time _ | .decimal _
  | .uuid _ | .json _ => fun _ => by
      simp only [serialize]
      split <;> exact ⟨_, rfl⟩

theorem exists_serializeItems_of_haveWireForm :
    ∀ items : List Value, Value.ItemsHaveWireForm items →
      ∃ js, codec.serializeItems axes name type items = .ok js
  | [] => fun _ => ⟨[], rfl⟩
  | v :: rest => fun h => by
      rw [Value.ItemsHaveWireForm] at h
      obtain ⟨j, hj⟩ := exists_serialize_of_hasWireForm v h.1
      obtain ⟨js, hjs⟩ := exists_serializeItems_of_haveWireForm rest h.2
      rw [serializeItems, hj, hjs]
      exact ⟨_, rfl⟩

end

theorem exists_column {r : Record} {c : Column} (h : (r.get c.name).HasWireForm) :
    ∃ j, codec.column axes r c = .ok j := by
  rw [column, exists_map_eq_ok_iff]
  exact exists_serialize_of_hasWireForm _ h

end Codec

/-! ## Records -/

/-- A record that an answer is to show: all its columns, or those that are named. -/
structure Shown where
  model : Model
  record : Record
  fields : Option (List String)

/-- Whether an answer can show what is under a name: an attribute of the model, and if that is a
column, a value that has a wire form. -/
def Model.CanShow (m : Model) (r : Record) (name : String) : Prop :=
  match m.attribute? name with
  | none => False
  | some (.column c) => (r.get c.name).HasWireForm
  | some _ => True

namespace Shown

/-- Whether an answer can show a record. -/
def CanShow (x : Shown) : Prop :=
  match x.fields with
  | none => ∀ c ∈ x.model.columns, (x.record.get c.name).HasWireForm
  | some names => ∀ name ∈ names, x.model.CanShow x.record name

/-- The wire form of a record that an answer is to show. -/
def render (codec : Codec) (axes : AxisNames) (x : Shown) : Except ApiError Json :=
  (codec.record axes x.model x.record x.fields).map .object

variable {codec : Codec} {axes : AxisNames}

theorem exists_column_iff (h : codec.plugins = []) {r : Record} {c : Column} :
    (∃ j, codec.column axes r c = .ok j) ↔ (r.get c.name).HasWireForm := by
  rw [Codec.column, exists_map_eq_ok_iff]
  exact Codec.exists_serialize_iff h _

theorem exists_namedAttribute_iff (h : codec.plugins = []) {m : Model} {r : Record}
    {name : String} :
    (∃ entries, codec.namedAttribute axes m r name = .ok entries) ↔ m.CanShow r name := by
  unfold Codec.namedAttribute Model.CanShow
  cases m.attribute? name with
  | none => simp
  | some a =>
      cases a with
      | column c =>
          dsimp only
          rw [exists_map_eq_ok_iff]
          exact exists_column_iff h
      | relationship r => simp
      | property p => simp

/-- A record has a wire form if an answer can show it. -/
theorem exists_render_iff (h : codec.plugins = []) {x : Shown} :
    (∃ j, x.render codec axes = .ok j) ↔ x.CanShow := by
  obtain ⟨m, r, fields⟩ := x
  rw [render, exists_map_eq_ok_iff]
  cases fields with
  | none =>
      simp only [Codec.record, CanShow, exists_map_eq_ok_iff, exists_mapM_eq_ok_iff,
        exists_column_iff h]
  | some names =>
      simp only [Codec.record, CanShow, exists_map_eq_ok_iff, exists_mapM_eq_ok_iff,
        exists_namedAttribute_iff h]

theorem exists_render_all_iff (h : codec.plugins = []) (axes : AxisNames) (shown : List Shown) :
    (∃ js, shown.mapM (render codec axes) = .ok js) ↔ ∀ x ∈ shown, x.CanShow := by
  simp only [exists_mapM_eq_ok_iff, exists_render_iff h]

end Shown

end RecordApi
