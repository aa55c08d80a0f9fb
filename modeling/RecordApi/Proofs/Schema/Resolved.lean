import Mathlib.Data.List.Nodup
import RecordApi.Proofs.Record
import RecordApi.Proofs.Success
import RecordApi.Schema.Resolve

/-!
# Resolved schemas

What holds of every schema that comes of a description. In a model no two attributes share a name,
the primary key is one of the columns and never null, and a version column is a column. No two
models share a name, so that a model is found under its name.
-/

namespace RecordApi

theorem firstRepeated?_eq_none_iff {seen names : List String} :
    firstRepeated? seen names = none ↔ names.Nodup ∧ ∀ name ∈ names, name ∉ seen := by
  induction names generalizing seen with
  | nil => simp [firstRepeated?]
  | cons name rest ih =>
      unfold firstRepeated?
      split
      · next h => simp [h]
      · next h =>
        rw [ih, List.nodup_cons]
        constructor
        · rintro ⟨hd, hs⟩
          refine ⟨⟨fun hm => hs name hm List.mem_cons_self, hd⟩, ?_⟩
          intro other ho
          rcases List.mem_cons.1 ho with rfl | ho
          · exact h
          · exact fun hm => hs other ho (List.mem_cons_of_mem _ hm)
        · rintro ⟨⟨hn, hd⟩, hs⟩
          refine ⟨hd, fun other ho hm => ?_⟩
          rcases List.mem_cons.1 hm with rfl | hm
          · exact hn ho
          · exact hs other (List.mem_cons_of_mem _ ho) hm

/-! ## Attributes and their places -/

namespace Attribute

variable {attributes : List Attribute} {name : String} {i : Nat}

theorem column?_eq_some_iff {a : Attribute} {c : Column} : a.column? = some c ↔ a = .column c := by
  cases a <;> simp [column?]

theorem relationship?_eq_some_iff {a : Attribute} {r : Relationship} :
    a.relationship? = some r ↔ a = .relationship r := by
  cases a <;> simp [relationship?]

theorem mem_places_iff :
    (name, i) ∈ attributes.zipIdx.map (fun (a, i) => (a.name, i)) ↔
      (attributes[i]?).map Attribute.name = some name := by
  rw [List.mem_map, Option.map_eq_some_iff]
  constructor
  · rintro ⟨⟨a, j⟩, hmem, heq⟩
    cases heq
    exact ⟨a, List.mem_zipIdx_iff_getElem?.1 hmem, rfl⟩
  · rintro ⟨a, ha, rfl⟩
    exact ⟨(a, i), List.mem_zipIdx_iff_getElem?.2 ha, rfl⟩

/-- An index leads to an attribute of the name. -/
theorem name_of_get?_places (h : Keyed.get? (places attributes) name = some i) :
    (attributes[i]?).map Attribute.name = some name := by
  rw [places, Keyed.ofList, Keyed.get?_merge, Keyed.get?_nil, Option.or_none] at h
  exact mem_places_iff.1 (List.mem_reverse.1 (Keyed.mem_of_get?_eq_some h))

/-- An index of attributes with different names leads to each of them. -/
theorem get?_places_eq_some_iff (h : (attributes.map Attribute.name).Nodup) :
    Keyed.get? (places attributes) name = some i ↔
      (attributes[i]?).map Attribute.name = some name := by
  have hnames : ((attributes.zipIdx.map fun (a, i) => (a.name, i)).map Prod.fst) =
      attributes.map Attribute.name := by
    rw [List.map_map, ← List.zipIdx_map_fst 0 attributes, List.map_map]
    simp [Function.comp_def]
  rw [places, Keyed.get?_ofList_eq_some_iff (hnames ▸ h), mem_places_iff]

end Attribute

/-! ## Models -/

/-- What holds of a model of a resolved schema. -/
structure Model.WellFormed (m : Model) : Prop where
  names : (m.attributes.map Attribute.name).Nodup
  key_mem : m.primaryKey ∈ m.columns
  key_flag : m.primaryKey.primaryKey = true
  key_not_null : m.primaryKey.nullable = false
  version : ∀ name, m.versionColumn = some name → ∃ c ∈ m.columns, c.name = name

namespace Model

theorem mem_columns {m : Model} {c : Column} : c ∈ m.columns ↔ .column c ∈ m.attributes := by
  unfold columns
  rw [List.mem_filterMap]
  constructor
  · rintro ⟨a, ha, hc⟩
    obtain rfl := Attribute.column?_eq_some_iff.1 hc
    exact ha
  · exact fun h => ⟨_, h, rfl⟩

theorem mem_of_attribute? {m : Model} {name : String} {a : Attribute}
    (h : m.attribute? name = some a) : a ∈ m.attributes ∧ a.name = name := by
  obtain ⟨i, hi, ha⟩ := Option.bind_eq_some_iff.1 h
  have hname := Attribute.name_of_get?_places hi
  rw [ha] at hname
  exact ⟨List.mem_of_getElem? ha, Option.some.inj hname⟩

theorem attribute?_eq_some_iff {m : Model} (h : (m.attributes.map Attribute.name).Nodup)
    {name : String} {a : Attribute} :
    m.attribute? name = some a ↔ a ∈ m.attributes ∧ a.name = name := by
  constructor
  · exact mem_of_attribute?
  · rintro ⟨ha, rfl⟩
    obtain ⟨i, hi⟩ := List.getElem?_of_mem ha
    exact Option.bind_eq_some_iff.2 ⟨i, (Attribute.get?_places_eq_some_iff h).2 (hi ▸ rfl), hi⟩

theorem name_of_column? {m : Model} {name : String} {c : Column}
    (h : m.column? name = some c) : c.name = name := by
  obtain ⟨a, ha, hc⟩ := Option.bind_eq_some_iff.1 h
  obtain rfl := Attribute.column?_eq_some_iff.1 hc
  exact (mem_of_attribute? ha).2

theorem mem_of_column? {m : Model} {name : String} {c : Column}
    (h : m.column? name = some c) : c ∈ m.columns := by
  obtain ⟨a, ha, hc⟩ := Option.bind_eq_some_iff.1 h
  exact List.mem_filterMap.2 ⟨a, (mem_of_attribute? ha).1, hc⟩

theorem mem_of_relationship? {m : Model} {name : String} {r : Relationship}
    (h : m.relationship? name = some r) : r ∈ m.relationships := by
  obtain ⟨a, ha, hr⟩ := Option.bind_eq_some_iff.1 h
  exact List.mem_filterMap.2 ⟨a, (mem_of_attribute? ha).1, hr⟩

theorem name_of_relationship? {m : Model} {name : String} {r : Relationship}
    (h : m.relationship? name = some r) : r.name = name := by
  obtain ⟨a, ha, hr⟩ := Option.bind_eq_some_iff.1 h
  obtain rfl := Attribute.relationship?_eq_some_iff.1 hr
  exact (mem_of_attribute? ha).2

theorem column?_eq_some_iff {m : Model} (h : (m.attributes.map Attribute.name).Nodup)
    {name : String} {c : Column} :
    m.column? name = some c ↔ c ∈ m.columns ∧ c.name = name := by
  unfold column?
  rw [mem_columns, Option.bind_eq_some_iff]
  constructor
  · rintro ⟨a, ha, hc⟩
    obtain rfl := Attribute.column?_eq_some_iff.1 hc
    exact (attribute?_eq_some_iff h).1 ha
  · rintro ⟨hm, hn⟩
    exact ⟨.column c, (attribute?_eq_some_iff h).2 ⟨hm, hn⟩, rfl⟩

namespace WellFormed

variable {m : Model}

theorem column?_key (h : m.WellFormed) : m.column? m.primaryKey.name = some m.primaryKey :=
  (column?_eq_some_iff h.names).2 ⟨h.key_mem, rfl⟩

theorem column?_of_mem (h : m.WellFormed) {c : Column} (hc : c ∈ m.columns) :
    m.column? c.name = some c :=
  (column?_eq_some_iff h.names).2 ⟨hc, rfl⟩

theorem columnNames_nodup (h : m.WellFormed) : (m.columns.map (·.name)).Nodup := by
  refine List.pairwise_map.2 (List.pairwise_filterMap.2 ((List.pairwise_map.1 h.names).imp ?_))
  intro a b hne c hc d hd
  cases a <;> cases hc
  cases b <;> cases hd
  exact hne

end WellFormed

end Model

/-! ## Declarations of models -/

/-- A column keeps its name, and is the primary key, which is never null, if it has its name. -/
theorem ColumnDecl.resolve_ok {primaryKey : String} {d : ColumnDecl} {c : Column}
    (h : d.resolve primaryKey = .ok c) :
    c.name = d.name ∧ c.nullable = (d.nullable && d.name != primaryKey) ∧
      c.primaryKey = (d.name == primaryKey) := by
  obtain ⟨type, -, h⟩ := bind_eq_ok_iff.1 h
  obtain rfl := pure_eq_ok_iff.1 h
  exact ⟨rfl, rfl, rfl⟩

namespace ModelDecl

variable {models : List ModelDecl} {d : ModelDecl} {m : Model}

theorem validate_ok (h : d.validate models = .ok ()) :
    firstRepeated? [] d.attributeNames = none ∧ d.primaryKey ∈ d.columnNames ∧
      forM d.versionColumn (refer .versionColumn d.columnNames d.name) = .ok () ∧
      forM d.unique d.validateUnique = .ok () ∧
      (forM d.properties fun p =>
        forM p.writes (refer .propertyTarget d.columnNames d.name)) = .ok () ∧
      forM d.relationships (d.validateRelationship models) = .ok () := by
  unfold validate at h
  cases hn : firstRepeated? [] d.attributeNames with
  | some name =>
      rw [hn] at h
      cases h
  | none =>
      simp only [hn] at h
      split at h
      · next hk =>
        simp only [bind_eq_ok_iff] at h
        obtain ⟨_, hv, _, hu, _, hp, hr⟩ := h
        exact ⟨rfl, hk, hv, hu, hp, hr⟩
      · cases h

theorem refer_ok {kind : Reference} {names : List String} {model name : String}
    (h : refer kind names model name = .ok ()) : name ∈ names := by
  unfold refer at h
  split at h
  · next hn => exact hn
  · cases h

theorem resolve_ok (h : d.resolve models = .ok m) :
    ∃ columns, d.columns.mapM (ColumnDecl.resolve d.primaryKey) = .ok columns ∧
      m.column? d.primaryKey = some m.primaryKey ∧
      m.name = d.name ∧ m.versionColumn = d.versionColumn ∧ m.unique = d.unique ∧
      m.attributes = d.attributes models columns := by
  obtain ⟨columns, hc, h⟩ := bind_eq_ok_iff.1 h
  dsimp only at h
  split at h
  · next place hplace =>
    split at h
    · next key hkey =>
      obtain rfl := pure_eq_ok_iff.1 h
      refine ⟨columns, hc, Option.bind_eq_some_iff.2 ⟨.column key, ?_, rfl⟩, rfl, rfl, rfl, rfl⟩
      exact Option.bind_eq_some_iff.2 ⟨place, hplace, hkey⟩
    · cases h
  · cases h

theorem columns_of_resolve (h : d.resolve models = .ok m) :
    d.columns.mapM (ColumnDecl.resolve d.primaryKey) = .ok m.columns := by
  obtain ⟨columns, hc, -, -, -, -, ha⟩ := resolve_ok h
  have hcolumns : m.columns = columns := by
    unfold Model.columns
    rw [ha, attributes, List.filterMap_append, List.filterMap_append, List.filterMap_map,
      List.filterMap_map, List.filterMap_map]
    change columns.filterMap some ++ List.filterMap (fun _ => none) _ ++
      List.filterMap (fun _ => none) _ = columns
    simp
  rw [hcolumns, hc]

theorem columnNames_of_resolve (h : d.resolve models = .ok m) :
    m.columns.map (·.name) = d.columnNames :=
  map_eq_of_mapM_eq_ok (columns_of_resolve h) fun _ _ hc => (ColumnDecl.resolve_ok hc).1

theorem names_attributes {columns : List Column}
    (hc : d.columns.mapM (ColumnDecl.resolve d.primaryKey) = .ok columns) :
    (d.attributes models columns).map Attribute.name = d.attributeNames := by
  have hcolumns : columns.map (·.name) = d.columnNames :=
    map_eq_of_mapM_eq_ok hc fun _ _ hc => (ColumnDecl.resolve_ok hc).1
  have hrelationships : (d.resolvedRelationships models).map (·.name) =
      d.relationships.map (·.name) := by
    unfold resolvedRelationships
    rw [List.map_map]
    refine List.map_congr_left fun r _ => ?_
    change (r.resolve models d).name = r.name
    unfold RelationshipDecl.resolve
    cases r.cardinality <;> rfl
  unfold attributes attributeNames
  rw [List.map_append, List.map_append, List.map_map, List.map_map, List.map_map,
    ← hcolumns, ← hrelationships]
  rfl

theorem attributeNames_of_resolve (h : d.resolve models = .ok m) :
    m.attributes.map Attribute.name = d.attributeNames := by
  obtain ⟨columns, hc, -, -, -, -, ha⟩ := resolve_ok h
  rw [ha, names_attributes hc]

theorem key_of_resolve (h : d.resolve models = .ok m) : m.primaryKey.name = d.primaryKey := by
  obtain ⟨columns, -, hk, -⟩ := resolve_ok h
  exact Model.name_of_column? hk

theorem wellFormed (hd : d.validate models = .ok ()) (h : d.resolve models = .ok m) :
    m.WellFormed := by
  obtain ⟨hn, -, hv, -, -, -⟩ := validate_ok hd
  obtain ⟨columns, -, hk, -, hversion, -, -⟩ := resolve_ok h
  have hkey := key_of_resolve h
  obtain ⟨decl, -, hdecl⟩ := mem_of_mapM_eq_ok (columns_of_resolve h) (Model.mem_of_column? hk)
  obtain ⟨hname, hnull, hflag⟩ := ColumnDecl.resolve_ok hdecl
  refine ⟨?_, Model.mem_of_column? hk, ?_, ?_, ?_⟩
  · rw [attributeNames_of_resolve h]
    exact (firstRepeated?_eq_none_iff.1 hn).1
  · rw [hflag, ← hname, hkey, beq_self_eq_true]
  · rw [hnull, ← hname, hkey, bne_self_eq_false, Bool.and_false]
  · intro version hm
    rw [hversion] at hm
    rw [hm] at hv
    have hmem := refer_ok hv
    rw [← columnNames_of_resolve h, List.mem_map] at hmem
    exact hmem

/-- The primary key is the only column with its mark. -/
theorem eq_key_of_flag (hd : d.validate models = .ok ()) (h : d.resolve models = .ok m) {c : Column}
    (hc : c ∈ m.columns) (hflag : c.primaryKey = true) : c = m.primaryKey := by
  obtain ⟨decl, -, hdecl⟩ := mem_of_mapM_eq_ok (columns_of_resolve h) hc
  obtain ⟨hname, -, hkey⟩ := ColumnDecl.resolve_ok hdecl
  have hwf := wellFormed hd h
  have hsame : c.name = m.primaryKey.name := by
    rw [key_of_resolve h, hname]
    exact beq_iff_eq.1 (hkey.symm.trans hflag)
  have hcolumn : m.column? c.name = some c := hwf.column?_of_mem hc
  rw [hsame, hwf.column?_key] at hcolumn
  exact (Option.some.inj hcolumn).symm

end ModelDecl

/-! ## Schemas -/

/-- What holds of a resolved schema. -/
structure Schema.WellFormed (s : Schema) : Prop where
  names : (s.models.map (·.name)).Nodup
  models : ∀ m ∈ s.models, m.WellFormed

namespace Schema

theorem mem_of_model? {s : Schema} {name : String} {m : Model} (h : s.model? name = some m) :
    m ∈ s.models :=
  List.mem_of_find?_eq_some h

theorem name_of_model? {s : Schema} {name : String} {m : Model} (h : s.model? name = some m) :
    m.name = name := by
  simpa using List.find?_some h

theorem WellFormed.model?_name {s : Schema} (h : s.WellFormed) {m : Model} (hm : m ∈ s.models) :
    s.model? m.name = some m := by
  obtain ⟨n, hn⟩ : ∃ n, s.model? m.name = some n :=
    Option.isSome_iff_exists.1 (List.find?_isSome.2 ⟨m, hm, by simp⟩)
  rw [hn, List.inj_on_of_nodup_map h.names (mem_of_model? hn) hm (name_of_model? hn)]

end Schema

namespace SchemaDecl

variable {d : SchemaDecl} {s : Schema}

theorem validate_ok (h : d.validate = .ok ()) :
    firstRepeated? [] (d.models.map (·.name)) = none ∧
      ∀ m ∈ d.models, m.validate d.models = .ok () := by
  unfold validate at h
  cases hn : firstRepeated? [] (d.models.map (·.name)) with
  | some name =>
      rw [hn] at h
      cases h
  | none =>
      rw [hn] at h
      exact ⟨rfl, forM_eq_ok_iff.1 h⟩

theorem names_of_mapM_resolve {models : List Model}
    (h : d.models.mapM (ModelDecl.resolve d.models) = .ok models) :
    models.map (·.name) = d.models.map (·.name) :=
  map_eq_of_mapM_eq_ok h fun _ _ hr => by
    obtain ⟨_, -, -, hname, -⟩ := ModelDecl.resolve_ok hr
    exact hname

/-- A model of a resolved schema comes of a description that was checked. -/
theorem exists_decl (h : d.resolve = .ok s) {m : Model} (hm : m ∈ s.models) :
    ∃ decl ∈ d.models, decl.validate d.models = .ok () ∧ decl.resolve d.models = .ok m := by
  obtain ⟨_, hv, h⟩ := bind_eq_ok_iff.1 h
  obtain ⟨models, hmodels, h⟩ := bind_eq_ok_iff.1 h
  obtain rfl := pure_eq_ok_iff.1 h
  obtain ⟨decl, hdecl, hr⟩ := mem_of_mapM_eq_ok hmodels hm
  exact ⟨decl, hdecl, (validate_ok hv).2 decl hdecl, hr⟩

theorem names_of_resolve (h : d.resolve = .ok s) :
    s.models.map (·.name) = d.models.map (·.name) := by
  obtain ⟨_, -, h⟩ := bind_eq_ok_iff.1 h
  obtain ⟨models, hmodels, h⟩ := bind_eq_ok_iff.1 h
  obtain rfl := pure_eq_ok_iff.1 h
  exact names_of_mapM_resolve hmodels

/-- A schema that comes of a description is well formed. -/
theorem wellFormed (h : d.resolve = .ok s) : s.WellFormed := by
  constructor
  · obtain ⟨_, hv, -⟩ := bind_eq_ok_iff.1 h
    rw [names_of_resolve h]
    exact (firstRepeated?_eq_none_iff.1 (validate_ok hv).1).1
  · intro m hm
    obtain ⟨decl, -, hv, hr⟩ := exists_decl h hm
    exact ModelDecl.wellFormed hv hr

/-- A model that is declared under a name is made of its description, which was checked, and found
under the name. -/
theorem exists_model_of_find? (h : d.resolve = .ok s) {name : String} {t : ModelDecl}
    (ht : d.models.find? (·.name == name) = some t) :
    ∃ m, s.model? name = some m ∧ t.validate d.models = .ok () ∧ t.resolve d.models = .ok m := by
  have hwf := wellFormed h
  obtain ⟨_, hv, h⟩ := bind_eq_ok_iff.1 h
  obtain ⟨models, hmodels, h⟩ := bind_eq_ok_iff.1 h
  obtain rfl := pure_eq_ok_iff.1 h
  have hmem := List.mem_of_find?_eq_some ht
  obtain ⟨m, hm, hresolve⟩ := mem_of_mem_of_mapM_eq_ok hmodels hmem
  obtain ⟨_, -, -, hname, -⟩ := ModelDecl.resolve_ok hresolve
  have htname : t.name = name := by simpa using List.find?_some ht
  refine ⟨m, ?_, (validate_ok hv).2 t hmem, hresolve⟩
  rw [← htname, ← hname]
  exact hwf.model?_name hm

/-- The primary key of a model of a resolved schema is the only column with its mark. -/
theorem eq_key_of_flag (h : d.resolve = .ok s) {m : Model} (hm : m ∈ s.models) {c : Column}
    (hc : c ∈ m.columns) (hflag : c.primaryKey = true) : c = m.primaryKey := by
  obtain ⟨decl, -, hv, hr⟩ := exists_decl h hm
  exact ModelDecl.eq_key_of_flag hv hr hc hflag

theorem flag_eq_true_iff (h : d.resolve = .ok s) {m : Model} (hm : m ∈ s.models) {c : Column}
    (hc : c ∈ m.columns) : c.primaryKey = true ↔ c.name = m.primaryKey.name := by
  have hwf := (wellFormed h).models m hm
  constructor
  · intro hflag
    rw [eq_key_of_flag h hm hc hflag]
  · intro hname
    have hcolumn := hwf.column?_of_mem hc
    rw [hname, hwf.column?_key] at hcolumn
    rw [← Option.some.inj hcolumn]
    exact hwf.key_flag

end SchemaDecl

/-! ## Relationships -/

theorem ModelDecl.mem_resolvedRelationships {models : List ModelDecl} {d : ModelDecl} {m : Model}
    (h : d.resolve models = .ok m) {name : String} {r : Relationship}
    (hr : m.relationship? name = some r) : r ∈ d.resolvedRelationships models := by
  obtain ⟨columns, -, -, -, -, -, ha⟩ := resolve_ok h
  obtain ⟨a, hfound, ha'⟩ := Option.bind_eq_some_iff.1 hr
  have hmem := (Model.mem_of_attribute? hfound).1
  obtain rfl := Attribute.relationship?_eq_some_iff.1 ha'
  rw [ha] at hmem
  simpa [attributes] using hmem

theorem RelationshipDecl.target_resolve (models : List ModelDecl) (owner : ModelDecl)
    (r : RelationshipDecl) : (r.resolve models owner).target = r.target := by
  unfold resolve
  cases r.cardinality <;> rfl

/-- The target of a relationship is declared, and the columns that it names are there. -/
theorem ModelDecl.validateRelationship_ok {models : List ModelDecl} {d : ModelDecl}
    {r : RelationshipDecl} (h : d.validateRelationship models r = .ok ()) :
    ∃ target, models.find? (·.name == r.target) = some target ∧
      (r.cardinality = .toOne → r.localColumn.isSome) ∧
      (r.cardinality = .toMany → r.remoteColumn.isSome) ∧
      (∀ name, r.localColumn = some name → name ∈ d.columnNames) ∧
      ∀ name, r.remoteColumn = some name → name ∈ target.columnNames := by
  unfold validateRelationship at h
  split at h
  · next target ht =>
    have hnamed : (r.cardinality = .toOne → r.localColumn.isSome) ∧
        (r.cardinality = .toMany → r.remoteColumn.isSome) ∧
        (do forM r.localColumn (refer .relationshipColumn d.columnNames d.name)
            forM r.remoteColumn (refer .relationshipColumn target.columnNames target.name)) =
          .ok () := by
      dsimp only at h
      cases hc : r.cardinality <;> rw [hc] at h <;> dsimp only at h <;> split at h
      · cases h
      · next hl => exact ⟨fun _ => by simpa [Option.isSome_iff_ne_none] using hl, nofun, h⟩
      · cases h
      · next hr => exact ⟨nofun, fun _ => by simpa [Option.isSome_iff_ne_none] using hr, h⟩
    obtain ⟨hone, hmany, h⟩ := hnamed
    obtain ⟨_, hlocal, hremote⟩ := bind_eq_ok_iff.1 h
    refine ⟨target, ht, hone, hmany, fun name hn => ?_, fun name hn => ?_⟩
    · rw [hn] at hlocal
      exact refer_ok hlocal
    · rw [hn] at hremote
      exact refer_ok hremote
  · cases h

/-- The target of a relationship is a model of the schema. -/
theorem SchemaDecl.exists_target {d : SchemaDecl} {s : Schema} (h : d.resolve = .ok s) {m : Model}
    (hm : m ∈ s.models) {name : String} {r : Relationship} (hr : m.relationship? name = some r) :
    ∃ target, s.model? r.target = some target := by
  obtain ⟨decl, -, hv, hresolve⟩ := exists_decl h hm
  obtain ⟨link, hlink, rfl⟩ := List.mem_map.1 (ModelDecl.mem_resolvedRelationships hresolve hr)
  obtain ⟨-, -, -, -, -, hlinks⟩ := ModelDecl.validate_ok hv
  obtain ⟨t, ht, -⟩ := ModelDecl.validateRelationship_ok (forM_eq_ok_iff.1 hlinks link hlink)
  obtain ⟨target, htarget, -⟩ := exists_model_of_find? h ht
  rw [RelationshipDecl.target_resolve]
  exact ⟨target, htarget⟩

/-- The columns that a relationship is joined on are columns of its model and of its target. -/
theorem SchemaDecl.link_columns {d : SchemaDecl} {s : Schema} (h : d.resolve = .ok s)
    {m target : Model} (hm : m ∈ s.models) {name : String} {r : Relationship}
    (hr : m.relationship? name = some r) (ht : s.model? r.target = some target) :
    (∃ c ∈ m.columns, c.name = r.localColumn) ∧
      ∃ c ∈ target.columns, c.name = r.remoteColumn := by
  obtain ⟨decl, -, hv, hresolve⟩ := exists_decl h hm
  obtain ⟨link, hlink, rfl⟩ := List.mem_map.1 (ModelDecl.mem_resolvedRelationships hresolve hr)
  obtain ⟨-, -, -, -, -, hlinks⟩ := ModelDecl.validate_ok hv
  obtain ⟨other, hfound, hone, hmany, hlocal, hremote⟩ :=
    ModelDecl.validateRelationship_ok (forM_eq_ok_iff.1 hlinks link hlink)
  -- the target comes of the description that the check has found
  obtain ⟨made, hmade, hvother, hresolve'⟩ := exists_model_of_find? h hfound
  obtain rfl : made = target := by
    rw [RelationshipDecl.target_resolve] at ht
    exact Option.some.inj (hmade.symm.trans ht)
  have hkey : decl.primaryKey ∈ decl.columnNames := (ModelDecl.validate_ok hv).2.1
  have hotherKey : other.primaryKey ∈ other.columnNames := (ModelDecl.validate_ok hvother).2.1
  rw [← List.mem_map, ← List.mem_map, ModelDecl.columnNames_of_resolve hresolve,
    ModelDecl.columnNames_of_resolve hresolve']
  unfold RelationshipDecl.resolve
  cases hc : link.cardinality with
  | toOne =>
      obtain ⟨column, hcolumn⟩ := Option.isSome_iff_exists.1 (hone hc)
      refine ⟨by simpa [hcolumn] using hlocal column hcolumn, ?_⟩
      cases hr : link.remoteColumn with
      | none => simpa [hfound] using hotherKey
      | some column => simpa using hremote column hr
  | toMany =>
      obtain ⟨column, hcolumn⟩ := Option.isSome_iff_exists.1 (hmany hc)
      refine ⟨?_, by simpa [hcolumn] using hremote column hcolumn⟩
      cases hl : link.localColumn with
      | none => simpa using hkey
      | some column => simpa using hlocal column hl

theorem mem_addNew {α : Type} [DecidableEq α] {xs : List α} {x y : α} :
    y ∈ addNew xs x ↔ y ∈ xs ∨ y = x := by
  unfold addNew
  split
  · next hx => exact ⟨.inl, fun h => h.elim id fun hy => hy ▸ hx⟩
  · simp

theorem mem_foldl_addNew {α : Type} [DecidableEq α] {xs seen : List α} {y : α} :
    y ∈ xs.foldl addNew seen ↔ y ∈ seen ∨ y ∈ xs := by
  induction xs generalizing seen with
  | nil => simp
  | cons x xs ih => rw [List.foldl_cons, ih, mem_addNew, List.mem_cons, or_assoc]

/-- What a relationship refers by is a foreign key of the schema. -/
theorem SchemaDecl.foreignKey_mem {d : SchemaDecl} {s : Schema} (h : d.resolve = .ok s) {m : Model}
    (hm : m ∈ s.models) {name : String} {r : Relationship} (hr : m.relationship? name = some r) :
    r.foreignKey m.name ∈ s.foreignKeys := by
  obtain ⟨decl, hdecl, -, hresolve⟩ := exists_decl h hm
  obtain ⟨_, -, -, hname, -⟩ := ModelDecl.resolve_ok hresolve
  obtain ⟨_, -, h⟩ := bind_eq_ok_iff.1 h
  obtain ⟨models, -, h⟩ := bind_eq_ok_iff.1 h
  obtain rfl := pure_eq_ok_iff.1 h
  refine mem_foldl_addNew.2 (.inr (List.mem_flatMap.2 ⟨decl, hdecl, ?_⟩))
  rw [hname]
  exact List.mem_map_of_mem (ModelDecl.mem_resolvedRelationships hresolve hr)

/-! ## A schema of notes -/

/-- A model of notes, which have a number, a version and a text. -/
def Model.note : Model where
  name := "note"
  tableName := "note"
  schemaName := none
  attributes := [.column ⟨"id", .integer, "integer", false, false, true⟩,
    .column ⟨"version", .integer, "integer", false, false, false⟩,
    .column ⟨"text", .string, "text", true, false, false⟩]
  primaryKey := ⟨"id", .integer, "integer", false, false, true⟩
  unique := []
  versionColumn := some "version"

/-- A schema with notes alone. -/
def Schema.notes : Schema :=
  ⟨[.note], []⟩

/-- The description of a schema with notes alone. -/
def SchemaDecl.notes : SchemaDecl where
  models := [{
    name := "note"
    table := none
    schema := none
    primaryKey := "id"
    columns := [⟨"id", ⟨"integer", []⟩, false, false, none, none, none⟩,
      ⟨"version", ⟨"integer", []⟩, false, false, none, none, none⟩,
      ⟨"text", ⟨"text", []⟩, true, false, none, none, none⟩]
    relationships := []
    properties := []
    unique := []
    versionColumn := some "version"
    comment := none }]

/-- The models and foreign keys of a schema are all of it. -/
theorem SchemaDecl.resolve_eq_of_parts {d : SchemaDecl} {s : Schema}
    (h : d.resolve.toOption.map (fun t => (t.models, t.foreignKeys)) =
      some (s.models, s.foreignKeys)) : d.resolve = .ok s := by
  obtain ⟨models, keys⟩ := s
  cases hr : d.resolve with
  | error e =>
      rw [hr] at h
      cases h
  | ok t =>
      rw [hr] at h
      cases h
      rfl

theorem SchemaDecl.resolve_notes : SchemaDecl.notes.resolve = .ok .notes :=
  resolve_eq_of_parts (by decide +kernel)

/-! ## A schema of employees -/

/-- A model of employees, who may have a boss. -/
def Model.employee : Model where
  name := "employee"
  tableName := "employee"
  schemaName := none
  attributes := [.column ⟨"id", .integer, "integer", false, false, true⟩,
    .column ⟨"boss_id", .integer, "integer", true, false, false⟩,
    .relationship ⟨"boss", "employee", .toOne, "boss_id", "id"⟩]
  primaryKey := ⟨"id", .integer, "integer", false, false, true⟩
  unique := []
  versionColumn := none

/-- A schema with employees alone. -/
def Schema.employees : Schema :=
  ⟨[.employee], [⟨"employee", "boss_id", "employee", "id"⟩]⟩

/-- The description of a schema with employees alone. -/
def SchemaDecl.employees : SchemaDecl where
  models := [{
    name := "employee"
    table := none
    schema := none
    primaryKey := "id"
    columns := [⟨"id", ⟨"integer", []⟩, false, false, none, none, none⟩,
      ⟨"boss_id", ⟨"integer", []⟩, true, false, none, none, none⟩]
    relationships := [⟨"boss", "employee", .toOne, some "boss_id", none⟩]
    properties := []
    unique := []
    versionColumn := none
    comment := none }]

theorem SchemaDecl.resolve_employees : SchemaDecl.employees.resolve = .ok .employees :=
  resolve_eq_of_parts (by decide +kernel)

end RecordApi
