import RecordApi.Proofs.Schema.Resolved

/-!
# Schemas against their descriptions

What a description that is accepted gives. Every model of it becomes a model with the same
attributes, each of which is found at its own place and nowhere else. Whatever a model refers to by
name is there, with the primary keys in place of the columns that a relationship leaves open. The
foreign keys are those of the relationships, each once, so that the two directions of a relationship
have one in common. The primary key is looked up when a model is made of its description, and a
description that was checked never lacks it.
-/

namespace RecordApi

/-! ## What a description gives -/

/-- The index leads from every name to the place of its own attribute and from nothing else, so that
every attribute is found under its name. At the place of the primary key stands its column. -/
structure Model.Indexed (m : Model) : Prop where
  place : ∀ name i, m.index.get? name = some i ↔
    (m.attributes[i]?).map Attribute.name = some name
  lookup : ∀ name a, m.attribute? name = some a ↔ a ∈ m.attributes ∧ a.name = name
  key : ∃ i, m.index.get? m.primaryKey.name = some i ∧
    m.attributes[i]? = some (.column m.primaryKey)

/-- Whatever a model of a schema refers to by name is there. -/
structure Model.Closed (s : Schema) (m : Model) : Prop where
  version : ∀ name, m.versionColumn = some name → m.isColumn name
  unique : ∀ names ∈ m.unique, names ≠ [] ∧ ∀ name ∈ names, m.isColumn name
  property : ∀ p, .property p ∈ m.attributes → ∀ name, p.writes = some name → m.isColumn name
  relationship : ∀ r ∈ m.relationships, ∃ target, s.model? r.target = some target ∧
    m.isColumn r.localColumn ∧ target.isColumn r.remoteColumn

/-- A relationship is as it is described, with the primary keys for the columns that are left
open: that of the target with `toOne`, and that of the owner with `toMany`. -/
structure RelationshipDecl.Gives (owner other : Model) (d : RelationshipDecl)
    (r : Relationship) : Prop where
  name : r.name = d.name
  target : r.target = d.target
  cardinality : r.cardinality = d.cardinality
  toOne : d.cardinality = .toOne →
    d.localColumn = some r.localColumn ∧ r.remoteColumn = d.remoteColumn.getD other.primaryKey.name
  toMany : d.cardinality = .toMany →
    d.remoteColumn = some r.remoteColumn ∧ r.localColumn = d.localColumn.getD owner.primaryKey.name

/-- A model is as it is described. -/
structure ModelDecl.Gives (s : Schema) (d : ModelDecl) (m : Model) : Prop where
  name : m.name = d.name
  attributeNames : m.attributes.map Attribute.name = d.attributeNames
  columnNames : m.columns.map (·.name) = d.columnNames
  key : m.primaryKey.name = d.primaryKey
  versionColumn : m.versionColumn = d.versionColumn
  unique : m.unique = d.unique
  relationships : List.Forall₂ (fun link r => ∃ target, s.model? r.target = some target ∧
    link.Gives m target r) d.relationships m.relationships

/-- What is true of a schema and the description that it comes of. -/
structure SchemaDecl.Describes (d : SchemaDecl) (s : Schema) : Prop where
  models : List.Forall₂ (ModelDecl.Gives s) d.models s.models
  found : ∀ m ∈ s.models, s.model? m.name = some m
  indexed : ∀ m ∈ s.models, m.Indexed
  closed : ∀ m ∈ s.models, m.Closed s
  foreignKeys : ∀ k, k ∈ s.foreignKeys ↔ ∃ m ∈ s.models, ∃ r ∈ m.relationships,
    (r.cardinality = .toOne ∧ k = ⟨m.name, r.localColumn, r.target, r.remoteColumn⟩) ∨
      (r.cardinality = .toMany ∧ k = ⟨r.target, r.remoteColumn, m.name, r.localColumn⟩)
  foreignKeys_nodup : s.foreignKeys.Nodup
  foreignKeys_shared : ∀ m ∈ s.models, ∀ r ∈ m.relationships, ∀ n ∈ s.models,
    ∀ back ∈ n.relationships, r.cardinality = .toOne → back.cardinality = .toMany →
      r.target = n.name → back.target = m.name → r.localColumn = back.remoteColumn →
      r.remoteColumn = back.localColumn →
        r.foreignKey m.name = back.foreignKey n.name ∧
          s.foreignKeys.count (r.foreignKey m.name) = 1

/-! ## Attributes -/

namespace Model

variable {m : Model}

theorem isColumn_iff (h : (m.attributes.map Attribute.name).Nodup) {name : String} :
    m.isColumn name ↔ name ∈ m.columns.map (·.name) := by
  unfold isColumn
  rw [Option.isSome_iff_exists, List.mem_map]
  exact exists_congr fun c => column?_eq_some_iff h

theorem relationship?_of_mem (h : (m.attributes.map Attribute.name).Nodup) {r : Relationship}
    (hr : r ∈ m.relationships) : m.relationship? r.name = some r := by
  obtain ⟨a, ha, hr⟩ := List.mem_filterMap.1 hr
  obtain rfl := Attribute.relationship?_eq_some_iff.1 hr
  exact Option.bind_eq_some_iff.2 ⟨_, (attribute?_eq_some_iff h).2 ⟨ha, rfl⟩, rfl⟩

theorem WellFormed.indexed (h : m.WellFormed) : m.Indexed where
  place _ _ := Attribute.get?_places_eq_some_iff h.names
  lookup _ _ := attribute?_eq_some_iff h.names
  key := by
    obtain ⟨i, hi⟩ := List.getElem?_of_mem (mem_columns.1 h.key_mem)
    exact ⟨i, (Attribute.get?_places_eq_some_iff h.names).2 (by rw [hi]; rfl), hi⟩

end Model

/-! ## Models -/

namespace ModelDecl

variable {models : List ModelDecl} {d : ModelDecl} {m : Model}

theorem relationships_of_resolve (h : d.resolve models = .ok m) :
    m.relationships = d.resolvedRelationships models := by
  obtain ⟨columns, -, -, -, -, -, ha⟩ := resolve_ok h
  unfold Model.relationships
  rw [ha, attributes, List.filterMap_append, List.filterMap_append, List.filterMap_map,
    List.filterMap_map, List.filterMap_map]
  change List.filterMap (fun _ => none) _ ++ (d.resolvedRelationships models).filterMap some ++
    List.filterMap (fun _ => none) _ = d.resolvedRelationships models
  simp

theorem mem_properties_of_resolve (h : d.resolve models = .ok m) {p : Property}
    (hp : .property p ∈ m.attributes) : p ∈ d.properties := by
  obtain ⟨columns, -, -, -, -, -, ha⟩ := resolve_ok h
  rw [ha] at hp
  simpa [attributes] using hp

/-- A model whose description was checked fails only with a type that cannot be read. -/
theorem exists_type_of_resolve_error (hd : d.validate models = .ok ()) {e : SchemaError}
    (h : d.resolve models = .error e) : ∃ c ∈ d.columns, c.resolveType = .error e := by
  unfold resolve at h
  cases hc : d.columns.mapM (ColumnDecl.resolve d.primaryKey) with
  | error e' =>
      rw [hc] at h
      cases h
      obtain ⟨c, hmem, hfail⟩ := exists_of_mapM_eq_error hc
      refine ⟨c, hmem, ?_⟩
      unfold ColumnDecl.resolve at hfail
      cases ht : c.resolveType with
      | error e'' =>
          rw [ht] at hfail
          cases hfail
          rfl
      | ok type =>
          rw [ht] at hfail
          cases hfail
  | ok columns =>
      exfalso
      obtain ⟨hrepeated, hkey, -⟩ := validate_ok hd
      have hnames : ((d.attributes models columns).map Attribute.name).Nodup := by
        rw [names_attributes hc]
        exact (firstRepeated?_eq_none_iff.1 hrepeated).1
      -- the key is among the names that were checked, and the columns keep their names
      have hcolumns : columns.map (·.name) = d.columnNames :=
        map_eq_of_mapM_eq_ok hc fun _ _ hr => (ColumnDecl.resolve_ok hr).1
      obtain ⟨key, hmem, hname⟩ := List.mem_map.1 (hcolumns ▸ hkey)
      have hattribute : .column key ∈ d.attributes models columns :=
        List.mem_append_left _ (List.mem_append_left _ (List.mem_map_of_mem hmem))
      obtain ⟨place, hplace⟩ := List.getElem?_of_mem hattribute
      have hfound : (Attribute.places (d.attributes models columns)).get? d.primaryKey =
          some place :=
        (Attribute.get?_places_eq_some_iff hnames).2 (by rw [hplace, ← hname]; rfl)
      rw [hc] at h
      simp only [bind, Except.bind, hfound, hplace] at h
      cases h

end ModelDecl

/-! ## Schemas -/

namespace SchemaDecl

variable {d : SchemaDecl} {s : Schema}

/-- A relationship that was checked is made as it is described. -/
theorem exists_gives (h : d.resolve = .ok s) {decl : ModelDecl} {m : Model}
    (hm : decl.resolve d.models = .ok m) {link : RelationshipDecl}
    (hlink : decl.validateRelationship d.models link = .ok ()) :
    ∃ target, s.model? (link.resolve d.models decl).target = some target ∧
      link.Gives m target (link.resolve d.models decl) := by
  obtain ⟨t, ht, hone, hmany, -, -⟩ := ModelDecl.validateRelationship_ok hlink
  obtain ⟨target, htarget, -, hresolve⟩ := exists_model_of_find? h ht
  refine ⟨target, by rw [RelationshipDecl.target_resolve]; exact htarget, ?_⟩
  have hkey := ModelDecl.key_of_resolve hresolve
  have hownkey := ModelDecl.key_of_resolve hm
  unfold RelationshipDecl.resolve
  cases hc : link.cardinality with
  | toOne =>
      obtain ⟨column, hcolumn⟩ := Option.isSome_iff_exists.1 (hone hc)
      exact ⟨rfl, rfl, hc.symm, fun _ => ⟨by simp [hcolumn], by simp [ht, hkey]⟩,
        fun hother => nomatch hc.symm.trans hother⟩
  | toMany =>
      obtain ⟨column, hcolumn⟩ := Option.isSome_iff_exists.1 (hmany hc)
      exact ⟨rfl, rfl, hc.symm, fun hother => (nomatch hc.symm.trans hother),
        fun _ => ⟨by simp [hcolumn], by simp [hownkey]⟩⟩

theorem gives (h : d.resolve = .ok s) {decl : ModelDecl} {m : Model}
    (hd : decl.validate d.models = .ok ()) (hm : decl.resolve d.models = .ok m) :
    decl.Gives s m := by
  obtain ⟨_, -, -, hname, hversion, hunique, -⟩ := ModelDecl.resolve_ok hm
  obtain ⟨-, -, -, -, -, hlinks⟩ := ModelDecl.validate_ok hd
  refine ⟨hname, ModelDecl.attributeNames_of_resolve hm, ModelDecl.columnNames_of_resolve hm,
    ModelDecl.key_of_resolve hm, hversion, hunique, ?_⟩
  rw [ModelDecl.relationships_of_resolve hm]
  unfold ModelDecl.resolvedRelationships
  rw [List.forall₂_map_right_iff, List.forall₂_same]
  exact fun link hlink => exists_gives h hm (forM_eq_ok_iff.1 hlinks link hlink)

theorem closed (h : d.resolve = .ok s) {m : Model} (hm : m ∈ s.models) : m.Closed s := by
  obtain ⟨decl, -, hv, hr⟩ := exists_decl h hm
  obtain ⟨-, -, hversion, hunique, hproperties, -⟩ := ModelDecl.validate_ok hv
  obtain ⟨_, -, -, -, heqVersion, heqUnique, -⟩ := ModelDecl.resolve_ok hr
  have hwf := wellFormed h
  have hnames := (hwf.models m hm).names
  have hcolumn {name : String} (hn : name ∈ decl.columnNames) : m.isColumn name := by
    rw [Model.isColumn_iff hnames, ModelDecl.columnNames_of_resolve hr]
    exact hn
  constructor
  case version =>
    intro name hn
    rw [← heqVersion, hn] at hversion
    exact hcolumn (ModelDecl.refer_ok hversion)
  case unique =>
    intro names hn
    rw [heqUnique] at hn
    have hchecked := forM_eq_ok_iff.1 hunique names hn
    unfold ModelDecl.validateUnique at hchecked
    split at hchecked
    · cases hchecked
    · next hempty =>
      refine ⟨fun hnil => hempty (by simp [hnil]), fun name hmem => ?_⟩
      exact hcolumn (ModelDecl.refer_ok (forM_eq_ok_iff.1 hchecked name hmem))
  case property =>
    intro p hp name hn
    have hchecked := forM_eq_ok_iff.1 hproperties p (ModelDecl.mem_properties_of_resolve hr hp)
    rw [hn] at hchecked
    exact hcolumn (ModelDecl.refer_ok hchecked)
  case relationship =>
    intro r hmem
    have hfound := Model.relationship?_of_mem hnames hmem
    obtain ⟨target, htarget⟩ := exists_target h hm hfound
    have htnames := (hwf.models target (Schema.mem_of_model? htarget)).names
    obtain ⟨hlocal, hremote⟩ := link_columns h hm hfound htarget
    refine ⟨target, htarget, ?_, ?_⟩
    · rwa [Model.isColumn_iff hnames, List.mem_map]
    · rwa [Model.isColumn_iff htnames, List.mem_map]

/-! ## Foreign keys -/

theorem nodup_foldl_addNew {α : Type} [DecidableEq α] {xs seen : List α} (h : seen.Nodup) :
    (xs.foldl addNew seen).Nodup := by
  induction xs generalizing seen with
  | nil => exact h
  | cons x xs ih =>
      refine ih ?_
      unfold addNew
      split
      · exact h
      · next hx => exact List.nodup_append.2 ⟨h, List.nodup_singleton x, by
          rintro a ha b hb rfl
          exact hx (List.mem_singleton.1 hb ▸ ha)⟩

theorem mem_foreignKeys_iff (h : d.resolve = .ok s) {k : ForeignKey} :
    k ∈ s.foreignKeys ↔ ∃ m ∈ s.models, ∃ r ∈ m.relationships, r.foreignKey m.name = k := by
  constructor
  · intro hk
    obtain ⟨_, -, h⟩ := bind_eq_ok_iff.1 h
    obtain ⟨models, hmodels, h⟩ := bind_eq_ok_iff.1 h
    obtain rfl := pure_eq_ok_iff.1 h
    rcases mem_foldl_addNew.1 hk with hk | hk
    · cases hk
    · obtain ⟨decl, hdecl, hk⟩ := List.mem_flatMap.1 hk
      obtain ⟨r, hr, rfl⟩ := List.mem_map.1 hk
      obtain ⟨m, hm, hresolve⟩ := mem_of_mem_of_mapM_eq_ok hmodels hdecl
      obtain ⟨_, -, -, hname, -⟩ := ModelDecl.resolve_ok hresolve
      exact ⟨m, hm, r, by rwa [ModelDecl.relationships_of_resolve hresolve], by rw [hname]⟩
  · rintro ⟨m, hm, r, hr, rfl⟩
    exact foreignKey_mem h hm (Model.relationship?_of_mem ((wellFormed h).models m hm).names hr)

theorem foreignKeys_nodup (h : d.resolve = .ok s) : s.foreignKeys.Nodup := by
  obtain ⟨_, -, h⟩ := bind_eq_ok_iff.1 h
  obtain ⟨models, -, h⟩ := bind_eq_ok_iff.1 h
  obtain rfl := pure_eq_ok_iff.1 h
  exact nodup_foldl_addNew List.nodup_nil

end SchemaDecl

theorem Relationship.foreignKey_eq_iff {owner : String} {r : Relationship} {k : ForeignKey} :
    r.foreignKey owner = k ↔
      (r.cardinality = .toOne ∧ k = ⟨owner, r.localColumn, r.target, r.remoteColumn⟩) ∨
        (r.cardinality = .toMany ∧ k = ⟨r.target, r.remoteColumn, owner, r.localColumn⟩) := by
  unfold foreignKey
  cases r.cardinality <;> simp [eq_comm]

namespace SchemaDecl

variable {d : SchemaDecl} {s : Schema}

theorem describes (h : d.resolve = .ok s) : d.Describes s := by
  have hwf := wellFormed h
  constructor
  case models =>
    obtain ⟨_, hv, hr⟩ := bind_eq_ok_iff.1 h
    obtain ⟨models, hmodels, hr⟩ := bind_eq_ok_iff.1 hr
    obtain rfl := pure_eq_ok_iff.1 hr
    have hmade := (List.forall₂_and_left _ _).2 ⟨(validate_ok hv).2, mapM_eq_ok_iff.1 hmodels⟩
    exact hmade.imp fun decl m ⟨hd, hm⟩ => gives h hd hm
  case found => exact fun m hm => hwf.model?_name hm
  case indexed => exact fun m hm => (hwf.models m hm).indexed
  case closed => exact fun m hm => closed h hm
  case foreignKeys =>
    intro k
    rw [mem_foreignKeys_iff h]
    simp only [Relationship.foreignKey_eq_iff]
  case foreignKeys_nodup => exact foreignKeys_nodup h
  case foreignKeys_shared =>
    intro m hm r hr n hn back _ hone hmany htarget hback hlocal hremote
    constructor
    · unfold Relationship.foreignKey
      rw [hone, hmany, htarget, hback, hlocal, hremote]
    · exact List.count_eq_one_of_mem (foreignKeys_nodup h) ((mem_foreignKeys_iff h).2
        ⟨m, hm, r, hr, rfl⟩)

/-- A schema is as its description says, and refers to nothing that is not there. A description
that was checked can only fail with a type that cannot be read, so its primary keys are found. -/
theorem describes_of_resolve (d : SchemaDecl) :
    (∀ s, d.resolve = .ok s → d.Describes s) ∧
      ∀ e, d.validate = .ok () → d.resolve = .error e →
        ∃ m ∈ d.models, ∃ c ∈ m.columns, c.resolveType = .error e := by
  refine ⟨fun s h => describes h, fun e hv h => ?_⟩
  unfold resolve at h
  rw [hv] at h
  cases hmodels : d.models.mapM (ModelDecl.resolve d.models) with
  | ok models =>
      change (d.models.mapM (ModelDecl.resolve d.models) >>= fun _ => _) = _ at h
      rw [hmodels] at h
      cases h
  | error e' =>
      change (d.models.mapM (ModelDecl.resolve d.models) >>= fun _ => _) = _ at h
      rw [hmodels] at h
      cases h
      obtain ⟨m, hm, hfail⟩ := exists_of_mapM_eq_error hmodels
      exact ⟨m, hm, ModelDecl.exists_type_of_resolve_error ((validate_ok hv).2 m hm) hfail⟩

end SchemaDecl

/-! ## A schema of companies -/

/-- A schema of companies with their employees, who refer to them. -/
def Schema.companies : Schema where
  models := [{
    name := "company"
    tableName := "companies"
    schemaName := none
    attributes := [.column ⟨"id", .integer, "integer", false, false, true⟩,
      .column ⟨"name", .string, "varchar", false, true, false⟩,
      .relationship ⟨"employees", "employee", .toMany, "id", "company_id"⟩]
    primaryKey := ⟨"id", .integer, "integer", false, false, true⟩
    unique := []
    versionColumn := none }, {
    name := "employee"
    tableName := "employees"
    schemaName := none
    attributes := [.column ⟨"id", .integer, "integer", false, false, true⟩,
      .column ⟨"pay_rate", .decimal, "numeric(12,4)", false, false, false⟩,
      .column ⟨"company_id", .integer, "integer", true, false, false⟩,
      .relationship ⟨"company", "company", .toOne, "company_id", "id"⟩,
      .property ⟨"wage", some "pay_rate"⟩]
    primaryKey := ⟨"id", .integer, "integer", false, false, true⟩
    unique := [["company_id", "pay_rate"]]
    versionColumn := none }]
  foreignKeys := [⟨"employee", "company_id", "company", "id"⟩]

/-- The description of companies and their employees. Each of the two relationships leaves the
primary key of the company open. -/
def SchemaDecl.companies : SchemaDecl where
  models := [{
    name := "company"
    table := some "companies"
    schema := none
    primaryKey := "id"
    columns := [⟨"id", ⟨"integer", []⟩, false, false, none, none, none⟩,
      ⟨"name", ⟨"varchar", []⟩, false, true, none, none, none⟩]
    relationships := [⟨"employees", "employee", .toMany, none, some "company_id"⟩]
    properties := []
    unique := []
    versionColumn := none
    comment := none }, {
    name := "employee"
    table := some "employees"
    schema := none
    primaryKey := "id"
    columns := [⟨"id", ⟨"integer", []⟩, false, false, none, none, none⟩,
      ⟨"pay_rate", ⟨"numeric", [12, 4]⟩, false, false, none, none, none⟩,
      ⟨"company_id", ⟨"integer", []⟩, true, false, none, none, none⟩]
    relationships := [⟨"company", "company", .toOne, some "company_id", none⟩]
    properties := [⟨"wage", some "pay_rate"⟩]
    unique := [["company_id", "pay_rate"]]
    versionColumn := none
    comment := none }]

theorem SchemaDecl.resolve_companies : SchemaDecl.companies.resolve = .ok .companies :=
  resolve_eq_of_parts (by decide +kernel)

/-- A description whose only fault is a geometry with four ordinates. -/
def SchemaDecl.places : SchemaDecl where
  models := [{
    name := "place"
    table := none
    schema := none
    primaryKey := "id"
    columns := [⟨"id", ⟨"integer", []⟩, false, false, none, none, none⟩,
      ⟨"location", ⟨"geometry", []⟩, false, false, none, some 4, none⟩]
    relationships := []
    properties := []
    unique := []
    versionColumn := none
    comment := none }]

theorem SchemaDecl.resolve_places :
    SchemaDecl.places.resolve = .error (.geometryDimension "location") := by
  have hfails : (match SchemaDecl.places.resolve with
      | .ok _ => false
      | .error e => e = .geometryDimension "location") = true := by decide +kernel
  cases hr : SchemaDecl.places.resolve with
  | ok s => rw [hr] at hfails; cases hfails
  | error e => rw [hr] at hfails; rw [of_decide_eq_true hfails]

theorem SchemaDecl.describes_of_resolve_companies_places :
    SchemaDecl.companies.resolve = .ok .companies ∧ SchemaDecl.companies.Describes .companies ∧
      SchemaDecl.places.validate = .ok () ∧
      SchemaDecl.places.resolve = .error (.geometryDimension "location") ∧
      ∃ m ∈ SchemaDecl.places.models, ∃ c ∈ m.columns,
        c.resolveType = .error (.geometryDimension "location") := by
  have hchecked : SchemaDecl.places.validate = .ok () := by decide
  exact ⟨resolve_companies, (describes_of_resolve .companies).1 .companies resolve_companies,
    hchecked, resolve_places, (describes_of_resolve .places).2 _ hchecked resolve_places⟩

end RecordApi
