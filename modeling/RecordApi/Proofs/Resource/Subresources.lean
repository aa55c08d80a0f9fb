import RecordApi.Proofs.Resource.Nested

/-!
# Creations with subresources

A `POST` that may create subresources and succeeds creates the family of every object of its body
(`Endpoint.families_created`): one record for the object and one for every object behind one of its
relationships. Each of these records refers to the first one, or is referred to by it. The columns
on which they are joined hold the same, if they have one type. What the relationships must be like
is said by `Config.LinksApart`.
-/

namespace RecordApi

variable {σ : Type} {m target : Model} {schema : Schema}

/-! ## Columns that hold the same -/

namespace Relationship

/-- The columns on which a relationship is joined have one type. -/
def SameTyped (m target : Model) (r : Relationship) : Prop :=
  (m.column? r.localColumn).map Column.type = (target.column? r.remoteColumn).map Column.type

/-- Records behind a relationship get keys that are made up: it is joined on their key, and nothing
is in the column that this would be taken from. -/
structure MakesKeys (target : Model) (r : Relationship) (parent : Record) : Prop where
  many : r.isToMany = true
  key : r.remoteColumn = target.primaryKey.name
  null : parent.get r.localColumn = .null

variable {r : Relationship} {parent child : Record}

/-- What is linked over columns of one type has equal values there. -/
theorem Links.get_eq (h : r.Links m target parent child) (hparent : parent.Valid m)
    (hchild : child.Valid target) {c d : Column} (hc : m.column? r.localColumn = some c)
    (hd : target.column? r.remoteColumn = some d) (hlocal : m.versionColumn ≠ some r.localColumn)
    (hremote : target.versionColumn ≠ some r.remoteColumn) (htypes : r.SameTyped m target) :
    child.get r.remoteColumn = parent.get r.localColumn ∨ r.MakesKeys target parent := by
  have htype : c.type = d.type := by simpa [SameTyped, hc, hd] using htypes
  cases h with
  | many hmany column held =>
      obtain rfl := Option.some.inj (hd.symm.trans column)
      rw [← htype, Value.fits_iff.1 (hparent.fits_of_ne hc hlocal)] at held
      exact .inl (Except.ok.inj held).symm
  | keyed hmany key null => exact .inr ⟨hmany, key, null⟩
  | one hone column held =>
      obtain rfl := Option.some.inj (hc.symm.trans column)
      rw [htype, Value.fits_iff.1 (hchild.fits_of_ne hd hremote)] at held
      exact .inl (Except.ok.inj held)

/-- Equal values that a foreign key relates are the same. -/
theorem same_of_refers {t : Tables}
    (hkey : t.checkForeignKey (r.foreignKey m.name) = .ok ()) (hparent : parent ∈ t.rows m.name)
    (hchild : child ∈ t.rows r.target)
    (heq : child.get r.remoteColumn = parent.get r.localColumn) :
    (child.get r.remoteColumn).same (parent.get r.localColumn) = true := by
  by_cases hnull : parent.get r.localColumn = .null
  · rw [heq, hnull]
    rfl
  · -- the one that refers finds a value that is the same as its own
    unfold foreignKey at hkey
    rw [heq]
    cases hcardinality : r.cardinality with
    | toOne =>
        rw [hcardinality] at hkey
        obtain ⟨other, -, hsame⟩ := Tables.refers_of_checkForeignKey hkey hparent hnull
        exact Value.same_self_of_same _ hsame
    | toMany =>
        rw [hcardinality] at hkey
        obtain ⟨other, -, hsame⟩ :=
          Tables.refers_of_checkForeignKey hkey hchild (heq ▸ hnull)
        rw [← heq]
        exact Value.same_self_of_same _ hsame

end Relationship

/-! ## Relationships that can be used together -/

namespace Config

variable {config : Config σ} {members : Json.Members}

/-- The relationships of the objects that are behind an object. -/
def usedRelationships (m : Model) (members : Json.Members) : List Relationship :=
  (objectLinks m members).map Prod.fst

/-- The links of an object do not disturb each other. The object has no member twice, and no
relationship that it uses is joined on a version. A reference stands in a column that is neither the
key nor used by another relationship, and versions are not keys where there are references. -/
structure LinksApart (schema : Schema) (m : Model) (members : Json.Members) : Prop where
  names : (members.map Prod.fst).Nodup
  localVersion : ∀ r ∈ usedRelationships m members, m.versionColumn ≠ some r.localColumn
  remoteVersion : ∀ r ∈ usedRelationships m members,
    (schema.model? r.target).bind Model.versionColumn ≠ some r.remoteColumn
  key : ∀ r ∈ usedRelationships m members, r.isToMany = false →
    r.localColumn ≠ m.primaryKey.name ∧ m.versionColumn ≠ some m.primaryKey.name
  others : ∀ r ∈ usedRelationships m members, ∀ r' ∈ usedRelationships m members,
    r.isToMany = false → r'.name ≠ r.name → r'.localColumn ≠ r.localColumn

instance (schema : Schema) (m : Model) (members : Json.Members) :
    Decidable (LinksApart schema m members) :=
  decidable_of_iff
    ((members.map Prod.fst).Nodup ∧
      (∀ r ∈ usedRelationships m members, m.versionColumn ≠ some r.localColumn) ∧
      (∀ r ∈ usedRelationships m members,
        (schema.model? r.target).bind Model.versionColumn ≠ some r.remoteColumn) ∧
      (∀ r ∈ usedRelationships m members, r.isToMany = false →
        r.localColumn ≠ m.primaryKey.name ∧ m.versionColumn ≠ some m.primaryKey.name) ∧
      ∀ r ∈ usedRelationships m members, ∀ r' ∈ usedRelationships m members,
        r.isToMany = false → r'.name ≠ r.name → r'.localColumn ≠ r.localColumn)
    ⟨fun ⟨names, localVersion, remoteVersion, key, others⟩ =>
        ⟨names, localVersion, remoteVersion, key, others⟩,
      fun h => ⟨h.names, h.localVersion, h.remoteVersion, h.key, h.others⟩⟩

theorem usedRelationships_cons (member : String × Json) (members : Json.Members) :
    usedRelationships m (member :: members) =
      usedRelationships m [member] ++ usedRelationships m members := by
  simp [usedRelationships, objectLinks]

theorem exists_of_usedRelationships {r : Relationship} (h : r ∈ usedRelationships m members) :
    ∃ member ∈ members, m.relationship? member.1 = some r := by
  obtain ⟨⟨r', object⟩, hx, rfl⟩ := List.mem_map.1 h
  obtain ⟨member, hmember, hx⟩ := List.mem_flatMap.1 hx
  refine ⟨member, hmember, ?_⟩
  dsimp only at hx
  split at hx
  · cases hx
  · next hr =>
    obtain ⟨_, -, heq⟩ := List.mem_map.1 hx
    cases heq
    exact hr

/-- No more than one object is behind a relationship to one. -/
theorem length_linkedObjects {r : Relationship} (hone : r.isToMany = false) (v : Json) :
    ((linkedObjects r v).toOption.getD []).length ≤ 1 := by
  unfold linkedObjects
  rw [hone]
  cases v <;> simp [Except.toOption]

/-- A relationship to one is used once. -/
theorem pairwise_usedRelationships (h : (members.map Prod.fst).Nodup) :
    (usedRelationships m members).Pairwise fun r' r => r.isToMany = false → r'.name ≠ r.name := by
  induction members with
  | nil => exact .nil
  | cons member members ih =>
      rw [List.map_cons, List.nodup_cons] at h
      rw [usedRelationships_cons]
      refine List.pairwise_append.2 ⟨?_, ih h.2, fun r' hr' r hr _ hname => ?_⟩
      · unfold usedRelationships objectLinks
        rw [List.flatMap_singleton]
        dsimp only
        split
        · exact .nil
        · next r hr =>
          rw [List.map_map, List.pairwise_map]
          cases hmany : r.isToMany with
          | true => exact List.pairwise_of_forall fun _ _ hone => by simp [hmany] at hone
          | false =>
              have hlength := length_linkedObjects hmany member.2
              exact List.pairwise_iff_getElem.2 fun i j hi hj hij => by omega
      · obtain ⟨other, hother, hfound'⟩ := exists_of_usedRelationships hr'
        obtain rfl := List.mem_singleton.1 hother
        obtain ⟨later, hlater, hfound⟩ := exists_of_usedRelationships hr
        refine h.1 (List.mem_map.2 ⟨later, hlater, ?_⟩)
        rw [← Model.name_of_relationship? hfound, ← hname, Model.name_of_relationship? hfound']

theorem map_relationship_of_childOf {xs : List (Relationship × Json.Members)}
    {links : List LinkedChild} (h : List.Forall₂ config.ChildOf xs links) :
    links.map LinkedChild.relationship = xs.map Prod.fst := by
  induction h with
  | nil => rfl
  | cons hx _ ih => rw [List.map_cons, List.map_cons, ih, hx.relationship]

/-- What is created behind an object is sound, if the links of the object are apart. -/
theorem LinksApart.sound {d : SchemaDecl} (hd : d.resolve = .ok schema)
    (hconfig : config.schema = schema) (hm : m ∈ schema.models) (h : LinksApart schema m members)
    {links : List LinkedChild}
    (hlinks : List.Forall₂ config.ChildOf (objectLinks m members) links) :
    LinkedChild.AllSound schema m links := by
  have hrelationships : links.map LinkedChild.relationship = usedRelationships m members :=
    map_relationship_of_childOf hlinks
  have hused : ∀ x ∈ links, x.relationship ∈ usedRelationships m members := fun x hx => by
    rw [← hrelationships]
    exact List.mem_map_of_mem hx
  have htarget : ∀ x ∈ links, schema.model? x.relationship.target = some x.target := by
    intro x hx
    obtain ⟨y, -, hchild⟩ := exists_mem_of_forall₂ hlinks hx
    rw [← hconfig, hchild.relationship]
    exact hchild.target
  have hwf := SchemaDecl.wellFormed hd
  refine ⟨htarget, fun x hx => ?_, ?_⟩
  · obtain ⟨member, -, hr⟩ := exists_of_usedRelationships (hused x hx)
    obtain ⟨⟨c, hc, hlocal⟩, e, he, hremote⟩ := SchemaDecl.link_columns hd hm hr (htarget x hx)
    have htargetwf := hwf.models x.target (Schema.mem_of_model? (htarget x hx))
    exact {
      localColumn := ⟨c, hlocal ▸ (hwf.models m hm).column?_of_mem hc⟩
      remoteColumn := ⟨e, hremote ▸ htargetwf.column?_of_mem he⟩
      localVersion := h.localVersion _ (hused x hx)
      remoteVersion := by simpa [htarget x hx] using h.remoteVersion _ (hused x hx)
      key := h.key _ (hused x hx) }
  · have hpairs := pairwise_usedRelationships (m := m) h.names
    rw [← hrelationships, List.pairwise_map] at hpairs
    exact hpairs.imp_of_mem fun {y x} hy hx hname hone =>
      h.others _ (hused x hx) _ (hused y hy) hone (hname hone)

end Config

/-! ## Bodies -/

namespace Collection

variable {config : Config σ} {ctx : Context}

/-- What a body asks for is read off its objects. -/
theorem creations_eq_ok {body : Json} (hbody : ctx.body = some body) {parsed : List ParsedBody}
    {isArray : Bool} (h : creations config ctx = .ok (parsed, isArray)) :
    ∃ objects path bodies, Config.bodyObjects body = .ok (objects, isArray) ∧
      config.pathAttributes config.model ctx.pathParams = .ok path ∧
      List.Forall₂ (fun members b => config.parseObject config.model config.allowSubresources
        members = .ok b) objects bodies ∧
      parsed = bodies.map fun b =>
        ⟨Config.withDefaults config.postDefaults ctx (b.override path).attributes, b.linked⟩ := by
  unfold creations at h
  obtain ⟨body', hcreation, h⟩ := bind_eq_ok_iff.1 h
  obtain rfl : body = body' := by
    unfold creationBody at hcreation
    rw [hbody] at hcreation
    cases body with
    | object members | array items =>
        dsimp only at hcreation
        split at hcreation
        · cases hcreation
          rfl
        · cases hcreation
    | null | bool b | int n | float x | string s =>
        cases hcreation
        rfl
  obtain ⟨path, hpath, h⟩ := bind_eq_ok_iff.1 h
  obtain ⟨⟨overridden, asArray⟩, hparse, h⟩ := bind_eq_ok_iff.1 h
  unfold Config.parseBody at hparse
  obtain ⟨⟨objects, fromArray⟩, hobjects, hparse⟩ := bind_eq_ok_iff.1 hparse
  obtain ⟨bodies, hbodies, hparse⟩ := bind_eq_ok_iff.1 hparse
  cases hparse
  cases h
  refine ⟨objects, path, bodies, hobjects, hpath, mapM_eq_ok_iff.1 hbodies, ?_⟩
  rw [List.map_map]
  rfl

end Collection

/-! ## Families -/

/-- A record was created for an object behind a relationship of another record: it holds what the
object gives, and the two are linked. What they are joined on is the same, if the columns have one
type and no key was made up. -/
inductive Config.RaisesBehind (config : Config σ) (parent : Record) :
    Relationship × Json.Members → Relationship × Record → Prop
  | intro {r : Relationship} {members : Json.Members} {child : Record} {target : Model}
      {b : ParsedBody} (named : config.schema.model? r.target = some target)
      (parsed : config.parseFlat target members = .ok b)
      (holds : child.Holds target b.attributes r.childColumns)
      (links : r.Links config.model target parent child)
      (same : r.SameTyped config.model target → ¬r.MakesKeys target parent →
        (child.get r.remoteColumn).same (parent.get r.localColumn) = true) :
      RaisesBehind config parent (r, members) (r, child)

/-- A family was created for an object of a body: its first record holds what the object, the path
and the defaults give, and there is one record behind it for each object behind a relationship. -/
inductive Config.Raises (config : Config σ) (ctx : Context) : Json.Members → Family → Prop
  | intro {members : Json.Members} {f : Family} {b : ParsedBody} {path : Record}
      (parsed : config.parseObject config.model true members = .ok b)
      (located : config.pathAttributes config.model ctx.pathParams = .ok path)
      (holds : f.parent.Holds config.model
        (Config.withDefaults config.postDefaults ctx (b.override path).attributes)
        ((usedRelationships config.model members).flatMap Relationship.parentColumns))
      (children : List.Forall₂ (config.RaisesBehind f.parent) (objectLinks config.model members)
        f.children) :
      Raises config ctx members f

/-- A family that was made from what an object gives was created for it, where the foreign keys of
its relationships were checked. -/
theorem Config.raises_of_made {config : Config σ} {ctx : Context} {members : Json.Members}
    {b : ParsedBody} {path : Record} {f : Family} {t t' : Tables} {families : List Family}
    (hparsed : config.parseObject config.model true members = .ok b)
    (hpath : config.pathAttributes config.model ctx.pathParams = .ok path)
    (hsound : ∀ x ∈ config.linkedChildren config.model b.linked, x.Sound config.model)
    (hmade : Family.Made config.model ⟨Config.withDefaults config.postDefaults ctx
      (b.override path).attributes, config.linkedChildren config.model b.linked⟩ f)
    (hgained : t.Gained config.model families t') (hf : f ∈ families)
    (hrefers : ∀ r ∈ usedRelationships config.model members,
      t'.checkForeignKey (r.foreignKey config.model.name) = .ok ()) :
    config.Raises ctx members f := by
  obtain ⟨-, hchildren⟩ := childrenOf_parseObject hparsed
  refine .intro hparsed hpath ?_ ?_
  · have hused := map_relationship_of_childOf hchildren
    have hcolumns : (usedRelationships config.model members).flatMap Relationship.parentColumns =
        (config.linkedChildren config.model b.linked).flatMap (·.relationship.parentColumns) := by
      rw [usedRelationships, ← hused, List.flatMap_map]
    rw [hcolumns]
    exact hmade.holds
  · have hlinks := (List.forall₂_and_left _ _).2 ⟨fun x hx => hx, hmade.children⟩
    refine forall₂_comp hchildren hlinks ?_
    rintro ⟨r, object⟩ hobject x ⟨r', child⟩ hchild ⟨rfl, htarget, hobjectParsed⟩
      ⟨hx, rfl, hvalid, hholds, hlink⟩
    have hx := hsound x hx
    obtain ⟨c, hc⟩ := hx.localColumn
    obtain ⟨e, he⟩ := hx.remoteColumn
    refine .intro htarget hobjectParsed hholds hlink fun htypes hkeys => ?_
    have heq := (hlink.get_eq hmade.valid hvalid hc he hx.localVersion hx.remoteVersion
      htypes).resolve_right hkeys
    exact Relationship.same_of_refers
      (hrefers _ (List.mem_map_of_mem hobject)) (hgained.parent_mem hf)
      (hgained.child_mem hf hchild) heq

/-- The committed work of a creation has created a family for every object of the body. -/
theorem Collection.raises_of_posting {d : SchemaDecl} (hd : d.resolve = .ok schema)
    {config : Config σ} (hconfig : config.schema = schema)
    (hmodel : schema.model? config.model.name = some config.model)
    (hsub : config.allowSubresources = true) {ctx : Context} {body : Json}
    (hbody : ctx.body = some body) {objects : List Json.Members} {isArray : Bool}
    (hobjects : Config.bodyObjects body = .ok (objects, isArray))
    (hapart : ∀ members ∈ objects, Config.LinksApart schema config.model members)
    {s u : Session σ} {w : Written} {store : Store}
    (hbegun : s.tx.From schema s.store.tables) (hworking : s.tx.working = s.store.tables)
    (hrun : posting config ctx s = (.ok w, u)) (hcommit : u.store.commit u.tx = .ok store) :
    ∃ families, List.Forall₂ (config.Raises ctx) objects families ∧
      s.store.tables.Gained config.model families store.tables ∧
      w = ⟨(families.map Family.parent).map (config.shown ctx),
        fun data => dataEnvelope (if isArray then .array data else data.getLastD .null), true⟩ := by
  have hm := Schema.mem_of_model? hmodel
  have hs := SchemaDecl.wellFormed hd
  obtain ⟨⟨parsed, asArray⟩, hcreations, -⟩ := SessionM.lift_bind_eq_ok hrun
  obtain ⟨objects', path, bodies, hobjects', hpath, hbodies, rfl⟩ :=
    creations_eq_ok hbody hcreations
  obtain ⟨rfl, rfl⟩ := Prod.mk.inj (Except.ok.inj (hobjects.symm.trans hobjects'))
  rw [hsub] at hbodies
  have hsound : ∀ members ∈ objects, ∀ b, config.parseObject config.model true members = .ok b →
      LinkedChild.AllSound schema config.model (config.linkedChildren config.model b.linked) :=
    fun members hmembers b hb =>
      (hapart members hmembers).sound hd hconfig hm (Config.childrenOf_parseObject hb).2
  obtain ⟨stored, rfl, hleaves⟩ :=
    SessionM.Yields.posting (t := s.store.tables) hs hmodel hcreations
      (by
        intro b' hb'
        obtain ⟨b, hb, rfl⟩ := List.mem_map.1 hb'
        obtain ⟨members, hmembers, hparsed⟩ := exists_mem_of_forall₂ hbodies hb
        exact ⟨(Config.childrenOf_parseObject hparsed).1, hsound members hmembers b hparsed⟩)
      s ⟨hbegun, .inl ⟨[], .nil, rfl, hworking.symm ▸ .nil s.store.tables⟩⟩ w u hrun
  have hkeeps : u.store.tables = s.store.tables := keeps_posting.tables_eq hrun
  obtain ⟨families, hmade, rfl, hgained⟩ :=
    (hkeeps.symm ▸ hleaves).of_commit (hs.models _ hm) hmodel hcommit
  rw [hkeeps] at hgained
  rw [List.map_map, List.forall₂_map_left_iff] at hmade
  refine ⟨families, forall₂_comp hbodies hmade ?_, hgained, rfl⟩
  intro members hmembers b f hf hparsed hmade
  refine Config.raises_of_made hparsed hpath (hsound members hmembers b hparsed).link hmade
    hgained hf fun r hr => ?_
  -- the records of the model are more than before, so that its foreign keys were checked
  obtain ⟨member, -, hfound⟩ := Config.exists_of_usedRelationships hr
  have hkey := SchemaDecl.foreignKey_mem hd hm hfound
  have hchanged : store.tables.rows config.model.name ≠ u.store.tables.rows config.model.name :=
    hkeeps.symm ▸ hgained.rows_ne hf
  refine Store.checkForeignKey_of_commit hcommit (hleaves.begun.of.symm ▸ hkey) ?_
  unfold Relationship.foreignKey
  cases r.cardinality with
  | toOne => exact .inl hchanged
  | toMany => exact .inr hchanged

/-! ## A schema of shops -/

/-- A model of shops, which have a number, a code of a type that is not known, a place, and an item
of which they have most. They have items behind their number and their code, and slots behind their
place. -/
def Model.shop : Model where
  name := "shop"
  tableName := "shop"
  schemaName := none
  attributes := [.column ⟨"id", .integer, "integer", false, false, true⟩,
    .column ⟨"code", .other "inet", "inet", true, false, false⟩,
    .column ⟨"place", .integer, "integer", true, false, false⟩,
    .column ⟨"item_id", .integer, "integer", true, false, false⟩,
    .relationship ⟨"items", "item", .toMany, "id", "shop_id"⟩,
    .relationship ⟨"main", "item", .toOne, "item_id", "id"⟩,
    .relationship ⟨"coded", "item", .toMany, "code", "code"⟩,
    .relationship ⟨"slots", "slot", .toMany, "place", "id"⟩]
  primaryKey := ⟨"id", .integer, "integer", false, false, true⟩
  unique := []
  versionColumn := none

/-- A model of items, which have a number and a code, and may be in a shop. -/
def Model.item : Model where
  name := "item"
  tableName := "item"
  schemaName := none
  attributes := [.column ⟨"id", .integer, "integer", false, false, true⟩,
    .column ⟨"shop_id", .integer, "integer", true, false, false⟩,
    .column ⟨"code", .integer, "integer", true, false, false⟩]
  primaryKey := ⟨"id", .integer, "integer", false, false, true⟩
  unique := []
  versionColumn := none

/-- A model of slots, which have a number. -/
def Model.slot : Model where
  name := "slot"
  tableName := "slot"
  schemaName := none
  attributes := [.column ⟨"id", .integer, "integer", false, false, true⟩]
  primaryKey := ⟨"id", .integer, "integer", false, false, true⟩
  unique := []
  versionColumn := none

/-- A model of crates, which have a number that is their version too, and an item. -/
def Model.crate : Model where
  name := "crate"
  tableName := "crate"
  schemaName := none
  attributes := [.column ⟨"id", .integer, "integer", false, false, true⟩,
    .column ⟨"item_id", .integer, "integer", true, false, false⟩,
    .relationship ⟨"item", "item", .toOne, "item_id", "id"⟩]
  primaryKey := ⟨"id", .integer, "integer", false, false, true⟩
  unique := []
  versionColumn := some "id"

/-- A schema of shops and of what is in them. -/
def Schema.shops : Schema :=
  ⟨[.shop, .item, .slot, .crate], [⟨"item", "shop_id", "shop", "id"⟩,
    ⟨"shop", "item_id", "item", "id"⟩, ⟨"item", "code", "shop", "code"⟩,
    ⟨"slot", "id", "shop", "place"⟩, ⟨"crate", "item_id", "item", "id"⟩]⟩

/-- The description of a schema of shops. -/
def SchemaDecl.shops : SchemaDecl where
  models := [{
    name := "shop"
    table := none
    schema := none
    primaryKey := "id"
    columns := [⟨"id", ⟨"integer", []⟩, false, false, none, none, none⟩,
      ⟨"code", ⟨"inet", []⟩, true, false, none, none, none⟩,
      ⟨"place", ⟨"integer", []⟩, true, false, none, none, none⟩,
      ⟨"item_id", ⟨"integer", []⟩, true, false, none, none, none⟩]
    relationships := [⟨"items", "item", .toMany, none, some "shop_id"⟩,
      ⟨"main", "item", .toOne, some "item_id", none⟩,
      ⟨"coded", "item", .toMany, some "code", some "code"⟩,
      ⟨"slots", "slot", .toMany, some "place", some "id"⟩]
    properties := []
    unique := []
    versionColumn := none
    comment := none }, {
    name := "item"
    table := none
    schema := none
    primaryKey := "id"
    columns := [⟨"id", ⟨"integer", []⟩, false, false, none, none, none⟩,
      ⟨"shop_id", ⟨"integer", []⟩, true, false, none, none, none⟩,
      ⟨"code", ⟨"integer", []⟩, true, false, none, none, none⟩]
    relationships := []
    properties := []
    unique := []
    versionColumn := none
    comment := none }, {
    name := "slot"
    table := none
    schema := none
    primaryKey := "id"
    columns := [⟨"id", ⟨"integer", []⟩, false, false, none, none, none⟩]
    relationships := []
    properties := []
    unique := []
    versionColumn := none
    comment := none }, {
    name := "crate"
    table := none
    schema := none
    primaryKey := "id"
    columns := [⟨"id", ⟨"integer", []⟩, false, false, none, none, none⟩,
      ⟨"item_id", ⟨"integer", []⟩, true, false, none, none, none⟩]
    relationships := [⟨"item", "item", .toOne, some "item_id", none⟩]
    properties := []
    unique := []
    versionColumn := some "id"
    comment := none }]

theorem SchemaDecl.resolve_shops : SchemaDecl.shops.resolve = .ok .shops :=
  resolve_eq_of_parts (by decide +kernel)

/-- The collection of all records of a model of the schema, which may be created with
subresources. -/
def Config.withSubresources (m : Model) : Config Unit :=
  { Config.ofModel Unit .shops m with allowSubresources := true }

/-- A server without shops. -/
def Server.noShops : Server Unit :=
  ⟨.empty .shops fun _ => default, ()⟩

/-- A request to create records from some objects. -/
def Context.creating (objects : List Json.Members) : Context :=
  { Context.ofMethod .post with body := some (.array (objects.map .object)) }

namespace Endpoint

/-- A `POST` that may create subresources and succeeds has created one family for every object of
its body. The tables are those from before with the records of the families behind, and the answer
shows the first record of each family, in the order of the body. -/
theorem families_created {d : SchemaDecl} (config : Config σ) (server : Server σ)
    (hd : d.resolve = .ok server.store.schema) (hconfig : config.schema = server.store.schema)
    (hmodel : config.schema.model? config.model.name = some config.model)
    (hooks : config.hooks = .none σ) (hsub : config.allowSubresources = true) (ctx : Context)
    {admitted : Context} (hadmitted : config.receive config.collectionMethods ctx = .ok admitted)
    (hmethod : admitted.method = .post) {body : Json} (hbody : admitted.body = some body)
    {objects : List Json.Members} {isArray : Bool}
    (hobjects : Config.bodyObjects body = .ok (objects, isArray))
    (hapart : ∀ members ∈ objects, Config.LinksApart config.schema config.model members)
    (hstatus : (collection config).status ctx server = 201) :
    ∃ families data, List.Forall₂ (config.Raises admitted) objects families ∧
      server.store.tables.Gained config.model families
        ((collection config).tablesAfter ctx server) ∧
      Collection.createdData config admitted (families.map Family.parent) = .ok data ∧
      ((collection config).handle ctx server).1 =
        .ok (.created (dataEnvelope (if isArray then .array data else data.getLastD .null))) := by
  have hooks' : (collection config).config.hooks = .none σ := hooks
  have hwriting : (collection config).writing admitted =
      some (.write, Collection.posting config admitted) := by
    simp only [writing, hmethod]
  have hsucceeds : (collection config).status ctx server < 400 := by
    rw [hstatus]
    decide
  obtain ⟨w, s, store, hrun, hcommit, htables⟩ :=
    writes_of_status hooks' hadmitted hwriting hsucceeds
  obtain ⟨hanswer, -⟩ := handle_of_writes hooks' (.intro hadmitted hwriting hrun hcommit)
  rw [hconfig] at hmodel hapart
  obtain ⟨families, hraises, hgained, rfl⟩ := Collection.raises_of_posting hd hconfig hmodel hsub
    hbody hobjects hapart (Transaction.from_begin server.store) rfl hrun hcommit
  have hshown : ((collection config).handle ctx server).1 =
      (Collection.createdData config admitted (families.map Family.parent)).map fun data =>
        .created (dataEnvelope (if isArray then .array data else data.getLastD .null)) := by
    rw [Collection.createdData_eq]
    exact hanswer
  rw [status, hshown] at hstatus
  cases hdata : Collection.createdData config admitted (families.map Family.parent) with
  | error e =>
      rw [hdata] at hstatus
      exact absurd hstatus (Nat.ne_of_gt (Nat.lt_of_lt_of_le (by decide) e.le_status))
  | ok data =>
      refine ⟨families, data, hraises, htables ▸ hgained, hdata, ?_⟩
      rw [hshown, hdata]
      rfl

/-- A shop with three items, of one of which it has most, and a shop without. -/
def shopsWithItems : List Json.Members :=
  [[("items", .array [.object [], .object []]), ("main", .object [])], []]

theorem families_created_shopsWithItems :
    (collection (.withSubresources .shop)).status (.creating shopsWithItems) .noShops = 201 ∧
      ∃ families data,
        List.Forall₂ ((Config.withSubresources .shop).Raises (.creating shopsWithItems))
          shopsWithItems families ∧
        Tables.Gained .shop [] families ((collection (.withSubresources .shop)).tablesAfter
          (.creating shopsWithItems) .noShops) ∧
        Collection.createdData (.withSubresources .shop) (.creating shopsWithItems)
          (families.map Family.parent) = .ok data ∧
        ((collection (.withSubresources .shop)).handle (.creating shopsWithItems) .noShops).1 =
          .ok (.created (dataEnvelope (.array data))) := by
  have hstatus : (collection (.withSubresources .shop)).status (.creating shopsWithItems)
      .noShops = 201 := by decide +kernel
  have hapart : ∀ members ∈ shopsWithItems, Config.LinksApart .shops .shop members := by
    decide +kernel
  exact ⟨hstatus, families_created (.withSubresources .shop) .noShops SchemaDecl.resolve_shops rfl
    rfl rfl rfl (.creating shopsWithItems) rfl rfl rfl rfl hapart hstatus⟩

/-- A shop that has the number five as its code, and one that has the text, with an item. -/
def shopsWithCodes : List Json.Members :=
  [[("code", .int 5)], [("code", .string "5"), ("coded", .array [.object []])]]

/-- A shop with a place, and one without, which has a slot. -/
def shopsWithPlaces : List Json.Members :=
  [[("place", .int 1)], [("slots", .array [.object []])]]

/-- The steps that commit one crate. -/
def crateSteps : List Step :=
  [.begin "a", .insert "a" "crate" (.ofList [("id", .int 1)]), .commit "a"]

/-- A server with one crate. -/
def oneCrate : Server Unit :=
  ⟨((Sessions.empty .shops fun _ => default).after crateSteps).store, ()⟩

/-- A further crate with the number of the first one, and an item in it. -/
def crateWithItem : List Json.Members :=
  [[("id", .int 1), ("item", .object [])]]

/-- Not every record is linked to the one that it was created behind. The item of the shop with a
text as its code takes a number of it, which is the code of the other shop. The slot of the shop
without a place gets a number that is made up. And where the version is the key, the crate that was
there before gets the item of the new one. -/
theorem linked_to_others :
    ((collection (.withSubresources .shop)).status (.creating shopsWithCodes) .noShops = 201 ∧
      (∀ members ∈ shopsWithCodes, Config.LinksApart .shops .shop members) ∧
      let after := (collection (.withSubresources .shop)).tablesAfter (.creating shopsWithCodes)
        .noShops
      (after.rows "shop").map (·.get "code") = [.int 5, .text "5"] ∧
        (after.rows "item").map (·.get "code") = [.int 5] ∧
        (Value.int 5).same (.text "5") = false) ∧
    ((collection (.withSubresources .shop)).status (.creating shopsWithPlaces) .noShops = 201 ∧
      (∀ members ∈ shopsWithPlaces, Config.LinksApart .shops .shop members) ∧
      let after := (collection (.withSubresources .shop)).tablesAfter (.creating shopsWithPlaces)
        .noShops
      (after.rows "shop").map (·.get "place") = [.int 1, .null] ∧
        (after.rows "slot").map (·.get "id") = [.int 1]) ∧
    (collection (.withSubresources .crate)).status (.creating crateWithItem) oneCrate = 201 ∧
      let after := (collection (.withSubresources .crate)).tablesAfter (.creating crateWithItem)
        oneCrate
      oneCrate.store.tables.rows "crate" = [.ofList [("id", .int 1)]] ∧
        after.rows "crate" =
          [.ofList [("id", .int 2), ("item_id", .int 1)], .ofList [("id", .int 1)]] :=
  ⟨⟨by decide +kernel, by decide +kernel, by rfl, by rfl, by decide +kernel⟩,
    ⟨by decide +kernel, by decide +kernel, by rfl, by rfl⟩, by decide +kernel, by rfl, by rfl⟩

end Endpoint

end RecordApi
