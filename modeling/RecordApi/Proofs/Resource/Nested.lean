import RecordApi.Proofs.Resource.Bodies
import RecordApi.Proofs.Resource.Staying
import RecordApi.Proofs.Value.Ordered

/-!
# Records that are created together

A `POST` with subresources creates a family for every object of its body: a record, and one record
for every object behind its relationships (`Family`). A record behind a relationship to many gets
what refers to the parent, and the parent what refers to a record behind a relationship to one
(`Relationship.Links`). Updates of the parent keep what earlier ones set, since no two relationships
share a column. They go by its key, which no other record has in tables that are committed
(`Model.Leaves`). So the work leaves the old tables with the records of all families behind
(`SessionM.Yields.posting`).
-/

namespace RecordApi

variable {σ : Type} {m : Model}

/-! ## Tables that are left, or keys that clash -/

/-- A transaction has left its tables as a condition says; or it has written to a model of which two
records have a key, so that it is not committed. -/
structure Model.Leaves (m : Model) (Good : Tables → Prop) (schema : Schema) (tables : Tables)
    (tx : Transaction) : Prop where
  begun : tx.From schema tables
  cases : Good tx.working ∨
    (∃ op, op ∈ m.writes tx.log) ∧ hasClash [m.primaryKey.name] (tx.working.rows m.name) = true

namespace Model.Leaves

variable {Good Good' : Tables → Prop} {schema : Schema} {tables : Tables} {tx : Transaction}
  {n : Model} {name model : String} {op : Operation} {rows : List Record} {r : Record}

theorem mono (h : m.Leaves Good schema tables tx) (hgood : ∀ t, Good t → Good' t) :
    m.Leaves Good' schema tables tx :=
  ⟨h.begun, h.cases.imp_left (hgood _)⟩

/-- A record is inserted. -/
theorem insert (h : m.Leaves Good schema tables tx) {values : Record}
    (hw : tx.Writes n (.insert name model values) (.record r) op rows)
    (hgood : ∀ t, Good t → Good' (t.setRows model (t.rows model ++ [r]))) :
    m.Leaves Good' schema tables (tx.wrote n rows op) := by
  have hbegun := h.begun.wrote hw
  cases hw with
  | insert named =>
      obtain rfl := Schema.name_of_model? named
      refine ⟨hbegun, h.cases.imp (hgood _) ?_⟩
      rintro ⟨⟨op, hop⟩, hclash⟩
      refine ⟨⟨op, ?_⟩, ?_⟩
      · rw [Transaction.wrote, Model.writes_append]
        exact List.mem_append_left _ hop
      · simp only [Transaction.wrote, Tables.rows_setRows]
        split
        · next hname => exact hasClash_mono (List.sublist_append_left _ _) (hname ▸ hclash)
        · exact hclash

/-- A record of the model is updated, which keeps its key. -/
theorem update (hm : schema.model? m.name = some m) (hwf : m.WellFormed)
    (hversion : m.versionColumn ≠ some m.primaryKey.name) {current changes : Record}
    (hset : changes.contains m.primaryKey.name = false)
    (h : m.Leaves Good schema tables tx)
    (hw : tx.Writes n (.update name m.name current changes) (.record r) op rows)
    (hgood : ∀ t, Good t → ∃ before after, t.rows m.name = before ++ current :: after ∧
      current.Valid m ∧ (Record.Patched m current changes r → r.Valid m →
        Good' (t.setRows m.name (before ++ r :: after)))) :
    m.Leaves Good' schema tables (tx.wrote n rows op) := by
  obtain rfl : n = m :=
    Option.some.inj (hw.model?_of_update.symm.trans (h.begun.of.symm ▸ hm))
  have hclash : hasClash [n.primaryKey.name] (tx.working.rows n.name) = true →
      hasClash [n.primaryKey.name] rows = true := fun hclash =>
    (hw.hasClash_of_update hversion (fun hc => by simp [hset] at hc) hclash).resolve_left id
  have hop : op ∈ n.writes (tx.log ++ [op]) := by
    rw [Model.writes_append]
    exact List.mem_append_right _ (List.mem_filter.2 ⟨List.mem_cons_self, by simp [hw.model?.1]⟩)
  refine ⟨h.begun.wrote hw, ?_⟩
  simp only [Transaction.wrote, Tables.rows_setRows, if_pos]
  rcases h.cases with hleft | ⟨-, htwice⟩
  · obtain ⟨before, after, hrows, hvalid, hnext⟩ := hgood _ hleft
    have hchanges := hw.valid hwf
    cases hw with
    | @update _ _ _ _ given p _ normalized place notNull =>
        obtain ⟨hplace, hp⟩ := Transaction.placeOf_eq_ok place
        rw [hplace] at hrows hclash
        have hfirst := @Place.Named.eq_or_exists_before n p ⟨before, current, after⟩ _ hp hrows
        rcases hfirst with rfl | ⟨q, hq, hsame⟩
        · exact .inl (hnext (Record.patched_merge normalized) (hvalid.merge hchanges))
        · refine .inr ⟨⟨_, hop⟩, hclash ?_⟩
          change (n.keyOf q).same (n.keyOf current) = true at hsame
          have hcurrent : n.keyOf current ≠ .null := hvalid.notNull _ hwf.key_mem hwf.key_not_null
          have hnull : n.keyOf q ≠ .null := by
            intro hq
            rw [hq, Value.null_same hcurrent] at hsame
            cases hsame
          rw [hrows]
          exact hasClash_append hq List.mem_cons_self (clash_key_iff.2 ⟨hnull, hsame⟩)
  · exact .inr ⟨⟨op, hop⟩, hclash htwice⟩

/-- What a committed transaction has left is what the condition says. -/
theorem of_commit (hwf : m.WellFormed) (hm : schema.model? m.name = some m) {s s' : Store}
    (h : m.Leaves Good schema s.tables tx) (hc : s.commit tx = .ok s') : Good s'.tables := by
  have hworking := h.begun.tables_of_commit hc
  rcases h.cases with hgood | ⟨⟨op, hop⟩, hclash⟩
  · exact hworking ▸ hgood
  · have hnone := Store.hasClash_of_commit hwf (h.begun.of ▸ hm) hc hop
    rw [hworking, hclash] at hnone
    cases hnone

end Model.Leaves

/-! ## What records are given -/

/-- A record has what its columns take of some values. Nothing is said of its version, of some
further columns, and of a key that is given as null. -/
def Record.Holds (m : Model) (r values : Record) (except : List String) : Prop :=
  ∀ name c v, m.column? name = some c → values.get? name = some v → name ∉ except →
    m.versionColumn ≠ some name → ∃ w, v.coerce c.type = .ok w ∧
      ((w = .null → name ≠ m.primaryKey.name) → r.get? name = some w)

theorem Model.get?_columnValues {values : Record} {name : String} {c : Column}
    (hc : m.column? name = some c) : (m.columnValues values).get? name = values.get? name := by
  rw [columnValues, Record.get?_restrict, if_pos (by simp [isColumn, hc])]

theorem Record.Holds.of_insert {tx : Transaction} {name model : String} {values r : Record}
    {op : Operation} {rows : List Record} (except : List String)
    (hw : tx.Writes m (.insert name model (m.columnValues values)) (.record r) op rows) :
    r.Holds m values except := by
  intro column c v hc hv _ hversion
  obtain ⟨w, hcoerce, hget⟩ := hw.get?_of_insert hc ((Model.get?_columnValues hc).trans hv)
  exact ⟨w, hcoerce, fun hkey => hget fun hnull => ⟨hkey hnull, hversion⟩⟩

/-- A change of one column leaves the others. -/
theorem Record.Patched.get?_of_ne {r r' : Record} {column name : String} {v : Value}
    (h : Record.Patched m r (Record.empty.insert column v) r') (hname : name ≠ column)
    (hversion : m.versionColumn ≠ some name) : r'.get? name = r.get? name := by
  refine h.kept name hversion (.inr ?_)
  rw [Record.get?_insert, if_neg hname]
  rfl

/-- The column that was changed holds what it takes of the value. -/
theorem Record.Patched.get_column {r r' : Record} {column : String} {c : Column} {v : Value}
    (h : Record.Patched m r (Record.empty.insert column v) r') (hc : m.column? column = some c)
    (hversion : m.versionColumn ≠ some column) : v.coerce c.type = .ok (r'.get column) := by
  have hv : (Record.empty.insert column v).get? column = some v := by
    rw [Record.get?_insert, if_pos rfl]
  obtain ⟨w, hw, hget⟩ := h.given column c v hversion hc hv
  rw [Record.get, hget, hw]
  rfl

/-! ## Links -/

/-- A record of a model refers to one behind a relationship, or is referred to by it: the column
that refers holds what it takes of the value of the other one. Where several records are behind the
relationship, and it is joined on their key, a key is made up for a null. -/
inductive Relationship.Links (m target : Model) (r : Relationship) (parent child : Record) : Prop
  | many (hmany : r.isToMany = true) {c : Column} (column : target.column? r.remoteColumn = some c)
      (held : (parent.get r.localColumn).coerce c.type = .ok (child.get r.remoteColumn))
  | keyed (hmany : r.isToMany = true) (key : r.remoteColumn = target.primaryKey.name)
      (null : parent.get r.localColumn = .null)
  | one (hone : r.isToMany = false) {c : Column} (column : m.column? r.localColumn = some c)
      (held : (child.get r.remoteColumn).coerce c.type = .ok (parent.get r.localColumn))

/-- The column of a record that a link to one behind it sets. -/
def Relationship.parentColumns (r : Relationship) : List String :=
  if r.isToMany then [] else [r.localColumn]

/-- The column of a record that the link to it sets. -/
def Relationship.childColumns (r : Relationship) : List String :=
  if r.isToMany then [r.remoteColumn] else []

/-- The links of a record depend on the column on which they are joined. -/
theorem Relationship.Links.congr {target : Model} {r : Relationship}
    {parent parent' child : Record} (h : r.Links m target parent child)
    (hget : parent'.get r.localColumn = parent.get r.localColumn) :
    r.Links m target parent' child := by
  cases h with
  | many hmany column held => exact .many hmany column (hget ▸ held)
  | keyed hmany key null => exact .keyed hmany key (hget ▸ null)
  | one hone column held => exact .one hone column (hget ▸ held)

/-- A new record behind a relationship to many is linked by what it is given. -/
theorem Relationship.links_of_insert {target : Model} {r : Relationship} {parent child : Record}
    {attributes : Record} {tx : Transaction} {name model : String} {op : Operation}
    {rows : List Record} {c : Column} (hmany : r.isToMany = true)
    (hc : target.column? r.remoteColumn = some c)
    (hversion : target.versionColumn ≠ some r.remoteColumn)
    (hw : tx.Writes target (.insert name model (target.columnValues
      (attributes.insert r.remoteColumn (parent.get r.localColumn)))) (.record child) op rows) :
    r.Links m target parent child := by
  have hv : (target.columnValues (attributes.insert r.remoteColumn
      (parent.get r.localColumn))).get? r.remoteColumn = some (parent.get r.localColumn) := by
    rw [Model.get?_columnValues hc, Record.get?_insert, if_pos rfl]
  obtain ⟨w, hcoerce, hget⟩ := hw.get?_of_insert hc hv
  by_cases hfilled : w = .null ∧ r.remoteColumn = target.primaryKey.name
  · obtain ⟨rfl, hkey⟩ := hfilled
    refine .keyed hmany hkey ?_
    by_contra hnull
    exact Value.ne_null_of_coerce hcoerce hnull rfl
  · refine .many hmany hc ?_
    rw [hcoerce, Record.get, hget fun hnull => ⟨fun hkey => hfilled ⟨hnull, hkey⟩, hversion⟩]
    rfl

/-! ## Families -/

/-- A record that a request creates, and those that it creates behind it, each with its
relationship. -/
structure Family where
  parent : Record
  children : List (Relationship × Record)

namespace Family

/-- The records of a family of a model that stand under a name. -/
def records (m : Model) (name : String) (f : Family) : List Record :=
  (if name = m.name then [f.parent] else []) ++
    (f.children.filter fun x => name = x.1.target).map Prod.snd

/-- The family with a further record behind its parent. -/
def add (f : Family) (r : Relationship) (child : Record) : Family :=
  { f with children := f.children ++ [(r, child)] }

theorem records_add (name : String) (f : Family) (r : Relationship) (child : Record) :
    (f.add r child).records m name =
      f.records m name ++ if name = r.target then [child] else [] := by
  unfold records add
  by_cases hname : name = r.target
  · simp [hname]
  · simp [hname]

end Family

/-- Tables have the records of some families behind those of others. -/
def Tables.Gained (m : Model) (t : Tables) (families : List Family) (t' : Tables) : Prop :=
  ∀ name, t'.rows name = t.rows name ++ families.flatMap (Family.records m name)

namespace Tables.Gained

variable {t t' : Tables} {families : List Family} {f : Family}

theorem parent (h : t.Gained m families t') (r : Record) :
    t.Gained m (families ++ [⟨r, []⟩]) (t'.setRows m.name (t'.rows m.name ++ [r])) := by
  intro name
  rw [rows_setRows]
  by_cases hname : name = m.name
  · simp [hname, h m.name, Family.records]
  · simp [hname, h name, Family.records]

theorem child (h : t.Gained m (families ++ [f]) t') (r : Relationship) (child : Record) :
    t.Gained m (families ++ [f.add r child])
      (t'.setRows r.target (t'.rows r.target ++ [child])) := by
  intro name
  have hrows := h name
  rw [List.flatMap_append, List.flatMap_singleton] at hrows ⊢
  rw [rows_setRows, Family.records_add]
  by_cases hname : name = r.target
  · subst hname
    simp [hrows]
  · simp [hname, hrows]

/-- The parent of the last family stands in a place of its own. -/
theorem split (h : t.Gained m (families ++ [f]) t') :
    ∃ before after, t'.rows m.name = before ++ f.parent :: after ∧
      ∀ r, t.Gained m (families ++ [{ f with parent := r }])
        (t'.setRows m.name (before ++ r :: after)) := by
  refine ⟨t.rows m.name ++ families.flatMap (Family.records m m.name),
    (f.children.filter fun x => m.name = x.1.target).map Prod.snd, ?_, fun r name => ?_⟩
  · rw [h m.name, List.flatMap_append, List.flatMap_singleton]
    simp [Family.records]
  · rw [rows_setRows, List.flatMap_append, List.flatMap_singleton]
    by_cases hname : name = m.name
    · simp [hname, Family.records]
    · have hrows := h name
      rw [List.flatMap_append, List.flatMap_singleton] at hrows
      simp [hname, hrows, Family.records]

theorem nil (t : Tables) : t.Gained m [] t := fun name => by simp

theorem parent_mem (h : t.Gained m families t') (hf : f ∈ families) :
    f.parent ∈ t'.rows m.name := by
  rw [h]
  refine List.mem_append_right _ (List.mem_flatMap.2 ⟨f, hf, ?_⟩)
  simp [Family.records]

theorem child_mem (h : t.Gained m families t') (hf : f ∈ families) {x : Relationship × Record}
    (hx : x ∈ f.children) : x.2 ∈ t'.rows x.1.target := by
  rw [h]
  refine List.mem_append_right _ (List.mem_flatMap.2 ⟨f, hf, List.mem_append_right _ ?_⟩)
  exact List.mem_map_of_mem (List.mem_filter.2 ⟨hx, by simp⟩)

/-- Where there is a family, there are more records of its model than before. -/
theorem rows_ne (h : t.Gained m families t') (hf : f ∈ families) :
    t'.rows m.name ≠ t.rows m.name := by
  rw [h]
  intro heq
  have hnone := List.append_cancel_left (heq.trans (List.append_nil _).symm)
  have hrecords := List.flatMap_eq_nil_iff.1 hnone f hf
  simp [Family.records] at hrecords

end Tables.Gained

/-! ## Linked families -/

/-- What is given for a new record and for those behind it. -/
structure Creation where
  values : Record
  links : List LinkedChild

/-- What a body gives. -/
def Config.creation (config : Config σ) (m : Model) (b : ParsedBody) : Creation :=
  ⟨b.attributes, config.linkedChildren m b.linked⟩

namespace LinkedChild

/-- A record was made for a parent from what is given for it. -/
structure Made (m : Model) (parent : Record) (x : LinkedChild) (y : Relationship × Record) :
    Prop where
  relationship : y.1 = x.relationship
  valid : y.2.Valid x.target
  holds : y.2.Holds x.target x.body.attributes x.relationship.childColumns
  links : x.relationship.Links m x.target parent y.2

/-- The relationship to a record is joined on columns of the models, of which none is a version. The
column of a reference to the record is not the key, and then the version is not the key either. -/
structure Sound (m : Model) (x : LinkedChild) : Prop where
  localColumn : ∃ c, m.column? x.relationship.localColumn = some c
  remoteColumn : ∃ c, x.target.column? x.relationship.remoteColumn = some c
  localVersion : m.versionColumn ≠ some x.relationship.localColumn
  remoteVersion : x.target.versionColumn ≠ some x.relationship.remoteColumn
  key : x.relationship.isToMany = false → x.relationship.localColumn ≠ m.primaryKey.name ∧
    m.versionColumn ≠ some m.primaryKey.name

end LinkedChild

/-- All links of a record are sound, and a reference that it holds is alone with its column. -/
structure LinkedChild.AllSound (schema : Schema) (m : Model) (links : List LinkedChild) :
    Prop where
  target : ∀ x ∈ links, schema.model? x.relationship.target = some x.target
  link : ∀ x ∈ links, x.Sound m
  apart : links.Pairwise fun y x => x.relationship.isToMany = false →
    y.relationship.localColumn ≠ x.relationship.localColumn

/-- A family was made from what is given for it. -/
structure Family.Made (m : Model) (c : Creation) (f : Family) : Prop where
  valid : f.parent.Valid m
  holds : f.parent.Holds m c.values (c.links.flatMap (·.relationship.parentColumns))
  children : List.Forall₂ (LinkedChild.Made m f.parent) c.links f.children

namespace Family.Made

variable {tx : Transaction} {name model : String} {op : Operation} {rows : List Record}
  {values : Record} {done : List LinkedChild} {x : LinkedChild} {f : Family} {child : Record}

theorem start (hm : m.WellFormed) {r : Record}
    (hw : tx.Writes m (.insert name model (m.columnValues values)) (.record r) op rows) :
    Family.Made m ⟨values, []⟩ ⟨r, []⟩ :=
  ⟨hw.valid_of_insert hm, .of_insert _ hw, .nil⟩

/-- A record behind a relationship to many is created. -/
theorem many (ht : x.target.WellFormed) (hx : x.Sound m) (hmany : x.relationship.isToMany = true)
    (h : Family.Made m ⟨values, done⟩ f)
    (hw : tx.Writes x.target (.insert name model (x.target.columnValues
      (x.body.attributes.insert x.relationship.remoteColumn
        (f.parent.get x.relationship.localColumn)))) (.record child) op rows) :
    Family.Made m ⟨values, done ++ [x]⟩ (f.add x.relationship child) := by
  obtain ⟨c, hc⟩ := hx.remoteColumn
  have hlinks : x.relationship.Links m x.target f.parent child :=
    Relationship.links_of_insert hmany hc hx.remoteVersion hw
  have hholds : child.Holds x.target x.body.attributes x.relationship.childColumns := by
    intro column d v hd hv hexcept hversion
    have hne : column ≠ x.relationship.remoteColumn := by
      simpa [Relationship.childColumns, hmany] using hexcept
    refine Record.Holds.of_insert [] hw column d v hd ?_ (by simp) hversion
    rw [Record.get?_insert, if_neg hne, hv]
  refine ⟨h.valid, ?_,
    List.rel_append h.children (.cons ⟨rfl, hw.valid_of_insert ht, hholds, hlinks⟩ .nil)⟩
  have hcolumns : (done ++ [x]).flatMap (·.relationship.parentColumns) =
      done.flatMap (·.relationship.parentColumns) := by
    simp [Relationship.parentColumns, hmany]
  exact hcolumns ▸ h.holds

/-- A record behind a relationship to one is created, and the parent is changed to refer to it. -/
theorem one (hx : x.Sound m) (hone : x.relationship.isToMany = false)
    (hdone : ∀ y ∈ done, y.Sound m ∧ y.relationship.localColumn ≠ x.relationship.localColumn)
    (h : Family.Made m ⟨values, done⟩ f) (hvalid : child.Valid x.target)
    (hholds : child.Holds x.target x.body.attributes x.relationship.childColumns) {parent : Record}
    (hparent : parent.Valid m)
    (hp : Record.Patched m f.parent (Record.empty.insert x.relationship.localColumn
      (child.get x.relationship.remoteColumn)) parent) :
    Family.Made m ⟨values, done ++ [x]⟩ { f.add x.relationship child with parent := parent } := by
  obtain ⟨c, hc⟩ := hx.localColumn
  have hlinks : x.relationship.Links m x.target parent child :=
    .one hone hc (hp.get_column hc hx.localVersion)
  -- what was linked before stays so, since other columns join it
  have hchildren : List.Forall₂ (LinkedChild.Made m parent) done f.children := by
    refine ((List.forall₂_and_left _ _).2 ⟨hdone, h.children⟩).imp ?_
    rintro y z ⟨⟨hsound, hne⟩, hz⟩
    refine ⟨hz.relationship, hz.valid, hz.holds, hz.links.congr ?_⟩
    rw [Record.get, hp.get?_of_ne hne hsound.localVersion]
    rfl
  refine ⟨hparent, ?_, List.rel_append hchildren
    (.cons ⟨rfl, hvalid, hholds, hlinks⟩ .nil)⟩
  intro column d v hd hv hexcept hversion
  simp only [List.flatMap_append, List.mem_append, not_or] at hexcept
  obtain ⟨w, hw, hget⟩ := h.holds column d v hd hv hexcept.1 hversion
  have hne : column ≠ x.relationship.localColumn := by
    simpa [Relationship.parentColumns, hone] using hexcept.2
  exact ⟨w, hw, fun hkey => (hp.get?_of_ne hne hversion).trans (hget hkey)⟩

end Family.Made

/-- A family of which the parent does not refer yet to the record that was created last. -/
structure Family.Awaits (m : Model) (c : Creation) (x : LinkedChild) (parent child : Record)
    (f : Family) : Prop where
  valid : child.Valid x.target
  holds : child.Holds x.target x.body.attributes x.relationship.childColumns
  parent : f.parent = parent
  made : ∃ g, Family.Made m c g ∧ f = g.add x.relationship child

/-! ## Creating -/

/-- Tables have, behind the records at the start, a family for each of some creations. -/
def Tables.Created (m : Model) (t : Tables) (creations : List Creation) (parents : List Record)
    (t' : Tables) : Prop :=
  ∃ families, List.Forall₂ (Family.Made m) creations families ∧
    families.map Family.parent = parents ∧ t.Gained m families t'

/-- A further family has been begun, of which a condition holds. -/
def Tables.Begun (m : Model) (t : Tables) (creations : List Creation) (parents : List Record)
    (Good : Family → Prop) (t' : Tables) : Prop :=
  ∃ families f, List.Forall₂ (Family.Made m) creations families ∧
    families.map Family.parent = parents ∧ Good f ∧ t.Gained m (families ++ [f]) t'

/-- The further family is made from what is given for it. -/
def Tables.Creating (m : Model) (t : Tables) (creations : List Creation) (parents : List Record)
    (c : Creation) (parent : Record) : Tables → Prop :=
  t.Begun m creations parents fun f => Family.Made m c f ∧ f.parent = parent

section Begun

variable {t t' : Tables} {creations : List Creation} {parents : List Record} {c : Creation}
  {Good Good' : Family → Prop} {parent : Record}

theorem Tables.Begun.child (h : t.Begun m creations parents Good t') {r : Relationship}
    {child : Record} (hgood : ∀ f, Good f → Good' (f.add r child)) :
    t.Begun m creations parents Good'
      (t'.setRows r.target (t'.rows r.target ++ [child])) := by
  obtain ⟨families, f, hmade, hparents, hf, hgained⟩ := h
  exact ⟨families, f.add r child, hmade, hparents, hgood f hf, hgained.child r child⟩

/-- The parent of the further family has a place of its own. -/
theorem Tables.Begun.split (h : t.Begun m creations parents Good t') :
    ∃ f before after, Good f ∧ t'.rows m.name = before ++ f.parent :: after ∧
      ∀ r, Good' { f with parent := r } →
        t.Begun m creations parents Good' (t'.setRows m.name (before ++ r :: after)) := by
  obtain ⟨families, f, hmade, hparents, hf, hgained⟩ := h
  obtain ⟨before, after, hrows, hnext⟩ := hgained.split
  exact ⟨f, before, after, hf, hrows, fun r hr => ⟨families, _, hmade, hparents, hr, hnext r⟩⟩

theorem Tables.Created.start (h : t.Created m creations parents t')
    (hmade : Family.Made m c ⟨parent, []⟩) :
    t.Creating m creations parents c parent
      (t'.setRows m.name (t'.rows m.name ++ [parent])) := by
  obtain ⟨families, hfamilies, hparents, hgained⟩ := h
  exact ⟨families, ⟨parent, []⟩, hfamilies, hparents, ⟨hmade, rfl⟩, hgained.parent parent⟩

theorem Tables.Creating.created (h : t.Creating m creations parents c parent t') :
    t.Created m (creations ++ [c]) (parents ++ [parent]) t' := by
  obtain ⟨families, f, hfamilies, hparents, ⟨hmade, rfl⟩, hgained⟩ := h
  exact ⟨families ++ [f], List.rel_append hfamilies (.cons hmade .nil), by simp [hparents],
    hgained⟩

end Begun

namespace SessionM.Yields

variable {schema : Schema} {t : Tables} {creations : List Creation} {parents : List Record}
  {values : Record} {done : List LinkedChild} {x : LinkedChild}

/-- A record behind another one is created and linked. -/
theorem createLinked (hm : schema.model? m.name = some m) (hwf : m.WellFormed)
    (ht : schema.model? x.relationship.target = some x.target) (htwf : x.target.WellFormed)
    (hx : x.Sound m) (hdone : x.relationship.isToMany = false →
      ∀ y ∈ done, y.Sound m ∧ y.relationship.localColumn ≠ x.relationship.localColumn)
    (parent : Record) :
    Yields (m.Leaves (t.Creating m creations parents ⟨values, done⟩ parent) schema t)
      (Config.createLinked m x.target x.relationship parent x.body : SessionM σ Record)
      fun parent => m.Leaves (t.Creating m creations parents ⟨values, done ++ [x]⟩ parent)
        schema t := by
  have htarget := Schema.name_of_model? ht
  have hmodel : ∀ {Good tx n values r op rows}, m.Leaves Good schema t tx →
      tx.Writes n (.insert "" x.target.name values) (.record r) op rows → n = x.target := by
    intro Good tx n values r op rows h hw
    have hn := hw.model?_of_insert
    rw [h.begun.of, htarget, ht] at hn
    exact (Option.some.inj hn).symm
  unfold Config.createLinked
  split
  · next hmany =>
    refine .bind (R := fun _ => m.Leaves
      (t.Creating m creations parents ⟨values, done ++ [x]⟩ parent) schema t)
      (.insert fun tx n op rows child h hw => ?_) fun _ => .pure fun _ h => h
    obtain rfl := hmodel h hw
    refine h.insert hw fun t' hbegun => htarget ▸ hbegun.child ?_
    rintro f ⟨hmade, rfl⟩
    exact ⟨hmade.many htwf hx hmany hw, rfl⟩
  · next hone =>
    have hone : x.relationship.isToMany = false := Bool.eq_false_iff.2 hone
    refine .bind (R := fun child => m.Leaves (t.Begun m creations parents
      (Family.Awaits m ⟨values, done⟩ x parent child)) schema t)
      (.insert fun tx n op rows child h hw => ?_) fun child =>
        .update fun tx n op rows r h hw => ?_
    · obtain rfl := hmodel h hw
      refine h.insert hw fun t' hbegun => htarget ▸ hbegun.child ?_
      rintro f ⟨hmade, hparent⟩
      exact ⟨hw.valid_of_insert htwf, .of_insert _ hw, hparent, f, hmade, rfl⟩
    · obtain ⟨hlocal, hversion⟩ := hx.key hone
      have hset : (m.columnValues (Record.empty.insert x.relationship.localColumn
          (child.get x.relationship.remoteColumn))).contains m.primaryKey.name = false :=
        Bool.eq_false_iff.2 fun hc => hlocal (Model.eq_of_contains_columnValues hc).symm
      refine h.update hm hwf hversion hset hw fun t' hbegun => ?_
      obtain ⟨_, before, after, ⟨hvalid, hholds, rfl, f, hmade, rfl⟩, hrows, hnext⟩ := hbegun.split
      refine ⟨before, after, hrows, hmade.valid, fun hpatched hr => hnext r ⟨?_, rfl⟩⟩
      exact hmade.one hx hone (hdone hone) hvalid hholds hr hpatched.of_columnValues

/-- The records behind another one are created and linked. -/
theorem linkAll (hs : schema.WellFormed) (hm : schema.model? m.name = some m) {config : Config σ}
    {groups : List LinkedGroup} (hgroups : ∀ g ∈ groups, config.Resolves m g)
    (hc : LinkedChild.AllSound schema m (config.linkedChildren m groups)) (parent : Record) :
    Yields (m.Leaves (t.Creating m creations parents ⟨values, []⟩ parent) schema t)
      (config.link m parent groups)
      fun parent => m.Leaves (t.Creating m creations parents
        ⟨values, config.linkedChildren m groups⟩ parent) schema t := by
  rw [Config.link_eq_foldlM hgroups]
  refine foldlM_over (Q := fun done parent =>
    m.Leaves (t.Creating m creations parents ⟨values, done⟩ parent) schema t)
    (fun done x rest hlinks parent => ?_) parent
  have hx : x ∈ config.linkedChildren m groups := by simp [hlinks]
  have ht := hc.target x hx
  refine .createLinked hm (hs.models m (Schema.mem_of_model? hm)) ht
    (hs.models x.target (Schema.mem_of_model? ht)) (hc.link x hx) (fun hone y hy => ?_) parent
  have hapart := hlinks ▸ hc.apart
  exact ⟨hc.link y (by simp [hlinks, hy]),
    (List.pairwise_append.1 hapart).2.2 y hy x List.mem_cons_self hone⟩

/-- A record and those behind it are created. -/
theorem create (hs : schema.WellFormed) (hm : schema.model? m.name = some m) {config : Config σ}
    {b : ParsedBody} (hgroups : ∀ g ∈ b.linked, config.Resolves m g)
    (hc : LinkedChild.AllSound schema m (config.linkedChildren m b.linked)) :
    Yields (m.Leaves (t.Created m creations parents) schema t)
      (Collection.create config m b.attributes b.linked)
      fun r => m.Leaves (t.Created m (creations ++ [config.creation m b]) (parents ++ [r]))
        schema t := by
  refine .bind (R := fun r => m.Leaves (t.Creating m creations parents ⟨b.attributes, []⟩ r)
    schema t) (.insert fun tx n op rows r h hw => ?_) fun r => ?_
  · obtain rfl : m = n :=
      Option.some.inj ((h.begun.of.symm ▸ hm).symm.trans hw.model?_of_insert)
    have hmade := Family.Made.start (hs.models m (Schema.mem_of_model? hm)) hw
    exact h.insert hw fun t' hcreated => hcreated.start hmade
  · exact (linkAll hs hm hgroups hc r).mono fun r' tx h => h.mono fun t' => Tables.Creating.created

/-- The records of a body are created. -/
theorem posting (hs : schema.WellFormed) {config : Config σ} {ctx : Context}
    (hm : schema.model? config.model.name = some config.model) {parsed : List ParsedBody}
    {isArray : Bool} (hparsed : Collection.creations config ctx = .ok (parsed, isArray))
    (hsound : ∀ b ∈ parsed, (∀ g ∈ b.linked, config.Resolves config.model g) ∧
      LinkedChild.AllSound schema config.model (config.linkedChildren config.model b.linked)) :
    Yields (config.model.Leaves (t.Created config.model [] []) schema t)
      (Collection.posting config ctx)
      fun w tx => ∃ stored, w = ⟨stored.map (config.shown ctx),
          fun data => dataEnvelope (if isArray then .array data else data.getLastD .null), true⟩ ∧
        config.model.Leaves (t.Created config.model
          (parsed.map (config.creation config.model)) stored) schema t tx := by
  refine .lift_bind fun result hresult => ?_
  obtain rfl := Except.ok.inj (hparsed.symm.trans hresult)
  dsimp only
  rw [List.zip_map', List.mapM_map]
  refine .bind (R := fun stored => config.model.Leaves
    (t.Created config.model (parsed.map (config.creation config.model)) stored) schema t) ?_
    fun stored => .pure fun tx h => ⟨stored, rfl, h⟩
  refine mapM_over (Q := fun done stored => config.model.Leaves
    (t.Created config.model (done.map (config.creation config.model)) stored) schema t) ?_
  intro done b rest hdone stored
  obtain ⟨hgroups, hc⟩ := hsound b (by simp [hdone])
  rw [List.map_append]
  exact .create hs hm hgroups hc

end SessionM.Yields

end RecordApi
