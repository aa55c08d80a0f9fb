import RecordApi.Proofs.Resource.Inserting
import RecordApi.Proofs.Resource.Listing
import RecordApi.Proofs.Resource.WrittenBack
import RecordApi.Proofs.Value.Plain

/-!
# Records that are found by the keys that are shown

Answers show the key of a record in its wire form, and paths give keys as texts. A key of one of the
types in `ColumnType.ReadInPaths` is read again from the text of its wire form
(`Value.Fits.coerce_wireForm`). So a client that asks for the key that it was shown gets the record
with this key, which is the only one (`Single.found_by_shown_key`).
-/

namespace RecordApi

variable {σ : Type}

/-! ## Keys in paths -/

/-- The types of keys that are read again from the texts of their wire forms. -/
inductive ColumnType.ReadInPaths : ColumnType → Prop
  | integer : ReadInPaths .integer
  | string : ReadInPaths .string
  | uuid : ReadInPaths .uuid
  | date : ReadInPaths .date
  | time : ReadInPaths .time

theorem ColumnType.ReadInPaths.ordered {type : ColumnType} (h : type.ReadInPaths) :
    type.Ordered := by
  cases h <;> trivial

/-- The text of the plain form of a value makes a column of its type hold the value. -/
theorem Value.Fits.coerce_plain {type : ColumnType} {v : Value} (hv : v.Fits type)
    (ht : type.ReadPlain) (hnull : v ≠ .null) :
    (Value.text v.plain.bareText).coerce type = .ok v.dropZeroSign := by
  have h := @Value.coerce_bareText type v "" "" ht hv hnull nofun nofun
  rwa [String.empty_append, String.append_empty] at h

/-- The text of the wire form of a key makes its column hold the key. Times and integers are plain,
and identifiers are read without their hyphens as well. -/
theorem Value.Fits.coerce_wireForm {type : ColumnType} {v : Value} (hv : v.Fits type)
    (ht : type.ReadInPaths) (hnull : v ≠ .null) {codec : Codec} (hplugins : codec.plugins = [])
    {axes : AxisNames} {name : String} {j : Json}
    (h : codec.serialize axes name (some type) v = .ok j) :
    (Value.text j.bareText).coerce type = .ok v := by
  obtain ⟨naive, epoch, plugins⟩ := codec
  obtain rfl : plugins = [] := hplugins
  cases hv.ofKind hnull with
  | integer n =>
      cases h
      exact hv.coerce_plain .integer hnull
  | string s =>
      cases h
      rfl
  | uuid u =>
      cases h
      have htrim : Text.trim u.digits = u.digits :=
        Text.trim_eq_self fun _ => Uuid.isBlank_of_mem_digits
      simp [coerce, ofText, Json.bareText, Uuid.writeSimple, htrim, Uuid.ofText?_digits]
  | date d =>
      cases h
      exact hv.coerce_plain .date hnull
  | time t =>
      cases h
      exact hv.coerce_plain .time hnull
  | float | boolean | dateTime | decimal | json | geometry | other => cases ht

/-! ## The one record with a key -/

/-- The key of a record that a store keeps is of the type of its column, if it is no version. -/
theorem Record.Valid.fits_key {m : Model} {r : Record} (hr : r.Valid m) (hm : m.WellFormed)
    (hversion : m.versionColumn = some m.primaryKey.name → m.primaryKey.type = .integer) :
    (m.keyOf r).Fits m.primaryKey.type := by
  have hnull : m.keyOf r ≠ .null := hr.notNull m.primaryKey hm.key_mem hm.key_not_null
  have hcontains : r.contains m.primaryKey.name = true := by
    by_contra h
    exact hnull (Record.get_eq_null_of_not_contains (by simpa using h))
  rcases hr.takes m.primaryKey.name hcontains with ⟨c, hc, hfits⟩ | ⟨hv, n, hn⟩
  · obtain rfl : m.primaryKey = c :=
      Option.some.inj ((hm.column?_of_mem hm.key_mem).symm.trans hc)
    exact hfits
  · rw [hversion hv]
    change (r.get m.primaryKey.name).Fits .integer
    rw [hn]
    exact .inr rfl

namespace Single

open Endpoint

/-- A path that gives the key of a record finds this record and no other. -/
theorem exists_plan_of_key {config : Config σ} {t : Tables} (hm : config.model.WellFormed)
    (hunique : config.model.KeyUnique (t.rows config.model.name)) {r : Record}
    (hr : r ∈ t.rows config.model.name)
    (hsame : (config.model.keyOf r).same (config.model.keyOf r) = true) {key raw : String}
    (htarget : config.lookup.target key = .column config.model.primaryKey.name)
    (htyped : config.model.primaryKey.typed raw = .ok (config.model.keyOf r)) :
    ∃ plan, locate config [(key, raw)] = .ok plan ∧ plan.matching t = [r] := by
  have hcondition : config.lookup.condition config.model (key, raw) =
      .ok [.eq config.model.primaryKey.name (config.model.keyOf r)] := by
    unfold PathMap.condition
    simp only [htarget, hm.column?_of_mem hm.key_mem, htyped]
  have hpath : [(key, raw)].mapM (config.lookup.condition config.model) =
      .ok [[.eq config.model.primaryKey.name (config.model.keyOf r)]] := by
    rw [List.mapM_cons, hcondition]
    rfl
  obtain ⟨plan, hplan, -, hmatching⟩ := locate_eq_ok hpath
  refine ⟨plan, hplan, ?_⟩
  rw [hmatching, ← hunique.filter_eq_singleton hr hsame]
  refine List.filter_congr fun q _ => ?_
  rw [List.flatten_singleton, List.all_cons, List.all_nil, Bool.and_true,
    PathMap.holds_eq_iff (hunique.notNull r hr)]
  rfl

/-- The key that answers show of a record finds the record. A `GET` on a path that stands for the
key, and gives the text of what is shown of it, is answered with the data of this record, which is
the only one that the path names. -/
theorem found_by_shown_key {d : SchemaDecl} {schema : Schema} (hd : d.resolve = .ok schema)
    (supply : Nat → Uuid) (steps : List Step) (config : Config σ) (server : Server σ)
    (hserver : server.store = ((Sessions.empty schema supply).after steps).store)
    (hmodel : schema.model? config.model.name = some config.model)
    (hooks : config.hooks = .none σ) (hplugins : config.codec.plugins = [])
    (hfields : config.fields = .all)
    (hgeometry : ∀ c ∈ config.model.columns, ∀ kind dimension, c.type ≠ .geometry kind dimension)
    (hkey : config.model.primaryKey.type.ReadInPaths)
    (hversion : config.model.versionColumn = some config.model.primaryKey.name →
      config.model.primaryKey.type = .integer)
    {r : Record} (hr : r ∈ server.store.tables.rows config.model.name)
    (hunknown : config.model.ShowsUnknown r) {key : String}
    (htarget : config.lookup.target key = .column config.model.primaryKey.name) :
    ∃ data id, config.codec.record config.axes config.model r none = .ok data ∧
      data.get? config.model.primaryKey.name = some id ∧
      ∀ request admitted, config.receive config.singleMethods request = .ok admitted →
        admitted.method = .get → admitted.pathParams = [(key, id.bareText)] →
        admitted.paramList? "__included" = none →
        ∃ plan, locate config admitted.pathParams = .ok plan ∧
          plan.matching server.store.tables = [r] ∧
          (handle config request server).1 = .ok (.ok (singleEnvelope data
            (config.metadata.produce admitted (plan.rowOf server.store.tables r)) none)) := by
  have hs := SchemaDecl.wellFormed hd
  have hmem := Schema.mem_of_model? hmodel
  have hm := hs.models _ hmem
  have hvalid : r.Valid config.model := by
    rw [hserver] at hr
    exact (Sessions.keeps_valid hs hmem steps).committed r hr
  have hunique : config.model.KeyUnique (server.store.tables.rows config.model.name) := by
    rw [hserver]
    exact Sessions.keyUnique_after hd hmem supply steps
  have hfits := hvalid.fits_key hm hversion
  obtain ⟨data, hdata⟩ : ∃ data, config.codec.record config.axes config.model r none = .ok data :=
    Codec.exists_record (fun c hc => hvalid.hasWireForm hm hgeometry hunknown hc) nofun
  obtain ⟨id, hid, hserialize⟩ := (Codec.Shows.of_record hm hdata).column _ hm.key_mem
  have htyped : config.model.primaryKey.typed id.bareText = .ok (config.model.keyOf r) := by
    unfold Column.typed
    rw [hfits.coerce_wireForm hkey (hunique.notNull r hr) hplugins hserialize]
  obtain ⟨plan, hplan, hfound⟩ := exists_plan_of_key hm hunique hr
    (hfits.same_self hkey.ordered) htarget htyped
  refine ⟨data, id, hdata, hid, fun request admitted hadmitted hget hpath hincluded => ?_⟩
  rw [hpath]
  refine ⟨plan, hplan, hfound, ?_⟩
  refine handle_get_of_found hooks hadmitted hget hincluded (hpath ▸ hplan) hfound ?_
  unfold Config.data
  rw [hfields]
  exact hdata

/-- The second of two notes. -/
def secondNote : Record :=
  .ofList [("id", .int 2), ("text", .text "second"), ("version", .int 1)]

theorem found_by_shown_key_secondNote :
    ∃ data plan, data.get? "id" = some (.int 2) ∧
      locate (.ofModel Unit .notes .note) [("id", "2")] = .ok plan ∧
      plan.matching Collection.twoNotes.store.tables = [secondNote] ∧
      (handle (.ofModel Unit .notes .note) getSecond Collection.twoNotes).1 =
        .ok (.ok (singleEnvelope data none none)) := by
  have hcolumns : ∀ c ∈ Model.note.columns, c.type = .integer ∨ c.type = .string := by decide
  have hrecord : secondNote ∈ Collection.twoNotes.store.tables.rows "note" :=
    .tail _ (.head _)
  obtain ⟨data, id, hdata, hid, hfound⟩ := found_by_shown_key SchemaDecl.resolve_notes
    (fun _ => default) Collection.twoNoteSteps (.ofModel Unit .notes .note) Collection.twoNotes
    rfl rfl rfl rfl rfl
    (fun c hc kind dimension h => by rcases hcolumns c hc with hc | hc <;> rw [hc] at h <;> cases h)
    .integer (fun _ => rfl) hrecord
    (fun c hc name h => by rcases hcolumns c hc with hc | hc <;> rw [hc] at h <;> cases h)
    (show (Config.ofModel Unit .notes .note).lookup.target "id" = .column "id" from rfl)
  cases hdata
  cases hid
  obtain ⟨plan, hplan, hmatching, hanswer⟩ := hfound getSecond getSecond rfl rfl rfl rfl
  exact ⟨_, plan, rfl, hplan, hmatching, hanswer⟩

end Single

/-! ## Keys that find nothing -/

/-- A model of labels, which have a text as their key and as their version. -/
def Model.label : Model where
  name := "label"
  tableName := "label"
  schemaName := none
  attributes := [.column ⟨"id", .string, "text", false, false, true⟩]
  primaryKey := ⟨"id", .string, "text", false, false, true⟩
  unique := []
  versionColumn := some "id"

/-- A schema with labels alone. -/
def Schema.labels : Schema :=
  ⟨[.label], []⟩

/-- The description of a schema with labels alone. -/
def SchemaDecl.labels : SchemaDecl where
  models := [{
    name := "label"
    table := none
    schema := none
    primaryKey := "id"
    columns := [⟨"id", ⟨"text", []⟩, false, false, none, none, none⟩]
    relationships := []
    properties := []
    unique := []
    versionColumn := some "id"
    comment := none }]

theorem SchemaDecl.resolve_labels : SchemaDecl.labels.resolve = .ok .labels :=
  resolve_eq_of_parts (by decide +kernel)

namespace Single

/-- The steps that commit a label and update it. -/
def labelSteps : List Step :=
  [.begin "a", .insert "a" "label" (.ofList [("id", .text "a")]),
    .update "a" "label" (.ofList [("id", .text "a")]) (.ofList []), .commit "a"]

/-- A server with one label. -/
def oneLabel : Server Unit :=
  ⟨((Sessions.empty .labels fun _ => default).after labelSteps).store, ()⟩

/-- A request for what has the number one. -/
def getFirst : Context :=
  { Context.ofMethod .get with pathParams := [("id", "1")] }

/-- The record with the key that is shown has no answer if a column of a type that is not known
holds a geometry of another kind. And a text that is a version is a number once it was updated,
which a path does not find. -/
theorem not_found_by_shown_key :
    SchemaDecl.hosts.resolve = .ok .hosts ∧
    (Collection.oneHost.store.tables.rows "host").map
        (fun r => (Codec.standard.column [] r Model.host.primaryKey).toOption) =
      [some ("id", .int 1)] ∧
    (handle (.ofModel Unit .hosts .host) getFirst Collection.oneHost).1 =
      .error (.unsupportedGeometry "MultiPoint") ∧
    SchemaDecl.labels.resolve = .ok .labels ∧
    (oneLabel.store.tables.rows "label").map
        (fun r => (Codec.standard.record [] .label r none).toOption) =
      [some [("id", .int 1)]] ∧
    (handle (.ofModel Unit .labels .label) getFirst oneLabel).1 = .error .notFound :=
  ⟨SchemaDecl.resolve_hosts, by rfl, by rfl, SchemaDecl.resolve_labels, by rfl, by rfl⟩

end Single

end RecordApi
