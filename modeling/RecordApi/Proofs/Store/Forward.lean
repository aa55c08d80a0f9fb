import RecordApi.Proofs.Number.Converted
import RecordApi.Proofs.Store.Advanced

/-!
# Versions that go forward

A committed update replaces one record by another (`Sessions.Replaces`), whose version follows the
one that was read. What follows a whole number is the next one, and what follows anything else is
one: whether the version is then greater is decided by what was read and by what it replaces
(`Value.Advances`, `Sessions.version_advances_iff`).
-/

namespace RecordApi

/-! ## The version that follows -/

/-- Numbers that are equal are ordered alike. -/
theorem Binary64.compare_congr {x y : Binary64} (h : x.compare y = some .eq) (z : Binary64) :
    x.compare z = y.compare z := by
  cases x with
  | nan => cases h
  | signed s r hr =>
      cases y with
      | nan => cases h
      | signed t q hq =>
          have hkey : key s r = key t q :=
            Std.LawfulEqCmp.compare_eq_iff_eq.1 (Option.some.inj h)
          cases z with
          | nan => rfl
          | signed => simp only [compare, hkey]

/-- What follows the version that was read is greater than the one that is stored: the next whole
number, unless there is none or it is not told apart from the one before it as a number of the kind
that is stored, or one in the place of less than one. -/
inductive Value.Advances : Value → Value → Prop
  | next {n : Int64} {stored : Value} (below : n ≠ Int64.maxValue)
      (apart : ∀ x, stored = .float x →
        (Binary64.ofInt n.toInt).compare (.ofInt (n + 1).toInt) = some .lt) :
      Advances (.int n) stored
  | first {read stored : Value} (other : ∀ n, read ≠ .int n)
      (below : stored.compare (.int 1) = some .lt) : Advances read stored

namespace Value

theorem same_int_eq (stored : Value) (n : Int64) :
    stored.same (.int n) = (stored.compare (.int n) == some .eq) := by
  cases stored <;> rfl

theorem advances_int_iff {n : Int64} {stored : Value} :
    (Value.int n).Advances stored ↔ n ≠ Int64.maxValue ∧ ∀ x, stored = .float x →
      (Binary64.ofInt n.toInt).compare (.ofInt (n + 1).toInt) = some .lt := by
  constructor
  · intro h
    cases h with
    | next below apart => exact ⟨below, apart⟩
    | first other => exact absurd rfl (other n)
  · exact fun h => .next h.1 h.2

theorem toInt_lt_succ_iff {n : Int64} : n.toInt < (n + 1).toInt ↔ n ≠ Int64.maxValue := by
  constructor
  · rintro h rfl
    exact absurd h (by decide)
  · intro h
    rw [int64_toInt_succ h]
    omega

/-- What is the same as a whole number is less than the next one exactly if that advances it. -/
theorem compare_succ_eq_lt_iff {n : Int64} {stored : Value} (h : stored.same (.int n) = true) :
    stored.compare (.int (n + 1)) = some .lt ↔ (Value.int n).Advances stored := by
  rw [same_int_eq, beq_iff_eq] at h
  rw [advances_int_iff]
  cases stored with
  | int k =>
      obtain rfl : k = n := Int64.toInt_inj.1
        (Std.LawfulEqCmp.compare_eq_iff_eq.1 (Option.some.inj h))
      simp only [compare, Option.some.injEq, compare_lt_iff_lt, toInt_lt_succ_iff,
        reduceCtorEq, false_implies, implies_true, and_true]
  | decimal d =>
      have hvalue : d.value = n.toInt * 10 ^ 28 := by
        rw [← Decimal.value_ofInt64]
        exact Std.LawfulEqCmp.compare_eq_iff_eq.1 (Option.some.inj h)
      simp only [compare, Decimal.compare, Option.some.injEq, compare_lt_iff_lt,
        Decimal.value_ofInt64, hvalue, reduceCtorEq, false_implies, implies_true, and_true]
      rw [← toInt_lt_succ_iff]
      omega
  | float x =>
      have hx : x.compare (.ofInt n.toInt) = some .eq := h
      change x.compare (.ofInt (n + 1).toInt) = some .lt ↔ _
      rw [Binary64.compare_congr hx]
      constructor
      · intro hlt
        refine ⟨?_, fun _ _ => hlt⟩
        rintro rfl
        exact absurd hlt (by decide +kernel)
      · exact fun hnext => hnext.2 x rfl
  | null | bool | text | dateTime | date | time | uuid | json | geometry | list => cases h

/-- A version that is the same as the one that was read is less than the one that follows exactly
if that advances it. -/
theorem nextVersion_gt_iff {read stored : Value} (h : stored.same read = true) :
    read.nextVersion.compare stored = some .gt ↔ read.Advances stored := by
  rw [compare_eq_gt_iff]
  by_cases hread : ∃ n, read = .int n
  · obtain ⟨n, rfl⟩ := hread
    exact compare_succ_eq_lt_iff h
  · have hother : ∀ n, read ≠ .int n := fun n he => hread ⟨n, he⟩
    have hone : read.nextVersion = .int 1 := by
      cases read with
      | int n => exact absurd rfl (hother n)
      | _ => rfl
    rw [hone]
    constructor
    · exact fun hlt => .first hother hlt
    · intro hadvances
      cases hadvances with
      | next => exact absurd rfl (hother _)
      | first _ below => exact below

end Value

/-! ## What an update logs -/

variable {schema : Schema} {supply : Nat → Uuid} {m : Model} {v : String}

/-- An update expects a version with a property, and sets the one that follows. -/
def Operation.TakesNext (v : String) (P : Value → Prop) : Operation → Prop
  | .update _ _ expected changes => ∃ read, P read ∧ expected = some read ∧
      changes.contains v = true ∧ changes.get v = read.nextVersion
  | .insert _ _ | .delete _ _ _ => True

theorem Transaction.Writes.takesNext {tx : Transaction} {st : Step} {result : StepResult}
    {op : Operation} {rows : List Record} {P : Value → Prop} (hv : m.versionColumn = some v)
    (h : tx.Writes m st result op rows)
    (hcurrent : ∀ current, st.current? = some (m.name, current) → P (current.get v)) :
    op.TakesNext v P := by
  cases h with
  | insert | delete => trivial
  | @update _ _ current _ _ _ named =>
      obtain rfl := Schema.name_of_model? named
      refine ⟨current.get v, hcurrent current rfl, ?_, ?_, ?_⟩
      · rw [expectedVersion, hv, Option.map_some]
      · simp only [withNextVersion, hv]
        rw [Record.contains_insert, beq_self_eq_true, Bool.true_or]
      · simp only [withNextVersion, hv]
        rw [Record.get_insert, if_pos rfl]

namespace Sessions

/-- The commit of a transaction replaces one record of a model by another, in an update that expects
a version. -/
inductive Replaces (s : Sessions) (name : String) (m : Model) (expected : Option Value) :
    Record → Record → Prop
  | intro {tx : Transaction} {store : Store} {front back : List Operation} {key : Value}
      {changes : Record} {t : Tables} {p : Place}
      (opened : s.opened.get? name = some tx)
      (committed : s.store.commit tx = .ok store)
      (logged : tx.log = front ++ .update m.name key expected changes :: back)
      (before : front.foldlM (Operation.replay tx.schema) s.store.tables = .ok t)
      (place : t.placeFor m key expected = .ok p) :
      Replaces s name m expected p.row (p.row.merge changes)

/-- Every update that is logged replaces a record when it is committed. -/
theorem exists_replaces {s : Sessions} {name : String} {tx : Transaction} {store : Store}
    {front back : List Operation} {key : Value} {expected : Option Value} {changes : Record}
    (hof : s.Of schema) (hm : schema.model? m.name = some m)
    (opened : s.opened.get? name = some tx) (committed : s.store.commit tx = .ok store)
    (logged : tx.log = front ++ .update m.name key expected changes :: back) :
    ∃ old, s.Replaces name m expected old (old.merge changes) := by
  have hreplay := Store.replay_of_commit committed
  rw [logged, List.foldlM_append, bind_eq_ok_iff] at hreplay
  obtain ⟨t, hfront, hreplay⟩ := hreplay
  rw [List.foldlM_cons, bind_eq_ok_iff] at hreplay
  obtain ⟨t', hupdate, -⟩ := hreplay
  obtain ⟨n, rows, hn, hacts, -⟩ := Operation.replay_eq_ok_iff.1 hupdate
  obtain rfl : n = m := by
    rw [hof.opened name tx opened] at hn
    exact Option.some.inj (hn.symm.trans hm)
  generalize hrows : t.rows n.name = records at hacts
  cases hacts with
  | update named =>
      exact ⟨_, .intro opened committed logged hfront
        (Tables.placeFor_eq_ok_iff.2 ⟨hrows, named⟩)⟩

theorem takesNext_after (hs : schema.WellFormed) (hm : m ∈ schema.models)
    (hv : m.versionColumn = some v) (supply : Nat → Uuid) (steps : List Step) :
    ((empty schema supply).after steps).Keeps m (fun _ => True)
      (Operation.TakesNext v fun _ => True) :=
  (kept_after (hs.model?_name hm) (fun _ _ _ _ _ _ _ _ => trivial) steps
    fun _ _ _ _ _ _ _ _ hw => hw.takesNext hv fun _ _ => trivial).keeps

/-- Where versions are whole numbers and updates are given records that were given out, they expect
whole numbers. -/
theorem readsWhole_after (hs : schema.WellFormed) (hm : m ∈ schema.models)
    (hv : m.versionColumn = some v) {c : Column} (hc : m.column? v = some c)
    (ht : c.type = .integer) (supply : Nat → Uuid) {steps : List Step}
    (hgives : (empty schema supply).GivesBack m.name steps) :
    ((empty schema supply).after steps).Keeps m (Record.Versioned v)
      fun op => op.SetsVersion v ∧ op.TakesNext v fun read => ∃ n, read = .int n := by
  refine (kept_after (hs.model?_name hm)
    (fun _ _ _ hop ha => ha.versioned_of_setsVersion hop.1) steps ?_).keeps
  intro front st hp hreturned tx op rows _ hw
  refine ⟨hw.setsVersion (hs.models m hm) hv hc ht, hw.takesNext hv fun current hst => ?_⟩
  exact hreturned current (hgives front st hp current hst)

/-- The record that is replaced has what all records of its model have. -/
theorem Replaces.holds_old {s : Sessions} {name : String} {expected : Option Value}
    {old new : Record} {R : Record → Prop} {Q : Operation → Prop}
    (h : s.Replaces name m expected old new) (hof : s.Of schema)
    (hm : schema.model? m.name = some m) (hkeeps : s.Keeps m R Q)
    (keep : ∀ op rows next, Q op → op.Acts m rows next → (∀ r ∈ rows, R r) → ∀ r ∈ next, R r) :
    R old := by
  obtain ⟨opened, -, logged, before, place⟩ := h
  next tx _ front back key changes t p =>
  have hschema := hof.opened name tx opened
  rw [hschema] at before
  have hrun := Operation.runs_of_replay hm before
  have hlog : ∀ op ∈ m.writes front, Q op := by
    intro op hop
    obtain ⟨hop, hmodel⟩ := List.mem_filter.1 hop
    refine hkeeps.logged name tx opened op ?_ (by simpa using hmodel)
    rw [logged]
    exact List.mem_append_left _ hop
  refine hrun.all keep hlog hkeeps.committed p.row ?_
  rw [(Tables.placeFor_eq_ok_iff.1 place).1]
  exact List.mem_append_right _ List.mem_cons_self

/-- The record that replaces it has the version that follows. -/
theorem Replaces.takesNext {s : Sessions} {name : String} {expected : Option Value}
    {old new : Record} {R : Record → Prop} {Q : Operation → Prop} {P : Value → Prop}
    (h : s.Replaces name m expected old new) (hv : m.versionColumn = some v)
    (hkeeps : s.Keeps m R Q) (hQ : ∀ op, Q op → op.TakesNext v P) :
    ∃ read, P read ∧ expected = some read ∧ (old.get v).same read = true ∧
      new.get v = read.nextVersion := by
  obtain ⟨opened, -, logged, -, place⟩ := h
  next tx _ front back key changes t p =>
  have hmem : Operation.update m.name key expected changes ∈ tx.log := by
    rw [logged]
    exact List.mem_append_right _ List.mem_cons_self
  obtain ⟨read, hP, rfl, hset, hnext⟩ := hQ _ (hkeeps.logged name tx opened _ hmem rfl)
  refine ⟨read, hP, rfl, ?_, by rw [Record.get_merge, if_pos hset, hnext]⟩
  have hversion := (Tables.placeFor_eq_ok_iff.1 place).2.version
  unfold Model.checkVersion at hversion
  simp only [hv] at hversion
  split at hversion
  · assumption
  · cases hversion

/-- What a committed update leaves is a record whose version follows one that is the same as that of
the record that it replaces. It is greater exactly if the one that was read advances it: where
versions are whole numbers and updates are given records that were given out, unless it is the
greatest number. -/
theorem version_advances_iff {d : SchemaDecl} (hd : d.resolve = .ok schema)
    (hm : m ∈ schema.models) (hv : m.versionColumn = some v) (supply : Nat → Uuid)
    (steps : List Step) {name : String} {expected : Option Value} {old new : Record}
    (h : ((empty schema supply).after steps).Replaces name m expected old new) :
    (∃ read, expected = some read ∧ (old.get v).same read = true ∧
      new.get v = read.nextVersion ∧
      ((new.get v).compare (old.get v) = some .gt ↔ read.Advances (old.get v))) ∧
    ∀ c, m.column? v = some c → c.type = .integer → (empty schema supply).GivesBack m.name steps →
      ∃ n, expected = some (.int n) ∧ old.get v = .int n ∧ new.get v = .int (n + 1) ∧
        ((new.get v).compare (old.get v) = some .gt ↔ n ≠ Int64.maxValue) := by
  have hs := SchemaDecl.wellFormed hd
  constructor
  · obtain ⟨read, -, hread, hsame, hnext⟩ :=
      h.takesNext hv (takesNext_after hs hm hv supply steps) fun _ hop => hop
    exact ⟨read, hread, hsame, hnext, by rw [hnext, Value.nextVersion_gt_iff hsame]⟩
  · intro c hc ht hgives
    have hkeeps := readsWhole_after hs hm hv hc ht supply hgives
    obtain ⟨read, ⟨n, rfl⟩, hread, hsame, hnext⟩ := h.takesNext hv hkeeps fun _ hop => hop.2
    obtain ⟨k, hk⟩ := h.holds_old ((of_empty schema supply).after steps) (hs.model?_name hm)
      hkeeps fun _ _ _ hop ha => ha.versioned_of_setsVersion hop.1
    rw [hk, Value.same_int_iff] at hsame
    subst hsame
    refine ⟨k, hread, hk, hnext, ?_⟩
    rw [hk, hnext, Value.nextVersion_gt_iff (Value.same_int_iff.2 rfl), Value.advances_int_iff]
    simp

end Sessions

/-! ## A version that goes back -/

/-- A model of sheets, whose version is a decimal. -/
def Model.sheet : Model where
  name := "sheet"
  tableName := "sheet"
  schemaName := none
  attributes := [.column ⟨"id", .integer, "integer", false, false, true⟩,
    .column ⟨"revision", .decimal, "numeric", true, false, false⟩]
  primaryKey := ⟨"id", .integer, "integer", false, false, true⟩
  unique := []
  versionColumn := some "revision"

/-- A schema with sheets alone. -/
def Schema.sheets : Schema :=
  ⟨[.sheet], []⟩

/-- The description of a schema with sheets alone. -/
def SchemaDecl.sheets : SchemaDecl where
  models := [{
    name := "sheet"
    table := none
    schema := none
    primaryKey := "id"
    columns := [⟨"id", ⟨"integer", []⟩, false, false, none, none, none⟩,
      ⟨"revision", ⟨"numeric", []⟩, true, false, none, none, none⟩]
    relationships := []
    properties := []
    unique := []
    versionColumn := some "revision"
    comment := none }]

theorem SchemaDecl.resolve_sheets : SchemaDecl.sheets.resolve = .ok .sheets :=
  resolve_eq_of_parts (by decide +kernel)

/-- The first sheet, at its fifth revision. -/
def Record.sheet : Record :=
  .ofList [("id", .int 1), ("revision", .decimal (.ofInt64 5))]

/-- A sheet is inserted and updated. -/
def Sessions.sheetSteps : List Step :=
  [.begin "a", .insert "a" "sheet" (.ofList [("id", .int 1), ("revision", .int 5)]),
    .update "a" "sheet" .sheet .empty]

/-- The update of the fifth revision leaves the first one, which is less. -/
theorem Sessions.version_advances_iff_sheet : ∃ new,
    ((empty .sheets fun _ => default).after sheetSteps).Replaces "a" .sheet
      (some (.decimal (.ofInt64 5))) .sheet new ∧
      new.get "revision" = .int 1 ∧
      (new.get "revision").compare (Record.sheet.get "revision") ≠ some .gt := by
  have hreplaces : ((empty .sheets fun _ => default).after sheetSteps).Replaces "a" .sheet
      (some (.decimal (.ofInt64 5))) .sheet
      (Record.sheet.merge (.ofList [("revision", .int 1)])) :=
    .intro (p := ⟨[], .sheet, []⟩) rfl rfl (show _ = [_] ++ _ :: [] from rfl) rfl rfl
  have h := version_advances_iff SchemaDecl.resolve_sheets (List.mem_singleton.2 rfl) rfl _ _
    hreplaces
  obtain ⟨⟨read, hread, -, hnext, hgt⟩, -⟩ := h
  obtain rfl := Option.some.inj hread
  refine ⟨_, hreplaces, hnext, fun hcompare => ?_⟩
  cases hgt.1 hcompare with
  | first _ below => exact absurd below (by decide)

end RecordApi
