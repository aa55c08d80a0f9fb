import Mathlib.Algebra.BigOperators.Group.List.Basic
import Mathlib.Algebra.Ring.Nat
import RecordApi.Proofs.Query.Found
import RecordApi.Proofs.Schema.Described
import RecordApi.Proofs.Store.Deletion
import RecordApi.Proofs.Value.Ordered
import RecordApi.Resource.Included

/-!
# Following relationships

A relationship joins a record with the records of its target whose column is the same as that of the
record, if it is not null (`Relationship.joins`). Counting what is behind a relationship, listing a
column of it, testing it and including it in an answer go to the same records
(`Relationship.FollowedAlike`). A relationship and its inverse join the same pairs. Where a foreign
key refers to the primary key of committed records, each record that refers to any is joined with
one record, so that the counts add up to the number of records that refer
(`Sessions.relationships_agree`).
-/

namespace RecordApi

/-! ## Joined records -/

namespace Relationship

/-- Whether a relationship joins a record with another one. -/
def joins (r : Relationship) (record other : Record) : Bool :=
  !(record.get r.localColumn).isNull &&
    (other.get r.remoteColumn).same (record.get r.localColumn)

/-- The records of some tables that a relationship joins a record with. -/
def reached (r : Relationship) (t : Tables) (record : Record) : List Record :=
  (t.rows r.target).filter (r.joins record)

/-- All ways of following a relationship of a model from a record lead to the records that it joins
the record with, each as often as it is in the tables. -/
structure FollowedAlike (schema : Schema) (t : Tables) (m : Model) (r : Relationship)
    (record : Record) : Prop where
  counted : t.project m record (.count r.name) = .int (.ofNat (r.reached t record).length)
  listed : r.isToMany = true → ∀ column,
    t.project m record (.related r.name column) = .list ((r.reached t record).map (·.get column))
  tested : ∀ condition, (Predicate.linked r.name condition).holds (t.links m) record =
    (r.reached t record).any (Predicate.holds Links.none · condition)
  included : ∃ linked, LinkedRecords.ofNames schema m.name r.name = .ok linked ∧
    ∀ tx row, tx.working = t → row.record = record →
      (linked.resolve tx row).Perm (r.reached t record)

/-- A relationship to many records of a model and one from these to the first model have the same
pair of columns. -/
structure Inverse (m n : Model) (r s : Relationship) : Prop where
  many : r.isToMany = true
  target : r.target = n.name
  one : s.isToMany = false
  back : s.target = m.name
  localColumn : s.localColumn = r.remoteColumn
  remoteColumn : s.remoteColumn = r.localColumn

/-- Every record that refers to any record of a model by a relationship to many is joined with one
of them, and the counts add up to the number of records that refer. -/
structure CoversOnce (t : Tables) (m : Model) (r : Relationship) : Prop where
  once : ∀ other ∈ t.rows r.target, other.get r.remoteColumn ≠ .null →
    (t.rows m.name).countP (r.joins · other) = 1
  total : ((t.rows m.name).map fun record => (r.reached t record).length).sum =
    (t.rows r.target).countP fun other => !(other.get r.remoteColumn).isNull

variable {schema : Schema} {t : Tables} {m n : Model} {r s : Relationship} {record other : Record}

theorem joins_eq_true_iff : r.joins record other = true ↔ record.get r.localColumn ≠ .null ∧
    (other.get r.remoteColumn).same (record.get r.localColumn) = true := by
  unfold joins
  rw [Bool.and_eq_true, Bool.not_eq_true', Value.isNull_eq_false_iff]

/-- What is joined has no null in the column of its own. -/
theorem ne_null_of_joins (h : r.joins record other = true) : other.get r.remoteColumn ≠ .null := by
  obtain ⟨hnull, hsame⟩ := joins_eq_true_iff.1 h
  intro hother
  rw [hother, Value.null_same hnull] at hsame
  cases hsame

theorem joins_eq_same (h : record.get r.localColumn ≠ .null) :
    r.joins record other = (other.get r.remoteColumn).same (record.get r.localColumn) := by
  unfold joins
  rw [Value.isNull_eq_false_iff.2 h, Bool.not_false, Bool.true_and]

/-- A null is joined with nothing. -/
theorem reached_of_null (h : record.get r.localColumn = .null) : r.reached t record = [] :=
  List.filter_eq_nil_iff.2 fun _ _ hjoins => (joins_eq_true_iff.1 hjoins).1 h

/-- A relationship and its inverse join the same pairs. -/
theorem Inverse.joins_comm (h : Inverse m n r s) : s.joins other record = r.joins record other := by
  rw [Bool.eq_iff_iff]
  constructor
  · intro hjoins
    have hnull := ne_null_of_joins hjoins
    rw [joins_eq_true_iff, h.localColumn, h.remoteColumn] at hjoins
    rw [h.remoteColumn] at hnull
    rw [joins_eq_true_iff, Value.same_comm]
    exact ⟨hnull, hjoins.2⟩
  · intro hjoins
    have hnull := ne_null_of_joins hjoins
    rw [joins_eq_true_iff] at hjoins
    rw [joins_eq_true_iff, h.localColumn, h.remoteColumn, Value.same_comm]
    exact ⟨hnull, hjoins.2⟩

theorem Inverse.mem_reached_iff (h : Inverse m n r s) (hrecord : record ∈ t.rows m.name)
    (hother : other ∈ t.rows n.name) : other ∈ r.reached t record ↔ record ∈ s.reached t other := by
  unfold reached
  rw [List.mem_filter, List.mem_filter, h.target, h.back, h.joins_comm]
  simp only [hrecord, hother]

/-! ## Ways of following a relationship -/

theorem links_eq_reached (h : m.relationship? r.name = some r) :
    t.links m r.name record = r.reached t record := by
  unfold Tables.links
  rw [h]
  dsimp only
  split
  · next hnull => rw [reached_of_null (Value.isNull_eq_true_iff.1 hnull)]
  · next hnull =>
    refine List.filter_congr fun other _ => ?_
    rw [joins_eq_same fun he => hnull (Value.isNull_eq_true_iff.2 he)]

theorem exists_ofNames {d : SchemaDecl} (hd : d.resolve = .ok schema) (hm : m ∈ schema.models)
    (hr : m.relationship? r.name = some r) :
    ∃ target, target.name = r.target ∧
      LinkedRecords.ofNames schema m.name r.name = .ok ⟨r, target⟩ := by
  obtain ⟨target, htarget⟩ := SchemaDecl.exists_target hd hm hr
  refine ⟨target, Schema.name_of_model? htarget, ?_⟩
  unfold LinkedRecords.ofNames
  simp only [(SchemaDecl.wellFormed hd).model?_name hm, hr, htarget]

/-- The records to include are fetched by their column, in an order of their own. -/
theorem resolve_perm {target : Model} (htarget : target.name = r.target) (tx : Transaction)
    (row : Row) :
    (LinkedRecords.resolve ⟨r, target⟩ tx row).Perm (r.reached tx.working row.record) := by
  unfold LinkedRecords.resolve
  dsimp only
  split
  · next hnull => rw [reached_of_null (Value.isNull_eq_true_iff.1 hnull)]
  · next hnull =>
    have hne : row.record.get r.localColumn ≠ .null :=
      fun he => hnull (Value.isNull_eq_true_iff.2 he)
    set plan := (Plan.ofModel target).filter
      (.eq r.remoteColumn (row.record.get r.localColumn)) with hplan
    have hrows : (tx.fetch plan).map (·.record) = plan.sorted tx.working := by
      rw [Transaction.fetch, Plan.fetch_eq, List.map_map]
      exact List.map_id _
    have hmatching : plan.matching tx.working = r.reached tx.working row.record := by
      unfold Plan.matching reached
      rw [← htarget]
      refine List.filter_congr fun other _ => ?_
      rw [joins_eq_same hne]
      simp [hplan, Plan.accepts, Plan.filter, Plan.ofModel, Predicate.holds,
        Value.isNull_eq_false_iff.2 hne]
    rw [hrows, ← hmatching]
    exact plan.sorted_perm tx.working

theorem followedAlike {d : SchemaDecl} (hd : d.resolve = .ok schema) (hm : m ∈ schema.models)
    (hr : m.relationship? r.name = some r) (t : Tables) (record : Record) :
    r.FollowedAlike schema t m record where
  counted := by rw [Tables.project, links_eq_reached hr]
  listed hmany column := by
    have hany : (m.relationship? r.name).any isToMany = true := by rw [hr]; exact hmany
    rw [Tables.project, links_eq_reached hr, if_pos hany]
  tested condition := by rw [Predicate.holds, links_eq_reached hr]
  included := by
    obtain ⟨target, htarget, hlinked⟩ := exists_ofNames hd hm hr
    refine ⟨⟨r, target⟩, hlinked, ?_⟩
    rintro tx row rfl rfl
    exact resolve_perm htarget tx row

/-! ## Counting over two tables -/

/-- Where everything that satisfies a condition has one partner and nothing else has any, the
partners are as many as what satisfies the condition. -/
theorem sum_eq_countP {α : Type} {partners : α → Nat} {condition : α → Bool} {xs : List α}
    (h : ∀ x ∈ xs, partners x = if condition x then 1 else 0) :
    (xs.map partners).sum = xs.countP condition := by
  induction xs with
  | nil => rfl
  | cons x xs ih =>
      obtain ⟨hx, hxs⟩ := List.forall_mem_cons.1 h
      rw [List.map_cons, List.sum_cons, List.countP_cons, ih hxs, hx, Nat.add_comm]

/-- The pairs of two lists may be counted from either side. -/
theorem sum_countP_comm {α β : Type} (related : α → β → Bool) (xs : List α) (ys : List β) :
    (xs.map fun x => ys.countP (related x)).sum =
      (ys.map fun y => xs.countP (related · y)).sum := by
  induction xs with
  | nil => simp
  | cons x xs ih =>
      have hfirst : (ys.map fun y => if related x y = true then 1 else 0).sum =
          ys.countP (related x) := sum_eq_countP fun _ _ => rfl
      simp only [List.map_cons, List.sum_cons, List.countP_cons, List.sum_map_add, ih, hfirst]
      exact Nat.add_comm _ _

/-- The key column of a model and the column that refers to it are of one type, which makes keys of
what the latter holds. -/
theorem isKey_of_valid {c : Column} (hk : m.KeyTyped) (hc : n.column? r.remoteColumn = some c)
    (htype : c.type = m.primaryKey.type) (hother : other.Valid n)
    (hn : other.get r.remoteColumn ≠ .null) : (other.get r.remoteColumn).IsKey := by
  rcases hother.takes _ (Record.contains_of_get_ne_null hn) with ⟨c', hc', hfits⟩ | ⟨-, k, hint⟩
  · obtain rfl := Option.some.inj (hc.symm.trans hc')
    exact hk.isKey_of_fits (htype ▸ hfits) hn
  · rw [hint]
    trivial

/-- What refers to a key is joined with the records that have the key. -/
theorem countP_joins (hlocal : r.localColumn = m.primaryKey.name) {rows : List Record}
    (hkeys : ∀ record ∈ rows, m.keyOf record ≠ .null) :
    rows.countP (r.joins · other) = (m.withKey (other.get r.remoteColumn) rows).length := by
  rw [List.countP_eq_length_filter]
  unfold Model.withKey
  congr 1
  refine List.filter_congr fun record hrecord => ?_
  have hkey := hkeys record hrecord
  unfold Model.keyOf at hkey ⊢
  rw [joins_eq_same (by rw [hlocal]; exact hkey), hlocal, Value.same_comm]

/-- Where every record that refers is joined with one, the counts are those of the pairs from the
other side. -/
theorem CoversOnce.of_once (honce : ∀ other ∈ t.rows r.target, other.get r.remoteColumn ≠ .null →
    (t.rows m.name).countP (r.joins · other) = 1) : r.CoversOnce t m := by
  refine ⟨honce, ?_⟩
  have hlengths : (fun record => (r.reached t record).length) =
      fun record => (t.rows r.target).countP (r.joins record) := by
    funext record
    rw [List.countP_eq_length_filter]
    rfl
  rw [hlengths, sum_countP_comm]
  refine sum_eq_countP fun other hother => ?_
  by_cases hn : other.get r.remoteColumn = .null
  · rw [List.countP_eq_zero.2 fun _ _ hjoins => ne_null_of_joins hjoins hn, hn]
    rfl
  · rw [honce other hother hn, Value.isNull_eq_false_iff.2 hn]
    rfl

/-- A foreign key that refers to the primary key of records that are checked and valid covers what
refers by it once. -/
theorem coversOnce (hm : m.WellFormed) (hk : m.KeyTyped)
    (hlocal : r.localColumn = m.primaryKey.name) (htarget : r.target = n.name) {c : Column}
    (hc : n.column? r.remoteColumn = some c) (htype : c.type = m.primaryKey.type)
    (hmany : r.isToMany = true) (hrows : ∀ record ∈ t.rows m.name, record.Valid m)
    (hothers : ∀ other ∈ t.rows n.name, other.Valid n) (hunique : t.checkUnique m = .ok ())
    (hrefers : t.checkForeignKey (r.foreignKey m.name) = .ok ()) : r.CoversOnce t m := by
  have hkeys : ∀ record ∈ t.rows m.name, m.keyOf record ≠ .null :=
    fun record hrecord => (hrows record hrecord).notNull m.primaryKey hm.key_mem hm.key_not_null
  have hforeign : r.foreignKey m.name = ⟨r.target, r.remoteColumn, m.name, r.localColumn⟩ := by
    unfold foreignKey
    rw [beq_iff_eq.1 hmany]
  rw [hforeign] at hrefers
  refine .of_once fun other hother hn => ?_
  rw [countP_joins hlocal hkeys]
  -- the foreign key finds one, and the key is unique
  have hkey := isKey_of_valid hk hc htype (hothers other (htarget ▸ hother)) hn
  have hle := Tables.length_withKey_le_one hm hk hkey hrows hunique
  obtain ⟨record, hrecord, hsame⟩ := Tables.refers_of_checkForeignKey hrefers hother hn
  have hmem : record ∈ m.withKey (other.get r.remoteColumn) (t.rows m.name) := by
    refine Model.mem_withKey_iff.2 ⟨hrecord, ?_⟩
    rw [Model.keyOf, ← hlocal]
    exact hsame
  exact Nat.le_antisymm hle (List.length_pos_of_mem hmem)

end Relationship

namespace Sessions

variable {schema : Schema} {m n : Model} {r : Relationship}

/-- All ways of following a relationship agree, a relationship and its inverse join the same pairs,
and where a relationship to many starts at the primary key, each committed record that refers is
reached from one record alone. -/
theorem relationships_agree {d : SchemaDecl} (hd : d.resolve = .ok schema) (hm : m ∈ schema.models)
    (hr : m.relationship? r.name = some r) :
    (∀ t record, r.FollowedAlike schema t m record) ∧
      (∀ n ∈ schema.models, ∀ s, n.relationship? s.name = some s → r.Inverse m n s →
        ∀ (t : Tables), ∀ record ∈ t.rows m.name, ∀ other ∈ t.rows n.name,
          (other ∈ r.reached t record ↔ record ∈ s.reached t other)) ∧
      (∀ n c, schema.model? r.target = some n → n.column? r.remoteColumn = some c →
        m.KeyTyped → r.localColumn = m.primaryKey.name → c.type = m.primaryKey.type →
        r.isToMany = true → ∀ supply steps,
          r.CoversOnce ((empty schema supply).after steps).store.tables m) := by
  have hs := SchemaDecl.wellFormed hd
  refine ⟨Relationship.followedAlike hd hm hr, ?_, ?_⟩
  · intro n _ s _ hinverse t record hrecord other hother
    exact hinverse.mem_reached_iff hrecord hother
  · intro n c htarget hc hk hlocal htype hmany supply steps
    have hn := Schema.mem_of_model? htarget
    have hchecked : ((empty schema supply).after steps).store.tables.Checked schema :=
      checked_after hs steps
    exact Relationship.coversOnce (hs.models m hm) hk hlocal (Schema.name_of_model? htarget).symm
      hc htype hmany (keeps_valid hs hm steps).committed (keeps_valid hs hn steps).committed
      (hchecked.unique m hm) (hchecked.refers _ (SchemaDecl.foreignKey_mem hd hm hr))

/-- A company with two employees, and an employee without a company. -/
def companySteps : List Step :=
  [.begin "a",
    .insert "a" "company" (.ofList [("id", .int 1), ("name", .text "first")]),
    .insert "a" "employee" (.ofList [("id", .int 1), ("pay_rate", .int 7), ("company_id", .int 1)]),
    .insert "a" "employee" (.ofList [("id", .int 2), ("pay_rate", .int 8), ("company_id", .int 1)]),
    .insert "a" "employee" (.ofList [("id", .int 3), ("pay_rate", .int 9)]),
    .commit "a"]

theorem relationships_agree_companies :
    ∃ company ∈ Schema.companies.models, ∃ employee ∈ Schema.companies.models,
      SchemaDecl.companies.resolve = .ok .companies ∧
      Relationship.Inverse company employee ⟨"employees", "employee", .toMany, "id", "company_id"⟩
        ⟨"company", "company", .toOne, "company_id", "id"⟩ ∧
      Relationship.CoversOnce
        ((empty .companies fun _ => default).after companySteps).store.tables company
        ⟨"employees", "employee", .toMany, "id", "company_id"⟩ ∧
      ((((empty .companies fun _ => default).after companySteps).store.tables.rows
        "employee").countP fun other => !(other.get "company_id").isNull) = 2 := by
  refine ⟨_, List.mem_cons_self, _, List.mem_cons_of_mem _ List.mem_cons_self,
    SchemaDecl.resolve_companies, ⟨rfl, rfl, rfl, rfl, rfl, rfl⟩, ?_, rfl⟩
  have h := relationships_agree (r := ⟨"employees", "employee", .toMany, "id", "company_id"⟩)
    SchemaDecl.resolve_companies List.mem_cons_self rfl
  exact h.2.2 _ ⟨"company_id", .integer, "integer", true, false, false⟩ rfl rfl (.inl rfl) rfl rfl
    rfl _ _

end Sessions

end RecordApi
