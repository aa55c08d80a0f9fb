import RecordApi.Proofs.Query.Permuted
import RecordApi.Proofs.Query.Precedence
import RecordApi.Proofs.Store.Isolation
import RecordApi.Proofs.Store.Sorting

/-!
# The order in which records are fetched

A plan arranges the records that it finds (`Plan.Arranges`): by its keys, and by the primary key
where these do not tell them apart. As no two records have one primary key, there is one arrangement
(`Plan.Arranges.unique`), and what is fetched without a window is in it, in whatever order the
records are stored. What stands beside a record may be in stored order nevertheless
(`Plan.fetch_arranged`).
-/

namespace RecordApi

theorem Model.KeyTyped.ordered {m : Model} (h : m.KeyTyped) : m.primaryKey.type.Ordered := by
  rcases h with h | h | h <;> rw [h] <;> trivial

namespace Plan

/-- One record comes before another one in the order of a plan, where the primary key is the last
key. -/
def Precedes (p : Plan) : Record → Record → Prop :=
  SortKey.Precedes (p.sort ++ [⟨p.model.primaryKey.name, false⟩])

/-- The records that a plan finds, in its order. -/
structure Arranges (p : Plan) (t : Tables) (records : List Record) : Prop where
  perm : records.Perm (p.matching t)
  ordered : records.Pairwise p.Precedes

/-- A plan can put records in order: their primary keys are distinct whole numbers, texts or
identifiers, and the columns to sort by are of ordered types. -/
structure Sortable (p : Plan) (rows : List Record) : Prop where
  keyTyped : p.model.KeyTyped
  key_fits : ∀ r ∈ rows, (p.model.keyOf r).Fits p.model.primaryKey.type
  key_ne_null : ∀ r ∈ rows, p.model.keyOf r ≠ .null
  distinct : (rows.map p.model.keyOf).Nodup
  sort_fits : ∀ k ∈ p.sort, ∃ c, p.model.column? k.column = some c ∧ c.type.Ordered ∧
    ∀ r ∈ rows, (r.get k.column).Fits c.type

variable {p : Plan} {t t' : Tables} {rows records others : List Record} {a b : Record}

namespace Sortable

theorem mono (h : p.Sortable rows) (hsub : others ⊆ rows)
    (hdistinct : (others.map p.model.keyOf).Nodup) : p.Sortable others where
  keyTyped := h.keyTyped
  key_fits r hr := h.key_fits r (hsub hr)
  key_ne_null r hr := h.key_ne_null r (hsub hr)
  distinct := hdistinct
  sort_fits k hk := by
    obtain ⟨c, hc, ht, hfits⟩ := h.sort_fits k hk
    exact ⟨c, hc, ht, fun r hr => hfits r (hsub hr)⟩

theorem matching (h : p.Sortable (t.rows p.model.name)) : p.Sortable (p.matching t) :=
  h.mono List.filter_sublist.subset ((List.filter_sublist.map _).nodup h.distinct)

theorem perm (h : p.Sortable rows) (hperm : others.Perm rows) : p.Sortable others :=
  h.mono hperm.subset ((hperm.map _).nodup_iff.2 h.distinct)

theorem orderBy {column : String} (h : p.Sortable rows) (hsort : p.sort = [⟨column, false⟩]) :
    (p.orderBy [⟨column, true⟩]).Sortable rows where
  keyTyped := h.keyTyped
  key_fits := h.key_fits
  key_ne_null := h.key_ne_null
  distinct := h.distinct
  sort_fits := by
    intro k hk
    obtain rfl := List.mem_singleton.1 hk
    exact h.sort_fits ⟨column, false⟩ (hsort ▸ List.mem_cons_self)

theorem orderedIn (h : p.Sortable rows) :
    ∀ k ∈ p.sort ++ [⟨p.model.primaryKey.name, false⟩], OrderedIn rows k.column := by
  intro k hk
  rcases List.mem_append.1 hk with hk | hk
  · obtain ⟨c, -, ht, hfits⟩ := h.sort_fits k hk
    exact ⟨c.type, ht, hfits⟩
  · obtain rfl := List.mem_singleton.1 hk
    exact ⟨_, h.keyTyped.ordered, h.key_fits⟩

/-- The primary key tells two records apart, if nothing else does. -/
theorem order_ne_eq (h : p.Sortable rows) (ha : a ∈ rows) (hb : b ∈ rows)
    (hne : p.model.keyOf a ≠ p.model.keyOf b) : p.order a b ≠ .eq := by
  intro heq
  have hsame := (SortKey.order_eq_eq_iff h.orderedIn ha hb).1 heq ⟨p.model.primaryKey.name, false⟩
    (List.mem_append_right _ List.mem_cons_self)
  have hkey : ∀ r ∈ rows, (p.model.keyOf r).IsKey := fun r hr =>
    h.keyTyped.isKey_of_fits (h.key_fits r hr) (h.key_ne_null r hr)
  exact hne (((hkey a ha).same_iff (hkey b hb)).1 hsame)

theorem order_swap (h : p.Sortable rows) (ha : a ∈ rows) (hb : b ∈ rows) :
    p.order a b = (p.order b a).swap :=
  SortKey.order_swap h.orderedIn ha hb

theorem order_eq_lt_iff (h : p.Sortable rows) (ha : a ∈ rows) (hb : b ∈ rows) :
    p.order a b = .lt ↔ p.Precedes a b :=
  SortKey.order_eq_lt_iff h.orderedIn ha hb

/-- What does not come after another record comes before it. -/
theorem precedes_of_not_after (h : p.Sortable rows) (ha : a ∈ rows) (hb : b ∈ rows)
    (hne : p.model.keyOf a ≠ p.model.keyOf b) (hafter : (p.order b a == .lt) = false) :
    p.Precedes a b := by
  have hneq := h.order_ne_eq ha hb hne
  rw [h.order_swap hb ha] at hafter
  rw [← h.order_eq_lt_iff ha hb]
  cases ho : p.order a b with
  | lt => rfl
  | eq => exact absurd ho hneq
  | gt => simp [ho] at hafter

theorem arranges_sorted (h : p.Sortable (p.matching t)) : p.Arranges t (p.sorted t) := by
  have hperm := p.sorted_perm t
  have htrans : Std.TransCmp fun a b : { r // r ∈ p.matching t } => p.order a.1 b.1 :=
    SortKey.transCmp_order h.orderedIn
  have hsorted : (p.sorted t).Pairwise fun a b => (p.order b a == .lt) = false :=
    Sorting.Orders.of_transCmp.pairwise_sort fun _ hr => hr
  have hdistinct : (p.sorted t).Pairwise fun a b => p.model.keyOf a ≠ p.model.keyOf b :=
    List.pairwise_map.1 ((hperm.map _).nodup_iff.2 h.distinct)
  refine ⟨hperm, (hsorted.and hdistinct).imp_of_mem fun ha hb ⟨hafter, hne⟩ => ?_⟩
  exact h.precedes_of_not_after (hperm.mem_iff.1 ha) (hperm.mem_iff.1 hb) hne hafter

end Sortable

/-- There is one arrangement of the records. -/
theorem Arranges.unique (h : p.Sortable (p.matching t)) (hrecords : p.Arranges t records)
    (hothers : p.Arranges t others) : records = others := by
  refine (hrecords.perm.trans hothers.perm.symm).eq_of_pairwise ?_ hrecords.ordered hothers.ordered
  intro a b ha hb hab hba
  have ha := hrecords.perm.mem_iff.1 ha
  have hb := hothers.perm.mem_iff.1 hb
  have hswap := h.order_swap ha hb
  rw [(h.order_eq_lt_iff ha hb).2 hab, (h.order_eq_lt_iff hb ha).2 hba] at hswap
  cases hswap

theorem Arranges.of_permutes (h : t'.Permutes t) (hrecords : p.Arranges t' records) :
    p.Arranges t records :=
  ⟨hrecords.perm.trans (p.matching_perm h), hrecords.ordered⟩

/-- Records whose values in the only column to sort by are different are in reverse order in the
other direction. -/
theorem Arranges.reverse {column : String} (hsort : p.sort = [⟨column, false⟩])
    (hrecords : p.Arranges t records)
    (hdiffer : records.Pairwise fun a b => (a.get column).same (b.get column) = false) :
    (p.orderBy [⟨column, true⟩]).Arranges t records.reverse where
  perm := (List.reverse_perm _).trans hrecords.perm
  ordered := by
    refine List.pairwise_reverse.2 ((hrecords.ordered.and hdiffer).imp ?_)
    rintro a b ⟨hprecedes, hne⟩
    unfold Precedes at hprecedes
    rw [hsort] at hprecedes
    rcases hprecedes with hputs | ⟨hsame, -⟩
    · exact .inl hputs
    · rw [hne] at hsame
      cases hsame

theorem fetch_eq_of_unwindowed (hoffset : p.offset = none) (hlimit : p.limit = none) :
    p.fetch t = (p.sorted t).map (p.rowOf t) := by
  have hslice : p.slice (p.sorted t) = p.sorted t := by
    unfold slice
    rw [hoffset, hlimit]
    exact List.drop_zero
  rw [fetch_eq, hslice]

theorem rowOf_eq_iff {r : Record} :
    p.rowOf t' r = p.rowOf t r ↔
      ∀ q ∈ p.extra, t'.project p.model r q = t.project p.model r q := by
  unfold rowOf
  simp

section

variable (h : p.Sortable (p.matching t)) (hoffset : p.offset = none) (hlimit : p.limit = none)

include h hoffset hlimit

/-- The rows of tables in another order are made of the same records. -/
theorem fetch_of_permutes (ht : t'.Permutes t) : p.fetch t' = (p.sorted t).map (p.rowOf t') := by
  have hother := (h.perm (matching_perm ht)).arranges_sorted
  rw [fetch_eq_of_unwindowed hoffset hlimit,
    (hother.of_permutes ht).unique h h.arranges_sorted]

/-- Whole rows do not depend on the order of what is stored if, and only if, no projection does. -/
theorem fetch_permutes_iff : (∀ t' : Tables, t'.Permutes t → p.fetch t' = p.fetch t) ↔
    ∀ r ∈ p.sorted t, ∀ q ∈ p.extra, q.Agrees t p.model r := by
  have hrows : ∀ t' : Tables, t'.Permutes t → (p.fetch t' = p.fetch t ↔
      ∀ r ∈ p.sorted t, ∀ q ∈ p.extra, t'.project p.model r q = t.project p.model r q) := by
    intro t' ht
    rw [fetch_of_permutes h hoffset hlimit ht, fetch_eq_of_unwindowed hoffset hlimit,
      List.map_inj_left]
    exact forall₂_congr fun r _ => rowOf_eq_iff
  simp only [Projection.agrees_iff]
  constructor
  · exact fun hsame r hr q hq t' ht => (hrows t' ht).1 (hsame t' ht) r hr q hq
  · exact fun hall t' ht => (hrows t' ht).2 fun r hr q hq => hall r hr q hq t' ht

/-- Records with different values in the only column to sort by are fetched in reverse order in the
other direction. -/
theorem fetch_descending {column : String} (hsort : p.sort = [⟨column, false⟩])
    (hdiffer : (p.matching t).Pairwise fun a b => (a.get column).same (b.get column) = false) :
    (p.orderBy [⟨column, true⟩]).fetch t = (p.fetch t).reverse := by
  have hsorted := h.arranges_sorted
  have hdescending := h.orderBy hsort
  have hpairwise : (p.sorted t).Pairwise fun a b =>
      (a.get column).same (b.get column) = false :=
    hsorted.perm.symm.pairwise hdiffer fun heq => by rw [Value.same_comm, heq]
  have hreverse : (p.orderBy [⟨column, true⟩]).sorted t = (p.sorted t).reverse :=
    Arranges.unique hdescending hdescending.arranges_sorted (hsorted.reverse hsort hpairwise)
  rw [fetch_eq_of_unwindowed hoffset hlimit, ← List.map_reverse, ← hreverse]
  exact fetch_eq_of_unwindowed hoffset hlimit

end

/-- What a plan fetches without a window is made of the one arrangement of the records that it
finds, in whatever order they are stored. So the order of what is stored does not matter for the
records, but for what stands beside them: it does not if, and only if, each projection is of one
value. If the values in the only column to sort by are different, the other direction is the
reverse. -/
theorem fetch_arranged (h : p.Sortable (t.rows p.model.name)) (hoffset : p.offset = none)
    (hlimit : p.limit = none) :
    ∃ records, p.fetch t = records.map (p.rowOf t) ∧ p.Arranges t records ∧
      (∀ others, p.Arranges t others → others = records) ∧
      (∀ t' : Tables, t'.Permutes t → p.fetch t' = records.map (p.rowOf t')) ∧
      ((∀ t' : Tables, t'.Permutes t → p.fetch t' = p.fetch t) ↔
        ∀ r ∈ records, ∀ q ∈ p.extra, q.Agrees t p.model r) ∧
      ∀ column, p.sort = [⟨column, false⟩] →
        (p.matching t).Pairwise (fun a b => (a.get column).same (b.get column) = false) →
        (p.orderBy [⟨column, true⟩]).fetch t = (p.fetch t).reverse := by
  have hmatching := h.matching
  refine ⟨p.sorted t, fetch_eq_of_unwindowed hoffset hlimit, hmatching.arranges_sorted, ?_, ?_,
    fetch_permutes_iff hmatching hoffset hlimit, ?_⟩
  · exact fun others hothers => hothers.unique hmatching hmatching.arranges_sorted
  · exact fun t' ht => fetch_of_permutes hmatching hoffset hlimit ht
  · exact fun column hsort hdiffer => fetch_descending hmatching hoffset hlimit hsort hdiffer

end Plan

/-! ## Folders -/

/-- A model of folders, each of which may be in another one. -/
def Model.folder : Model where
  name := "folder"
  tableName := "folder"
  schemaName := none
  attributes := [.column ⟨"id", .integer, "integer", false, false, true⟩,
    .column ⟨"parent_id", .integer, "integer", true, false, false⟩,
    .relationship ⟨"children", "folder", .toMany, "id", "parent_id"⟩]
  primaryKey := ⟨"id", .integer, "integer", false, false, true⟩
  unique := []
  versionColumn := none

/-- A folder with its number, in another one. -/
def Record.folder (id : Int64) (parent : Value) : Record :=
  (Record.empty.insert "id" (.int id)).insert "parent_id" parent

/-- The second folder and the third one are in the first. -/
def Tables.folders : Tables :=
  [("folder", [.folder 1 .null, .folder 2 (.int 1), .folder 3 (.int 1)])]

/-- The same folders, the third one before the second. -/
def Tables.foldersMoved : Tables :=
  Tables.folders.setRows "folder" [.folder 1 .null, .folder 3 (.int 1), .folder 2 (.int 1)]

theorem Tables.permutes_foldersMoved : foldersMoved.Permutes folders :=
  .setRows (.cons _ (.swap _ _ _))

namespace Plan

/-- All folders, with what is in each. -/
def folders : Plan :=
  ((ofModel .folder).orderBy [⟨"id", false⟩]).withExtra [.related "children" "id"]

theorem exists_folder :
    ∀ r ∈ Tables.folders.rows "folder", ∃ id parent, r = .folder id parent :=
  List.forall_mem_cons.2 ⟨⟨_, _, rfl⟩, List.forall_mem_cons.2 ⟨⟨_, _, rfl⟩,
    List.forall_mem_singleton.2 ⟨_, _, rfl⟩⟩⟩

theorem keyOf_folder (id : Int64) (parent : Value) :
    Model.folder.keyOf (.folder id parent) = .int id := by
  simp [Model.keyOf, Model.folder, Record.folder, Record.get_insert]

theorem sortable_folders : folders.Sortable (Tables.folders.rows "folder") where
  keyTyped := .inl rfl
  key_fits r hr := by
    obtain ⟨id, parent, rfl⟩ := exists_folder r hr
    exact keyOf_folder id parent ▸ .inr rfl
  key_ne_null r hr := by
    obtain ⟨id, parent, rfl⟩ := exists_folder r hr
    exact keyOf_folder id parent ▸ Value.noConfusion
  distinct := by
    have hkeys : (Tables.folders.rows "folder").map Model.folder.keyOf =
        [.int 1, .int 2, .int 3] := rfl
    have hmodel : folders.model = .folder := rfl
    rw [hmodel, hkeys]
    simp
  sort_fits k hk := by
    obtain rfl := List.mem_singleton.1 hk
    refine ⟨Model.folder.primaryKey, rfl, trivial, fun r hr => ?_⟩
    obtain ⟨id, parent, rfl⟩ := exists_folder r hr
    have hkey : (Record.folder id parent).get "id" = .int id := keyOf_folder id parent
    exact hkey ▸ .inr rfl

/-- The folders alone do not depend on the order in which they are stored. -/
theorem fetch_arranged_folders : (folders.withExtra []).Sortable (Tables.folders.rows "folder") ∧
    folders.offset = none ∧ folders.limit = none ∧ Tables.foldersMoved.Permutes Tables.folders ∧
    (folders.withExtra []).fetch Tables.foldersMoved = (folders.withExtra []).fetch Tables.folders ∧
    ((folders.withExtra []).orderBy [⟨"id", true⟩]).fetch Tables.folders =
      ((folders.withExtra []).fetch Tables.folders).reverse := by
  have hsortable : (folders.withExtra []).Sortable (Tables.folders.rows "folder") :=
    { sortable_folders with }
  obtain ⟨records, -, -, -, -, hsame, hreverse⟩ := fetch_arranged hsortable rfl rfl
  refine ⟨hsortable, rfl, rfl, Tables.permutes_foldersMoved, ?_, ?_⟩
  · exact hsame.2 (fun _ _ _ hq => nomatch hq) _ Tables.permutes_foldersMoved
  · exact hreverse "id" rfl (by decide)

/-- The folders in the first one are listed as they are stored. -/
theorem fetch_foldersMoved : folders.Sortable (Tables.folders.rows "folder") ∧
    folders.offset = none ∧ folders.limit = none ∧ Tables.foldersMoved.Permutes Tables.folders ∧
    folders.fetch Tables.foldersMoved ≠ folders.fetch Tables.folders := by
  refine ⟨sortable_folders, rfl, rfl, Tables.permutes_foldersMoved, fun h => ?_⟩
  have hstored : ((folders.fetch Tables.folders).map Row.extra).head? =
    some [.list [.int 2, .int 3]] := by rfl
  have hmoved : ((folders.fetch Tables.foldersMoved).map Row.extra).head? =
    some [.list [.int 3, .int 2]] := by rfl
  rw [h, hstored] at hmoved
  cases hmoved

end Plan

end RecordApi
