import RecordApi.Proofs.Query.Filtered
import RecordApi.Proofs.Query.Paths
import RecordApi.Proofs.Schema.Resolved
import RecordApi.Proofs.Value.Ordered

/-!
# Filters by comparison

A value of an ordered column, and null, stand in one way to the value that a text of a request
denotes: of the filters for null, less, equal and greater each record satisfies exactly one
(`Predicate.countP_stands`). The other comparisons are two of these together, and a list in brackets
asks for one of several equalities (`Predicate.holds_isIn_iff`). `Model.comparison_filters` says so
of the filters of a request.
-/

namespace RecordApi

/-! ## Lists in brackets -/

/-- What is between brackets is cut at its commas, if it is not empty and has no closing bracket. -/
theorem bracketedItems_of_toList {raw : String} {inner : List Char}
    (hraw : raw.toList = '[' :: (inner ++ [']'])) (hne : inner ≠ []) (hclosed : ']' ∉ inner) :
    bracketedItems raw = .ok ((Text.splitOn ',' inner).map String.ofList) := by
  have hback : (inner ++ [']']).reverse = ']' :: inner.reverse := List.reverse_concat
  have haccepted : (inner.reverse.isEmpty || inner.reverse.contains ']') = false := by
    simp [hne, hclosed]
  unfold bracketedItems
  split
  · next rest heq =>
    obtain rfl : inner ++ [']'] = rest := (List.cons.inj (hraw.symm.trans heq)).2
    split
    · next between heq =>
      obtain rfl : inner.reverse = between := (List.cons.inj (hback.symm.trans heq)).2
      rw [haccepted, List.reverse_reverse]
      rfl
    · next hopen => exact absurd hback (hopen _)
  · next hopen => exact absurd hraw (hopen _)

/-- Texts without comma and closing bracket are read from their list in brackets, if it is not
empty. -/
theorem bracketedItems_intercalate {raws : List String} (hne : raws ≠ []) (hblank : raws ≠ [""])
    (h : ∀ raw ∈ raws, ',' ∉ raw.toList ∧ ']' ∉ raw.toList) :
    bracketedItems ("[" ++ ",".intercalate raws ++ "]") = .ok raws := by
  have hchars : ("[" ++ ",".intercalate raws ++ "]").toList =
      '[' :: (Text.joinWith ',' (raws.map String.toList) ++ [']']) := by
    simp [String.toList_intercalate, Text.joinWith_eq_intercalate]
  have hparts : Text.splitOn ',' (Text.joinWith ',' (raws.map String.toList)) =
      raws.map String.toList :=
    Text.splitOn_joinWith (by simpa using hne) (by simpa using fun raw hraw => (h raw hraw).1)
  have hfilled : Text.joinWith ',' (raws.map String.toList) ≠ [] := by
    -- the empty text is the list of the empty text
    intro hempty
    rw [hempty] at hparts
    exact hblank (List.map_injective_iff.2 (fun _ _ => String.toList_injective) hparts.symm)
  have hclosed : ']' ∉ Text.joinWith ',' (raws.map String.toList) := by
    intro hmem
    rcases Text.mem_joinWith hmem with heq | ⟨part, hpart, hmem⟩
    · exact absurd heq (by decide)
    · obtain ⟨raw, hraw, rfl⟩ := List.mem_map.1 hpart
      exact (h raw hraw).2 hmem
  rw [bracketedItems_of_toList hchars hfilled hclosed, hparts, List.map_map]
  simp [Function.comp_def]

namespace Predicate

variable {links : Links} {r : Record} {column : String} {type : ColumnType} {v : Value}

theorem holds_compare_of_null (h : r.get column = .null) (comparison : Comparison) (v : Value) :
    (compare column comparison v).holds links r = false := by
  simp [holds, h, Value.isNull]

theorem holds_compare_of_order (hr : r.get column ≠ .null) (hv : v ≠ .null) {o : Ordering}
    (ho : (r.get column).compare v = some o) (comparison : Comparison) :
    (compare column comparison v).holds links r = comparison.accepts o := by
  simp [holds, Value.isNull_eq_false_iff.2 hr, Value.isNull_eq_false_iff.2 hv, ho]

/-- Null satisfies no comparison. Any other value of an ordered type stands in some order to a value
of it, and that decides all comparisons. -/
theorem stands (links : Links) (ht : type.Ordered) (hr : (r.get column).Fits type)
    (hv : v.Fits type) (hne : v ≠ .null) :
    (r.get column = .null ∧ (eq column v).holds links r = false ∧
      ∀ comparison, (compare column comparison v).holds links r = false) ∨
    (r.get column ≠ .null ∧ ∃ o, (eq column v).holds links r = (o == .eq) ∧
      ∀ comparison, (compare column comparison v).holds links r = comparison.accepts o) := by
  by_cases hnull : r.get column = .null
  · refine .inl ⟨hnull, ?_, fun comparison => holds_compare_of_null hnull comparison v⟩
    rw [PathMap.holds_eq_iff hne, hnull, Value.null_same hne]
  · obtain ⟨o, ho, hsame⟩ := Value.Fits.exists_compare ht hr hv hnull hne
    refine .inr ⟨hnull, o, ?_, holds_compare_of_order hnull hne ho⟩
    rw [PathMap.holds_eq_iff hne, hsame]

/-- A record satisfies exactly one of the conditions for null, less, equal and greater. -/
theorem countP_stands (ht : type.Ordered) (hr : (r.get column).Fits type) (hv : v.Fits type)
    (hne : v ≠ .null) :
    [isNull column, compare column .less v, eq column v, compare column .greater v].countP
      (fun p => p.holds links r) = 1 := by
  rcases stands links ht hr hv hne with ⟨hnull, heq, hcompare⟩ | ⟨hnull, o, heq, hcompare⟩
  · have habsent : (isNull column).holds links r = true := by simp [holds, hnull, Value.isNull]
    simp [habsent, heq, hcompare]
  · have hpresent : (isNull column).holds links r = false := by
      simp [holds, Value.isNull_eq_false_iff.2 hnull]
    cases o <;> simp [hpresent, heq, hcompare, Comparison.accepts]

/-- A comparison that accepts equal values too holds where the strict one does, or equality. -/
theorem holds_compare_iff {strict weak : Comparison}
    (hweak : ∀ o, weak.accepts o = (strict.accepts o || o == .eq)) (ht : type.Ordered)
    (hr : (r.get column).Fits type) (hv : v.Fits type) (hne : v ≠ .null) :
    (compare column weak v).holds links r = true ↔
      (compare column strict v).holds links r = true ∨ (eq column v).holds links r = true := by
  rcases stands links ht hr hv hne with ⟨-, heq, hcompare⟩ | ⟨-, o, heq, hcompare⟩
  · simp [heq, hcompare]
  · rw [heq, hcompare, hcompare, hweak, Bool.or_eq_true]

/-- A value is one of several that are not null if it is equal to one of them. -/
theorem holds_isIn_iff {values : List Value} (h : ∀ v ∈ values, v ≠ .null) :
    (isIn column values).holds links r = true ↔
      ∃ v ∈ values, (eq column v).holds links r = true := by
  have heq : ∀ v ∈ values,
      ((eq column v).holds links r = true ↔ (r.get column).same v = true) := fun v hv => by
    rw [PathMap.holds_eq_iff (h v hv)]
  rw [exists_congr fun v => and_congr_right (heq v), holds, Bool.and_eq_true, List.any_eq_true]
  refine and_iff_right_of_imp ?_
  rintro ⟨v, hv, hsame⟩
  by_contra hnull
  rw [Bool.not_eq_true, Bool.not_eq_false', Value.isNull_eq_true_iff] at hnull
  rw [hnull, Value.null_same (h v hv)] at hsame
  cases hsame

end Predicate

namespace Model.Filters

variable {m : Model} {column raw : String} {c : Column} {v : Value}

theorem equal (hc : m.column? column = some c) (hv : c.typed raw = .ok v) :
    m.Filters column "=" raw (.eq c.name v) :=
  .of_operator hc rfl (by decide) (map_eq_ok_iff.2 ⟨v, hv, rfl⟩)

/-- A list in brackets of texts that denote values is a filter for these. -/
theorem oneOf {raws : List String} {values : List Value} (hc : m.column? column = some c)
    (hne : raws ≠ []) (hblank : raws ≠ [""])
    (hraws : ∀ raw ∈ raws, ',' ∉ raw.toList ∧ ']' ∉ raw.toList)
    (hvalues : raws.mapM c.typed = .ok values) :
    m.Filters column "in" ("[" ++ ",".intercalate raws ++ "]") (.isIn c.name values) := by
  refine .of_operator hc rfl (by decide) (bind_eq_ok_iff.2 ⟨raws, ?_, bind_eq_ok_iff.2 ?_⟩)
  · exact bracketedItems_intercalate hne hblank hraws
  · exact ⟨values, hvalues, rfl⟩

end Model.Filters

/-- The filters by comparison of an ordered column compile for every text that denotes a value. Each
record with null or a value of the type satisfies exactly one of those for null, less, equal and
greater, `lte` and `gte` are two of them together, and `null=0` is the contrary of `null=1`. A list
in brackets is a filter too, and asks for one of the equalities. -/
theorem Model.comparison_filters {m : Model} {column : String} {c : Column}
    (hc : m.column? column = some c) (ht : c.type.Ordered) :
    (∀ (raw : String) (v : Value), c.typed raw = .ok v →
      ∃ absent present equal less greater atMost atLeast,
        m.Filters column "null" "1" absent ∧ m.Filters column "null" "0" present ∧
        m.Filters column "=" raw equal ∧
        m.Filters column "lt" raw less ∧ m.Filters column "gt" raw greater ∧
        m.Filters column "lte" raw atMost ∧ m.Filters column "gte" raw atLeast ∧
        ∀ (links : Links) (r : Record), (r.get column).Fits c.type →
          [absent, less, equal, greater].countP (fun p => p.holds links r) = 1 ∧
          (atMost.holds links r = true ↔
            less.holds links r = true ∨ equal.holds links r = true) ∧
          (atLeast.holds links r = true ↔
            greater.holds links r = true ∨ equal.holds links r = true) ∧
          (present.holds links r = true ↔ absent.holds links r = false)) ∧
    ∀ raws : List String, raws ≠ [] → raws ≠ [""] →
      (∀ raw ∈ raws, (∃ v, c.typed raw = .ok v) ∧ ',' ∉ raw.toList ∧ ']' ∉ raw.toList) →
      ∃ within, m.Filters column "in" ("[" ++ ",".intercalate raws ++ "]") within ∧
        ∀ (links : Links) (r : Record), (r.get column).Fits c.type →
          (within.holds links r = true ↔ ∃ raw ∈ raws, ∃ equal,
            m.Filters column "=" raw equal ∧ equal.holds links r = true) := by
  obtain rfl : c.name = column := Model.name_of_column? hc
  refine ⟨fun raw v hv => ?_, fun raws hne hblank hraws => ?_⟩
  · have hfits := Column.fits_of_typed hv
    have hvn := Column.ne_null_of_typed hv
    have hcompare : ∀ comparison,
        Operator.comparing comparison c raw = .ok (.compare c.name comparison v) := fun _ =>
      map_eq_ok_iff.2 ⟨v, hv, rfl⟩
    refine ⟨_, _, _, _, _, _, _, .of_operator hc rfl (by decide) rfl,
      .of_operator hc rfl (by decide) rfl, .equal hc hv,
      .of_operator hc rfl (by decide) (hcompare .less),
      .of_operator hc rfl (by decide) (hcompare .greater),
      .of_operator hc rfl (by decide) (hcompare .lessOrEqual),
      .of_operator hc rfl (by decide) (hcompare .greaterOrEqual), ?_⟩
    refine fun links r hr => ⟨?_, ?_, ?_, ?_⟩
    · exact Predicate.countP_stands ht hr hfits hvn
    · exact Predicate.holds_compare_iff (fun o => by cases o <;> rfl) ht hr hfits hvn
    · exact Predicate.holds_compare_iff (fun o => by cases o <;> rfl) ht hr hfits hvn
    · simp [Predicate.holds]
  · obtain ⟨values, hvalues⟩ := exists_mapM_eq_ok_iff.2 fun raw hraw => (hraws raw hraw).1
    refine ⟨_, .oneOf hc hne hblank (fun raw hraw => (hraws raw hraw).2) hvalues, ?_⟩
    intro links r _
    have htyped := mapM_eq_ok_iff.1 hvalues
    rw [Predicate.holds_isIn_iff fun v hv =>
      (exists_mem_of_forall₂ htyped hv).elim fun raw h => Column.ne_null_of_typed h.2]
    constructor
    · rintro ⟨v, hv, hholds⟩
      obtain ⟨raw, hraw, heq⟩ := exists_mem_of_forall₂ htyped hv
      exact ⟨raw, hraw, _, .equal hc heq, hholds⟩
    · rintro ⟨raw, hraw, equal, hequal, hholds⟩
      obtain ⟨v, hv, heq⟩ := exists_mem_of_forall₂ htyped.flip hraw
      obtain rfl := hequal.unique (.equal hc heq)
      exact ⟨v, hv, hholds⟩

/-- An employee whose boss is the ninth is found by a list with that number. -/
theorem Model.comparison_filters_boss :
    Model.employee.column? "boss_id" = some ⟨"boss_id", .integer, "integer", true, false, false⟩ ∧
    ColumnType.integer.Ordered ∧
    ∃ within, Model.employee.Filters "boss_id" "in" "[7,9]" within ∧
      within.holds Links.none (Record.empty.insert "boss_id" (.int 9)) = true := by
  have hcolumn : Model.employee.column? "boss_id" =
      some ⟨"boss_id", .integer, "integer", true, false, false⟩ := rfl
  have hget : (Record.empty.insert "boss_id" (.int 9)).get "boss_id" = .int 9 := by
    rw [Record.get_insert, if_pos rfl]
  have hseven : Column.typed ⟨"boss_id", .integer, "integer", true, false, false⟩ "7" =
      .ok (.int 7) := by rfl
  have hnine : Column.typed ⟨"boss_id", .integer, "integer", true, false, false⟩ "9" =
      .ok (.int 9) := by rfl
  obtain ⟨-, hlists⟩ := Model.comparison_filters hcolumn trivial
  obtain ⟨within, hfilters, hholds⟩ := hlists ["7", "9"] (by decide) (by decide)
    (List.forall_mem_cons.2 ⟨⟨⟨_, hseven⟩, by decide⟩, List.forall_mem_cons.2
      ⟨⟨⟨_, hnine⟩, by decide⟩, nofun⟩⟩)
  refine ⟨hcolumn, trivial, within, hfilters, (hholds Links.none _ ?_).2 ?_⟩
  · rw [hget]
    exact .inr rfl
  · refine ⟨"9", by decide, _, .equal hcolumn hnine, ?_⟩
    rw [PathMap.holds_eq_iff (v := .int 9) Value.noConfusion, hget]
    rfl

end RecordApi
