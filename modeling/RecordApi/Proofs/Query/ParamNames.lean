import RecordApi.Proofs.Query.Filtered
import RecordApi.Proofs.Schema.Resolved

/-!
# Names of parameters

What the name of a parameter of a request stands for, said of the text of the name alone
(`FilterClause.names_read`). It is reserved, or it is the name of a column, or it is that of a
column and that of an operator with two underscores between them (`FilterClause.Joins`); it stands
for no column and no operator in any other way. Three and more underscores in a row leave no choice:
the name of the column ends in front of the first of them.
-/

namespace RecordApi.FilterClause

/-- A name begins with two underscores. -/
def Reserved (name : String) : Prop :=
  ['_', '_'] <+: name.toList

/-- A name has two underscores in a row somewhere. -/
def Paired (name : String) : Prop :=
  ['_', '_'] <:+: name.toList

/-- A name is that of a column and that of an operator with two underscores between them. The column
does not end in an underscore, and neither has two of them in a row. -/
structure Joins (name column operator : String) : Prop where
  name_eq : name = column ++ "__" ++ operator
  column_not_paired : ¬Paired column
  column_end : column.toList.getLast? ≠ some '_'
  operator_not_paired : ¬Paired operator

instance (name : String) : Decidable (Paired name) :=
  inferInstanceAs (Decidable (['_', '_'] <:+: name.toList))

variable {name column operator raw : String}

theorem Reserved.paired (h : Reserved name) : Paired name :=
  h.isInfix

theorem not_paired_iff : ¬Paired name ↔ Text.Unpaired '_' name.toList :=
  Text.unpaired_iff.symm

theorem joins_iff : Joins name column operator ↔
    name.toList = column.toList ++ '_' :: '_' :: operator.toList ∧
      Text.Unpaired '_' (column.toList ++ ['_']) ∧ Text.Unpaired '_' operator.toList := by
  have hname : name = column ++ "__" ++ operator ↔
      name.toList = column.toList ++ '_' :: '_' :: operator.toList := by
    rw [← String.toList_inj]
    simp
  rw [Text.unpaired_concat_iff, ← not_paired_iff, ← not_paired_iff, ← hname]
  exact ⟨fun h => ⟨h.name_eq, ⟨h.column_not_paired, h.column_end⟩, h.operator_not_paired⟩,
    fun ⟨hname, ⟨hpaired, hend⟩, hoperator⟩ => ⟨hname, hpaired, hend, hoperator⟩⟩

theorem splitOnPair_eq_pair_iff {column operator : List Char} :
    Text.splitOnPair '_' name.toList = [column, operator] ↔
      Joins name (String.ofList column) (String.ofList operator) := by
  rw [joins_iff, String.toList_ofList, String.toList_ofList]
  exact Text.splitOnPair_eq_pair_iff

theorem splitOnPair_eq_singleton_iff {column : List Char} :
    Text.splitOnPair '_' name.toList = [column] ↔ String.ofList column = name ∧ ¬Paired name := by
  rw [Text.splitOnPair_eq_singleton_iff, not_paired_iff, ← String.toList_inj,
    String.toList_ofList, eq_comm]

/-- A name can be cut into a column and an operator in one place at most. -/
theorem Joins.unique (h : Joins name column operator) {column' operator' : String}
    (h' : Joins name column' operator') : column = column' ∧ operator = operator' := by
  have hcut : ∀ {c o : String}, Joins name c o →
      Text.splitOnPair '_' name.toList = [c.toList, o.toList] := fun h =>
    Text.splitOnPair_eq_pair_iff.2 (joins_iff.1 h)
  have heq := (hcut h).symm.trans (hcut h')
  rw [List.cons.injEq, List.cons.injEq, String.toList_inj, String.toList_inj] at heq
  exact ⟨heq.1, heq.2.1⟩

theorem Joins.paired (h : Joins name column operator) : Paired name :=
  ⟨column.toList, operator.toList, by rw [(joins_iff.1 h).1]; simp⟩

/-! ## Reading -/

theorem ofParam_of_reserved (h : Reserved name) : ofParam name raw = .ok none := by
  obtain ⟨rest, heq⟩ := h
  unfold ofParam
  rw [← heq]
  rfl

/-- How a name that is not reserved is read. -/
inductive Reads (name raw : String) : Except ApiError (Option FilterClause) → Prop
  | alone (h : ¬Paired name) : Reads name raw (.ok (some ⟨name, "=", raw⟩))
  | joined {column operator : String} (h : Joins name column operator) :
      Reads name raw (.ok (some ⟨column, operator, raw⟩))
  | refused (paired : Paired name) (h : ∀ column operator, ¬Joins name column operator) :
      Reads name raw (.error (.badRequest .filterAttribute))

theorem reads_ofParam (h : ¬Reserved name) : Reads name raw (ofParam name raw) := by
  rw [ofParam_of_unreserved h]
  split
  · next column heq =>
    obtain ⟨rfl, hpaired⟩ := splitOnPair_eq_singleton_iff.1 heq
    exact .alone hpaired
  · next column operator heq => exact .joined (splitOnPair_eq_pair_iff.1 heq)
  · next hone htwo =>
    refine .refused ?_ fun column operator hjoins => ?_
    · by_contra hpaired
      exact hone _ (splitOnPair_eq_singleton_iff.2 ⟨String.ofList_toList, hpaired⟩)
    · exact htwo _ _ (Text.splitOnPair_eq_pair_iff.2 (joins_iff.1 hjoins))

theorem Joins.column_ne (h : Joins name column operator) : column ≠ name := by
  rintro rfl
  have hlength := congrArg List.length (joins_iff.1 h).1
  rw [List.length_append, List.length_cons] at hlength
  omega

/-- A name that is joined is not reserved if the column has a name. -/
theorem Joins.not_reserved (h : Joins name column operator) (hne : column ≠ "") :
    ¬Reserved name := by
  have hnameable : Nameable column := ⟨hne, (joins_iff.1 h).2.1⟩
  rw [h.name_eq]
  exact hnameable.not_begins_paired operator

theorem not_reserved_of_ofParam {result : Except ApiError (Option FilterClause)}
    (h : ofParam name raw = result) (hne : result ≠ .ok none) : ¬Reserved name :=
  fun hreserved => hne (h.symm.trans (ofParam_of_reserved hreserved))

namespace Reads

variable {result : Except ApiError (Option FilterClause)}

theorem of_not_paired (h : Reads name raw result) (hpaired : ¬Paired name) :
    result = .ok (some ⟨name, "=", raw⟩) := by
  cases h with
  | alone => rfl
  | joined hjoins => exact absurd hjoins.paired hpaired
  | refused hpaired' => exact absurd hpaired' hpaired

theorem of_joins (h : Reads name raw result) (hjoins : Joins name column operator) :
    result = .ok (some ⟨column, operator, raw⟩) := by
  cases h with
  | alone hpaired => exact absurd hjoins.paired hpaired
  | joined hjoins' =>
      obtain ⟨rfl, rfl⟩ := hjoins.unique hjoins'
      rfl
  | refused _ hnone => exact absurd hjoins (hnone column operator)

theorem of_not_joins (h : Reads name raw result) (hpaired : Paired name)
    (hnone : ∀ column operator, ¬Joins name column operator) :
    result = .error (.badRequest .filterAttribute) := by
  cases h with
  | alone hnot => exact absurd hpaired hnot
  | joined hjoins => exact absurd hjoins (hnone _ _)
  | refused => rfl

end Reads

/-- The name of a parameter is read in one way. It is reserved if it begins with two underscores; it
is a column that has to be equal if it has no two underscores in a row; else it is the column and
the operator that it joins; and it is refused if it joins none. So a parameter that joins a column
of a model and an operator of a table is compiled to that operator on that column, and joins no
others. -/
theorem names_read (name raw : String) :
    (ofParam name raw = .ok none ↔ Reserved name) ∧
    (ofParam name raw = .ok (some ⟨name, "=", raw⟩) ↔ ¬Paired name) ∧
    (∀ clause, Paired name → (ofParam name raw = .ok (some clause) ↔
      ¬Reserved name ∧ Joins name clause.column clause.operator ∧ clause.raw = raw)) ∧
    (∀ e, ofParam name raw = .error e ↔ e = .badRequest .filterAttribute ∧
      ¬Reserved name ∧ Paired name ∧ ∀ column operator, ¬Joins name column operator) ∧
    ∀ column operator, column ≠ "" → Joins name column operator →
      (∀ column' operator', Joins name column' operator' →
        column' = column ∧ operator' = operator) ∧
      ofParam name raw = .ok (some ⟨column, operator, raw⟩) ∧
      ∀ (table : OperatorTable) (m : Model) (c : Column) (f : Operator),
        m.column? column = some c → table.get? operator = some f →
          table.compile m ⟨column, operator, raw⟩ = f c raw ∧
          table.ofParam m (name, raw) = (f c raw).map ([·]) := by
  refine ⟨⟨fun h => ?_, ofParam_of_reserved⟩, ⟨fun h => ?_, fun h => ?_⟩,
    fun clause hpaired => ⟨fun h => ?_, ?_⟩, fun e => ⟨fun h => ?_, ?_⟩,
    fun column operator hne hjoins => ?_⟩
  · by_contra hreserved
    have hreads := @reads_ofParam name raw hreserved
    rw [h] at hreads
    cases hreads
  · have hreads := @reads_ofParam name raw (not_reserved_of_ofParam h nofun)
    rw [h] at hreads
    cases hreads with
    | alone hpaired => exact hpaired
    | joined hjoins => exact absurd rfl hjoins.column_ne
  · exact (reads_ofParam (mt Reserved.paired h)).of_not_paired h
  · have hreserved := not_reserved_of_ofParam h nofun
    have hreads := @reads_ofParam name raw hreserved
    rw [h] at hreads
    cases hreads with
    | alone hnot => exact absurd hpaired hnot
    | joined hjoins => exact ⟨hreserved, hjoins, rfl⟩
  · rintro ⟨hreserved, hjoins, rfl⟩
    exact (reads_ofParam hreserved).of_joins hjoins
  · have hreserved := not_reserved_of_ofParam h nofun
    have hreads := @reads_ofParam name raw hreserved
    rw [h] at hreads
    cases hreads with
    | refused hpaired hnone => exact ⟨rfl, hreserved, hpaired, hnone⟩
  · rintro ⟨rfl, hreserved, hpaired, hnone⟩
    exact (reads_ofParam hreserved).of_not_joins hpaired hnone
  · have hread : ofParam name raw = .ok (some ⟨column, operator, raw⟩) :=
      (reads_ofParam (hjoins.not_reserved hne)).of_joins hjoins
    refine ⟨fun _ _ h => h.unique hjoins, hread, fun table m c f hc hf => ?_⟩
    have hcompile : table.compile m ⟨column, operator, raw⟩ = f c raw := by
      unfold OperatorTable.compile
      rw [hc]
      dsimp only
      rw [hf]
    refine ⟨hcompile, ?_⟩
    unfold OperatorTable.ofParam
    rw [hread]
    exact congrArg (Except.map ([·])) hcompile

/-- Of three underscores the last one belongs to the operator. -/
theorem names_read_threeUnderscores :
    "text" ≠ "" ∧ Joins "text___null" "text" "_null" ∧
    Model.note.column? "text" = some ⟨"text", .string, "text", true, false, false⟩ ∧
    ¬Joins "text___null" "text_" "null" ∧
    OperatorTable.ofParam [("_null", Operator.null)] Model.note ("text___null", "1") =
      .ok [.isNull "text"] := by
  have hjoins : Joins "text___null" "text" "_null" :=
    ⟨by decide, by decide, by decide, by decide⟩
  obtain ⟨-, -, -, -, hjoined⟩ := names_read "text___null" "1"
  obtain ⟨honly, -, hcompile⟩ := hjoined "text" "_null" (by decide) hjoins
  refine ⟨by decide, hjoins, rfl, fun h => absurd (honly _ _ h).1 (by decide), ?_⟩
  exact (hcompile _ Model.note _ Operator.null rfl rfl).2

end RecordApi.FilterClause
