import RecordApi.Proofs.Success
import RecordApi.Proofs.Text.Split
import RecordApi.Query.Filter

/-!
# Filters of a column

The parameter `column__operator=raw` of a request is a filter: the operator makes a condition on the
column of the text `raw` (`Model.Filters`). `FilterClause.ofParam_key` says that the parameter is
read so. The name of a column can stand in a parameter if it has no two underscores in a row and
does not end in one (`FilterClause.Nameable`).
-/

namespace RecordApi

namespace FilterClause

/-- The name of a parameter that asks for an operator on a column. Equality has no sign. -/
def key (column operator : String) : String :=
  if operator = "=" then column else column ++ "__" ++ operator

/-- The name of a column can stand in a parameter, alone and in front of an operator. -/
def Nameable (column : String) : Prop :=
  column ≠ "" ∧ Text.Unpaired '_' (column.toList ++ ['_'])

instance (column : String) : Decidable (Nameable column) :=
  inferInstanceAs (Decidable (column ≠ "" ∧ Text.Unpaired '_' (column.toList ++ ['_'])))

variable {column operator raw : String}

theorem ofParam_of_unreserved {name : String} (h : ¬['_', '_'] <+: name.toList) :
    ofParam name raw = match Text.splitOnPair '_' name.toList with
      | [column] => .ok (some ⟨String.ofList column, "=", raw⟩)
      | [column, operator] => .ok (some ⟨String.ofList column, String.ofList operator, raw⟩)
      | _ => .error (.badRequest .filterAttribute) := by
  unfold ofParam
  split
  · next rest heq => exact absurd ⟨rest, heq.symm⟩ h
  · rfl

theorem toList_joined (column operator : String) : (column ++ "__" ++ operator).toList =
    column.toList ++ '_' :: '_' :: operator.toList := by
  simp

/-- A name that begins with the name of a column is not reserved. -/
theorem Nameable.not_begins_paired (h : Nameable column) (operator : String) :
    ¬['_', '_'] <+: (column ++ "__" ++ operator).toList := by
  intro hprefix
  -- the two underscores would begin in the name of the column
  have hpos : 0 < column.toList.length := List.length_pos_iff.2 (by simpa using h.1)
  have hfront : column.toList ++ ['_'] <+: (column ++ "__" ++ operator).toList := by
    rw [toList_joined]
    exact ⟨'_' :: operator.toList, by simp⟩
  exact h.2.not_begins_paired (List.prefix_of_prefix_length_le hprefix hfront (by simp; omega))

/-- A parameter is read as the column and the operator that its name is made of. -/
theorem ofParam_key (hcolumn : Nameable column) (hoperator : Text.Unpaired '_' operator.toList) :
    ofParam (key column operator) raw = .ok (some ⟨column, operator, raw⟩) := by
  obtain ⟨hne, hunpaired⟩ := hcolumn
  unfold key
  split
  · next heq =>
    subst heq
    have hbare : Text.Unpaired '_' column.toList := List.IsChain.left_of_append hunpaired
    rw [ofParam_of_unreserved hbare.not_begins_paired, Text.splitOnPair_eq_singleton hbare]
    simp
  · have hunreserved := Nameable.not_begins_paired ⟨hne, hunpaired⟩ operator
    rw [ofParam_of_unreserved hunreserved, toList_joined, Text.splitOnPair_append hunpaired,
      Text.splitOnPair_eq_singleton hoperator]
    simp

end FilterClause

/-- A condition is what a filter of a request on a column of a model means: what its clause is
compiled to, and its parameter, where the name of the column can stand in one. -/
structure Model.Filters (m : Model) (column operator raw : String) (p : Predicate) : Prop where
  compiled : OperatorTable.standard.compile m ⟨column, operator, raw⟩ = .ok p
  param : FilterClause.Nameable column →
    OperatorTable.standard.ofParam m (FilterClause.key column operator, raw) = .ok [p]

namespace Model.Filters

variable {m : Model} {column operator raw : String} {c : Column} {p q : Predicate}

theorem unique (hp : m.Filters column operator raw p) (hq : m.Filters column operator raw q) :
    p = q :=
  Except.ok.inj (hp.compiled.symm.trans hq.compiled)

/-- The condition of a filter is what the operator makes of the column and the text. -/
theorem of_operator {f : Operator} (hc : m.column? column = some c)
    (hget : OperatorTable.standard.get? operator = some f)
    (hoperator : Text.Unpaired '_' operator.toList) (hf : f c raw = .ok p) :
    m.Filters column operator raw p := by
  have hcompiled : OperatorTable.standard.compile m ⟨column, operator, raw⟩ = .ok p := by
    unfold OperatorTable.compile
    rw [hc]
    dsimp only
    rw [hget]
    exact hf
  refine ⟨hcompiled, fun hname => ?_⟩
  refine bind_eq_ok_iff.2 ⟨_, FilterClause.ofParam_key hname hoperator, ?_⟩
  exact map_eq_ok_iff.2 ⟨p, hcompiled, rfl⟩

end Model.Filters

end RecordApi
