import RecordApi.Proofs.Value.Ordered
import RecordApi.Sql.Condition
import RecordApi.Store.Tables

/-!
# What a condition says of a row

A database reads conditions with three truth values. What is compared with null is unknown, `NOT`,
`AND` and `OR` hand on what is unknown unless another part decides, `EXISTS` is true or false, and a
row is kept if its condition is true (`Condition.Keeps`). Values that are not null are compared as
`Value.compare` does. Nothing is said of how a database matches patterns.
-/

namespace RecordApi.Sql

/-! ## Three truth values -/

/-- A truth value, or unknown. -/
abbrev Truth := Option Bool

namespace Truth

/-- Whether both hold. -/
def both : Truth → Truth → Truth
  | some false, _ => some false
  | _, some false => some false
  | some true, some true => some true
  | _, _ => none

/-- Whether one of both holds. -/
def either : Truth → Truth → Truth
  | some true, _ => some true
  | _, some true => some true
  | some false, some false => some false
  | _, _ => none

/-- Whether the opposite holds. -/
def opposite (a : Truth) : Truth :=
  a.map (!·)

/-- Whether all of some hold. -/
def all (truths : List Truth) : Truth :=
  truths.foldr both (some true)

/-- Whether one of some holds. -/
def any (truths : List Truth) : Truth :=
  truths.foldr either (some false)

variable {a b : Truth}

theorem both_eq_true_iff : both a b = some true ↔ a = some true ∧ b = some true := by
  rcases a with _ | _ | _ <;> rcases b with _ | _ | _ <;> simp [both]

theorem either_eq_true_iff : either a b = some true ↔ a = some true ∨ b = some true := by
  rcases a with _ | _ | _ <;> rcases b with _ | _ | _ <;> simp [either]

theorem both_ne_none (ha : a ≠ none) (hb : b ≠ none) : both a b ≠ none := by
  rcases a with _ | _ | _ <;> rcases b with _ | _ | _ <;> simp_all [both]

theorem either_ne_none (ha : a ≠ none) (hb : b ≠ none) : either a b ≠ none := by
  rcases a with _ | _ | _ <;> rcases b with _ | _ | _ <;> simp_all [either]

theorem opposite_eq_true_iff (ha : a ≠ none) : opposite a = some true ↔ a ≠ some true := by
  rcases a with _ | _ | _ <;> simp_all [opposite]

theorem opposite_ne_none (ha : a ≠ none) : opposite a ≠ none := by
  rcases a with _ | _ | _ <;> simp_all [opposite]

@[simp] theorem both_some (x y : Bool) : both (some x) (some y) = some (x && y) := by
  cases x <;> cases y <;> rfl

@[simp] theorem either_some (x y : Bool) : either (some x) (some y) = some (x || y) := by
  cases x <;> cases y <;> rfl

theorem any_eq_true_iff {truths : List Truth} :
    any truths = some true ↔ some true ∈ truths := by
  induction truths with
  | nil => simp [any]
  | cons a rest ih =>
      change either a (any rest) = some true ↔ _
      rw [either_eq_true_iff, ih, List.mem_cons, @eq_comm _ a]

theorem any_ne_none {truths : List Truth} (h : ∀ a ∈ truths, a ≠ none) : any truths ≠ none := by
  induction truths with
  | nil => nofun
  | cons a rest ih =>
      obtain ⟨ha, hrest⟩ := List.forall_mem_cons.1 h
      exact either_ne_none ha (ih hrest)

end Truth

/-! ## Comparisons -/

/-- The order of two values, unless one of them is null. -/
def order? (a b : Value) : Option Ordering :=
  if a.isNull || b.isNull then none else a.compare b

/-- Whether two values are equal. -/
def equality (a b : Value) : Truth :=
  (order? a b).map (· == .eq)

/-- Whether two values stand in an order. -/
def inOrder (comparison : Comparison) (a b : Value) : Truth :=
  (order? a b).map comparison.accepts

section

variable {type : ColumnType} {a b : Value}

theorem order?_of_ne_null (ha : a ≠ .null) (hb : b ≠ .null) : order? a b = a.compare b := by
  unfold order?
  rw [Value.isNull_eq_false_iff.2 ha, Value.isNull_eq_false_iff.2 hb]
  rfl

theorem order?_null_left (b : Value) : order? .null b = none := rfl

theorem order?_null_right (a : Value) : order? a .null = none := by
  unfold order?
  simp

/-- Of values of an ordered type that are not null it is known whether they are equal. -/
theorem equality_of_ne_null (ht : type.Ordered) (ha : a.Fits type) (hb : b.Fits type)
    (han : a ≠ .null) (hbn : b ≠ .null) : equality a b = some (a.same b) := by
  obtain ⟨o, ho, hsame⟩ := ha.exists_compare ht hb han hbn
  unfold equality
  rw [order?_of_ne_null han hbn, ho, hsame]
  rfl

theorem inOrder_of_ne_null {comparison : Comparison} (ht : type.Ordered) (ha : a.Fits type)
    (hb : b.Fits type) (han : a ≠ .null) (hbn : b ≠ .null) :
    inOrder comparison a b = some (((a.compare b).map comparison.accepts).getD false) := by
  obtain ⟨o, ho, -⟩ := ha.exists_compare ht hb han hbn
  unfold inOrder
  rw [order?_of_ne_null han hbn, ho]
  rfl

/-- Two values of which one has an ordered type are known to be equal if neither is null and they
are the same. -/
theorem equality_eq_true_iff (ht : type.Ordered) (hb : b.Fits type) :
    equality a b = some true ↔ b ≠ .null ∧ a.same b = true := by
  by_cases hbn : b = .null
  · subst hbn
    simp [equality, order?_null_right]
  · by_cases han : a = .null
    · subst han
      simp [equality, order?_null_left, Value.null_same hbn]
    · unfold equality
      rw [order?_of_ne_null han hbn, hb.same_eq ht]
      cases a.compare b <;> simp [hbn]

end

/-! ## Conditions -/

/-- What conditions are read in: tables, and a way to match texts with patterns, with or without
regard to case. -/
structure Database where
  tables : Tables
  likes : Bool → String → Value → Truth

/-- Rows for aliases. -/
abbrev Scope := Alias → Record

/-- The scope with a row for an alias. -/
def Scope.bind (scope : Scope) (source : Alias) (r : Record) : Scope :=
  fun other => if other = source then r else scope other

/-- The value of a column in a scope. -/
def ColumnRef.value (c : ColumnRef) (scope : Scope) : Value :=
  (scope c.source).get c.column.name

/-- Whether the row for the inner alias of a join belongs to the one for the outer alias. -/
def Join.truth (j : Join) (scope : Scope) : Truth :=
  equality ((scope j.inner).get j.remoteColumn) ((scope j.outer).get j.localColumn)

namespace Condition

mutual

/-- The truth value of a condition in a scope. -/
def truth (db : Database) (scope : Scope) : Condition → Truth
  | .isNull c => some (c.value scope).isNull
  | .notNull c => some (!(c.value scope).isNull)
  | .equal c value => equality (c.value scope) value
  | .like c pattern ignoresCase => db.likes ignoresCase pattern (c.value scope)
  | .compare c comparison value => inOrder comparison (c.value scope) value
  | .isIn c values => Truth.any (values.map (equality (c.value scope)))
  | .all conditions => Truth.all (truths db scope conditions)
  | .any conditions => Truth.any (truths db scope conditions)
  | .not condition => (truth db scope condition).opposite
  | .linked join condition =>
    some ((db.tables.rows join.target.name).any fun r =>
      ((join.truth (scope.bind join.inner r)).both
        (truth db (scope.bind join.inner r) condition)) == some true)

/-- The truth values of some conditions in a scope. -/
def truths (db : Database) (scope : Scope) : List Condition → List Truth
  | [] => []
  | c :: rest => truth db scope c :: truths db scope rest

end

/-- A row is kept if the condition on it is true. -/
def Keeps (c : Condition) (db : Database) (r : Record) : Prop :=
  c.truth db (fun _ => r) = some true

end Condition

end RecordApi.Sql
