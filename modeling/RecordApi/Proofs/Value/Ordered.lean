import RecordApi.Proofs.Value.Coerce
import RecordApi.Proofs.Value.Same
import RecordApi.Value.Order

/-!
# Values of ordered types

Any two values of one ordered type have an order, if neither is null, and they are the same value
if the order says so. So each of them is the same as itself. Null is the same as nothing else.
-/

namespace RecordApi

/-- The types of columns whose values are ordered, each in one way. -/
def ColumnType.Ordered : ColumnType → Prop
  | .integer | .boolean | .string | .dateTime _ | .date | .time | .decimal | .uuid => True
  | .float | .json | .geometry _ _ | .other _ => False

namespace Value

/-- Values of one ordered type have an order, and are the same if that says so. -/
theorem Fits.exists_compare {type : ColumnType} (ht : type.Ordered) {v w : Value}
    (hv : v.Fits type) (hw : w.Fits type) (hvn : v ≠ .null) (hwn : w ≠ .null) :
    ∃ o, v.compare w = some o ∧ v.same w = (o == .eq) := by
  cases hv.ofKind hvn with
  | integer | boolean | string | dateTime | date | time | decimal | uuid =>
      cases hw.ofKind hwn
      exact ⟨_, rfl, rfl⟩
  | float | json | geometry | other => exact ht.elim

/-- A value of an ordered type is the same as itself. -/
theorem Fits.same_self {type : ColumnType} (ht : type.Ordered) {v : Value} (hv : v.Fits type) :
    v.same v = true := by
  by_cases hnull : v = .null
  · subst hnull
    rfl
  obtain ⟨o, ho, hsame⟩ := Fits.exists_compare ht hv hv hnull hnull
  -- the order of a value and itself is its own reverse
  have hswap : o = o.swap := by
    have h := compare_swap v v
    rw [ho] at h
    exact Option.some.inj h
  rw [hsame]
  cases o with
  | eq => rfl
  | lt | gt => cases hswap

theorem null_same {v : Value} (h : v ≠ .null) : Value.null.same v = false := by
  cases v with
  | null => exact absurd rfl h
  | _ => rfl

theorem same_null {v : Value} (h : v ≠ .null) : v.same .null = false :=
  (same_comm v .null).trans (null_same h)

theorem isNull_eq_false_iff {v : Value} : v.isNull = false ↔ v ≠ .null := by
  rw [← Bool.not_eq_true, isNull_eq_true_iff]

/-- A value is the same as one of an ordered type if their order says so. -/
theorem Fits.same_eq {type : ColumnType} (ht : type.Ordered) {v : Value} (hv : v.Fits type)
    (w : Value) : w.same v = (w.compare v == some .eq) := by
  have hv := fits_iff.1 hv
  cases v with
  | json | geometry | list => cases type <;> first | exact ht.elim | cases hv
  | _ => cases w <;> rfl

end Value

end RecordApi
