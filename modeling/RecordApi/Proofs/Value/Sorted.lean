import RecordApi.Proofs.Value.Ordered

/-!
# Values in order

On the values of one ordered type, null among them, `Value.sortOrder` is a total preorder with null
at the end (`ColumnType.transCmp_order`): it is oriented and transitive, and two values are equal in
it if they are the same (`Value.Fits.sortOrder_eq_iff`). What is first in it is said without it by
`Value.Before`.
-/

namespace RecordApi

/-! ## The kinds of values -/

instance : Std.TransCmp Value.compareBool where
  eq_swap {a b} := Value.compareBool_swap b a
  isLE_trans {a b c} := by cases a <;> cases b <;> cases c <;> simp [Value.compareBool]

instance : Std.TransCmp Date.compare :=
  inferInstanceAs (Std.TransCmp
    (compareLex (compareOn Date.year) (compareLex (compareOn Date.month) (compareOn Date.day))))

instance : Std.TransCmp Time.compare :=
  inferInstanceAs (Std.TransCmp (compareLex (compareOn Time.hour)
    (compareLex (compareOn Time.minute)
      (compareLex (compareOn Time.second) (compareOn Time.nano)))))

/-- A comparison of what is at some place in each of two things is transitive if the comparison of
what is there is. -/
theorem transCmp_comap {α β : Type} (f : α → β) (cmp : β → β → Ordering) [h : Std.TransCmp cmp] :
    Std.TransCmp fun a b => cmp (f a) (f b) where
  eq_swap := h.eq_swap
  isLE_trans := h.isLE_trans

instance : Std.TransCmp DateTime.compare :=
  have := transCmp_comap DateTime.date Date.compare
  have := transCmp_comap DateTime.time Time.compare
  inferInstanceAs (Std.TransCmp (compareLex (fun a b : DateTime => a.date.compare b.date)
    fun a b => a.time.compare b.time))

instance : Std.TransCmp Decimal.compare :=
  inferInstanceAs (Std.TransCmp (compareOn Decimal.value))

instance : Std.TransCmp Uuid.compare :=
  inferInstanceAs (Std.TransCmp (compareOn Uuid.value))

/-! ## Values of a type -/

namespace Value

theorem sortOrder_null_left {v : Value} (h : v ≠ .null) : Value.null.sortOrder v = .gt := by
  simp [sortOrder, isNull_eq_false_iff.2 h]

theorem sortOrder_null_right {v : Value} (h : v ≠ .null) : v.sortOrder .null = .lt := by
  simp [sortOrder, isNull_eq_false_iff.2 h]

theorem sortOrder_of_ne_null {v w : Value} (hv : v ≠ .null) (hw : w ≠ .null) :
    v.sortOrder w = (v.compare w).getD .eq := by
  simp [sortOrder, isNull_eq_false_iff.2 hv, isNull_eq_false_iff.2 hw]

theorem sortOrder_swap (v w : Value) : w.sortOrder v = (v.sortOrder w).swap := by
  by_cases hv : v = .null <;> by_cases hw : w = .null
  · subst hv hw
    rfl
  · subst hv
    rw [sortOrder_null_left hw, sortOrder_null_right hw]
    rfl
  · subst hw
    rw [sortOrder_null_left hv, sortOrder_null_right hv]
    rfl
  · rw [sortOrder_of_ne_null hv hw, sortOrder_of_ne_null hw hv, compare_swap v w]
    cases v.compare w <;> rfl

end Value

/-- The values of a type, null among them. -/
abbrev ColumnType.Values (type : ColumnType) :=
  { v : Value // v.Fits type }

/-- The order for sorting, on the values of a type. -/
def ColumnType.order (type : ColumnType) (v w : type.Values) : Ordering :=
  v.1.sortOrder w.1

namespace Value

/-- If the values of a type are of one kind and are compared by a transitive comparison, their order
with null at the end is transitive. -/
theorem transCmp_of_kind {type : ColumnType} {α : Type} (make : α → Value)
    (cmp : α → α → Ordering) [Std.TransCmp cmp] (hnull : ∀ a, make a ≠ .null)
    (hkind : ∀ {v : Value}, OfKind type v → ∃ a, v = make a)
    (hcompare : ∀ a b, (make a).compare (make b) = some (cmp a b)) :
    Std.TransCmp type.order where
  eq_swap := sortOrder_swap _ _
  isLE_trans {u v w} := by
    obtain ⟨u, hu⟩ := u
    obtain ⟨v, hv⟩ := v
    obtain ⟨w, hw⟩ := w
    unfold ColumnType.order
    dsimp only
    have hmake : ∀ a b, (make a).sortOrder (make b) = cmp a b := fun a b => by
      rw [sortOrder_of_ne_null (hnull a) (hnull b), hcompare]
      rfl
    have hcases : ∀ {v : Value}, v.Fits type → v = .null ∨ ∃ a, v = make a := fun hv =>
      (fits_iff_ofKind.1 hv).imp_right hkind
    rcases hcases hw with rfl | ⟨c, rfl⟩
    · -- null comes behind everything
      intro _ _
      by_cases hu : u = .null
      · subst hu
        rfl
      · rw [sortOrder_null_right hu]
        rfl
    · rcases hcases hv with rfl | ⟨b, rfl⟩
      · rw [sortOrder_null_left (hnull c)]
        exact fun _ h => absurd h (by decide)
      · rcases hcases hu with rfl | ⟨a, rfl⟩
        · rw [sortOrder_null_left (hnull b)]
          exact fun h => absurd h (by decide)
        · rw [hmake, hmake, hmake]
          exact Std.TransCmp.isLE_trans

end Value

/-- The values of an ordered type are in a total preorder. -/
theorem ColumnType.transCmp_order {type : ColumnType} (ht : type.Ordered) :
    Std.TransCmp type.order := by
  cases type with
  | integer =>
    exact Value.transCmp_of_kind .int (compareOn Int64.toInt) (fun _ => nofun)
      (fun (.integer a) => ⟨a, rfl⟩) fun _ _ => rfl
  | boolean =>
    exact Value.transCmp_of_kind .bool Value.compareBool (fun _ => nofun)
      (fun (.boolean a) => ⟨a, rfl⟩) fun _ _ => rfl
  | string =>
    exact Value.transCmp_of_kind .text compare (fun _ => nofun)
      (fun (.string a) => ⟨a, rfl⟩) fun _ _ => rfl
  | dateTime =>
    exact Value.transCmp_of_kind .dateTime DateTime.compare (fun _ => nofun)
      (fun (.dateTime _ a) => ⟨a, rfl⟩) fun _ _ => rfl
  | date =>
    exact Value.transCmp_of_kind .date Date.compare (fun _ => nofun)
      (fun (.date a) => ⟨a, rfl⟩) fun _ _ => rfl
  | time =>
    exact Value.transCmp_of_kind .time Time.compare (fun _ => nofun)
      (fun (.time a) => ⟨a, rfl⟩) fun _ _ => rfl
  | decimal =>
    exact Value.transCmp_of_kind .decimal Decimal.compare (fun _ => nofun)
      (fun (.decimal a) => ⟨a, rfl⟩) fun _ _ => rfl
  | uuid =>
    exact Value.transCmp_of_kind .uuid Uuid.compare (fun _ => nofun)
      (fun (.uuid a) => ⟨a, rfl⟩) fun _ _ => rfl
  | float | json | geometry | other => exact ht.elim

namespace Value

variable {type : ColumnType} {v w : Value}

/-- Values of an ordered type are equal in their order if they are the same. -/
theorem Fits.sortOrder_eq_iff (ht : type.Ordered) (hv : v.Fits type) (hw : w.Fits type) :
    v.sortOrder w = .eq ↔ v.same w = true := by
  by_cases hvn : v = .null <;> by_cases hwn : w = .null
  · subst hvn hwn
    exact iff_of_true rfl rfl
  · subst hvn
    simp [sortOrder_null_left hwn, null_same hwn]
  · subst hwn
    simp [sortOrder_null_right hvn, same_null hvn]
  · obtain ⟨o, ho, hsame⟩ := Fits.exists_compare ht hv hw hvn hwn
    rw [sortOrder_of_ne_null hvn hwn, ho, hsame]
    simp

/-- A value comes before another one in ascending order: it is less, or the other one alone is
null. -/
def Before (v w : Value) : Prop :=
  v ≠ .null ∧ (w = .null ∨ v.compare w = some .lt)

theorem sortOrder_eq_lt_iff : v.sortOrder w = .lt ↔ v.Before w := by
  unfold Before
  by_cases hv : v = .null <;> by_cases hw : w = .null
  · subst hv hw
    simp [sortOrder]
  · subst hv
    simp [sortOrder_null_left hw]
  · subst hw
    simp [sortOrder_null_right hv, hv]
  · rw [sortOrder_of_ne_null hv hw]
    cases v.compare w <;> simp [hv, hw]

end Value

end RecordApi
