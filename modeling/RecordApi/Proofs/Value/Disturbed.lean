import RecordApi.Proofs.Number.Converted
import RecordApi.Proofs.Value.Sorted

/-!
# Values that disturb the order

`Value.sortOrder` of two values is the reverse of the order of the two the other way round, but it
is not transitive on all values: of a value that is behind another one there may be a third one that
is neither before the first nor behind the second (`Value.Disturbed`). That is a value that has no
order with them, such as `nan` between numbers, or a number that is rounded to be compared with a
double-precision number. `Value.sortOrder_coerced` says in which columns there are such values.
-/

namespace RecordApi

/-! ## Comparisons -/

/-- What is behind one thing is behind everything that is not behind this thing. -/
theorem gt_of_ne_gt_of_gt {α : Type} {cmp : α → α → Ordering} [Std.TransCmp cmp] {a b c : α}
    (hab : cmp a b ≠ .gt) (hac : cmp a c = .gt) : cmp b c = .gt := by
  rw [Std.OrientedCmp.gt_iff_lt] at hac ⊢
  exact Std.TransCmp.lt_of_lt_of_isLE hac (Ordering.ne_gt_iff_isLE.1 hab)

namespace Binary64

/-- A number is not greater than another one. -/
def Le (x y : Binary64) : Prop :=
  ∃ o, x.compare y = some o ∧ o ≠ .gt

/-- A number is less than another one. -/
def Lt (x y : Binary64) : Prop :=
  x.compare y = some .lt

theorem lt_of_compare_gt {x y : Binary64} (h : x.compare y = some .gt) : y.Lt x := by
  rw [Lt, compare_swap x y, h]
  rfl

theorem Lt.compare_eq_gt {x y : Binary64} (h : y.Lt x) : x.compare y = some .gt := by
  rw [compare_swap y x, h]
  rfl

theorem Le.compare_ne_gt {x y : Binary64} (h : x.Le y) : x.compare y ≠ some .gt := by
  obtain ⟨o, ho, hne⟩ := h
  rw [ho]
  exact fun heq => hne (Option.some.inj heq)

theorem exists_compare {x y : Binary64} (hx : x ≠ .nan) (hy : y ≠ .nan) :
    ∃ o, x.compare y = some o := by
  cases x with
  | nan => exact absurd rfl hx
  | signed =>
      cases y with
      | nan => exact absurd rfl hy
      | signed => exact ⟨_, rfl⟩

theorem ne_nan_of_compare {x y : Binary64} {o : Ordering} (h : x.compare y = some o) :
    x ≠ .nan ∧ y ≠ .nan := by
  cases x with
  | nan => cases h
  | signed =>
      cases y with
      | nan => cases h
      | signed => exact ⟨nofun, nofun⟩

theorem gt_of_ne_gt_of_gt {x y z : Binary64} {o : Ordering} (hxy : x.compare y = some o)
    (ho : o ≠ .gt) (hxz : x.compare z = some .gt) : y.compare z = some .gt := by
  obtain ⟨hx, hy⟩ := ne_nan_of_compare hxy
  obtain ⟨-, hz⟩ := ne_nan_of_compare hxz
  cases x with
  | nan => exact absurd rfl hx
  | signed s r _ =>
      cases y with
      | nan => exact absurd rfl hy
      | signed t q _ =>
          cases z with
          | nan => exact absurd rfl hz
          | signed u p _ =>
              cases hxy
              exact congrArg some (RecordApi.gt_of_ne_gt_of_gt ho (Option.some.inj hxz))

end Binary64

namespace Value

/-! ## Numbers -/

/-- The exact value of a whole number or a decimal, in units of `10 ^ -28`. -/
def units? : Value → Option Int
  | .int n => some (Decimal.ofInt64 n).value
  | .decimal d => some d.value
  | _ => none

/-- The double-precision number that a number is compared as with such a number. -/
def rounded? : Value → Option Binary64
  | .int n => some (.ofInt n.toInt)
  | .float x => some x
  | .decimal d => some d.toBinary64
  | _ => none

variable {u v w : Value} {a b : Int} {x y : Binary64} {o : Ordering}

theorem compare_of_units (hu : u.units? = some a) (hv : v.units? = some b) :
    u.compare v = some (Ord.compare a b) := by
  have hscale : ∀ m n : Int64, Ord.compare m.toInt n.toInt =
      Ord.compare (Decimal.ofInt64 m).value (Decimal.ofInt64 n).value := by
    intro m n
    have hmono : StrictMono fun k : Int => k * 10 ^ 28 := fun _ _ h =>
      Int.mul_lt_mul_of_pos_right h (by decide)
    rw [Decimal.value_ofInt64, Decimal.value_ofInt64, ← cmp_eq_compare, ← cmp_eq_compare]
    exact (hmono.cmp_map_eq m.toInt n.toInt).symm
  cases u with
  | int m =>
      cases hu
      cases v with
      | int n =>
          cases hv
          exact congrArg some (hscale m n)
      | decimal => cases hv; rfl
      | _ => cases hv
  | decimal =>
      cases hu
      cases v with
      | int => cases hv; rfl
      | decimal => cases hv; rfl
      | _ => cases hv
  | _ => cases hu

theorem compare_of_rounded (hu : u.rounded? = some x) (hv : v.rounded? = some y)
    (h : u.units? = none ∨ v.units? = none) : u.compare v = x.compare y := by
  cases u with
  | int | decimal =>
      cases hu
      cases v with
      | float => cases hv; rfl
      | int | decimal => exact absurd h (by simp [units?])
      | _ => cases hv
  | float =>
      cases hu
      cases v with
      | float | int | decimal => cases hv; rfl
      | _ => cases hv
  | _ => cases hu

/-- A number that has no exact value is a double-precision number. -/
theorem eq_float_of_rounded (h : u.rounded? = some x) (hu : u.units? = none) : u = .float x := by
  cases u with
  | int | decimal => cases hu
  | float =>
      cases h
      rfl
  | _ => cases h

/-- Numbers with an exact value do not become `nan`. -/
theorem exists_rounded_of_units (h : u.units? = some a) : ∃ x, u.rounded? = some x ∧ x ≠ .nan := by
  cases u with
  | int => exact ⟨_, rfl, Binary64.ofInt_ne_nan _⟩
  | decimal d => exact ⟨_, rfl, d.toBinary64_ne_nan⟩
  | _ => cases h

/-- What has an order with a number is a number. -/
theorem exists_rounded_of_compare (hu : u.rounded? = some x) (h : u.compare v = some o) :
    ∃ y, v.rounded? = some y := by
  cases v with
  | int | float | decimal => exact ⟨_, rfl⟩
  | _ =>
    cases u with
    | int | float | decimal => cases h
    | _ => cases hu

/-- Two numbers are compared by their exact values if both have one, else as double-precision
numbers. -/
theorem compare_cases (hu : u.rounded? = some x) (hv : v.rounded? = some y) :
    u.compare v = x.compare y ∨
      ∃ a b, u.units? = some a ∧ v.units? = some b ∧ u.compare v = some (Ord.compare a b) := by
  cases hue : u.units? with
  | none => exact .inl (compare_of_rounded hu hv (.inl hue))
  | some a =>
      cases hve : v.units? with
      | none => exact .inl (compare_of_rounded hu hv (.inr hve))
      | some b => exact .inr ⟨a, b, rfl, rfl, compare_of_units hue hve⟩

/-- Of two numbers that have an order none is `nan`. -/
theorem ne_nan_of_compare (hu : u.rounded? = some x) (hv : v.rounded? = some y)
    (h : u.compare v = some o) : x ≠ .nan ∧ y ≠ .nan := by
  rcases compare_cases hu hv with heq | ⟨a, b, ha, hb, -⟩
  · rw [heq] at h
    exact Binary64.ne_nan_of_compare h
  · obtain ⟨x', hx, hxnan⟩ := exists_rounded_of_units ha
    obtain ⟨y', hy, hynan⟩ := exists_rounded_of_units hb
    cases hu.symm.trans hx
    cases hv.symm.trans hy
    exact ⟨hxnan, hynan⟩

/-- Numbers have an order if none is `nan`. -/
theorem exists_compare_of_rounded (hu : u.rounded? = some x) (hv : v.rounded? = some y)
    (hx : x ≠ .nan) (hy : y ≠ .nan) : ∃ o, u.compare v = some o := by
  rcases compare_cases hu hv with heq | ⟨a, b, -, -, heq⟩
  · rw [heq]
    exact Binary64.exists_compare hx hy
  · exact ⟨_, heq⟩

/-! ## Disturbed orders -/

/-- A whole number or a decimal has the exact value `a`, and is compared with double-precision
numbers as `x`. -/
structure Rounds (v : Value) (a : Int) (x : Binary64) : Prop where
  units : v.units? = some a
  rounded : v.rounded? = some x

/-- The first value is behind the last one, but is not behind the value in the middle, which is not
behind the last one either. The value in the middle has no order with the others, or two of the
three are whole numbers or decimals, the third is a double-precision number, and rounding does not
keep the order of the two. -/
inductive Disturbed : Value → Value → Value → Prop
  | unordered {u v w : Value} (behind : u.compare w = some .gt) (present : v ≠ .null)
      (unrelated : u.compare v = none) : Disturbed u v w
  | between {u w : Value} {a c : Int} {x y z : Binary64} (hu : u.Rounds a x) (hw : w.Rounds c z)
      (behind : c < a) (left : x.Le y) (right : y.Le z) : Disturbed u (.float y) w
  | below {v w : Value} {b c : Int} {x y z : Binary64} (hv : v.Rounds b y) (hw : w.Rounds c z)
      (order : b ≤ c) (left : x.Le y) (behind : z.Lt x) : Disturbed (.float x) v w
  | above {u v : Value} {a b : Int} {x y z : Binary64} (hu : u.Rounds a x) (hv : v.Rounds b y)
      (order : a ≤ b) (right : y.Le z) (behind : z.Lt x) : Disturbed u v (.float z)

theorem compare_ne_gt_iff : some (Ord.compare a b) ≠ some .gt ↔ a ≤ b := by
  rw [Ne, Option.some.injEq, Int.compare_eq_gt, not_lt]

section

variable {z : Binary64} {o' : Ordering}

/-- The first value is a double-precision number. -/
theorem disturbed_of_float (hv : v.rounded? = some y) (hw : w.rounded? = some z)
    (huv : x.compare y = some o) (ho : o ≠ .gt) (hvw : v.compare w = some o') (ho' : o' ≠ .gt)
    (huw : x.compare z = some .gt) : Disturbed (.float x) v w := by
  rcases compare_cases hv hw with heq | ⟨b, c, hve, hwe, heq⟩
  · -- numbers that are all compared as double-precision numbers keep their order
    rw [heq, Binary64.gt_of_ne_gt_of_gt huv ho huw] at hvw
    exact absurd (Option.some.inj hvw).symm ho'
  · rw [heq] at hvw
    cases hvw
    exact .below ⟨hve, hv⟩ ⟨hwe, hw⟩ (compare_ne_gt_iff.1 (mt Option.some.inj ho')) ⟨o, huv, ho⟩
      (Binary64.lt_of_compare_gt huw)

/-- The first value is a whole number or a decimal. -/
theorem disturbed_of_units {a : Int} (hu : u.Rounds a x) (hv : v.rounded? = some y)
    (hw : w.rounded? = some z) (huv : u.compare v = some o) (ho : o ≠ .gt)
    (hvw : v.compare w = some o') (ho' : o' ≠ .gt) (huw : u.compare w = some .gt) :
    Disturbed u v w := by
  cases hve : v.units? with
  | none =>
      rw [compare_of_rounded hu.rounded hv (.inr hve)] at huv
      rw [compare_of_rounded hv hw (.inl hve)] at hvw
      obtain rfl := eq_float_of_rounded hv hve
      cases hwe : w.units? with
      | none =>
          rw [compare_of_rounded hu.rounded hw (.inr hwe)] at huw
          rw [Binary64.gt_of_ne_gt_of_gt huv ho huw] at hvw
          exact absurd (Option.some.inj hvw).symm ho'
      | some c =>
          rw [compare_of_units hu.units hwe] at huw
          exact .between hu ⟨hwe, hw⟩ (Int.compare_eq_gt.1 (Option.some.inj huw)) ⟨o, huv, ho⟩
            ⟨o', hvw, ho'⟩
  | some b =>
      rw [compare_of_units hu.units hve] at huv
      cases huv
      cases hwe : w.units? with
      | none =>
          rw [compare_of_rounded hu.rounded hw (.inr hwe)] at huw
          rw [compare_of_rounded hv hw (.inr hwe)] at hvw
          obtain rfl := eq_float_of_rounded hw hwe
          exact .above hu ⟨hve, hv⟩ (compare_ne_gt_iff.1 (mt Option.some.inj ho)) ⟨o', hvw, ho'⟩
            (Binary64.lt_of_compare_gt huw)
      | some c =>
          -- whole numbers and decimals keep their order among themselves
          rw [compare_of_units hu.units hwe] at huw
          rw [compare_of_units hve hwe] at hvw
          cases hvw
          exact absurd (RecordApi.gt_of_ne_gt_of_gt ho (Option.some.inj huw)) ho'

end

/-! ## Related values -/

/-- Three values are of one kind, with a transitive order. -/
inductive OneKind : Value → Value → Value → Prop
  | mk {α : Type} (make : α → Value) (cmp : α → α → Ordering) (trans : Std.TransCmp cmp)
      (compare : ∀ a b, (make a).compare (make b) = some (cmp a b)) (a b c : α) :
      OneKind (make a) (make b) (make c)

theorem OneKind.exists_compare (h : OneKind u v w) : ∃ o, v.compare w = some o := by
  cases h with
  | mk _ _ _ hcompare _ b c => exact ⟨_, hcompare b c⟩

theorem OneKind.gt (h : OneKind u v w) (huv : u.compare v = some o) (ho : o ≠ .gt)
    (huw : u.compare w = some .gt) : v.compare w = some .gt := by
  cases h with
  | mk make cmp trans hcompare a b c =>
      rw [hcompare] at huv huw ⊢
      cases huv
      exact congrArg some (RecordApi.gt_of_ne_gt_of_gt ho (Option.some.inj huw))

/-- Values that have an order with one value are numbers as it is, or are of its kind. -/
theorem number_or_oneKind {o' : Ordering} (huv : u.compare v = some o)
    (huw : u.compare w = some o') : (∃ x, u.rounded? = some x) ∨ OneKind u v w := by
  have hnull : Std.TransCmp fun _ _ : Unit => Ordering.eq :=
    { eq_swap := rfl, isLE_trans := fun _ _ => rfl }
  cases u with
  | int | float | decimal => exact .inl ⟨_, rfl⟩
  | null =>
      cases v <;> cases huv
      cases w <;> cases huw
      exact .inr (.mk (fun _ => .null) _ hnull (fun _ _ => rfl) () () ())
  | bool a =>
      cases v <;> cases huv
      cases w <;> cases huw
      exact .inr (.mk .bool compareBool inferInstance (fun _ _ => rfl) a _ _)
  | text a =>
      cases v <;> cases huv
      cases w <;> cases huw
      exact .inr (.mk .text Ord.compare inferInstance (fun _ _ => rfl) a _ _)
  | dateTime a =>
      cases v <;> cases huv
      cases w <;> cases huw
      exact .inr (.mk .dateTime DateTime.compare inferInstance (fun _ _ => rfl) a _ _)
  | date a =>
      cases v <;> cases huv
      cases w <;> cases huw
      exact .inr (.mk .date Date.compare inferInstance (fun _ _ => rfl) a _ _)
  | time a =>
      cases v <;> cases huv
      cases w <;> cases huw
      exact .inr (.mk .time Time.compare inferInstance (fun _ _ => rfl) a _ _)
  | uuid a =>
      cases v <;> cases huv
      cases w <;> cases huw
      exact .inr (.mk .uuid Uuid.compare inferInstance (fun _ _ => rfl) a _ _)
  | json | geometry | list => cases v <;> cases huv

/-- Values that have an order with one value have an order. -/
theorem exists_compare_of_compare {o' : Ordering} (huv : u.compare v = some o)
    (huw : u.compare w = some o') : ∃ o'', v.compare w = some o'' := by
  rcases number_or_oneKind huv huw with ⟨x, hu⟩ | hkind
  · obtain ⟨y, hv⟩ := exists_rounded_of_compare hu huv
    obtain ⟨z, hw⟩ := exists_rounded_of_compare hu huw
    exact exists_compare_of_rounded hv hw (ne_nan_of_compare hu hv huv).2
      (ne_nan_of_compare hu hw huw).2
  · exact hkind.exists_compare

/-- What is behind a value is behind every value that is not behind this one, or the order of the
three is disturbed. -/
theorem gt_or_disturbed (huv : u.compare v = some o) (ho : o ≠ .gt)
    (huw : u.compare w = some .gt) : v.compare w = some .gt ∨ Disturbed u v w := by
  rcases number_or_oneKind huv huw with ⟨x, hu⟩ | hkind
  · obtain ⟨y, hv⟩ := exists_rounded_of_compare hu huv
    obtain ⟨z, hw⟩ := exists_rounded_of_compare hu huw
    obtain ⟨o', hvw⟩ := exists_compare_of_compare huv huw
    by_cases ho' : o' = .gt
    · exact .inl (ho' ▸ hvw)
    · refine .inr ?_
      cases hue : u.units? with
      | none =>
          rw [compare_of_rounded hu hv (.inl hue)] at huv
          rw [compare_of_rounded hu hw (.inl hue)] at huw
          obtain rfl := eq_float_of_rounded hu hue
          exact disturbed_of_float hv hw huv ho hvw ho' huw
      | some a => exact disturbed_of_units ⟨hue, hu⟩ hv hw huv ho hvw ho' huw
  · exact .inl (hkind.gt huv ho huw)

/-! ## The order for sorting -/

theorem sortOrder_eq_gt_iff :
    u.sortOrder v = .gt ↔ v ≠ .null ∧ (u = .null ∨ u.compare v = some .gt) := by
  rw [sortOrder_swap v u, Ordering.swap_eq_gt, sortOrder_eq_lt_iff, Before, compare_eq_gt_iff]

theorem ne_null_of_compare_eq_gt (h : u.compare v = some .gt) : u ≠ .null ∧ v ≠ .null := by
  constructor
  · rintro rfl
    cases v <;> cases h
  · rintro rfl
    cases u <;> cases h

theorem Rounds.ne_null {v : Value} (h : v.Rounds a x) : v ≠ .null := by
  rintro rfl
  cases h.units

theorem Rounds.compare_float (h : u.Rounds a x) (y : Binary64) :
    u.compare (.float y) = x.compare y :=
  compare_of_rounded h.rounded rfl (.inr rfl)

theorem Rounds.float_compare (h : u.Rounds a x) (y : Binary64) :
    (Value.float y).compare u = y.compare x :=
  compare_of_rounded rfl h.rounded (.inl rfl)

theorem Rounds.compare {u v : Value} (hu : u.Rounds a x) (hv : v.Rounds b y) :
    u.compare v = some (Ord.compare a b) :=
  compare_of_units hu.units hv.units

/-- Where the order is disturbed, the first value is behind the last one, is not behind the value in
the middle, and this is not behind the last one. -/
theorem Disturbed.compare (h : Disturbed u v w) :
    v ≠ .null ∧ u.compare w = some .gt ∧ u.compare v ≠ some .gt ∧ v.compare w ≠ some .gt := by
  cases h with
  | unordered huw hv huv =>
      refine ⟨hv, huw, huv ▸ nofun, fun hvw => ?_⟩
      -- both would have an order with the last value, and so with one another
      rw [compare_eq_gt_iff] at huw hvw
      obtain ⟨o, ho⟩ := exists_compare_of_compare huw hvw
      cases huv.symm.trans ho
  | between hu hw behind left right =>
      refine ⟨nofun, ?_, ?_, ?_⟩
      · rw [hu.compare hw, Int.compare_eq_gt.2 behind]
      · exact hu.compare_float _ ▸ left.compare_ne_gt
      · exact hw.float_compare _ ▸ right.compare_ne_gt
  | below hv hw order left behind =>
      refine ⟨hv.ne_null, ?_, ?_, ?_⟩
      · exact (hw.float_compare _).trans behind.compare_eq_gt
      · exact hv.float_compare _ ▸ left.compare_ne_gt
      · exact hv.compare hw ▸ compare_ne_gt_iff.2 order
  | above hu hv order right behind =>
      refine ⟨hv.ne_null, ?_, ?_, ?_⟩
      · exact (hu.compare_float _).trans behind.compare_eq_gt
      · exact hu.compare hv ▸ compare_ne_gt_iff.2 order
      · exact hv.compare_float _ ▸ right.compare_ne_gt

/-- The order of three values is disturbed exactly where it is not transitive. -/
theorem disturbed_iff : Disturbed u v w ↔
    u.sortOrder v ≠ .gt ∧ v.sortOrder w ≠ .gt ∧ u.sortOrder w = .gt := by
  constructor
  · intro h
    obtain ⟨hv, huw, huv, hvw⟩ := h.compare
    obtain ⟨hu, hw⟩ := ne_null_of_compare_eq_gt huw
    rw [Ne, Ne, sortOrder_eq_gt_iff, sortOrder_eq_gt_iff, sortOrder_eq_gt_iff]
    simp [hu, hv, hw, huv, hvw, huw]
  · rintro ⟨huv, hvw, huw⟩
    rw [sortOrder_eq_gt_iff] at huw
    rw [Ne, sortOrder_eq_gt_iff] at huv hvw
    obtain ⟨hw, huw⟩ := huw
    have hv : v ≠ .null := fun hv => hvw ⟨hw, .inl hv⟩
    have hu : u ≠ .null := fun hu => huv ⟨hv, .inl hu⟩
    have huw := huw.resolve_left hu
    cases ho : u.compare v with
    | none => exact .unordered huw hv ho
    | some o =>
        have hne : o ≠ .gt := fun h => huv ⟨hv, .inr (h ▸ ho)⟩
        exact (gt_or_disturbed ho hne huw).resolve_left fun h => hvw ⟨hw, .inr h⟩

/-- Whole numbers that are rounded to one double-precision number. -/
example :
    (Value.int 9007199254740993).sortOrder (.float (.ofInt 9007199254740992)) = .eq ∧
      (Value.float (.ofInt 9007199254740992)).sortOrder (.int 9007199254740992) = .eq ∧
      (Value.int 9007199254740993).sortOrder (.int 9007199254740992) = .gt := by decide

/-! ## The values of a column -/

/-- In a column of the type the order of three values is disturbed. That takes a double-precision
column, with `nan` in the middle, or a column of a type that is not known, with values as in
`Disturbed`. -/
def DisturbedIn : ColumnType → Value → Value → Value → Prop
  | .float, u, v, w => v = .float .nan ∧ u.compare w = some .gt
  | .other _, u, v, w => Disturbed u v w
  | _, _, _, _ => False

variable {type : ColumnType}

/-- The values of an ordered type do not disturb their order. -/
theorem Fits.not_disturbed (hu : u.Fits type) (hv : v.Fits type) (hw : w.Fits type)
    (ht : type.Ordered) : ¬Disturbed u v w := by
  rw [disturbed_iff]
  rintro ⟨huv, hvw, huw⟩
  have htrans : (u.sortOrder w).isLE :=
    (ColumnType.transCmp_order ht).isLE_trans (a := ⟨u, hu⟩) (b := ⟨v, hv⟩) (c := ⟨w, hw⟩)
      (Ordering.ne_gt_iff_isLE.1 huv) (Ordering.ne_gt_iff_isLE.1 hvw)
  exact Ordering.ne_gt_iff_isLE.2 htrans huw

/-- Double-precision numbers are disturbed by `nan` alone. -/
theorem Fits.disturbed_float_iff (hu : u.Fits .float) (hv : v.Fits .float) (hw : w.Fits .float) :
    Disturbed u v w ↔ v = .float .nan ∧ u.compare w = some .gt := by
  constructor
  · intro h
    obtain ⟨hvn, huw, huv, hvw⟩ := h.compare
    obtain ⟨hun, hwn⟩ := ne_null_of_compare_eq_gt huw
    cases hu.ofKind hun with | float x
    cases hv.ofKind hvn with | float y
    cases hw.ofKind hwn with | float z
    refine ⟨?_, huw⟩
    by_contra hy
    obtain ⟨o, ho⟩ := Binary64.exists_compare (Binary64.ne_nan_of_compare huw).1
      fun h => hy (congrArg Value.float h)
    exact hvw (Binary64.gt_of_ne_gt_of_gt ho (fun h => huv (h ▸ ho)) huw)
  · rintro ⟨rfl, huw⟩
    obtain ⟨hun, -⟩ := ne_null_of_compare_eq_gt huw
    cases hu.ofKind hun with | float x
    exact .unordered huw nofun (by cases x <;> rfl)

/-- The order of three values of a column is disturbed as its type says. -/
theorem Fits.disturbed_iff (hu : u.Fits type) (hv : v.Fits type) (hw : w.Fits type) :
    Disturbed u v w ↔ DisturbedIn type u v w := by
  cases type with
  | integer | boolean | string | dateTime | date | time | decimal | uuid =>
      exact iff_of_false (hu.not_disturbed hv hw trivial) id
  | float => exact hu.disturbed_float_iff hv hw
  | other => exact Iff.rfl
  | json | geometry =>
      refine iff_of_false (fun h => ?_) id
      obtain ⟨-, huw, -⟩ := h.compare
      cases hu.ofKind (ne_null_of_compare_eq_gt huw).1
      cases w <;> cases huw

theorem sortOrder_self (v : Value) : v.sortOrder v = .eq := by
  have h := sortOrder_swap v v
  cases ho : v.sortOrder v with
  | eq => rfl
  | lt | gt =>
      rw [ho] at h
      cases h

/-- On the values of a column the order for sorting is reflexive and is reversed when the values are
exchanged. It is transitive at three values unless they disturb it, in the way of the column's
type. -/
theorem sortOrder_coerced {a b c : Value} (hu : a.coerce type = .ok u)
    (hv : b.coerce type = .ok v) (hw : c.coerce type = .ok w) :
    u.sortOrder u = .eq ∧ v.sortOrder u = (u.sortOrder v).swap ∧
      ((u.sortOrder v ≠ .gt → v.sortOrder w ≠ .gt → u.sortOrder w ≠ .gt) ↔
        ¬DisturbedIn type u v w) := by
  refine ⟨sortOrder_self u, sortOrder_swap u v, ?_⟩
  rw [← (fits_of_coerce hu).disturbed_iff (fits_of_coerce hv) (fits_of_coerce hw),
    disturbed_iff]
  tauto

/-- Of numbers that are written as texts, `nan` is neither before 2 nor behind 1, and 2 is
behind 1. -/
theorem sortOrder_coerced_nan :
    ∃ u v w : Value, (Value.text "2").coerce .float = .ok u ∧
      (Value.text "nan").coerce .float = .ok v ∧ (Value.text "1").coerce .float = .ok w ∧
      u.sortOrder u = .eq ∧ v.sortOrder u = (u.sortOrder v).swap ∧
      u.sortOrder v ≠ .gt ∧ v.sortOrder w ≠ .gt ∧ u.sortOrder w = .gt := by
  have hread : ∀ {s : String} {x : Binary64}, Binary64.ofText? (Text.trim s.toList) = some x →
      (Value.text s).coerce .float = .ok (.float x) := by
    intro s x h
    simp only [coerce, ofText, h, Option.map_some, Option.elim_some]
  have two : (Value.text "2").coerce .float = .ok (.float (.ofInt 2)) := hread (by decide)
  have nan : (Value.text "nan").coerce .float = .ok (.float .nan) := hread (by decide)
  have one : (Value.text "1").coerce .float = .ok (.float (.ofInt 1)) := hread (by decide)
  obtain ⟨hself, hswap, htrans⟩ := sortOrder_coerced two nan one
  have hdisturbed : DisturbedIn .float (.float (.ofInt 2)) (.float .nan) (.float (.ofInt 1)) :=
    ⟨rfl, by decide⟩
  refine ⟨_, _, _, two, nan, one, hself, hswap, ?_⟩
  have hnot := mt htrans.1 (not_not_intro hdisturbed)
  tauto

end Value

end RecordApi
