import RecordApi.Value.Coerce

/-!
# Values that a column holds

`Value.Fits type v` says that a column of a type holds `v` as it is: `v` is null, or coercion leaves
it alone. These are null and the values of the one kind that belongs to the type
(`fits_iff_ofKind`). What coercion returns fits (`fits_of_coerce`), so a stored value is never
coerced into another one.
-/

namespace RecordApi.Value

/-- A column of the type holds the value as it is. -/
def Fits (type : ColumnType) (v : Value) : Prop :=
  v = .null ∨ v.coerce type = .ok v

@[simp] theorem coerce_null (type : ColumnType) : Value.null.coerce type = .ok .null := by
  cases type <;> rfl

theorem fits_iff {type : ColumnType} {v : Value} : v.Fits type ↔ v.coerce type = .ok v := by
  constructor
  · rintro (rfl | h)
    · exact coerce_null type
    · exact h
  · exact Or.inr

theorem of_elim_eq_ok {α : Type} {read : Option α} {make : α → Value} {reason : CoerceError}
    {w : Value} (h : (read.map make).elim (.error reason) .ok = Except.ok w) :
    ∃ a, w = make a := by
  cases read with
  | none => cases h
  | some a => exact ⟨a, by cases h; rfl⟩

theorem coerce_other (name : String) (v : Value) : v.coerce (.other name) = .ok v := by
  cases v <;> rfl

/-! ## The kind of a value -/

/-- The values of the one kind that columns of a type hold beside null. Columns of a type that is
not known hold values of every kind. -/
inductive OfKind : ColumnType → Value → Prop
  | integer (n : Int64) : OfKind .integer (.int n)
  | float (x : Binary64) : OfKind .float (.float x)
  | boolean (b : Bool) : OfKind .boolean (.bool b)
  | string (s : String) : OfKind .string (.text s)
  | dateTime (timezone : Bool) (d : DateTime) : OfKind (.dateTime timezone) (.dateTime d)
  | date (d : Date) : OfKind .date (.date d)
  | time (t : Time) : OfKind .time (.time t)
  | decimal (d : Decimal) : OfKind .decimal (.decimal d)
  | uuid (u : Uuid) : OfKind .uuid (.uuid u)
  | json (j : Json) : OfKind .json (.json j)
  | geometry (kind : GeometryKind) (dimension : Nat) (g : Geometry) :
      OfKind (.geometry kind dimension) (.geometry g)
  | other (name : String) {v : Value} (hnull : v ≠ .null) : OfKind (.other name) v

section

variable {type : ColumnType} {v w : Value}

theorem OfKind.ne_null (h : OfKind type v) : v ≠ .null := by
  cases h with
  | other _ hnull => exact hnull
  | _ => exact nofun

/-- A column holds the values of its kind as they are. -/
theorem OfKind.fits (h : OfKind type v) : v.Fits type := by
  right
  cases h with
  | other name => exact coerce_other name v
  | _ => rfl

/-- A text is read as a value of the kind of the column. -/
theorem ofKind_of_ofText {s : String} (h : ofText type s = .ok w) : OfKind type w := by
  cases type with
  | string | json => cases h; constructor
  | other => cases h; exact .other _ nofun
  | geometry => cases h
  | integer | float | boolean | dateTime | date | time | decimal | uuid =>
      obtain ⟨a, rfl⟩ := of_elim_eq_ok h
      constructor

/-- What is stored for a value that is not null is of the kind of the column. -/
theorem ofKind_of_coerce (h : v.coerce type = .ok w) (hv : v ≠ .null) : OfKind type w := by
  unfold coerce at h
  split at h
  case h_1 => exact absurd rfl hv
  case h_2 => exact ofKind_of_ofText h
  case h_24 => cases h; exact .other _ hv
  -- what is left is one kind of value for one type, taken as it is or converted
  all_goals first
    | cases h; constructor
    | split at h
      · cases h; constructor
      · cases h
    | cases h

theorem ne_null_of_coerce (h : v.coerce type = .ok w) (hv : v ≠ .null) : w ≠ .null :=
  (ofKind_of_coerce h hv).ne_null

/-- A value that a column holds and that is not null is of the kind of the column. -/
theorem Fits.ofKind (h : v.Fits type) (hnull : v ≠ .null) : OfKind type v :=
  ofKind_of_coerce (fits_iff.1 h) hnull

/-- What a column holds is null or of the kind of the column. -/
theorem fits_iff_ofKind : v.Fits type ↔ v = .null ∨ OfKind type v := by
  constructor
  · intro h
    by_cases hnull : v = .null
    · exact .inl hnull
    · exact .inr (h.ofKind hnull)
  · rintro (rfl | h)
    · exact .inl rfl
    · exact h.fits

/-- Coercing twice is coercing once. -/
theorem fits_of_coerce (h : v.coerce type = .ok w) : w.Fits type := by
  by_cases hv : v = .null
  · subst hv
    rw [coerce_null] at h
    cases h
    exact .inl rfl
  · exact (ofKind_of_coerce h hv).fits

end

end RecordApi.Value
