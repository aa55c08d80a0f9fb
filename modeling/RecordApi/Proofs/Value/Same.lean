import RecordApi.Value.Order

/-!
# Sameness is symmetric

The order of two values is the reverse of the order of the two the other way round
(`compare_swap`), so that `Value.same` is symmetric (`same_comm`). A value is the same as itself
if any value is the same as it (`same_self_of_same`); the others are those with a `nan` in them. On
whole numbers, texts and identifiers, which are the kinds that most keys have, sameness is equality
(`IsKey.same_iff`).
-/

namespace RecordApi

/-! ## Parts of values -/

theorem Binary64.compare_swap (x y : Binary64) :
    y.compare x = (x.compare y).map Ordering.swap := by
  cases x with
  | nan => cases y <;> rfl
  | signed s r hr =>
      cases y with
      | nan => rfl
      | signed t q hq =>
          simp only [Binary64.compare, Option.map_some]
          rw [Std.OrientedOrd.eq_swap (a := key t q) (b := key s r)]

theorem Binary64.same_comm (x y : Binary64) : x.same y = y.same x := by
  unfold Binary64.same
  rw [Binary64.compare_swap x y]
  cases x.compare y with
  | none => rfl
  | some o => cases o <;> rfl

theorem Decimal.compare_swap (a b : Decimal) : b.compare a = (a.compare b).swap :=
  Std.OrientedOrd.eq_swap

theorem Uuid.compare_swap (a b : Uuid) : b.compare a = (a.compare b).swap :=
  Std.OrientedOrd.eq_swap

theorem Uuid.compare_eq_iff {a b : Uuid} : a.compare b = .eq ↔ a = b := by
  unfold Uuid.compare
  rw [Std.LawfulEqCmp.compare_eq_iff_eq]
  constructor
  · intro h
    cases a
    cases b
    cases h
    rfl
  · rintro rfl
    rfl

theorem Date.compare_swap (a b : Date) : b.compare a = (a.compare b).swap := by
  unfold Date.compare
  rw [Ordering.swap_then, Ordering.swap_then, ← Std.OrientedOrd.eq_swap,
    ← Std.OrientedOrd.eq_swap, ← Std.OrientedOrd.eq_swap]

theorem Time.compare_swap (a b : Time) : b.compare a = (a.compare b).swap := by
  unfold Time.compare
  rw [Ordering.swap_then, Ordering.swap_then, Ordering.swap_then, ← Std.OrientedOrd.eq_swap,
    ← Std.OrientedOrd.eq_swap, ← Std.OrientedOrd.eq_swap, ← Std.OrientedOrd.eq_swap]

theorem DateTime.compare_swap (a b : DateTime) : b.compare a = (a.compare b).swap := by
  unfold DateTime.compare
  rw [Ordering.swap_then, ← Date.compare_swap, ← Time.compare_swap]

mutual

theorem Json.same_comm : ∀ a b : Json, a.same b = b.same a
  | .null, b => by cases b <;> rfl
  | .bool a, b => by cases b <;> simp [Json.same, Bool.beq_comm]
  | .int a, b => by cases b <;> simp [Json.same, Bool.beq_eq_decide_eq, eq_comm]
  | .float a, b => by cases b <;> simp [Json.same, Binary64.same_comm]
  | .string a, b => by cases b <;> simp [Json.same, Bool.beq_eq_decide_eq, eq_comm]
  | .array a, b => by cases b <;> simp [Json.same, Json.sameItems_comm a]
  | .object a, b => by cases b <;> simp [Json.same, Json.sameMembers_comm a]

theorem Json.sameItems_comm : ∀ a b : List Json, Json.sameItems a b = Json.sameItems b a
  | [], b => by cases b <;> rfl
  | _ :: _, [] => rfl
  | a :: as, b :: bs => by
      simp only [Json.sameItems]
      rw [Json.same_comm a b, Json.sameItems_comm as bs]

theorem Json.sameMembers_comm :
    ∀ a b : List (String × Json), Json.sameMembers a b = Json.sameMembers b a
  | [], b => by cases b <;> rfl
  | _ :: _, [] => rfl
  | (k, a) :: as, (l, b) :: bs => by
      simp only [Json.sameMembers]
      rw [Json.same_comm a b, Json.sameMembers_comm as bs, Bool.beq_comm]

end

namespace Geometry

theorem all_zip_comm {α : Type} {r : α → α → Bool} (hr : ∀ a b, r a b = r b a) (xs ys : List α) :
    ((xs.zip ys).all fun (a, b) => r a b) = (ys.zip xs).all fun (a, b) => r a b := by
  induction xs generalizing ys with
  | nil => cases ys <;> rfl
  | cons x xs ih =>
      cases ys with
      | nil => rfl
      | cons y ys =>
          simp only [List.zip_cons_cons, List.all_cons]
          rw [hr x y, ih ys]

theorem samePosition_comm (p q : Position) : samePosition p q = samePosition q p := by
  unfold samePosition
  rw [Bool.beq_comm, all_zip_comm Binary64.same_comm]

theorem samePositions_comm (ps qs : List Position) :
    samePositions ps qs = samePositions qs ps := by
  unfold samePositions
  rw [Bool.beq_comm, all_zip_comm samePosition_comm]

theorem same_comm (g h : Geometry) : g.same h = h.same g := by
  cases g with
  | point p => cases h <;> simp [same, samePosition_comm p]
  | lineString ps => cases h <;> simp [same, samePositions_comm ps]
  | polygon rs =>
      cases h with
      | polygon ss =>
          simp only [same]
          rw [Bool.beq_comm, all_zip_comm samePositions_comm]
      | _ => rfl
  | other k a =>
      cases h with
      | other l b =>
          simp only [same]
          rw [Bool.beq_comm, Json.same_comm]
      | _ => rfl

end Geometry

/-! ## Parts that are the same as themselves -/

theorem Binary64.same_self_of_same {x y : Binary64} (h : x.same y = true) :
    y.same y = true := by
  cases y with
  | nan => cases x <;> cases h
  | signed s r hr => simp [Binary64.same, Binary64.compare]

mutual

theorem Json.same_self_of_same : ∀ {a b : Json}, a.same b = true → b.same b = true
  | _, .null, _ => rfl
  | _, .bool _, _ | _, .int _, _ | _, .string _, _ => by simp [Json.same]
  | .float _, .float _, h => by
      simp only [Json.same] at h ⊢
      exact Binary64.same_self_of_same h
  | .array _, .array _, h => by
      simp only [Json.same] at h ⊢
      exact Json.sameItems_self_of_same h
  | .object _, .object _, h => by
      simp only [Json.same] at h ⊢
      exact Json.sameMembers_self_of_same h

theorem Json.sameItems_self_of_same :
    ∀ {a b : List Json}, Json.sameItems a b = true → Json.sameItems b b = true
  | _, [], _ => rfl
  | _ :: _, _ :: _, h => by
      simp only [Json.sameItems, Bool.and_eq_true] at h ⊢
      exact ⟨Json.same_self_of_same h.1, Json.sameItems_self_of_same h.2⟩

theorem Json.sameMembers_self_of_same :
    ∀ {a b : List (String × Json)}, Json.sameMembers a b = true → Json.sameMembers b b = true
  | _, [], _ => rfl
  | _ :: _, _ :: _, h => by
      simp only [Json.sameMembers, Bool.and_eq_true] at h ⊢
      exact ⟨⟨beq_self_eq_true _, Json.same_self_of_same h.1.2⟩,
        Json.sameMembers_self_of_same h.2⟩

end

namespace Geometry

theorem all_zip_self {α : Type} (r : α → α → Bool) (hr : ∀ {a b}, r a b = true → r b b = true)
    {xs ys : List α} (hlen : xs.length = ys.length)
    (h : ((xs.zip ys).all fun p => r p.1 p.2) = true) :
    ((ys.zip ys).all fun p => r p.1 p.2) = true := by
  induction ys generalizing xs with
  | nil => rfl
  | cons y ys ih =>
      cases xs with
      | nil => cases hlen
      | cons x xs =>
          simp only [List.zip_cons_cons, List.all_cons, Bool.and_eq_true] at h ⊢
          exact ⟨hr h.1, ih (Nat.succ.inj hlen) h.2⟩

theorem samePosition_self_of_same {p q : Position} (h : samePosition p q = true) :
    samePosition q q = true := by
  simp only [samePosition, Bool.and_eq_true, beq_iff_eq] at h ⊢
  exact ⟨trivial, all_zip_self Binary64.same Binary64.same_self_of_same h.1 h.2⟩

theorem samePositions_self_of_same {ps qs : List Position} (h : samePositions ps qs = true) :
    samePositions qs qs = true := by
  simp only [samePositions, Bool.and_eq_true, beq_iff_eq] at h ⊢
  exact ⟨trivial, all_zip_self samePosition samePosition_self_of_same h.1 h.2⟩

theorem same_self_of_same {g h : Geometry} (hsame : g.same h = true) : h.same h = true := by
  cases g <;> cases h <;> try cases hsame
  case point.point => exact samePosition_self_of_same hsame
  case lineString.lineString => exact samePositions_self_of_same hsame
  case polygon.polygon =>
    simp only [same, Bool.and_eq_true, beq_iff_eq] at hsame ⊢
    exact ⟨trivial, all_zip_self samePositions samePositions_self_of_same hsame.1 hsame.2⟩
  case other.other =>
    simp only [same, Bool.and_eq_true] at hsame ⊢
    exact ⟨beq_self_eq_true _, Json.same_self_of_same hsame.2⟩

end Geometry

namespace Value

theorem compareBool_swap (a b : Bool) : compareBool b a = (compareBool a b).swap := by
  cases a <;> cases b <;> rfl

theorem compare_swap (a b : Value) : b.compare a = (a.compare b).map Ordering.swap := by
  cases a <;> cases b <;>
    simp only [compare, Option.map_none, Option.map_some, Ordering.swap_eq]
  case bool.bool a b => rw [compareBool_swap]
  case int.int a b => rw [← Std.OrientedOrd.eq_swap]
  case text.text a b => rw [← Std.OrientedOrd.eq_swap]
  case dateTime.dateTime a b => rw [DateTime.compare_swap]
  case date.date a b => rw [Date.compare_swap]
  case time.time a b => rw [Time.compare_swap]
  case uuid.uuid a b => rw [Uuid.compare_swap]
  case decimal.decimal a b => rw [Decimal.compare_swap]
  case int.decimal a b => rw [Decimal.compare_swap]
  case decimal.int a b => rw [Decimal.compare_swap]
  all_goals exact Binary64.compare_swap _ _

theorem compare_eq_gt_iff (v w : Value) :
    v.compare w = some .gt ↔ w.compare v = some .lt := by
  rw [compare_swap v w]
  cases v.compare w with
  | none => simp
  | some o => cases o <;> simp

theorem compare_beq_eq_comm (a b : Value) :
    (a.compare b == some .eq) = (b.compare a == some .eq) := by
  rw [compare_swap a b]
  cases a.compare b with
  | none => rfl
  | some o => cases o <;> rfl

mutual

theorem same_comm : ∀ a b : Value, a.same b = b.same a
  | .json a, b => by cases b <;> simp [same, compare, Json.same_comm a]
  | .geometry a, b => by cases b <;> simp [same, compare, Geometry.same_comm a]
  | .list a, b => by cases b <;> simp [same, compare, sameItems_comm a]
  | .null, b | .bool _, b | .int _, b | .float _, b | .text _, b | .dateTime _, b
  | .date _, b | .time _, b | .decimal _, b | .uuid _, b => by
      cases b <;> simp only [same] <;> exact compare_beq_eq_comm _ _

theorem sameItems_comm : ∀ a b : List Value, sameItems a b = sameItems b a
  | [], b => by cases b <;> rfl
  | _ :: _, [] => rfl
  | a :: as, b :: bs => by
      simp only [sameItems]
      rw [same_comm a b, sameItems_comm as bs]

end

theorem compare_self_of_same {a b : Value} (h : (a.compare b == some .eq) = true) :
    (b.compare b == some .eq) = true := by
  have hfloat : ∀ {x y : Binary64}, (x.compare y == some .eq) = true →
      (y.compare y == some .eq) = true := Binary64.same_self_of_same
  cases b with
  | null => rfl
  | bool b => cases b <;> rfl
  | int | text | decimal =>
      simp [compare, Decimal.compare]
  | uuid u => simp [compare, Uuid.compare_eq_iff]
  | float y =>
      cases a <;> first | exact hfloat h | cases h
  | date | time | dateTime => simp [compare, Date.compare, Time.compare, DateTime.compare]
  | json | geometry | list => cases a <;> cases h

mutual

theorem same_self_of_same : ∀ {b : Value} (a : Value), a.same b = true → b.same b = true
  | .json _, a, h => by
      cases a with
      | json => exact Json.same_self_of_same h
      | _ => cases h
  | .geometry _, a, h => by
      cases a with
      | geometry => exact Geometry.same_self_of_same h
      | _ => cases h
  | .list items, a, h => by
      cases a with
      | list => exact sameItems_self_of_same h
      | _ => cases h
  | .null, a, h | .bool _, a, h | .int _, a, h | .float _, a, h | .text _, a, h
  | .dateTime _, a, h | .date _, a, h | .time _, a, h | .decimal _, a, h | .uuid _, a, h => by
      cases a <;> exact compare_self_of_same h

theorem sameItems_self_of_same :
    ∀ {a b : List Value}, sameItems a b = true → sameItems b b = true
  | _, [], _ => rfl
  | _ :: _, _ :: _, h => by
      simp only [sameItems, Bool.and_eq_true] at h ⊢
      exact ⟨same_self_of_same _ h.1, sameItems_self_of_same h.2⟩

end

/-! ## Keys -/

/-- A value of the kinds that keys are made of: whole numbers, texts and identifiers. -/
def IsKey : Value → Prop
  | .int _ | .text _ | .uuid _ => True
  | _ => False

/-- Among keys, the same value is the equal one. -/
theorem IsKey.same_iff {a b : Value} (ha : a.IsKey) (hb : b.IsKey) :
    a.same b = true ↔ a = b := by
  cases a <;> cases b <;> simp only [IsKey] at ha hb <;>
    simp [same, compare, Uuid.compare_eq_iff, Std.LawfulEqCmp.compare_eq_iff_eq, Int64.toInt_inj]

theorem IsKey.same_self {a : Value} (ha : a.IsKey) : a.same a = true :=
  (ha.same_iff ha).2 rfl

theorem same_int_iff {m n : Int64} : (Value.int m).same (.int n) = true ↔ m = n := by
  rw [IsKey.same_iff (a := .int m) (b := .int n) trivial trivial, Value.int.injEq]

end Value

end RecordApi
