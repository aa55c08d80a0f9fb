import RecordApi.Proofs.Value.Sorted
import RecordApi.Store.Transaction

/-!
# Which records come first

The first key that tells two records apart says which of them comes first (`SortKey.Precedes`). On
records of which the values in the columns of the keys are of ordered types, this is what
`SortKey.order` computes (`SortKey.order_eq_lt_iff`), and it is an order, where records are at one
place if all keys find the same in them (`SortKey.order_eq_eq_iff`).
-/

namespace RecordApi

/-- The values of some records in a column are of one ordered type, or null. -/
def OrderedIn (rows : List Record) (column : String) : Prop :=
  ∃ type : ColumnType, type.Ordered ∧ ∀ r ∈ rows, (r.get column).Fits type

namespace SortKey

/-- A key puts a value in front of another one: what comes first in ascending order comes last in
descending order, so that null comes first there. -/
def Puts (k : SortKey) (v w : Value) : Prop :=
  if k.descending then w.Before v else v.Before w

/-- The first key that tells two records apart puts the one in front of the other. -/
def Precedes : List SortKey → Record → Record → Prop
  | [], _, _ => False
  | k :: keys, a, b =>
    k.Puts (a.get k.column) (b.get k.column) ∨
      (a.get k.column).same (b.get k.column) = true ∧ Precedes keys a b

/-- The order of two values by one key. -/
def valueOrder (k : SortKey) (v w : Value) : Ordering :=
  if k.descending then (v.sortOrder w).swap else v.sortOrder w

variable {k : SortKey} {keys : List SortKey} {type : ColumnType} {v w : Value} {a b : Record}
  {rows : List Record}

@[simp] theorem order_nil : order [] a b = .eq := rfl

theorem order_cons : order (k :: keys) a b =
    (k.valueOrder (a.get k.column) (b.get k.column)).then (order keys a b) := rfl

theorem valueOrder_eq_lt_iff : k.valueOrder v w = .lt ↔ k.Puts v w := by
  unfold valueOrder Puts
  split
  · rw [← Value.sortOrder_swap, Value.sortOrder_eq_lt_iff]
  · exact Value.sortOrder_eq_lt_iff

theorem valueOrder_eq_eq_iff (ht : type.Ordered) (hv : v.Fits type) (hw : w.Fits type) :
    k.valueOrder v w = .eq ↔ v.same w = true := by
  rw [← Value.Fits.sortOrder_eq_iff ht hv hw]
  unfold valueOrder
  split
  · exact Ordering.swap_eq_eq
  · rfl

theorem transCmp_valueOrder (ht : type.Ordered) :
    Std.TransCmp fun v w : type.Values => k.valueOrder v.1 w.1 := by
  have hascending := ColumnType.transCmp_order ht
  unfold valueOrder
  cases k.descending with
  | false => exact hascending
  | true =>
      have hswap : (fun v w : type.Values => (v.1.sortOrder w.1).swap) =
          fun v w => type.order w v := by
        funext v w
        exact (Value.sortOrder_swap v.1 w.1).symm
      simp only [if_true, hswap]
      exact Std.TransCmp.opposite

/-- Records with values of ordered types in the columns of some keys are in a total preorder. -/
theorem transCmp_order (h : ∀ k ∈ keys, OrderedIn rows k.column) :
    Std.TransCmp fun a b : { r // r ∈ rows } => order keys a.1 b.1 := by
  induction keys with
  | nil => exact { eq_swap := rfl, isLE_trans := fun _ _ => rfl }
  | cons k keys ih =>
      obtain ⟨⟨type, ht, hfits⟩, hkeys⟩ := List.forall_mem_cons.1 h
      have hrest := ih hkeys
      have hvalues := transCmp_valueOrder (k := k) ht
      have hfirst := transCmp_comap
        (fun r : { r // r ∈ rows } => (⟨r.1.get k.column, hfits r.1 r.2⟩ : type.Values))
        fun v w => k.valueOrder v.1 w.1
      exact inferInstanceAs (Std.TransCmp (compareLex
        (fun a b : { r // r ∈ rows } => k.valueOrder (a.1.get k.column) (b.1.get k.column))
        fun a b => order keys a.1 b.1))

variable (h : ∀ k ∈ keys, OrderedIn rows k.column) (ha : a ∈ rows) (hb : b ∈ rows)

include h ha hb

theorem order_swap : order keys a b = (order keys b a).swap :=
  (transCmp_order h).eq_swap (a := ⟨a, ha⟩) (b := ⟨b, hb⟩)

/-- Two records are at one place if all keys find the same in them. -/
theorem order_eq_eq_iff :
    order keys a b = .eq ↔ ∀ k ∈ keys, (a.get k.column).same (b.get k.column) = true := by
  induction keys with
  | nil => simp
  | cons k keys ih =>
      obtain ⟨⟨type, ht, hfits⟩, hkeys⟩ := List.forall_mem_cons.1 h
      rw [order_cons, Ordering.then_eq_eq, List.forall_mem_cons,
        valueOrder_eq_eq_iff ht (hfits a ha) (hfits b hb), ih hkeys]

/-- The order by some keys is decided by the first one that tells two records apart. -/
theorem order_eq_lt_iff : order keys a b = .lt ↔ Precedes keys a b := by
  induction keys with
  | nil => simp [Precedes]
  | cons k keys ih =>
      obtain ⟨⟨type, ht, hfits⟩, hkeys⟩ := List.forall_mem_cons.1 h
      rw [order_cons, Ordering.then_eq_lt, valueOrder_eq_lt_iff,
        valueOrder_eq_eq_iff ht (hfits a ha) (hfits b hb), ih hkeys, Precedes]

end SortKey

end RecordApi
