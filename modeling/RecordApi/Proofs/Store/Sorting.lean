import RecordApi.Store.Sorting

/-!
# Sorted lists

Where `before` is an order of the elements of a list (`Sorting.Orders`), the sorted list is in
order: no element comes before one that stands in front of it (`pairwise_sort`).
-/

namespace RecordApi.Sorting

variable {α : Type} {before : α → α → Bool} {P : α → Prop}

/-- What comes before what is an order of the elements with a property, where several may be at one
place. -/
structure Orders (before : α → α → Bool) (P : α → Prop) : Prop where
  asymm : ∀ {a b}, P a → P b → before a b = true → before b a = false
  cotrans : ∀ {a b c}, P a → P b → P c → before a b = false → before b c = false →
    before a c = false

/-- A transitive comparison of the elements with a property is such an order. -/
theorem Orders.of_transCmp {cmp : α → α → Ordering}
    [h : Std.TransCmp fun a b : { x // P x } => cmp a.1 b.1] :
    Orders (fun a b => cmp a b == .lt) P where
  asymm {a b} ha hb hlt := by
    have hswap : cmp a b = (cmp b a).swap := h.eq_swap (a := ⟨a, ha⟩) (b := ⟨b, hb⟩)
    rw [hswap, beq_iff_eq, Ordering.swap_eq_lt] at hlt
    rw [hlt]
    rfl
  cotrans {a b c} ha hb hc hab hbc := by
    have hle : ∀ {x y}, (cmp x y == .lt) = false ↔ (cmp x y).isGE := by
      intro x y
      cases cmp x y <;> decide
    rw [hle] at hab hbc ⊢
    exact @Std.TransCmp.isGE_trans _ _ h ⟨a, ha⟩ ⟨b, hb⟩ ⟨c, hc⟩ hab hbc

namespace Orders

variable (h : Orders before P)

include h

/-- A list that stands last element first stays in order when an element is put into its place. -/
theorem pairwise_insertFromEnd {x : α} {placed : List α} (hx : P x) (hP : ∀ y ∈ placed, P y)
    (hplaced : placed.Pairwise fun a b => before a b = false) :
    (insertFromEnd before x placed).Pairwise fun a b => before a b = false := by
  induction placed with
  | nil => exact List.pairwise_singleton _ _
  | cons y placed ih =>
      obtain ⟨hy, hP⟩ := List.forall_mem_cons.1 hP
      obtain ⟨hbehind, hplaced⟩ := List.pairwise_cons.1 hplaced
      unfold insertFromEnd
      split
      · next hxy =>
        refine List.pairwise_cons.2 ⟨fun z hz => ?_, ih hP hplaced⟩
        rcases List.mem_cons.1 ((insertFromEnd_perm before x placed).subset hz) with rfl | hz
        · exact h.asymm hx hy hxy
        · exact hbehind z hz
      · next hxy =>
        have hxy : before x y = false := Bool.eq_false_iff.2 hxy
        refine List.pairwise_cons.2
          ⟨List.forall_mem_cons.2 ⟨hxy, fun z hz => ?_⟩, List.pairwise_cons.2 ⟨hbehind, hplaced⟩⟩
        exact h.cotrans hx hy (hP z hz) hxy (hbehind z hz)

theorem pairwise_foldl_insertFromEnd {xs placed : List α} (hxs : ∀ x ∈ xs, P x)
    (hP : ∀ y ∈ placed, P y) (hplaced : placed.Pairwise fun a b => before a b = false) :
    (xs.foldl (fun placed x => insertFromEnd before x placed) placed).Pairwise
      fun a b => before a b = false := by
  induction xs generalizing placed with
  | nil => exact hplaced
  | cons x xs ih =>
      obtain ⟨hx, hxs⟩ := List.forall_mem_cons.1 hxs
      refine ih hxs (fun y hy => ?_) (h.pairwise_insertFromEnd hx hP hplaced)
      rcases List.mem_cons.1 ((insertFromEnd_perm before x placed).subset hy) with rfl | hy
      · exact hx
      · exact hP y hy

/-- No element of a sorted list comes before one in front of it. -/
theorem pairwise_sort {xs : List α} (hxs : ∀ x ∈ xs, P x) :
    (sort before xs).Pairwise fun a b => before b a = false :=
  List.pairwise_reverse.2 (h.pairwise_foldl_insertFromEnd hxs (fun _ hy => nomatch hy) .nil)

end Orders

end RecordApi.Sorting
