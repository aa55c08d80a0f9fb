/-!
# Sorting

Elements are put into their places one after the other, each directly behind the last one that it
does not come before. Elements of which neither comes before the other keep their order. Where
`before` is no order of all elements the result is determined all the same: an element passes those
that it comes before, from the end, and stops at the first that it does not.
-/

namespace RecordApi.Sorting

variable {α : Type}

/-- Puts an element into its place in a list that stands last element first. -/
def insertFromEnd (before : α → α → Bool) (x : α) : List α → List α
  | [] => [x]
  | y :: rest => if before x y then y :: insertFromEnd before x rest else x :: y :: rest

/-- The elements in order. -/
def sort (before : α → α → Bool) (xs : List α) : List α :=
  (xs.foldl (fun placed x => insertFromEnd before x placed) []).reverse

theorem insertFromEnd_perm (before : α → α → Bool) (x : α) (ys : List α) :
    (insertFromEnd before x ys).Perm (x :: ys) := by
  induction ys with
  | nil => exact .refl _
  | cons y rest ih =>
    unfold insertFromEnd
    split
    · exact (ih.cons y).trans (.swap x y rest)
    · exact .refl _

theorem foldl_insertFromEnd_perm (before : α → α → Bool) (xs placed : List α) :
    (xs.foldl (fun placed x => insertFromEnd before x placed) placed).Perm (xs ++ placed) := by
  induction xs generalizing placed with
  | nil => exact .refl _
  | cons x rest ih =>
    exact (ih _).trans
      (((insertFromEnd_perm before x placed).append_left rest).trans List.perm_middle)

/-- Sorting loses no element and adds none. -/
theorem sort_perm (before : α → α → Bool) (xs : List α) : (sort before xs).Perm xs := by
  have := foldl_insertFromEnd_perm before xs []
  rw [List.append_nil] at this
  exact (List.reverse_perm _).trans this

end RecordApi.Sorting
