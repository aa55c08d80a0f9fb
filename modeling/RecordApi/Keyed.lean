/-!
# Values under names

A list of pairs of a name and a value, kept in the order of the names. `Keyed.get?` is the view of
such a list: what it finds after `insert`, `erase` and `merge` is said by `get?_insert`,
`get?_erase` and `get?_merge`, and two sorted lists in which it finds the same are equal
(`Sorted.ext`).
-/

namespace RecordApi

/-- Pairs of a name and a value. -/
abbrev Keyed (α : Type) := List (String × α)

namespace Keyed

variable {α : Type}

/-- The value of the first pair with a name. -/
def get? (entries : Keyed α) (key : String) : Option α :=
  List.lookup key entries

/-- Whether there is a pair with a name. -/
def contains (entries : Keyed α) (key : String) : Bool :=
  (entries.get? key).isSome

/-- The list with `value` under `key`, where it replaces a value that is there. -/
def insert (key : String) (value : α) : Keyed α → Keyed α
  | [] => [(key, value)]
  | (k, v) :: rest =>
    if key < k then (key, value) :: (k, v) :: rest
    else if key = k then (key, value) :: rest
    else (k, v) :: insert key value rest

/-- The list without the pairs of a name. -/
def erase (key : String) (entries : Keyed α) : Keyed α :=
  entries.filter (·.1 != key)

/-- The list with every pair of another one inserted. -/
def merge (entries updates : Keyed α) : Keyed α :=
  updates.foldl (fun acc e => insert e.1 e.2 acc) entries

/-- The given pairs in the order of their names. Of several with one name the last is kept. -/
def ofList (entries : List (String × α)) : Keyed α :=
  merge [] entries

/-- The names are in ascending order, each once. -/
def Sorted (entries : Keyed α) : Prop :=
  entries.Pairwise (·.1 < ·.1)

/-! ## What is found -/

@[simp] theorem get?_nil (key : String) : get? ([] : Keyed α) key = none := rfl

theorem get?_cons (k : String) (v : α) (rest : Keyed α) (key : String) :
    get? ((k, v) :: rest) key = if key = k then some v else get? rest key := by
  unfold get?
  rw [List.lookup_cons]
  by_cases h : key = k
  · simp [h]
  · have : (key == k) = false := by simp [h]
    simp [h, this]

theorem get?_insert (key : String) (value : α) (entries : Keyed α) (name : String) :
    get? (insert key value entries) name =
      if name = key then some value else get? entries name := by
  induction entries with
  | nil => simp [insert, get?_cons]
  | cons e rest ih =>
    obtain ⟨k, v⟩ := e
    unfold insert
    split
    · simp [get?_cons]
    · split
      · next h => subst h; simp only [get?_cons]; split <;> rfl
      · next h =>
        simp only [get?_cons, ih]
        by_cases hk : name = k
        · simp [hk, Ne.symm h]
        · simp [hk]

theorem get?_erase (key : String) (entries : Keyed α) (name : String) :
    get? (erase key entries) name = if name = key then none else get? entries name := by
  induction entries with
  | nil => simp [erase]
  | cons e rest ih =>
    obtain ⟨k, v⟩ := e
    unfold erase at ih ⊢
    by_cases hk : k = key
    · subst hk
      simp only [List.filter, bne_self_eq_false, ih, get?_cons]
      split <;> simp_all
    · have : (k != key) = true := by simp [hk]
      simp only [List.filter, this, get?_cons, ih]
      by_cases hn : name = k
      · simp [hn, hk]
      · simp [hn]

/-- A merged value is the last one that the updates give, else the one that was there. -/
theorem get?_merge (entries updates : Keyed α) (name : String) :
    get? (merge entries updates) name = (get? updates.reverse name).or (get? entries name) := by
  unfold merge
  induction updates generalizing entries with
  | nil => simp [get?]
  | cons e rest ih =>
    obtain ⟨k, v⟩ := e
    rw [List.foldl_cons, ih, get?_insert, List.reverse_cons]
    unfold get?
    rw [List.lookup_append]
    by_cases hk : name = k
    · simp [hk]
    · have : (name == k) = false := by simp [hk]
      simp [hk, this, List.lookup_cons]

theorem mem_of_get?_eq_some {entries : Keyed α} {key : String} {value : α}
    (h : get? entries key = some value) : (key, value) ∈ entries := by
  obtain ⟨front, back, rfl, -⟩ := List.lookup_eq_some_iff.1 h
  simp

/-! ## Order -/

theorem mem_insert {key : String} {value : α} {entries : Keyed α} {e : String × α}
    (h : e ∈ insert key value entries) : e = (key, value) ∨ e ∈ entries := by
  induction entries with
  | nil => simpa [insert] using h
  | cons f rest ih =>
    obtain ⟨k, v⟩ := f
    unfold insert at h
    split at h
    · simpa using h
    · split at h
      · rcases List.mem_cons.1 h with h | h
        · exact .inl h
        · exact .inr (List.mem_cons_of_mem _ h)
      · rcases List.mem_cons.1 h with h | h
        · exact .inr (h ▸ List.mem_cons_self)
        · exact (ih h).imp id (List.mem_cons_of_mem _)

theorem sorted_nil : Sorted ([] : Keyed α) := List.Pairwise.nil

theorem sorted_insert (key : String) (value : α) {entries : Keyed α} (h : Sorted entries) :
    Sorted (insert key value entries) := by
  induction entries with
  | nil => exact List.pairwise_singleton _ _
  | cons e rest ih =>
    obtain ⟨k, v⟩ := e
    have hrest := List.pairwise_cons.1 h
    unfold insert
    split
    · next hk =>
      refine List.pairwise_cons.2 ⟨fun f hf => ?_, h⟩
      rcases List.mem_cons.1 hf with rfl | hf
      · exact hk
      · exact String.lt_trans hk (hrest.1 f hf)
    · split
      · next hk => subst hk; exact List.pairwise_cons.2 ⟨hrest.1, hrest.2⟩
      · next hk hne =>
        refine List.pairwise_cons.2 ⟨fun f hf => ?_, ih hrest.2⟩
        rcases mem_insert hf with rfl | hf
        · exact Std.lt_of_le_of_ne (String.not_lt.1 hk) (Ne.symm hne)
        · exact hrest.1 f hf

theorem sorted_merge {entries : Keyed α} (h : Sorted entries) (updates : Keyed α) :
    Sorted (merge entries updates) := by
  unfold merge
  induction updates generalizing entries with
  | nil => exact h
  | cons e rest ih => exact ih (sorted_insert e.1 e.2 h)

theorem sorted_ofList (entries : List (String × α)) : Sorted (ofList entries) :=
  sorted_merge sorted_nil entries

theorem Sorted.get?_of_lt {k : String} {v : α} {rest : Keyed α} (h : Sorted ((k, v) :: rest))
    {key : String} (hk : key ≤ k) : get? rest key = none := by
  unfold get?
  refine List.lookup_eq_none_iff.2 fun e he => ?_
  have := (List.pairwise_cons.1 h).1 e he
  simp only [bne_iff_ne, ne_eq]
  rintro rfl
  exact String.not_lt.2 hk this

/-- Sorted lists in which every name has the same value are equal. -/
theorem Sorted.ext {entries others : Keyed α} (he : Sorted entries) (ho : Sorted others)
    (h : ∀ key, get? entries key = get? others key) : entries = others := by
  induction entries generalizing others with
  | nil =>
    cases others with
    | nil => rfl
    | cons e rest =>
      obtain ⟨k, v⟩ := e
      have := h k
      simp [get?_cons] at this
  | cons e rest ih =>
    obtain ⟨k, v⟩ := e
    cases others with
    | nil => have := h k; simp [get?_cons] at this
    | cons f rest' =>
      obtain ⟨l, w⟩ := f
      have hk := h k
      have hl := h l
      rw [get?_cons, get?_cons] at hk hl
      have hkl : k = l := by
        by_cases hle : k ≤ l
        · by_cases e : k = l
          · exact e
          · simp [e, ho.get?_of_lt hle] at hk
        · have hle : l ≤ k := String.not_lt.1 fun hlt => hle (Std.le_of_lt hlt)
          by_cases e : l = k
          · exact e.symm
          · simp [e, he.get?_of_lt hle] at hl
      subst hkl
      simp only [if_true, Option.some.injEq] at hk
      subst hk
      refine congrArg _ (ih (List.pairwise_cons.1 he).2 (List.pairwise_cons.1 ho).2 fun key => ?_)
      by_cases hkey : key = k
      · subst hkey
        rw [he.get?_of_lt (Std.le_refl _), ho.get?_of_lt (Std.le_refl _)]
      · have := h key
        rwa [get?_cons, get?_cons, if_neg hkey, if_neg hkey] at this

end Keyed

end RecordApi
