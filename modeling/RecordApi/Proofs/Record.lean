import RecordApi.Record

/-!
# Columns of merged records

A merged record has the columns of both records, and the value of a column that both set is that of
the changes.
-/

namespace RecordApi

theorem Keyed.get?_of_mem {α : Type} {entries : Keyed α} (h : (entries.map Prod.fst).Nodup)
    {e : String × α} (he : e ∈ entries) : Keyed.get? entries e.1 = some e.2 := by
  induction entries with
  | nil => cases he
  | cons d rest ih =>
      obtain ⟨hnot, hrest⟩ := List.nodup_cons.1 h
      rw [Keyed.get?_cons]
      rcases List.mem_cons.1 he with rfl | he
      · rw [if_pos rfl]
      · have hne : e.1 ≠ d.1 := by
          rintro heq
          exact hnot (heq ▸ List.mem_map_of_mem he)
        rw [if_neg hne, ih hrest he]

theorem Keyed.Sorted.nodup {α : Type} {entries : Keyed α} (h : Keyed.Sorted entries) :
    (entries.map Prod.fst).Nodup := by
  refine List.pairwise_map.2 (h.imp fun hlt heq => ?_)
  exact String.lt_irrefl _ (heq ▸ hlt)

/-- What is put in order under different names is found under each of them. -/
theorem Keyed.get?_ofList_eq_some_iff {α : Type} {entries : List (String × α)}
    (h : (entries.map Prod.fst).Nodup) {name : String} {value : α} :
    Keyed.get? (Keyed.ofList entries) name = some value ↔ (name, value) ∈ entries := by
  have hreverse : (entries.reverse.map Prod.fst).Nodup :=
    ((List.reverse_perm entries).map Prod.fst).nodup_iff.2 h
  rw [Keyed.ofList, Keyed.get?_merge, Keyed.get?_nil, Option.or_none]
  constructor
  · exact fun hfound => List.mem_reverse.1 (Keyed.mem_of_get?_eq_some hfound)
  · exact fun hmem => Keyed.get?_of_mem hreverse (List.mem_reverse.2 hmem)

/-- In a sorted list every name stands once, so that it does not matter from which end one looks. -/
theorem Keyed.Sorted.get?_reverse {α : Type} {entries : Keyed α} (h : Keyed.Sorted entries)
    (name : String) : Keyed.get? entries.reverse name = Keyed.get? entries name := by
  induction entries with
  | nil => rfl
  | cons e rest ih =>
      obtain ⟨k, v⟩ := e
      have hrest : Keyed.get? rest.reverse name = Keyed.get? rest name :=
        ih (List.pairwise_cons.1 h).2
      rw [List.reverse_cons, Keyed.get?_cons]
      unfold Keyed.get? at hrest ⊢
      rw [List.lookup_append, hrest]
      by_cases hk : name = k
      · subst hk
        have hnone : List.lookup name rest = none := h.get?_of_lt (Std.le_refl name)
        simp [hnone]
      · have hne : (name == k) = false := by simp [hk]
        simp [hk, hne, List.lookup_cons]

theorem Keyed.get?_filter {α : Type} (keep : String → Bool) (entries : Keyed α) (name : String) :
    Keyed.get? (entries.filter fun e => keep e.1) name =
      if keep name then Keyed.get? entries name else none := by
  induction entries with
  | nil => simp
  | cons e rest ih =>
      obtain ⟨k, v⟩ := e
      rw [List.filter_cons, Keyed.get?_cons]
      by_cases hname : name = k
      · subst hname
        cases hk : keep name with
        | true => simp [Keyed.get?_cons]
        | false => simp [ih, hk]
      · cases hk : keep k with
        | true => simp [Keyed.get?_cons, hname, ih]
        | false => simp [hname, ih]

namespace Record

theorem get?_merge (r changes : Record) (name : String) :
    (r.merge changes).get? name = (changes.get? name).or (r.get? name) := by
  unfold merge get?
  rw [Keyed.get?_merge, changes.sorted.get?_reverse]

theorem contains_iff {r : Record} {name : String} :
    r.contains name = true ↔ (r.get? name).isSome = true :=
  Iff.rfl

theorem get?_insert (r : Record) (column : String) (value : Value) (name : String) :
    (r.insert column value).get? name = if name = column then some value else r.get? name :=
  Keyed.get?_insert column value r.entries name

theorem get?_restrict (r : Record) (keep : String → Bool) (name : String) :
    (r.restrict keep).get? name = if keep name then r.get? name else none :=
  Keyed.get?_filter keep r.entries name

theorem contains_merge (r changes : Record) (name : String) :
    (r.merge changes).contains name = (changes.contains name || r.contains name) := by
  have h := get?_merge r changes name
  unfold get? at h
  unfold contains Keyed.contains
  rw [h, Option.isSome_or]

theorem get_merge (r changes : Record) (name : String) :
    (r.merge changes).get name =
      if changes.contains name then changes.get name else r.get name := by
  unfold get
  rw [get?_merge]
  unfold contains Keyed.contains
  change (((changes.get? name).or (r.get? name)).getD .null) =
    if (changes.get? name).isSome then (changes.get? name).getD .null else _
  cases changes.get? name <;> rfl

theorem contains_of_get_ne_null {r : Record} {name : String} (h : r.get name ≠ .null) :
    r.contains name = true := by
  cases hc : r.contains name with
  | true => rfl
  | false => exact absurd (get_eq_null_of_not_contains hc) h

end Record

end RecordApi
