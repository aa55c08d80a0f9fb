import RecordApi.Proofs.Store.Replay

/-!
# Operations within a set of records

An operation that is within a set finds only records of the set and writes only such records. It
leaves the records outside alone (`Runs.filter_not`), and what it does depends on those inside
alone: on other records of which the same are in the set it acts in the same way (`Runs.transfer`).
-/

namespace RecordApi

/-- The records that an operation can find among some, and what it writes, are in a set. -/
def Operation.Within (m : Model) (P : Record → Bool) (rows : List Record) : Operation → Prop
  | .insert _ r => P r = true
  | .update _ key _ changes =>
    ∀ r ∈ rows, (m.keyOf r).same key = true → P r = true ∧ P (r.merge changes) = true
  | .delete _ key _ => ∀ r ∈ rows, (m.keyOf r).same key = true → P r = true

namespace Place

variable {m : Model} {key : Value} {expected : Option Value} {p q : Place}

theorem Named.unique (hp : p.Named m key expected) (hq : q.Named m key expected)
    (h : p.replace p.row = q.replace q.row) : p = q := by
  have hl : m.locate? key (p.replace p.row) = some p := Model.locate?_replace hp.found hp.first
  rw [h, Model.locate?_replace hq.found hq.first] at hl
  exact (Option.some.inj hl).symm

/-- Records of which the same are in a set have the same record in the place of a key, if all
records with the key are in the set. -/
theorem Named.transfer {P : Record → Bool} {others : List Record} (hp : p.Named m key expected)
    (hf : others.filter P = (p.replace p.row).filter P) (hrow : P p.row = true)
    (hkey : ∀ r ∈ others, (m.keyOf r).same key = true → P r = true) :
    ∃ q : Place, others = q.replace q.row ∧ q.row = p.row ∧ q.Named m key expected ∧
      q.before.filter P = p.before.filter P ∧ q.after.filter P = p.after.filter P := by
  unfold replace at hf
  rw [List.filter_append, List.filter_cons_of_pos hrow] at hf
  obtain ⟨front, rest, rfl, hfront, hrest⟩ := List.filter_eq_append_iff.1 hf
  obtain ⟨skipped, back, rfl, hskipped, -, hback⟩ := List.filter_eq_cons_iff.1 hrest
  have hnone : skipped.filter P = [] := List.filter_eq_nil_iff.2 hskipped
  refine ⟨⟨front ++ skipped, p.row, back⟩, ?_, rfl, ⟨hp.found, ?_, hp.version⟩, ?_, hback⟩
  · unfold replace
    rw [List.append_assoc]
  · intro r hr
    by_contra hsame
    rw [Bool.not_eq_false] at hsame
    rcases List.mem_append.1 hr with hr | hr
    · -- a record of the set before the place is before the other place as well
      have hin := List.mem_filter.2 ⟨hr, hkey r (List.mem_append_left _ hr) hsame⟩
      rw [hfront] at hin
      have hfirst := hp.first r (List.mem_filter.1 hin).1
      rw [hsame] at hfirst
      cases hfirst
    · exact hskipped r hr
        (hkey r (List.mem_append_right _ (List.mem_append_left _ hr)) hsame)
  · change (front ++ skipped).filter P = _
    rw [List.filter_append, hnone, List.append_nil, hfront]

end Place

namespace Operation

variable {m : Model} {P : Record → Bool} {op : Operation} {ops : List Operation}
  {rows next final others : List Record}

/-! ## One operation -/

theorem Acts.unique {next' : List Record} (h : op.Acts m rows next) (h' : op.Acts m rows next') :
    next = next' := by
  cases h with
  | insert =>
      cases h'
      rfl
  | @update _ _ _ _ p hp =>
      generalize hrows : p.replace p.row = rows at h'
      obtain _ | hq | _ := h'
      rw [hp.unique hq hrows]
  | @delete _ _ _ p hp =>
      generalize hrows : p.replace p.row = rows at h'
      obtain _ | _ | hq := h'
      rw [hp.unique hq hrows]

theorem filter_not_cons {r : Record} (h : P r = true) (rows : List Record) :
    (r :: rows).filter (fun r => !P r) = rows.filter fun r => !P r :=
  List.filter_cons_of_neg (by simp [h])

/-- An operation within a set leaves the records outside alone. -/
theorem Acts.filter_not (h : op.Acts m rows next) (hw : op.Within m P rows) :
    next.filter (fun r => !P r) = rows.filter fun r => !P r := by
  cases h with
  | @insert _ r =>
      have hr : P r = true := hw
      rw [List.filter_append, filter_not_cons hr, List.filter_nil, List.append_nil]
  | @update _ _ _ _ p hp =>
      obtain ⟨hrow, hmerged⟩ := hw p.row (List.mem_append_right _ List.mem_cons_self) hp.found
      unfold Place.replace
      rw [List.filter_append, List.filter_append, filter_not_cons hrow, filter_not_cons hmerged]
  | @delete _ _ _ p hp =>
      have hrow := hw p.row (List.mem_append_right _ List.mem_cons_self) hp.found
      unfold Place.replace Place.remove
      rw [List.filter_append, List.filter_append, filter_not_cons hrow]

/-- An operation within a set acts in the same way on records of which the same are in the set. -/
theorem Acts.transfer (h : op.Acts m rows next) (hf : others.filter P = rows.filter P)
    (hw : op.Within m P rows) (hw' : op.Within m P others) :
    ∃ others', op.Acts m others others' ∧ others'.filter P = next.filter P := by
  cases h with
  | @insert _ r =>
      refine ⟨others ++ [r], .insert, ?_⟩
      rw [List.filter_append, List.filter_append, hf]
  | @update _ _ _ changes p hp =>
      obtain ⟨hrow, hmerged⟩ := hw p.row (List.mem_append_right _ List.mem_cons_self) hp.found
      obtain ⟨q, rfl, hq, hn, hb, ha⟩ := hp.transfer hf hrow fun r hr hs => (hw' r hr hs).1
      refine ⟨q.replace (q.row.merge changes), .update hn, ?_⟩
      unfold Place.replace
      rw [List.filter_append, List.filter_append, hq, List.filter_cons_of_pos hmerged,
        List.filter_cons_of_pos hmerged, hb, ha]
  | @delete _ _ _ p hp =>
      have hrow := hw p.row (List.mem_append_right _ List.mem_cons_self) hp.found
      obtain ⟨q, rfl, hq, hn, hb, ha⟩ := hp.transfer hf hrow hw'
      refine ⟨q.remove, .delete hn, ?_⟩
      unfold Place.remove
      rw [List.filter_append, List.filter_append, hb, ha]

/-! ## Runs -/

/-- Operations of a kind keep a property of records, and where it holds they are within a set. -/
structure StaysWithin (m : Model) (P : Record → Bool) (R : Record → Prop) (Q : Operation → Prop) :
    Prop where
  keep : ∀ op rows next, Q op → op.Acts m rows next → (∀ r ∈ rows, R r) → ∀ r ∈ next, R r
  within : ∀ op rows, Q op → (∀ r ∈ rows, R r) → op.Within m P rows

variable {R : Record → Prop} {Q : Operation → Prop}

theorem Runs.filter_not (hs : StaysWithin m P R Q) (h : Runs m ops rows final)
    (hops : ∀ op ∈ ops, Q op) (hrows : ∀ r ∈ rows, R r) :
    final.filter (fun r => !P r) = rows.filter fun r => !P r := by
  induction h with
  | nil => rfl
  | cons ha _ ih =>
      obtain ⟨hop, hops⟩ := List.forall_mem_cons.1 hops
      rw [ih hops (hs.keep _ _ _ hop ha hrows), ha.filter_not (hs.within _ _ hop hrows)]

theorem Runs.transfer (hs : StaysWithin m P R Q) (h : Runs m ops rows final)
    (hf : others.filter P = rows.filter P) (hops : ∀ op ∈ ops, Q op) (hrows : ∀ r ∈ rows, R r)
    (hothers : ∀ r ∈ others, R r) :
    ∃ final', Runs m ops others final' ∧ final'.filter P = final.filter P := by
  induction h generalizing others with
  | nil => exact ⟨others, .nil others, hf⟩
  | cons ha _ ih =>
      obtain ⟨hop, hops⟩ := List.forall_mem_cons.1 hops
      obtain ⟨others', ha', hf'⟩ :=
        ha.transfer hf (hs.within _ _ hop hrows) (hs.within _ _ hop hothers)
      obtain ⟨final', hr, hfinal⟩ := ih hf' hops (hs.keep _ _ _ hop ha hrows)
        (hs.keep _ _ _ hop ha' hothers)
      exact ⟨final', .cons ha' hr, hfinal⟩

theorem Runs.unique {final' : List Record} (h : Runs m ops rows final)
    (h' : Runs m ops rows final') : final = final' := by
  induction h with
  | nil =>
      cases h'
      rfl
  | cons ha _ ih =>
      obtain _ | ⟨ha', hr'⟩ := h'
      obtain rfl := ha.unique ha'
      exact ih hr'

/-- Two runs of operations each of which is within a set or outside it. They leave the same records
in the set if they start with the same. -/
theorem Runs.agree {final' : List Record}
    (keep : ∀ op rows next, Q op → op.Acts m rows next → (∀ r ∈ rows, R r) → ∀ r ∈ next, R r)
    (hside : ∀ op, Q op → (∀ rows, (∀ r ∈ rows, R r) → op.Within m P rows) ∨
      ∀ rows, (∀ r ∈ rows, R r) → op.Within m (fun r => !P r) rows)
    (h : Runs m ops rows final) (h' : Runs m ops others final')
    (hf : others.filter P = rows.filter P) (hops : ∀ op ∈ ops, Q op) (hrows : ∀ r ∈ rows, R r)
    (hothers : ∀ r ∈ others, R r) : final'.filter P = final.filter P := by
  induction h generalizing others with
  | nil =>
      cases h'
      exact hf
  | @cons op ops rows next final ha _ ih =>
      obtain _ | ⟨ha', hr'⟩ := h'
      obtain ⟨hop, hops⟩ := List.forall_mem_cons.1 hops
      refine ih hr' ?_ hops (keep _ _ _ hop ha hrows) (keep _ _ _ hop ha' hothers)
      rcases hside op hop with hin | hout
      · obtain ⟨others', ha'', hf'⟩ := ha.transfer hf (hin _ hrows) (hin _ hothers)
        rw [ha'.unique ha'', hf']
      · have hnext := ha.filter_not (hout _ hrows)
        have hnext' := ha'.filter_not (hout _ hothers)
        simp only [Bool.not_not] at hnext hnext'
        rw [hnext, hnext', hf]

end Operation

end RecordApi
