import RecordApi.Proofs.Store.Inserted
import RecordApi.Proofs.Store.Within
import RecordApi.Proofs.Value.Same

/-!
# Versions

Where versions are whole numbers and every update takes the one that it read to the next one, a
record that has the same key and version as an earlier one is the earlier one: a run of operations
leaves a record as it is or gives it a greater version (`Operation.Runs.older`). Two runs of the
same log leave the same record with a key if they start with the same one (`Runs.agree`).
-/

namespace RecordApi

theorem int64_toInt_succ {n : Int64} (h : n ≠ Int64.maxValue) : (n + 1).toInt = n.toInt + 1 := by
  have hmax : n.toInt ≠ Int64.maxValue.toInt := fun he => h (Int64.toInt_inj.1 he)
  have hle := n.toInt_le
  have hge := n.le_toInt
  rw [Int64.toInt_maxValue] at hmax hle
  rw [Int64.toInt_add, Int64.toInt_one]
  rw [Int.bmod_eq_of_le] <;> omega

theorem int64_lt_succ {n : Int64} (h : n ≠ Int64.maxValue) : n < n + 1 := by
  rw [Int64.lt_iff_toInt_lt, int64_toInt_succ h]
  omega

namespace Record

/-- The version of a record is a whole number. -/
def Versioned (v : String) (r : Record) : Prop :=
  ∃ n, r.get v = .int n

/-- A record that is another one, or has a greater version. -/
def Older (v : String) (a b : Record) : Prop :=
  a = b ∨ ∃ i j, a.get v = .int i ∧ b.get v = .int j ∧ i < j

theorem Older.trans {v : String} {a b c : Record} (h : Older v a b) (h' : Older v b c) :
    Older v a c := by
  rcases h with rfl | ⟨i, j, ha, hb, hij⟩
  · exact h'
  · rcases h' with rfl | ⟨j', k, hb', hc, hjk⟩
    · exact .inr ⟨i, j, ha, hb, hij⟩
    · rw [hb, Value.int.injEq] at hb'
      subst hb'
      exact .inr ⟨i, k, ha, hc, Int64.lt_trans hij hjk⟩

theorem Older.eq_of_get_eq {v : String} {a b : Record} (h : Older v a b)
    (hv : a.get v = b.get v) : a = b := by
  rcases h with h | ⟨i, j, ha, hb, hij⟩
  · exact h
  · rw [ha, hb, Value.int.injEq] at hv
    subst hv
    exact absurd hij Int64.lt_irrefl

/-- A record with a whole number as its version and one of some keys. -/
structure Steady (m : Model) (v : String) (keys : List Value) (r : Record) : Prop where
  version : r.Versioned v
  key : m.keyOf r ∈ keys

end Record

namespace Operation

/-- An operation reads a whole number as a version, if it reads one, and an update writes the next
one. -/
def Bumps (v : String) : Operation → Prop
  | .insert _ r => r.Versioned v
  | .update _ _ expected changes => ∃ n, n ≠ Int64.maxValue ∧ expected = some (.int n) ∧
    changes.contains v = true ∧ changes.get v = .int (n + 1)
  | .delete _ _ expected => ∃ n, expected = some (.int n)

/-- An operation that takes versions to the next ones, keeps keys, and inserts one of some keys. -/
structure Steady (m : Model) (v : String) (keys : List Value) (op : Operation) : Prop where
  bumps : op.Bumps v
  keepsKey : op.KeepsKey m keys
  inserts : ∀ k, op.inserted? m = some k → k ∈ keys

/-- Whether an operation changes or removes the record with the key of a record. -/
def changes (m : Model) (r : Record) : Operation → Bool
  | .insert _ _ => false
  | .update model key _ _ | .delete model key _ => model == m.name && (m.keyOf r).same key

variable {m : Model} {v : String} {keys : List Value} {op : Operation} {ops : List Operation}
  {rows next final others : List Record}

theorem get_of_checkVersion (hv : m.versionColumn = some v) {r : Record} (hr : r.Versioned v)
    {n : Int64} (h : m.checkVersion r (some (.int n)) = .ok ()) : r.get v = .int n := by
  obtain ⟨i, hi⟩ := hr
  unfold Model.checkVersion at h
  simp only [hv, hi] at h
  split at h
  · next hs => rw [hi, Value.same_int_iff.1 hs]
  · cases h

theorem Bumps.versioned_merge {name : String} {key : Value} {expected : Option Value}
    {changes r : Record} (h : (Operation.update name key expected changes).Bumps v) :
    (r.merge changes).Versioned v := by
  obtain ⟨n, -, -, hset, hn⟩ := h
  exact ⟨n + 1, by rw [Record.get_merge, if_pos hset, hn]⟩

theorem Acts.versioned (h : op.Acts m rows next) (hop : op.Bumps v)
    (hrows : ∀ r ∈ rows, r.Versioned v) : ∀ r ∈ next, r.Versioned v := by
  intro r hr
  rcases h.of_mem hr with hr | ⟨name, rfl⟩ | ⟨name, key, expected, changes, q, rfl, -, -, -, rfl⟩
  · exact hrows r hr
  · exact hop
  · exact hop.versioned_merge

theorem Acts.steady (h : op.Acts m rows next) (hop : op.Steady m v keys)
    (hrows : ∀ r ∈ rows, r.Steady m v keys) : ∀ r ∈ next, r.Steady m v keys :=
  fun r hr => ⟨h.versioned hop.bumps (fun q hq => (hrows q hq).version) r hr,
    h.keyOf_mem hop.keepsKey hop.inserts (fun q hq => (hrows q hq).key) r hr⟩

theorem Bumps.lt_merge (hv : m.versionColumn = some v) {name : String} {key : Value}
    {expected : Option Value} {changes r : Record}
    (h : (Operation.update name key expected changes).Bumps v) (hr : r.Versioned v)
    (hc : m.checkVersion r expected = .ok ()) :
    ∃ i j, r.get v = .int i ∧ (r.merge changes).get v = .int j ∧ i < j := by
  obtain ⟨n, hmax, rfl, hset, hn⟩ := h
  refine ⟨n, n + 1, get_of_checkVersion hv hr hc, ?_, int64_lt_succ hmax⟩
  rw [Record.get_merge, if_pos hset, hn]

/-- A record after an operation was there with its key, and is what it was or has a greater version,
or it was inserted. -/
theorem Acts.older (hv : m.versionColumn = some v) (honce : Once keys) (h : op.Acts m rows next)
    (hop : op.Steady m v keys) (hrows : ∀ r ∈ rows, r.Steady m v keys) :
    ∀ b ∈ next, (∃ a ∈ rows, m.keyOf a = m.keyOf b ∧ a.Older v b) ∨
      op.inserted? m = some (m.keyOf b) := by
  intro b hb
  rcases h.of_mem hb with hb | ⟨name, rfl⟩ | ⟨name, key, expected, changes, q, rfl, hq, hs, hc, rfl⟩
  · exact .inl ⟨b, hb, rfl, .inl rfl⟩
  · exact .inr rfl
  · obtain ⟨hversion, hkey⟩ := hrows q hq
    exact .inl ⟨q, hq, (hop.keepsKey.keyOf_merge honce hkey hs).symm,
      .inr (hop.bumps.lt_merge hv hversion hc)⟩

theorem Runs.older (hv : m.versionColumn = some v) (honce : Once keys) (h : Runs m ops rows final)
    (hops : ∀ op ∈ ops, op.Steady m v keys) (hrows : ∀ r ∈ rows, r.Steady m v keys) :
    ∀ b ∈ final, (∃ a ∈ rows, m.keyOf a = m.keyOf b ∧ a.Older v b) ∨
      m.keyOf b ∈ ops.filterMap (inserted? m) := by
  induction h with
  | nil => exact fun b hb => .inl ⟨b, hb, rfl, .inl rfl⟩
  | @cons op ops rows next final ha _ ih =>
      obtain ⟨hop, hops⟩ := List.forall_mem_cons.1 hops
      intro b hb
      rcases ih hops (ha.steady hop hrows) b hb with ⟨a, hmem, hk, hold⟩ | hin
      · rcases ha.older hv honce hop hrows a hmem with ⟨c, hc, hk', hold'⟩ | hin
        · exact .inl ⟨c, hc, hk'.trans hk, hold'.trans hold⟩
        · exact .inr (List.mem_filterMap.2 ⟨op, List.mem_cons_self, hk ▸ hin⟩)
      · obtain ⟨other, ho, hin⟩ := List.mem_filterMap.1 hin
        exact .inr (List.mem_filterMap.2 ⟨other, List.mem_cons_of_mem _ ho, hin⟩)

/-! ## Operations on one record -/

/-- The version that an operation expects. -/
def expected? : Operation → Option Value
  | .insert _ _ => none
  | .update _ _ expected _ | .delete _ _ expected => expected

/-- An operation that changes a record finds one with its key and the version that it expects. -/
theorem Acts.found (hv : m.versionColumn = some v) (honce : Once keys) (h : op.Acts m rows next)
    (hop : op.Steady m v keys) (hrows : ∀ r ∈ rows, r.Steady m v keys) {r : Record}
    (hr : m.keyOf r ∈ keys) (hc : op.changes m r = true) :
    ∃ q ∈ rows, m.keyOf q = m.keyOf r ∧ op.expected? = some (q.get v) := by
  cases h with
  | insert => cases hc
  | @update _ key expected changes p hp =>
      have hq : p.row ∈ p.replace p.row := List.mem_append_right _ List.mem_cons_self
      obtain ⟨hversion, hkey⟩ := hrows p.row hq
      obtain ⟨n, -, rfl, -⟩ := hop.bumps
      refine ⟨p.row, hq, honce.eq hkey hp.found hr (Bool.and_eq_true_iff.1 hc).2, ?_⟩
      rw [get_of_checkVersion hv hversion hp.version]
      rfl
  | @delete _ key expected p hp =>
      have hq : p.row ∈ p.replace p.row := List.mem_append_right _ List.mem_cons_self
      obtain ⟨hversion, hkey⟩ := hrows p.row hq
      obtain ⟨n, rfl⟩ := hop.bumps
      refine ⟨p.row, hq, honce.eq hkey hp.found hr (Bool.and_eq_true_iff.1 hc).2, ?_⟩
      rw [get_of_checkVersion hv hversion hp.version]
      rfl

/-- What an operation leaves of the one record with a key that it changes has a greater version. -/
theorem Acts.lt_of_changes (hv : m.versionColumn = some v) (honce : Once keys)
    (h : op.Acts m rows next) (hop : op.Steady m v keys) (hrows : ∀ r ∈ rows, r.Steady m v keys)
    {r : Record} (hr : r ∈ rows) (hc : op.changes m r = true) {key : Value}
    (hk : (m.keyOf r).same key = true) (hone : m.withKey key rows = [r]) :
    ∀ b ∈ next, m.keyOf b = m.keyOf r → ∃ i j, r.get v = .int i ∧ b.get v = .int j ∧ i < j := by
  -- the place that is found is that of the record, and no other record has its key
  have hplace : ∀ (p : Place) key' expected, rows = p.replace p.row →
      p.Named m key' expected → (m.keyOf r).same key' = true →
      p.row = r ∧ m.withKey key p.before = [] ∧ m.withKey key p.after = [] := by
    intro p key' expected hrows' hp hs
    subst hrows'
    have hrow : m.keyOf p.row = m.keyOf r :=
      honce.eq (hrows p.row (List.mem_append_right _ List.mem_cons_self)).key hp.found
        (hrows r hr).key hs
    unfold Model.withKey Place.replace at hone
    rw [List.filter_append, List.filter_cons_of_pos (by rw [hrow]; exact hk)] at hone
    rcases List.append_eq_cons_iff.1 hone with ⟨hb, ha⟩ | ⟨rest, -, ha⟩
    · obtain ⟨he, ha⟩ := List.cons.inj ha
      exact ⟨he, hb, ha⟩
    · exact absurd ha (by simp)
  have hnone : ∀ {others : List Record}, m.withKey key others = [] → ∀ b ∈ others,
      m.keyOf b ≠ m.keyOf r := by
    intro others ho b hb he
    have hmem : b ∈ m.withKey key others := List.mem_filter.2 ⟨hb, by rw [he]; exact hk⟩
    rw [ho] at hmem
    cases hmem
  intro b hb hkey
  cases h with
  | insert => cases hc
  | @update _ key' expected changes p hp =>
      obtain ⟨hrow, hbefore, hafter⟩ := hplace p key' expected rfl hp (Bool.and_eq_true_iff.1 hc).2
      rcases List.mem_append.1 hb with hb | hb
      · exact absurd hkey (hnone hbefore b hb)
      · rcases List.mem_cons.1 hb with rfl | hb
        · rw [← hrow]
          exact hop.bumps.lt_merge hv
            (hrows p.row (List.mem_append_right _ List.mem_cons_self)).version hp.version
        · exact absurd hkey (hnone hafter b hb)
  | @delete _ key' expected p hp =>
      obtain ⟨-, hbefore, hafter⟩ := hplace p key' expected rfl hp (Bool.and_eq_true_iff.1 hc).2
      rcases List.mem_append.1 hb with hb | hb
      · exact absurd hkey (hnone hbefore b hb)
      · exact absurd hkey (hnone hafter b hb)

/-- An operation that changes a record is within the records with its key, and one that does not is
within the others. -/
theorem within_of_changes (honce : Once keys) (hop : op.Steady m v keys)
    (hmodel : op.model = m.name) {r : Record} (hr : m.keyOf r ∈ keys) {key : Value}
    (hk : (m.keyOf r).same key = true)
    (hinserts : ∀ k, op.inserted? m = some k → k.same key = false)
    (hrows : ∀ q ∈ rows, q.Steady m v keys) :
    op.Within m (fun q => (m.keyOf q).same key == op.changes m r) rows := by
  -- a record that is found has the key exactly if it is found with the key of `r`
  have hfound : ∀ key', ∀ q ∈ rows, (m.keyOf q).same key' = true →
      (m.keyOf q).same key = (m.keyOf r).same key' := by
    intro key' q hq hs
    cases hd : (m.keyOf r).same key' with
    | true => rw [honce.eq (hrows q hq).key hs hr hd, hk]
    | false =>
        cases hd' : (m.keyOf q).same key with
        | false => rfl
        | true =>
            rw [honce.eq (hrows q hq).key hd' hr hk, hd] at hs
            cases hs
  have hbeq : (op.model == m.name) = true := by simpa using hmodel
  cases op with
  | insert name record =>
      change ((m.keyOf record).same key == false) = true
      rw [hinserts _ rfl, beq_self_eq_true]
  | update name key' expected changes =>
      have hc : (update name key' expected changes).changes m r = (m.keyOf r).same key' := by
        change (name == m.name && _) = _
        rw [show (name == m.name) = true from hbeq, Bool.true_and]
      intro q hq hs
      have hmerge := hop.keepsKey.keyOf_merge honce (hrows q hq).key hs
      beta_reduce
      rw [hmerge, hfound key' q hq hs, hc, beq_self_eq_true]
      exact ⟨rfl, rfl⟩
  | delete name key' expected =>
      have hc : (delete name key' expected).changes m r = (m.keyOf r).same key' := by
        change (name == m.name && _) = _
        rw [show (name == m.name) = true from hbeq, Bool.true_and]
      intro q hq hs
      beta_reduce
      rw [hfound key' q hq hs, hc, beq_self_eq_true]

end Operation

end RecordApi
