import RecordApi.Proofs.Store.Versions

/-!
# A log on two tables

A log that changes a record of its snapshot can be replayed only where the record is still the one
of the snapshot (`LogRuns.ahead_eq`), and it leaves the same record there (`LogRuns.final_eq`). What
comes later finds a greater version (`LogRuns.lt_of_later`).
-/

namespace RecordApi

open Operation

/-- A log runs on a snapshot, and again on what other operations left of it meanwhile, in a history
in which no key is inserted twice and versions go up. -/
structure LogRuns (m : Model) (v : String) (keys : List Value) (past between log : List Operation)
    (snapshot ahead working final : List Record) : Prop where
  version : m.versionColumn = some v
  once : Once keys
  inserted : (past.filterMap (inserted? m) ++ (between.filterMap (inserted? m) ++
    log.filterMap (inserted? m))).Sublist keys
  steady : ∀ op ∈ past ++ (between ++ log), op.Steady m v keys
  model : ∀ op ∈ log, op.model = m.name
  past_runs : Runs m past [] snapshot
  between_runs : Runs m between snapshot ahead
  log_runs : Runs m log snapshot working
  replay_runs : Runs m log ahead final

/-- Operations that do not change a record, and do not insert its key, leave alone what has it. -/
theorem Operation.Runs.withKey_eq {m : Model} {v : String} {keys : List Value}
    {ops : List Operation} {rows next : List Record} (honce : Once keys) (h : Runs m ops rows next)
    {r : Record} (hr : m.keyOf r ∈ keys) {key : Value} (hk : (m.keyOf r).same key = true)
    (hops : ∀ op ∈ ops, op.Steady m v keys ∧ op.model = m.name ∧ op.changes m r = false ∧
      ∀ k, op.inserted? m = some k → k.same key = false)
    (hrows : ∀ q ∈ rows, q.Steady m v keys) : m.withKey key next = m.withKey key rows := by
  have hout : StaysWithin m (fun q => (m.keyOf q).same key == false) (Record.Steady m v keys)
      fun op => op.Steady m v keys ∧ op.model = m.name ∧ op.changes m r = false ∧
        ∀ k, op.inserted? m = some k → k.same key = false := by
    constructor
    · exact fun _ _ _ hop ha => ha.steady hop.1
    · rintro op rows ⟨hop, hmodel, hc, hinserts⟩ hrows
      rw [← hc]
      exact within_of_changes honce hop hmodel hr hk hinserts hrows
  have hfilter := h.filter_not hout hops hrows
  unfold Model.withKey
  simpa only [beq_false, Bool.not_not] using hfilter

/-- The operations of a log up to the first that changes a record. -/
theorem Operation.exists_first_change {m : Model} {r : Record} {op : Operation}
    {log : List Operation} (hop : op ∈ log) (hc : op.changes m r = true) :
    ∃ front first back, log = front ++ first :: back ∧ first.changes m r = true ∧
      ∀ o ∈ front, o.changes m r = false := by
  obtain ⟨first, hfirst⟩ : ∃ first, log.find? (Operation.changes m r) = some first :=
    Option.isSome_iff_exists.1 (List.find?_isSome.2 ⟨op, hop, hc⟩)
  obtain ⟨hf, front, back, hlog, hfront⟩ := List.find?_eq_some_iff_append.1 hfirst
  exact ⟨front, first, back, hlog, hf, fun o ho => by simpa using hfront o ho⟩

namespace LogRuns

variable {m : Model} {v : String} {keys : List Value} {past between log : List Operation}
  {snapshot ahead working final : List Record} {r : Record} {key : Value} {op : Operation}

section

variable (h : LogRuns m v keys past between log snapshot ahead working final)

include h

theorem steady_past : ∀ op ∈ past, op.Steady m v keys :=
  fun op hop => h.steady op (List.mem_append_left _ hop)

theorem steady_between : ∀ op ∈ between, op.Steady m v keys :=
  fun op hop => h.steady op (List.mem_append_right _ (List.mem_append_left _ hop))

theorem steady_log : ∀ op ∈ log, op.Steady m v keys :=
  fun op hop => h.steady op (List.mem_append_right _ (List.mem_append_right _ hop))

theorem steady_snapshot : ∀ r ∈ snapshot, r.Steady m v keys :=
  h.past_runs.all (fun _ _ _ hop ha => ha.steady hop) h.steady_past fun r hr => by cases hr

theorem steady_ahead : ∀ r ∈ ahead, r.Steady m v keys :=
  h.between_runs.all (fun _ _ _ hop ha => ha.steady hop) h.steady_between h.steady_snapshot

theorem keys_sublist {ops : List Operation} {rows next : List Record} (hrun : Runs m ops rows next)
    (hops : ∀ op ∈ ops, op.Steady m v keys) (hrows : ∀ r ∈ rows, r.Steady m v keys) :
    (next.map m.keyOf).Sublist (rows.map m.keyOf ++ ops.filterMap (inserted? m)) :=
  hrun.keys_sublist h.once (fun op hop => (hops op hop).keepsKey)
    (fun op hop => (hops op hop).inserts) fun r hr => (hrows r hr).key

theorem snapshot_keys : (snapshot.map m.keyOf).Sublist (past.filterMap (inserted? m)) :=
  h.keys_sublist h.past_runs h.steady_past fun r hr => by cases hr

theorem once_snapshot : Once (snapshot.map m.keyOf) :=
  h.once.sublist (h.snapshot_keys.trans ((List.sublist_append_left _ _).trans h.inserted))

theorem once_ahead : Once (ahead.map m.keyOf) := by
  refine h.once.sublist ?_
  refine (h.keys_sublist h.between_runs h.steady_between h.steady_snapshot).trans ?_
  refine (h.snapshot_keys.append (List.sublist_append_left _ _)).trans h.inserted

theorem once_working : Once (working.map m.keyOf) := by
  refine h.once.sublist ?_
  refine (h.keys_sublist h.log_runs h.steady_log h.steady_snapshot).trans ?_
  refine (h.snapshot_keys.append (List.sublist_append_right _ _)).trans h.inserted

theorem not_inserted (hr : r ∈ snapshot) (hk : (m.keyOf r).same key = true) :
    ∀ op ∈ between ++ log, ∀ k, op.inserted? m = some k → k.same key = false := by
  intro op hop k hins
  refine (h.once.sublist h.inserted).not_same_of_append
    (h.snapshot_keys.subset (List.mem_map_of_mem hr)) hk ?_
  rw [← List.filterMap_append]
  exact List.mem_filterMap.2 ⟨op, hop, hins⟩

theorem withKey_eq_of_part (hr : r ∈ snapshot) (hk : (m.keyOf r).same key = true)
    {part : List Operation} (hpart : ∀ op ∈ part, op ∈ log) {rows next : List Record}
    (hrun : Runs m part rows next) (hrows : ∀ q ∈ rows, q.Steady m v keys)
    (hc : ∀ op ∈ part, op.changes m r = false) : m.withKey key next = m.withKey key rows := by
  refine hrun.withKey_eq h.once (h.steady_snapshot r hr).key hk ?_ hrows
  intro op hop
  exact ⟨h.steady_log op (hpart op hop), h.model op (hpart op hop), hc op hop,
    h.not_inserted hr hk op (List.mem_append_right _ (hpart op hop))⟩

/-- If a log changes a record of the snapshot and can be replayed, the record is still the only one
with its key. -/
theorem ahead_eq (hr : r ∈ snapshot) (hop : op ∈ log) (hc : op.changes m r = true)
    (hk : (m.keyOf r).same key = true) : m.withKey key ahead = [r] := by
  obtain ⟨front, first, back, rfl, hfirst, hfront⟩ := exists_first_change hop hc
  have hmem : ∀ o ∈ front, o ∈ front ++ first :: back := fun o ho => List.mem_append_left _ ho
  have hsteady := h.steady_log
  have hfirst_steady : first.Steady m v keys :=
    hsteady first (List.mem_append_right _ List.mem_cons_self)
  have hfront_steady : ∀ o ∈ front, o.Steady m v keys := fun o ho => hsteady o (hmem o ho)
  obtain ⟨w, hw, hw'⟩ := Runs.append_iff.1 h.log_runs
  obtain ⟨c, hcr, hc'⟩ := Runs.append_iff.1 h.replay_runs
  obtain _ | ⟨haw, -⟩ := hw'
  obtain _ | ⟨hac, -⟩ := hc'
  have hrkey := (h.steady_snapshot r hr).key
  have hsame : ∀ {q}, m.keyOf q = m.keyOf r → (m.keyOf q).same key = true := fun he => he ▸ hk
  have hsnapshot := Model.withKey_eq_singleton h.once_snapshot hr hk
  -- on the snapshot the operation finds the record itself
  have hsteady_w := hw.all (fun _ _ _ hop ha => ha.steady hop) hfront_steady h.steady_snapshot
  have hwkey := h.withKey_eq_of_part hr hk hmem hw h.steady_snapshot hfront
  obtain ⟨q, hq, hqkey, hqversion⟩ :=
    haw.found h.version h.once hfirst_steady hsteady_w hrkey hfirst
  have hqmem : q ∈ m.withKey key w := List.mem_filter.2 ⟨hq, hsame hqkey⟩
  rw [hwkey, hsnapshot] at hqmem
  obtain rfl := List.mem_singleton.1 hqmem
  -- on the committed tables it finds one with the same key and version
  have hsteady_c := hcr.all (fun _ _ _ hop ha => ha.steady hop) hfront_steady h.steady_ahead
  have hckey := h.withKey_eq_of_part hr hk hmem hcr h.steady_ahead hfront
  obtain ⟨p, hp, hpkey, hpversion⟩ :=
    hac.found h.version h.once hfirst_steady hsteady_c hrkey hfirst
  have hpmem : p ∈ m.withKey key c := List.mem_filter.2 ⟨hp, hsame hpkey⟩
  rw [hckey] at hpmem
  have hpahead : p ∈ ahead := (List.mem_filter.1 hpmem).1
  have hversions : q.get v = p.get v := Option.some.inj (hqversion.symm.trans hpversion)
  -- which is what was left of the record meanwhile
  rcases h.between_runs.older h.version h.once h.steady_between h.steady_snapshot p hpahead with
    ⟨a, ha, hak, hold⟩ | hins
  · have hamem : a ∈ m.withKey key snapshot :=
      List.mem_filter.2 ⟨ha, hsame (hak.trans hpkey)⟩
    rw [hsnapshot] at hamem
    obtain rfl := List.mem_singleton.1 hamem
    obtain rfl := hold.eq_of_get_eq hversions
    exact Model.withKey_eq_singleton h.once_ahead hpahead hk
  · obtain ⟨o, ho, hins⟩ := List.mem_filterMap.1 hins
    have hnot := h.not_inserted hr hk o (List.mem_append_left _ ho) _ hins
    rw [hsame hpkey] at hnot
    cases hnot

/-- A record that a log changes last, and that was in the snapshot, is what is committed. -/
theorem final_eq (hr : r ∈ snapshot) (hop : op ∈ log) (hc : op.changes m r = true)
    (hk : (m.keyOf r).same key = true) {front rest : List Operation} (hlog : log = front ++ rest)
    {rows : List Record} (hfront : Runs m front snapshot rows) {r' : Record} (hr' : r' ∈ rows)
    (hk' : (m.keyOf r').same key = true) (hrest : ∀ o ∈ rest, o.changes m r' = false) :
    m.withKey key final = [r'] := by
  have hmem : ∀ o ∈ rest, o ∈ log := fun o ho => hlog ▸ List.mem_append_right _ ho
  have hrkey := (h.steady_snapshot r hr).key
  have hrows := hfront.all (fun _ _ _ hop ha => ha.steady hop)
    (fun o ho => h.steady_log o (hlog ▸ List.mem_append_left _ ho)) h.steady_snapshot
  have hkeys : m.keyOf r' = m.keyOf r := h.once.eq (hrows r' hr').key hk' hrkey hk
  -- the log leaves the same with the key on both
  have hagree : m.withKey key final = m.withKey key working := by
    refine Runs.agree (R := Record.Steady m v keys) (Q := fun o => o ∈ log) ?_ ?_ h.log_runs
      h.replay_runs ?_ (fun o ho => ho) h.steady_snapshot h.steady_ahead
    · exact fun o rows next ho ha => ha.steady (h.steady_log o ho)
    · intro o ho
      have hwithin : ∀ rows, (∀ q ∈ rows, q.Steady m v keys) →
          o.Within m (fun q => (m.keyOf q).same key == o.changes m r) rows :=
        fun rows hrows => within_of_changes h.once (h.steady_log o ho) (h.model o ho) hrkey hk
          (h.not_inserted hr hk o (List.mem_append_right _ ho)) hrows
      cases hco : o.changes m r with
      | true =>
          rw [hco] at hwithin
          exact .inl (by simpa only [beq_true] using hwithin)
      | false =>
          rw [hco] at hwithin
          exact .inr (by simpa only [beq_false] using hwithin)
    · exact (h.ahead_eq hr hop hc hk).trans
        (Model.withKey_eq_singleton h.once_snapshot hr hk).symm
  -- and from the last change on, the record stays
  have hrun := h.log_runs
  rw [hlog] at hrun
  obtain ⟨rows', hfront', hrest'⟩ := Runs.append_iff.1 hrun
  obtain rfl := hfront.unique hfront'
  have hstays := h.withKey_eq_of_part hr hk hmem hrest' hrows fun o ho => by
    have hno := hrest o ho
    unfold Operation.changes at hno ⊢
    rw [← hkeys]
    exact hno
  have hin : r' ∈ m.withKey key working := by
    rw [hstays]
    exact List.mem_filter.2 ⟨hr', hk'⟩
  rw [hagree]
  exact Model.withKey_eq_singleton h.once_working (List.mem_filter.1 hin).1 hk'

/-- After a log that changes a record of the snapshot, and after what is committed then, there is no
record with its key or one with a greater version. -/
theorem lt_of_later (hr : r ∈ snapshot) (hop : op ∈ log) (hc : op.changes m r = true)
    (hk : (m.keyOf r).same key = true) {more : List Operation} {later : List Record}
    (hmore : Runs m more final later) (hsteady : ∀ o ∈ more, o.Steady m v keys)
    (hnot : ∀ o ∈ more, ∀ k, o.inserted? m = some k → k.same key = false) :
    ∀ b ∈ later, m.keyOf b = m.keyOf r →
      ∃ i j, r.get v = .int i ∧ b.get v = .int j ∧ i < j := by
  have hahead := h.ahead_eq hr hop hc hk
  obtain ⟨front, first, back, rfl, hfirst, hfront⟩ := exists_first_change hop hc
  have hmem : ∀ o ∈ front, o ∈ front ++ first :: back := fun o ho => List.mem_append_left _ ho
  have hfront_steady : ∀ o ∈ front, o.Steady m v keys := fun o ho => h.steady_log o (hmem o ho)
  have hfirst_steady : first.Steady m v keys :=
    h.steady_log first (List.mem_append_right _ List.mem_cons_self)
  have hback : ∀ o ∈ back, o ∈ front ++ first :: back :=
    fun o ho => List.mem_append_right _ (List.mem_cons_of_mem _ ho)
  obtain ⟨c, hcr, hc'⟩ := Runs.append_iff.1 h.replay_runs
  obtain _ | ⟨hac, hrun⟩ := hc'
  rename_i next
  have hsteady_c := hcr.all (fun _ _ _ hop ha => ha.steady hop) hfront_steady h.steady_ahead
  have hone := (h.withKey_eq_of_part hr hk hmem hcr h.steady_ahead hfront).trans hahead
  have hrc : r ∈ c := by
    have hin : r ∈ m.withKey key c := by
      rw [hone]
      exact List.mem_singleton_self r
    exact (List.mem_filter.1 hin).1
  have hlt := hac.lt_of_changes h.version h.once hfirst_steady hsteady_c hrc hfirst hk hone
  intro b hb hbkey
  have hrest : Runs m (back ++ more) next later := Runs.append_iff.2 ⟨_, hrun, hmore⟩
  have hrest_steady : ∀ o ∈ back ++ more, o.Steady m v keys := by
    intro o ho
    rcases List.mem_append.1 ho with ho | ho
    · exact h.steady_log o (hback o ho)
    · exact hsteady o ho
  rcases hrest.older h.version h.once hrest_steady (hac.steady hfirst_steady hsteady_c) b hb with
    ⟨a, ha, hak, hold⟩ | hins
  · obtain ⟨i, j, hi, hj, hij⟩ := hlt a ha (hak.trans hbkey)
    rcases hold with rfl | ⟨j', k, hj', hk', hjk⟩
    · exact ⟨i, j, hi, hj, hij⟩
    · rw [hj, Value.int.injEq] at hj'
      subst hj'
      exact ⟨i, k, hi, hk', Int64.lt_trans hij hjk⟩
  · obtain ⟨o, ho, hins⟩ := List.mem_filterMap.1 hins
    have hno : (m.keyOf b).same key = false := by
      rcases List.mem_append.1 ho with ho | ho
      · exact h.not_inserted hr hk o (List.mem_append_right _ (hback o ho)) _ hins
      · exact hnot o ho _ hins
    rw [hbkey, hk] at hno
    cases hno

end

end LogRuns

end RecordApi
