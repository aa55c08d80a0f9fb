import RecordApi.Proofs.Store.Kept

/-!
# Keys that are inserted

Where no update changes a primary key, the keys of a table are those of the records that were
inserted (`Sessions.known_after`). If no key is inserted twice, they even stand in the table as
often as they were inserted or less (`Operation.Runs.keys_sublist`), so that a key has one record at
most.
-/

namespace RecordApi

/-! ## Keys that occur once -/

/-- No two of the keys are the same as one key. -/
def Once (keys : List Value) : Prop :=
  ∀ k, keys.countP (·.same k) ≤ 1

theorem eq_singleton_of_mem {α : Type} {xs : List α} {x : α} (h : xs.length ≤ 1) (hx : x ∈ xs) :
    xs = [x] := by
  cases xs with
  | nil => cases hx
  | cons y rest =>
      have hrest : rest = [] := List.length_eq_zero_iff.1 (by simpa using h)
      subst hrest
      rw [List.mem_singleton.1 hx]

namespace Once

variable {keys others : List Value} {a b k : Value}

theorem sublist (h : Once keys) (hs : others.Sublist keys) : Once others :=
  fun k => Nat.le_trans hs.countP_le (h k)

theorem not_same_of_append (h : Once (keys ++ others)) (ha : a ∈ keys) (hak : a.same k = true)
    (hb : b ∈ others) : b.same k = false := by
  by_contra hbk
  rw [Bool.not_eq_false] at hbk
  have hcount := h k
  have hleft : 0 < keys.countP (·.same k) := List.countP_pos_iff.2 ⟨a, ha, hak⟩
  have hright : 0 < others.countP (·.same k) := List.countP_pos_iff.2 ⟨b, hb, hbk⟩
  rw [List.countP_append] at hcount
  omega

theorem eq (h : Once keys) (ha : a ∈ keys) (hak : a.same k = true) (hb : b ∈ keys)
    (hbk : b.same k = true) : a = b := by
  have hlen : (keys.filter (·.same k)).length ≤ 1 := by
    rw [← List.countP_eq_length_filter]
    exact h k
  have hsingle := eq_singleton_of_mem hlen (List.mem_filter.2 ⟨hb, hbk⟩)
  have ha' : a ∈ keys.filter (·.same k) := List.mem_filter.2 ⟨ha, hak⟩
  rw [hsingle] at ha'
  exact List.mem_singleton.1 ha'

end Once

/-- The records of some with a key. -/
def Model.withKey (m : Model) (key : Value) (rows : List Record) : List Record :=
  rows.filter fun r => (m.keyOf r).same key

theorem Model.withKey_eq_singleton {m : Model} {rows : List Record}
    (h : Once (rows.map m.keyOf)) {r : Record} (hr : r ∈ rows) {key : Value}
    (hk : (m.keyOf r).same key = true) : m.withKey key rows = [r] := by
  have hlen : (m.withKey key rows).length ≤ 1 := by
    unfold withKey
    rw [← List.countP_eq_length_filter]
    have hcount := h key
    rw [List.countP_map] at hcount
    exact hcount
  exact eq_singleton_of_mem hlen (List.mem_filter.2 ⟨hr, hk⟩)

/-! ## Operations that keep keys -/

/-- The key that an operation on a model inserts. -/
def Operation.inserted? (m : Model) : Operation → Option Value
  | .insert _ r => some (m.keyOf r)
  | _ => none

/-- The keys that operations insert into a model. -/
def Model.inserted (m : Model) (ops : List Operation) : List Value :=
  (m.writes ops).filterMap (Operation.inserted? m)

/-- An update that sets the key sets it to one of some keys, which is the same as the one that it
has. -/
def Operation.KeepsKey (m : Model) (keys : List Value) : Operation → Prop
  | .update _ key _ changes => changes.contains m.primaryKey.name = true →
    m.keyOf changes ∈ keys ∧ (m.keyOf changes).same key = true
  | _ => True

namespace Model

variable {m : Model}

theorem inserted_append (ops more : List Operation) :
    m.inserted (ops ++ more) = m.inserted ops ++ m.inserted more := by
  unfold inserted
  rw [writes_append, List.filterMap_append]

theorem inserted_mono {ops more : List Operation} (h : ops.Sublist more) :
    (m.inserted ops).Sublist (m.inserted more) :=
  (h.filter _).filterMap _

end Model

namespace Operation

variable {m : Model} {keys more : List Value} {op : Operation} {ops : List Operation}
  {rows next final : List Record}

theorem KeepsKey.mono (h : op.KeepsKey m keys) (hsub : keys ⊆ more) : op.KeepsKey m more := by
  cases op with
  | insert | delete => trivial
  | update => exact fun hset => ⟨hsub (h hset).1, (h hset).2⟩

theorem KeepsKey.keyOf_merge {name : String} {key : Value} {expected : Option Value}
    {changes r : Record} (h : (Operation.update name key expected changes).KeepsKey m keys)
    (honce : Once keys) (hr : m.keyOf r ∈ keys) (hs : (m.keyOf r).same key = true) :
    m.keyOf (r.merge changes) = m.keyOf r := by
  rw [m.keyOf_merge]
  split
  · next hset => exact honce.eq (h hset).1 (h hset).2 hr hs
  · rfl

theorem Acts.keyOf_mem (h : op.Acts m rows next) (hkeeps : op.KeepsKey m keys)
    (hinserted : ∀ k, op.inserted? m = some k → k ∈ keys)
    (hrows : ∀ r ∈ rows, m.keyOf r ∈ keys) : ∀ r ∈ next, m.keyOf r ∈ keys := by
  intro r hr
  rcases h.of_mem hr with hr | ⟨name, rfl⟩ | ⟨name, key, expected, changes, q, rfl, hq, -, -, rfl⟩
  · exact hrows r hr
  · exact hinserted _ rfl
  · rw [m.keyOf_merge]
    split
    · next hset => exact (hkeeps hset).1
    · exact hrows q hq

/-- An operation adds to the keys those that it inserts, and no others. -/
theorem Acts.keys_sublist (h : op.Acts m rows next) (honce : Once keys)
    (hkeeps : op.KeepsKey m keys) (hrows : ∀ r ∈ rows, m.keyOf r ∈ keys) :
    (next.map m.keyOf).Sublist (rows.map m.keyOf ++ (op.inserted? m).toList) := by
  cases h with
  | insert =>
      rw [List.map_append]
      exact List.Sublist.refl _
  | @update _ _ _ changes p hp =>
      have hrow := hrows p.row (List.mem_append_right _ List.mem_cons_self)
      unfold Place.replace
      rw [List.map_append, List.map_append, List.map_cons, List.map_cons,
        hkeeps.keyOf_merge honce hrow hp.found]
      exact List.sublist_append_left _ _
  | @delete _ _ _ p =>
      unfold Place.replace Place.remove
      rw [List.map_append, List.map_append, List.map_cons]
      exact ((List.Sublist.refl _).append (List.sublist_cons_self _ _)).trans
        (List.sublist_append_left _ _)

theorem Runs.keys_sublist (h : Runs m ops rows final) (honce : Once keys)
    (hkeeps : ∀ op ∈ ops, op.KeepsKey m keys)
    (hinserted : ∀ op ∈ ops, ∀ k, op.inserted? m = some k → k ∈ keys)
    (hrows : ∀ r ∈ rows, m.keyOf r ∈ keys) :
    (final.map m.keyOf).Sublist (rows.map m.keyOf ++ ops.filterMap (inserted? m)) := by
  induction h with
  | nil => exact List.sublist_append_left _ _
  | @cons op ops rows next final ha _ ih =>
      obtain ⟨hk, hkeeps⟩ := List.forall_mem_cons.1 hkeeps
      obtain ⟨hi, hinserted⟩ := List.forall_mem_cons.1 hinserted
      have hfirst := ha.keys_sublist honce hk hrows
      have hrest := ih hkeeps hinserted (ha.keyOf_mem hk hi hrows)
      have hcons : (op :: ops).filterMap (inserted? m) =
          (op.inserted? m).toList ++ ops.filterMap (inserted? m) := by
        rw [List.filterMap_cons]
        cases op.inserted? m <;> rfl
      rw [hcons, ← List.append_assoc]
      exact hrest.trans (hfirst.append (List.Sublist.refl _))

end Operation

/-! ## Histories that keep keys -/

/-- A write that leaves a record its key works with keys that are there, and with the one that it
inserts. -/
theorem Transaction.Writes.keys {tx : Transaction} {m : Model} {st : Step} {result : StepResult}
    {op : Operation} {rows : List Record} (h : tx.Writes m st result op rows)
    (hkeeps : ∀ name current changes p r, st = .update name m.name current changes →
      tx.placeOf m current = .ok p → result = .record r → m.keyOf r = m.keyOf p.row) :
    (∀ r ∈ rows, m.keyOf r ∈ (tx.working.rows m.name).map m.keyOf ∨
        op.inserted? m = some (m.keyOf r)) ∧
      op.KeepsKey m ((tx.working.rows m.name).map m.keyOf) := by
  have hacts := h.acts
  cases h with
  | insert =>
      refine ⟨fun r hr => ?_, trivial⟩
      rcases List.mem_append.1 hr with hr | hr
      · exact .inl (List.mem_map_of_mem hr)
      · exact .inr (by rw [List.mem_singleton.1 hr]; rfl)
  | @update _ _ current changes given p named _ place =>
      obtain rfl := Schema.name_of_model? named
      obtain ⟨hrows, hp⟩ := placeOf_eq_ok place
      have hrow : p.row ∈ tx.working.rows m.name := by
        rw [hrows]
        exact List.mem_append_right _ List.mem_cons_self
      have hkey := hkeeps _ _ _ _ _ rfl place rfl
      constructor
      · intro r hr
        rcases List.mem_append.1 hr with hr | hr
        · exact .inl (List.mem_map_of_mem (by rw [hrows]; exact List.mem_append_left _ hr))
        · rcases List.mem_cons.1 hr with rfl | hr
          · rw [hkey]
            exact .inl (List.mem_map_of_mem hrow)
          · refine .inl (List.mem_map_of_mem ?_)
            rw [hrows]
            exact List.mem_append_right _ (List.mem_cons_of_mem _ hr)
      · intro hset
        rw [m.keyOf_merge, if_pos hset] at hkey
        rw [hkey]
        exact ⟨List.mem_map_of_mem hrow, hp.found⟩
  | @delete _ _ current p named place =>
      obtain ⟨hrows, -⟩ := placeOf_eq_ok place
      refine ⟨fun r hr => .inl (List.mem_map_of_mem ?_), trivial⟩
      rw [hrows]
      rcases List.mem_append.1 hr with hr | hr
      · exact List.mem_append_left _ hr
      · exact List.mem_append_right _ (List.mem_cons_of_mem _ hr)

namespace Sessions

variable {schema : Schema} {supply : Nat → Uuid} {m : Model}

/-- No update of a record of a model changes its primary key. -/
def KeepsKeys (s : Sessions) (m : Model) (steps : List Step) : Prop :=
  ∀ front name current changes, front ++ [.update name m.name current changes] <+: steps →
    ∀ tx p r, (s.after front).opened.get? name = some tx → tx.placeOf m current = .ok p →
      ((s.after front).step (.update name m.name current changes)).1 = .record r →
        m.keyOf r = m.keyOf p.row

/-- All keys of a model are keys that were inserted, by what was committed in the past or by the
transaction that works with them. -/
structure Known (s : Sessions) (m : Model) (past : List Operation) : Prop where
  committed : ∀ r ∈ s.store.tables.rows m.name, m.keyOf r ∈ m.inserted past
  history : ∀ op ∈ m.writes past, op.KeepsKey m (m.inserted past)
  working : ∀ name tx, s.opened.get? name = some tx →
    ∀ r ∈ tx.working.rows m.name, m.keyOf r ∈ m.inserted (past ++ tx.log)
  logged : ∀ name tx, s.opened.get? name = some tx →
    ∀ op ∈ m.writes tx.log, op.KeepsKey m (m.inserted (past ++ tx.log))

theorem mem_inserted {ops : List Operation} {op : Operation} {k : Value} (hop : op ∈ m.writes ops)
    (hk : op.inserted? m = some k) : k ∈ m.inserted ops :=
  List.mem_filterMap.2 ⟨op, hop, hk⟩

theorem known_wrote {tx : Transaction} {n : Model} {st : Step} {result : StepResult}
    {op : Operation} {rows : List Record} {past : List Operation}
    (hn : n.name = m.name → n = m) (hw : tx.Writes n st result op rows)
    (hkeeps : ∀ name current changes p r, st = .update name m.name current changes →
      tx.placeOf m current = .ok p → result = .record r → m.keyOf r = m.keyOf p.row)
    (hworking : ∀ r ∈ tx.working.rows m.name, m.keyOf r ∈ m.inserted (past ++ tx.log)) :
    (∀ r ∈ (tx.wrote n rows op).working.rows m.name,
        m.keyOf r ∈ m.inserted (past ++ (tx.log ++ [op]))) ∧
      (op.model = m.name → op.KeepsKey m (m.inserted (past ++ (tx.log ++ [op])))) := by
  have hgrows : m.inserted (past ++ tx.log) ⊆ m.inserted (past ++ (tx.log ++ [op])) :=
    (Model.inserted_mono
      ((List.Sublist.refl past).append (List.sublist_append_left tx.log [op]))).subset
  change (∀ r ∈ (tx.working.setRows n.name rows).rows m.name, _) ∧ _
  rw [Tables.rows_setRows]
  by_cases hname : m.name = n.name
  · obtain rfl := hn hname.symm
    rw [if_pos rfl]
    obtain ⟨hrows, hkeep⟩ := hw.keys hkeeps
    constructor
    · intro r hr
      rcases hrows r hr with hold | hnew
      · obtain ⟨q, hq, hk⟩ := List.mem_map.1 hold
        exact hgrows (hk ▸ hworking q hq)
      · have hop : op ∈ n.writes (past ++ (tx.log ++ [op])) :=
          List.mem_filter.2 ⟨List.mem_append_right _ (List.mem_append_right _ List.mem_cons_self),
            by simpa using hw.model?.1⟩
        exact mem_inserted hop hnew
    · refine fun _ => hkeep.mono fun k hk => ?_
      obtain ⟨q, hq, rfl⟩ := List.mem_map.1 hk
      exact hgrows (hworking q hq)
  · rw [if_neg hname]
    refine ⟨fun r hr => hgrows (hworking r hr), fun hmodel => ?_⟩
    exact absurd (hmodel.symm.trans hw.model?.1) hname

/-- Where a step changes no key, all keys stay known. -/
theorem Known.step {s : Sessions} {past : List Operation} (hof : s.Of schema)
    (hm : schema.model? m.name = some m) (h : s.Known m past) (st : Step)
    (hkeeps : ∀ name current changes, st = .update name m.name current changes →
      ∀ tx p r, s.opened.get? name = some tx → tx.placeOf m current = .ok p →
        (s.step st).1 = .record r → m.keyOf r = m.keyOf p.row) :
    (s.step st).2.Known m (past ++ s.committed st) := by
  have hmoves := s.moves_step st
  have hgrows : ∀ log : List Operation,
      m.inserted (past ++ log) ⊆ m.inserted (past ++ s.committed st ++ log) :=
    fun log => (Model.inserted_mono
      ((List.sublist_append_left past _).append (List.Sublist.refl log))).subset
  have hpast : m.inserted past ⊆ m.inserted (past ++ s.committed st) :=
    (Model.inserted_mono (List.sublist_append_left past _)).subset
  have hwrote : ∀ tx n op rows, s.opened.get? (nameOf st) = some tx →
      tx.Writes n st (s.step st).1 op rows →
      (∀ r ∈ (tx.wrote n rows op).working.rows m.name,
          m.keyOf r ∈ m.inserted (past ++ (tx.log ++ [op]))) ∧
        (op.model = m.name → op.KeepsKey m (m.inserted (past ++ (tx.log ++ [op])))) := by
    intro tx n op rows ho hw
    refine known_wrote (fun hn => ?_) hw ?_ (h.working _ tx ho)
    · have hmodel := hw.model?.2
      rw [hw.model?.1, hn, hof.opened _ tx ho, hm] at hmodel
      exact (Option.some.inj hmodel).symm
    · intro name current changes p r hst hp hr
      subst hst
      exact hkeeps name current changes rfl tx p r ho hp hr
  constructor
  · rcases hmoves.store_cases with ⟨-, -, ht⟩ | ⟨name, tx, -, ho, hops, -⟩
    · rw [ht]
      exact fun r hr => hpast (h.committed r hr)
    · have hrun := Operation.runs_of_replay hm (replay_committed hof st)
      rw [hops] at hrun hpast ⊢
      refine hrun.all (R := fun r => m.keyOf r ∈ m.inserted (past ++ tx.log))
        (Q := fun op => op.KeepsKey m (m.inserted (past ++ tx.log)) ∧
          ∀ k, op.inserted? m = some k → k ∈ m.inserted (past ++ tx.log))
        (fun _ _ _ hop ha => ha.keyOf_mem hop.1 hop.2) ?_
        fun r hr => hpast (h.committed r hr)
      intro op hop
      refine ⟨h.logged name tx ho op hop, fun k hk => ?_⟩
      rw [Model.inserted_append]
      exact List.mem_append_right _ (mem_inserted hop hk)
  · intro op hop
    rw [Model.writes_append] at hop
    rcases List.mem_append.1 hop with hop | hop
    · exact (h.history op hop).mono hpast
    · rcases hmoves.store_cases with ⟨hops, -, -⟩ | ⟨name, tx, -, ho, hops, -⟩
      · rw [hops] at hop
        cases hop
      · rw [hops] at hop ⊢
        exact h.logged name tx ho op hop
  · intro name tx' ho'
    rcases hmoves.opened_cases ho' with ho | ⟨-, rfl⟩ | ⟨tx, n, op, rows, rfl, ho, hw, rfl⟩
    · exact fun r hr => hgrows tx'.log (h.working name tx' ho r hr)
    · exact fun r hr => hgrows [] (by rw [List.append_nil]; exact h.committed r hr)
    · exact fun r hr => hgrows _ ((hwrote tx n op rows ho hw).1 r hr)
  · intro name tx' ho'
    rcases hmoves.opened_cases ho' with ho | ⟨-, rfl⟩ | ⟨tx, n, op, rows, rfl, ho, hw, rfl⟩
    · exact fun op hop => (h.logged name tx' ho op hop).mono (hgrows tx'.log)
    · exact fun op hop => by cases hop
    · intro other hother
      change other ∈ m.writes (tx.log ++ [op]) at hother
      rw [Model.writes_append] at hother
      rcases List.mem_append.1 hother with hother | hother
      · refine (h.logged _ tx ho other hother).mono fun k hk => hgrows _ ?_
        exact (Model.inserted_mono
          ((List.Sublist.refl past).append (List.sublist_append_left tx.log [op]))).subset hk
      · obtain ⟨hop, hmodel⟩ := List.mem_filter.1 hother
        obtain rfl := List.mem_singleton.1 hop
        exact ((hwrote tx n other rows ho hw).2 (by simpa using hmodel)).mono (hgrows _)

/-- Where no update changes a key, all keys are known. -/
theorem known_after (hm : schema.model? m.name = some m) (steps : List Step)
    (hkeeps : (empty schema supply).KeepsKeys m steps) :
    ((empty schema supply).after steps).Known m ((empty schema supply).history steps) := by
  induction steps using List.reverseRecOn with
  | nil =>
      constructor
      · intro r hr
        cases hr
      · intro op hop
        cases hop
      · intro name tx ho
        cases ho
      · intro name tx ho
        cases ho
  | append_singleton steps st ih =>
      have ih := ih fun front name current changes hp =>
        hkeeps front name current changes (hp.trans (List.prefix_append steps [st]))
      have hafter : (empty schema supply).after (steps ++ [st]) =
          (((empty schema supply).after steps).step st).2 := after_append _ steps [st]
      rw [hafter, history_append, history, history, List.append_nil]
      refine ih.step ((of_empty schema supply).after steps) hm st ?_
      intro name current changes hst tx p r ho hp hr
      subst hst
      exact hkeeps steps name current changes (List.prefix_refl _) tx p r ho hp hr

end Sessions

end RecordApi
