import RecordApi.Proofs.Store.Inserted
import RecordApi.Proofs.Store.Integrity
import RecordApi.Proofs.Store.Isolation

/-!
# Deletes that are final

A delete that is committed takes away the first record with its key that it finds where it is
replayed. If no later operation of its transaction has the key, what is committed is what follows
that record (`Operation.Runs.withKey_of_delete`). As a key is unique where tables are committed, a
record with the key is left exactly if two records had it by then, which takes a record to which the
transaction gave the key itself (`Span.deleted_iff`).
-/

namespace RecordApi

/-! ## Keys that are given to records -/

/-- The keys that an operation on a model gives to records. -/
def Operation.assigns (m : Model) : Operation → List Value
  | .insert _ r => [m.keyOf r]
  | .update _ _ _ changes =>
    if changes.contains m.primaryKey.name then [m.keyOf changes] else []
  | .delete _ _ _ => []

variable {m : Model} {key : Value}

theorem Record.Valid.isKey (hm : m.WellFormed) (hk : m.KeyTyped) {r : Record} (h : r.Valid m) :
    (m.keyOf r).IsKey := by
  have hn := h.notNull m.primaryKey hm.key_mem hm.key_not_null
  exact hk.isKey hm (h.takes _ (Record.contains_of_get_ne_null hn)) hn

theorem Model.withKey_eq_nil_iff {rows : List Record} :
    m.withKey key rows = [] ↔ ∀ r ∈ rows, (m.keyOf r).same key = false := by
  unfold withKey
  simp only [List.filter_eq_nil_iff, Bool.not_eq_true]

namespace Operation

variable {op : Operation} {ops : List Operation} {rows next final : List Record}

/-- A delete takes away the first record with its key. -/
theorem Acts.withKey_of_delete {name : String} {expected : Option Value}
    (h : (Operation.delete name key expected).Acts m rows next) :
    ∃ r, m.withKey key rows = r :: m.withKey key next := by
  cases h with
  | @delete _ _ _ p hp =>
      have hbefore : p.before.filter (fun r => (m.keyOf r).same key) = [] :=
        Model.withKey_eq_nil_iff.2 hp.first
      refine ⟨p.row, ?_⟩
      unfold Model.withKey Place.replace Place.remove
      rw [List.filter_append, List.filter_append, hbefore, List.filter_cons, if_pos hp.found,
        List.nil_append, List.nil_append]

/-- An operation that gives no record a key leaves no more records with it. -/
theorem Acts.length_withKey_le (h : op.Acts m rows next)
    (hop : ∀ k ∈ op.assigns m, k.same key = false) :
    (m.withKey key next).length ≤ (m.withKey key rows).length := by
  unfold Model.withKey
  cases h with
  | @insert _ r =>
      have hr : ¬(m.keyOf r).same key = true := by simp [hop _ List.mem_cons_self]
      refine Nat.le_of_eq ?_
      rw [List.filter_append, List.filter_cons, if_neg hr, List.filter_nil, List.append_nil]
  | @update _ _ _ changes p hp =>
      have hrow : (m.keyOf (p.row.merge changes)).same key = true →
          (m.keyOf p.row).same key = true := by
        rw [m.keyOf_merge]
        split
        · next hset =>
          have hne := hop (m.keyOf changes) (by simp [assigns, hset])
          exact fun hs => absurd hs (by simp [hne])
        · exact id
      unfold Place.replace
      rw [List.filter_append, List.filter_append, List.length_append, List.length_append,
        List.filter_cons, List.filter_cons]
      split
      · next hs => rw [if_pos (hrow hs)]; exact Nat.le_refl _
      · split
        · simp only [List.length_cons]
          omega
        · exact Nat.le_refl _
  | @delete _ _ _ p hp =>
      unfold Place.replace Place.remove
      exact ((List.Sublist.refl p.before).append (List.sublist_cons_self _ _)).filter _ |>.length_le

theorem Runs.length_withKey_le (h : Runs m ops rows final)
    (hops : ∀ op ∈ ops, ∀ k ∈ op.assigns m, k.same key = false) :
    (m.withKey key final).length ≤ (m.withKey key rows).length := by
  induction h with
  | nil => exact Nat.le_refl _
  | cons ha _ ih =>
      obtain ⟨hop, hops⟩ := List.forall_mem_cons.1 hops
      exact Nat.le_trans (ih hops) (ha.length_withKey_le hop)

/-- Operations that do not have a key stay within the records that do not have it. -/
theorem staysWithin_apart (hm : m.WellFormed) (hk : m.KeyTyped) (hkey : key.IsKey) :
    StaysWithin m (fun r => !(m.keyOf r).same key) (Record.Valid m)
      fun op => op.Valid m ∧ ∀ k ∈ op.keys m, k.same key = false := by
  constructor
  · exact fun op rows next hop ha hrows => ha.valid hop.1 hrows
  · rintro op rows ⟨-, hop⟩ hrows
    -- a record with the key is found by operations that have the key, and by no others
    have hfound : ∀ k ∈ op.keys m, ∀ r ∈ rows, (m.keyOf r).same k = true →
        (m.keyOf r).same key = false := by
      intro k hk' r hr hs
      have hne := hop k hk'
      by_contra hsame
      rw [Bool.not_eq_false] at hsame
      rw [((hrows r hr).isKey hm hk).same_iff hkey |>.1 hsame, Value.same_comm, hne] at hs
      cases hs
    cases op with
    | insert name r =>
        change (!(m.keyOf r).same key) = true
        rw [hop _ List.mem_cons_self]
        rfl
    | update name k expected changes =>
        intro r hr hs
        have hold := hfound k List.mem_cons_self r hr hs
        beta_reduce
        rw [hold, m.keyOf_merge]
        refine ⟨rfl, ?_⟩
        split
        · next hset =>
          rw [hop (m.keyOf changes)
            (List.mem_cons_of_mem _ (by rw [if_pos hset]; exact List.mem_cons_self))]
          rfl
        · rw [hold]
          rfl
    | delete name k expected =>
        intro r hr hs
        beta_reduce
        rw [hfound k List.mem_cons_self r hr hs]
        rfl

/-- After a delete, and operations that do not have its key, there is what followed the record that
it took away. -/
theorem Runs.withKey_of_delete (hm : m.WellFormed) (hk : m.KeyTyped) (hkey : key.IsKey)
    {name : String} {expected : Option Value}
    (h : Runs m (.delete name key expected :: ops) rows final)
    (hvalid : ∀ op ∈ ops, op.Valid m) (hrows : ∀ r ∈ rows, r.Valid m)
    (hops : ∀ op ∈ ops, ∀ k ∈ op.keys m, k.same key = false) :
    ∃ r, m.withKey key rows = r :: m.withKey key final := by
  obtain _ | ⟨ha, hrest⟩ := h
  have hdelete : (Operation.delete name key expected).Valid m := trivial
  have hfilter := hrest.filter_not (staysWithin_apart hm hk hkey)
    (fun op hop => ⟨hvalid op hop, hops op hop⟩) (ha.valid hdelete hrows)
  simp only [Bool.not_not] at hfilter
  obtain ⟨r, hr⟩ := ha.withKey_of_delete
  refine ⟨r, hr.trans ?_⟩
  unfold Model.withKey
  rw [hfilter]

end Operation

/-! ## Where keys are unique -/

/-- A record with a key is found among those with it. -/
theorem Model.mem_withKey_iff {r : Record} {rows : List Record} :
    r ∈ m.withKey key rows ↔ r ∈ rows ∧ (m.keyOf r).same key = true :=
  List.mem_filter

theorem Model.forall_keyOf_ne_iff (hm : m.WellFormed) (hk : m.KeyTyped) (hkey : key.IsKey)
    {rows : List Record} (hrows : ∀ r ∈ rows, r.Valid m) :
    (∀ r ∈ rows, m.keyOf r ≠ key) ↔ m.withKey key rows = [] := by
  rw [withKey_eq_nil_iff]
  refine forall₂_congr fun r hr => ?_
  rw [← Bool.not_eq_true, ((hrows r hr).isKey hm hk).same_iff hkey]

/-- Records that are checked and valid have a key once at most. -/
theorem Tables.length_withKey_le_one {t : Tables} (hm : m.WellFormed) (hk : m.KeyTyped)
    (hkey : key.IsKey) (hrows : ∀ r ∈ t.rows m.name, r.Valid m)
    (hunique : t.checkUnique m = .ok ()) : (m.withKey key (t.rows m.name)).length ≤ 1 := by
  have hpairs := (hasClash_eq_false_iff.1 (hasClash_of_checkUnique hm hunique .key)).filter
    fun r => (m.keyOf r).same key
  have hequal : ∀ r ∈ m.withKey key (t.rows m.name), m.keyOf r = key ∧ m.keyOf r ≠ .null := by
    intro r hr
    obtain ⟨hr, hs⟩ := Model.mem_withKey_iff.1 hr
    exact ⟨((hrows r hr).isKey hm hk).same_iff hkey |>.1 hs,
      (hrows r hr).notNull m.primaryKey hm.key_mem hm.key_not_null⟩
  cases hfound : m.withKey key (t.rows m.name) with
  | nil => exact Nat.zero_le 1
  | cons a rest =>
      cases rest with
      | nil => exact Nat.le_refl 1
      | cons b rest =>
          rw [hfound] at hequal
          obtain ⟨ha, hna⟩ := hequal a List.mem_cons_self
          obtain ⟨hb, -⟩ := hequal b (List.mem_cons_of_mem _ List.mem_cons_self)
          have hsame : (m.keyOf a).same (m.keyOf b) = true := by
            rw [ha, hb]
            exact hkey.same_self
          change (m.withKey key (t.rows m.name)).Pairwise _ at hpairs
          rw [hfound] at hpairs
          have hclash := List.rel_of_pairwise_cons hpairs List.mem_cons_self
          rw [clash_key_iff.2 ⟨hna, hsame⟩] at hclash
          cases hclash

namespace Span

open Sessions

variable {schema : Schema} {tx : Transaction} {store : Store} {front rest : List Operation}
  {version : Option Value}

/-- A delete of a transaction that is committed, and after which no operation of the transaction has
its key, is final if and only if one record alone had the key where the delete was replayed. This
is so if no earlier operation of the transaction gave the key to a record; otherwise the delete may
take the record of another transaction and leave that of its own. -/
theorem deleted_iff {d : SchemaDecl} (hd : d.resolve = .ok schema) (hm : m ∈ schema.models)
    (hk : m.KeyTyped) (supply : Nat → Uuid) (t : Span)
    (h : t.Commits (empty schema supply) tx store)
    (hlog : tx.log = front ++ .delete m.name key version :: rest) (hkey : key.IsKey)
    (hlast : ∀ op ∈ m.writes rest, ∀ k ∈ op.keys m, k.same key = false) :
    ∃ tables, front.foldlM (Operation.replay schema) (t.committedAhead (empty schema supply)) =
        .ok tables ∧
      m.withKey key (store.tables.rows m.name) = (m.withKey key (tables.rows m.name)).tail ∧
      ((∀ r ∈ store.tables.rows m.name, m.keyOf r ≠ key) ↔
        (m.withKey key (tables.rows m.name)).length = 1) ∧
      ((∀ op ∈ m.writes front, ∀ k ∈ op.assigns m, k.same key = false) →
        ∀ r ∈ store.tables.rows m.name, m.keyOf r ≠ key) := by
  have hs := SchemaDecl.wellFormed hd
  have hwf := hs.models m hm
  have hname := hs.model?_name hm
  have hof := of_empty schema supply
  have hvalid :
      ((empty schema supply).after t.ahead).Keeps m (Record.Valid m) (Operation.Valid m) :=
    keeps_valid hs hm t.ahead
  have hchecked : ((empty schema supply).after t.ahead).store.tables.Checked schema :=
    checked_after hs t.ahead
  have hlogged : ∀ op ∈ m.writes tx.log, op.Valid m := by
    intro op hop
    obtain ⟨hop, hmodel⟩ := List.mem_filter.1 hop
    exact hvalid.logged t.name tx h.opens op hop (by simpa using hmodel)
  -- the log up to the delete, and from there
  have hreplay := Store.replay_of_commit h.committed
  rw [(hof.after t.ahead).opened t.name tx h.opens, hlog, foldlM_append_eq_ok_iff] at hreplay
  obtain ⟨tables, hfront, hback⟩ := hreplay
  have hrun := Operation.runs_of_replay hname hfront
  have hrest := Operation.runs_of_replay hname hback
  have hwrites : m.writes (.delete m.name key version :: rest) =
      .delete m.name key version :: m.writes rest :=
    List.filter_cons_of_pos (beq_self_eq_true m.name)
  rw [hwrites] at hrest
  rw [hlog, Model.writes_append, hwrites] at hlogged
  have hrows : ∀ r ∈ tables.rows m.name, r.Valid m :=
    hrun.all (fun _ _ _ hop ha => ha.valid hop)
      (fun op hop => hlogged op (List.mem_append_left _ hop)) hvalid.committed
  have hfinal : ∀ r ∈ store.tables.rows m.name, r.Valid m :=
    hrest.all (fun _ _ _ hop ha => ha.valid hop)
      (fun op hop => hlogged op (List.mem_append_right _ hop)) hrows
  obtain ⟨taken, htaken⟩ := hrest.withKey_of_delete hwf hk hkey
    (fun op hop => hlogged op (List.mem_append_right _ (List.mem_cons_of_mem _ hop))) hrows hlast
  have hdeleted : (∀ r ∈ store.tables.rows m.name, m.keyOf r ≠ key) ↔
      (m.withKey key (tables.rows m.name)).length = 1 := by
    rw [Model.forall_keyOf_ne_iff hwf hk hkey hfinal, htaken, List.length_cons,
      Nat.add_eq_right, List.length_eq_zero_iff]
  refine ⟨tables, hfront, by rw [htaken, List.tail_cons], hdeleted, fun hassigns => ?_⟩
  -- nothing before the delete added a record with the key, and at most one was committed
  have hahead := Tables.length_withKey_le_one hwf hk hkey hvalid.committed
    (hchecked.unique m hm)
  have hle := Nat.le_trans (hrun.length_withKey_le hassigns) hahead
  have hpos : 0 < (m.withKey key (tables.rows m.name)).length := by
    rw [htaken]
    exact Nat.succ_pos _
  exact hdeleted.2 (Nat.le_antisymm hle hpos)

/-- A transaction inserts a note and deletes it again, after another one has committed a note with
the same key. -/
def besideSameKey : Span where
  name := "a"
  before := []
  during := [.insert "a" "note" (.ofList [("id", .int 1), ("text", .text "mine")]),
    .begin "b", .insert "b" "note" (.ofList [("id", .int 1), ("text", .text "theirs")]),
    .commit "b",
    .delete "a" "note" (.ofList [("id", .int 1), ("text", .text "mine"), ("version", .int 1)])]
  stays := by simp

/-- The delete takes the other note, and the one to delete is committed. -/
theorem deleted_iff_besideSameKey : ∃ tx store mine,
    besideSameKey.Commits (empty .notes fun _ => default) tx store ∧
      tx.log = [.insert "note" mine, .delete "note" (.int 1) (some (.int 1))] ∧
      store.tables.rows "note" = [mine] ∧
      ¬∀ r ∈ store.tables.rows "note", Model.note.keyOf r ≠ .int 1 := by
  refine ⟨_, _, _, ⟨rfl, rfl⟩, rfl, rfl, ?_⟩
  obtain ⟨tables, htables, -, hdeleted, -⟩ := deleted_iff SchemaDecl.resolve_notes
    (List.mem_singleton.2 rfl) (.inl rfl) (fun _ => default) besideSameKey ⟨rfl, rfl⟩
    (List.singleton_append (l := [_])).symm trivial (fun op hop => by cases hop)
  obtain rfl := Except.ok.inj htables
  exact fun h => absurd (hdeleted.1 h) (by decide)

end Span

end RecordApi
