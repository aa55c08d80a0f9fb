import RecordApi.Proofs.Store.Integrity

/-!
# Edits of one record

Where no two records have a key, the place of a key is that of the one record which has it. So an
update or a delete of a record that is there goes to this record and no other, and an update leaves
in its place what `Record.Patched` says (`Writes.of_update`, `Writes.of_delete`).
-/

namespace RecordApi

/-- What is left of a record once it was given some values: a column that was given holds what its
type makes of the value, a version column holds the next version, and all else is as it was. -/
structure Record.Patched (m : Model) (r attributes r' : Record) : Prop where
  given : ∀ name c v, m.versionColumn ≠ some name → m.column? name = some c →
    attributes.get? name = some v → ∃ w, v.coerce c.type = .ok w ∧ r'.get? name = some w
  version : ∀ name, m.versionColumn = some name → r'.get? name = some (r.get name).nextVersion
  kept : ∀ name, m.versionColumn ≠ some name →
    m.column? name = none ∨ attributes.get? name = none → r'.get? name = r.get? name

variable {m : Model}

namespace Transaction

theorem get?_withNextVersion (current changes : Record) (name : String) :
    (withNextVersion m current changes).get? name =
      if m.versionColumn = some name then some (current.get name).nextVersion
      else changes.get? name := by
  unfold withNextVersion
  cases m.versionColumn with
  | none => simp
  | some version =>
      dsimp only
      rw [Record.get?_insert]
      by_cases h : name = version
      · subst h
        simp
      · simp [h, Ne.symm h]

end Transaction

theorem Record.patched_merge {r attributes given : Record}
    (h : m.normalize attributes = .ok given) :
    Record.Patched m r attributes (r.merge (Transaction.withNextVersion m r given)) := by
  constructor
  · intro name c v hversion hc hv
    rw [Record.get?_merge, Transaction.get?_withNextVersion, if_neg hversion]
    obtain ⟨w, hcoerce, hout⟩ := Model.exists_of_normalize h hc hv
    exact ⟨w, hcoerce, by rw [hout, Option.some_or]⟩
  · intro name hversion
    rw [Record.get?_merge, Transaction.get?_withNextVersion, if_pos hversion, Option.some_or]
  · intro name hversion habsent
    rw [Record.get?_merge, Transaction.get?_withNextVersion, if_neg hversion]
    cases Model.normalizedAt h name with
    | absent _ hout => rw [hout, Option.none_or]
    | column c v w hc hv =>
        rw [hc, hv] at habsent
        simp at habsent

/-! ## The one record with a key -/

/-- No two records have a key, and none lacks one. -/
structure Model.KeyUnique (m : Model) (rows : List Record) : Prop where
  once : hasClash [m.primaryKey.name] rows = false
  notNull : ∀ r ∈ rows, m.keyOf r ≠ .null

/-- Among records with unique keys, only one has the key of a record that is among them. -/
theorem Model.KeyUnique.filter_eq_singleton {rows : List Record} (h : m.KeyUnique rows)
    {r : Record} (hr : r ∈ rows) (hsame : (m.keyOf r).same (m.keyOf r) = true) :
    rows.filter (fun q => (m.keyOf q).same (m.keyOf r)) = [r] := by
  have hpairs := hasClash_eq_false_iff.1 h.once
  have hclash : ∀ q ∈ rows, (m.keyOf q).same (m.keyOf r) = true →
      clash [m.primaryKey.name] q r = true ∧ clash [m.primaryKey.name] r q = true :=
    fun q hq heq => ⟨clash_key_iff.2 ⟨h.notNull q hq, heq⟩,
      clash_key_iff.2 ⟨h.notNull r hr, by rw [Value.same_comm]; exact heq⟩⟩
  obtain ⟨front, back, rfl⟩ := List.append_of_mem hr
  obtain ⟨-, hback, hfront⟩ := List.pairwise_append.1 hpairs
  have hnone : front.filter (fun q => (m.keyOf q).same (m.keyOf r)) = [] :=
    List.filter_eq_nil_iff.2 fun q hq heq =>
      absurd (hclash q (List.mem_append_left _ hq) heq).1
        (by simp [hfront q hq r List.mem_cons_self])
  have hlast : back.filter (fun q => (m.keyOf q).same (m.keyOf r)) = [] :=
    List.filter_eq_nil_iff.2 fun q hq heq =>
      absurd (hclash q (List.mem_append_right _ (List.mem_cons_of_mem _ hq)) heq).2
        (by simp [(List.pairwise_cons.1 hback).1 q hq])
  rw [List.filter_append, hnone, List.filter_cons, if_pos hsame, hlast, List.nil_append]

/-- Two records with the same key are one record. -/
theorem Model.KeyUnique.eq_of_same {rows : List Record} (h : m.KeyUnique rows) {r q : Record}
    (hr : r ∈ rows) (hq : q ∈ rows) (hsame : (m.keyOf q).same (m.keyOf r) = true) : q = r := by
  have hself : (m.keyOf r).same (m.keyOf r) = true := Value.same_self_of_same _ hsame
  have hmem : q ∈ rows.filter (fun q => (m.keyOf q).same (m.keyOf r)) :=
    List.mem_filter.2 ⟨hq, hsame⟩
  rw [h.filter_eq_singleton hr hself] at hmem
  exact List.mem_singleton.1 hmem

theorem Model.KeyUnique.row_eq {p : Place} {r : Record} {expected : Option Value}
    (h : m.KeyUnique (p.replace p.row)) (hp : p.Named m (m.keyOf r) expected)
    (hr : r ∈ p.replace p.row) : p.row = r :=
  h.eq_of_same hr (List.mem_append_right _ List.mem_cons_self) hp.found

/-- Tables that were checked and hold valid records have unique keys. -/
theorem Tables.keyUnique {t : Tables} (hm : m.WellFormed) (hunique : t.checkUnique m = .ok ())
    (hrows : ∀ r ∈ t.rows m.name, r.Valid m) : m.KeyUnique (t.rows m.name) :=
  ⟨hasClash_of_checkUnique hm hunique .key,
    fun r hr => (hrows r hr).notNull m.primaryKey hm.key_mem hm.key_not_null⟩

/-- After any steps on an empty store, the committed records have unique keys. -/
theorem Sessions.keyUnique_after {d : SchemaDecl} {schema : Schema} (hd : d.resolve = .ok schema)
    (hm : m ∈ schema.models) (supply : Nat → Uuid) (steps : List Step) :
    m.KeyUnique (((empty schema supply).after steps).store.tables.rows m.name) := by
  have hs := SchemaDecl.wellFormed hd
  exact Tables.keyUnique (hs.models m hm) ((checked_after hs steps).unique m hm)
    (keeps_valid hs hm steps).committed

namespace Transaction.Writes

variable {tx : Transaction} {name model : String} {r r' attributes : Record} {op : Operation}
  {rows : List Record}

/-- An update of a record that is there changes it where it stands. -/
theorem of_update (hunique : m.KeyUnique (tx.working.rows m.name))
    (hr : r ∈ tx.working.rows m.name)
    (h : tx.Writes m (.update name model r attributes) (.record r') op rows) :
    ∃ before after, tx.working.rows m.name = before ++ r :: after ∧
      rows = before ++ r' :: after ∧ Record.Patched m r attributes r' := by
  cases h with
  | @update _ _ _ _ given p _ normalized place =>
      obtain ⟨hrows, hp⟩ := placeOf_eq_ok place
      rw [hrows] at hunique hr
      have hrow := hunique.row_eq hp hr
      refine ⟨p.before, p.after, by rw [hrows, ← hrow]; rfl, rfl, ?_⟩
      rw [hrow]
      exact Record.patched_merge normalized

/-- A delete of a record that is there takes it away. -/
theorem of_delete (hunique : m.KeyUnique (tx.working.rows m.name))
    (hr : r ∈ tx.working.rows m.name) {result : StepResult}
    (h : tx.Writes m (.delete name model r) result op rows) :
    ∃ before after, tx.working.rows m.name = before ++ r :: after ∧ rows = before ++ after := by
  cases h with
  | @delete _ _ _ p _ place =>
      obtain ⟨hrows, hp⟩ := placeOf_eq_ok place
      rw [hrows] at hunique hr
      exact ⟨p.before, p.after, by rw [hrows, ← hunique.row_eq hp hr]; rfl, rfl⟩

end Transaction.Writes

end RecordApi
