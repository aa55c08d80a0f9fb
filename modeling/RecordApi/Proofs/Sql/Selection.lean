import RecordApi.Proofs.Query.Guarded
import RecordApi.Proofs.Schema.Resolved
import RecordApi.Proofs.Sql.Compiled
import RecordApi.Proofs.Sql.Truth

/-!
# Records that both kinds of store select

A predicate is decided for a record by `Predicate.holds`; a database reads the condition that
`Condition.ofPredicate` makes of the predicate. The condition of a guarded predicate is true or
false of a row, as the predicate holds of the record (`truth_of_guarded`), and the condition of a
settled predicate is true where the predicate holds (`reads_of_settled`). So both select the same
records for every settled predicate, and for any other those of the guarded predicate
(`selects_same`).
-/

namespace RecordApi

namespace Sql

/-! ## Conditions of predicates -/

variable {schema : Schema} {m : Model}

namespace Condition

mutual

/-- A predicate over a model of a resolved schema has a condition. -/
theorem exists_ofPredicate {d : SchemaDecl} (hd : d.resolve = .ok schema) :
    ∀ (p : Predicate) {m : Model}, m ∈ schema.models → p.Over schema m → ∀ (source : Alias)
      (used : Nat), ∃ c n, ofPredicate schema m source used p = .ok (c, n)
  | .eq _ _, _, _, ⟨_, hc, _⟩, _, _ | .isNull _, _, _, ⟨_, hc, _⟩, _, _
  | .notNull _, _, _, ⟨_, hc, _⟩, _, _ | .compare _ _ _, _, _, ⟨_, hc, _⟩, _, _
  | .isIn _ _, _, _, ⟨_, hc, _⟩, _, _ =>
      ⟨_, _, bind_eq_ok_iff.2 ⟨_, columnOf_eq_ok_iff.2 hc, rfl⟩⟩
  | .like _ _ _, _, _, h, _, _ => h.elim
  | .all ps, _, hm, h, source, used | .any ps, _, hm, h, source, used => by
      obtain ⟨cs, n, hcs⟩ := exists_ofPredicates hd ps hm h source used
      exact ⟨_, _, bind_eq_ok_iff.2 ⟨_, hcs, rfl⟩⟩
  | .not p, _, hm, h, source, used => by
      obtain ⟨c, n, hc⟩ := exists_ofPredicate hd p hm h source used
      exact ⟨_, _, bind_eq_ok_iff.2 ⟨_, hc, rfl⟩⟩
  | .linked name p, _, hm, ⟨link, hlink, _, hover⟩, source, used => by
      obtain ⟨target, ht⟩ := SchemaDecl.exists_target hd hm hlink
      obtain ⟨c, n, hc⟩ := exists_ofPredicate hd p (Schema.mem_of_model? ht) (hover target ht)
        (.sub (used + 1)) (used + 1)
      exact ⟨_, _, bind_eq_ok_iff.2 ⟨_, relationshipOf_eq_ok_iff.2 ⟨hlink, ht⟩,
        bind_eq_ok_iff.2 ⟨_, hc, rfl⟩⟩⟩

theorem exists_ofPredicates {d : SchemaDecl} (hd : d.resolve = .ok schema) :
    ∀ (ps : List Predicate) {m : Model}, m ∈ schema.models → Predicate.OverAll schema m ps →
      ∀ (source : Alias) (used : Nat), ∃ cs n,
        ofPredicates schema m source used ps = .ok (cs, n)
  | [], _, _, _, _, _ => ⟨_, _, rfl⟩
  | p :: rest, _, hm, ⟨hp, hrest⟩, source, used => by
      obtain ⟨c, k, hc⟩ := exists_ofPredicate hd p hm hp source used
      obtain ⟨cs, n, hcs⟩ := exists_ofPredicates hd rest hm hrest source k
      exact ⟨_, _, bind_eq_ok_iff.2 ⟨_, hc, bind_eq_ok_iff.2 ⟨_, hcs, rfl⟩⟩⟩

end

end Condition

end Sql

/-! ## Relationships and joins -/

/-- What is behind a relationship of a record is what a join with its target finds. -/
theorem Tables.mem_links_iff {schema : Schema} {m target : Model} {t : Tables} {name : String}
    {link : Relationship} (hlink : m.relationship? name = some link)
    (htarget : schema.model? link.target = some target) {r other : Record} :
    other ∈ t.links m name r ↔ other ∈ t.rows target.name ∧ r.get link.localColumn ≠ .null ∧
      (other.get link.remoteColumn).same (r.get link.localColumn) = true := by
  unfold links
  rw [hlink, Schema.name_of_model? htarget]
  dsimp only
  split
  · next hnull =>
    rw [Value.isNull_eq_true_iff] at hnull
    simp [hnull]
  · next hnull =>
    rw [Value.isNull_eq_true_iff] at hnull
    simp [hnull]

theorem Tables.Typed.of_mem_links {schema : Schema} {m target : Model} {t : Tables}
    (h : t.Typed schema) {name : String} {link : Relationship}
    (hlink : m.relationship? name = some link)
    (htarget : schema.model? link.target = some target) {r other : Record}
    (hother : other ∈ t.links m name r) : other.Typed target :=
  h target (Schema.mem_of_model? htarget) other ((mem_links_iff hlink htarget).1 hother).1

namespace Sql

section

variable {schema : Schema} {m target : Model} {db : Database} {scope : Scope} {source : Alias}
  {used n : Nat} {c : Condition} {name : String} {link : Relationship}

/-- A subquery has a row if the condition in it is true of a record behind the relationship. -/
theorem any_join_eq (hlink : m.relationship? name = some link)
    (htarget : schema.model? link.target = some target) (hlocal : m.Compares link.localColumn [])
    {r : Record} (hr : r.Typed m) {decide : Record → Bool} {truth : Record → Truth}
    (h : ∀ other ∈ db.tables.links m name r, truth other = some true ↔ decide other = true) :
    ((db.tables.rows target.name).any fun other =>
        (equality (other.get link.remoteColumn) (r.get link.localColumn)).both (truth other) ==
          some true) =
      (db.tables.links m name r).any decide := by
  obtain ⟨column, hcolumn, hordered, -⟩ := hlocal
  have hfits := hr _ _ hcolumn
  rw [Bool.eq_iff_iff, List.any_eq_true, List.any_eq_true]
  constructor
  · rintro ⟨other, hother, hboth⟩
    obtain ⟨hequal, htruth⟩ := Truth.both_eq_true_iff.1 (beq_iff_eq.1 hboth)
    have hmem : other ∈ db.tables.links m name r :=
      (Tables.mem_links_iff hlink htarget).2
        ⟨hother, (equality_eq_true_iff hordered hfits).1 hequal⟩
    exact ⟨other, hmem, (h other hmem).1 htruth⟩
  · rintro ⟨other, hmem, hdecide⟩
    obtain ⟨hother, hsame⟩ := (Tables.mem_links_iff hlink htarget).1 hmem
    refine ⟨other, hother, beq_iff_eq.2 (Truth.both_eq_true_iff.2 ?_)⟩
    exact ⟨(equality_eq_true_iff hordered hfits).2 hsame, (h other hmem).2 hdecide⟩

theorem Scope.bind_self (scope : Scope) (source : Alias) (r : Record) :
    scope.bind source r source = r :=
  if_pos rfl

theorem Scope.bind_of_ne (scope : Scope) {source other : Alias} (r : Record) (h : other ≠ source) :
    scope.bind source r other = scope other :=
  if_neg h

namespace Condition

/-- `EXISTS` is true or false: as something decides of the records behind the relationship, if that
is what the condition on them says. -/
theorem truth_of_linked (hsource : source.Below used) (hr : (scope source).Typed m)
    (hlink : m.relationship? name = some link) (hlocal : m.Compares link.localColumn [])
    {p : Predicate} {decide : Record → Bool}
    (h : ofPredicate schema m source used (.linked name p) = .ok (c, n))
    (hdecide : ∀ target condition k, schema.model? link.target = some target →
      ofPredicate schema target (.sub (used + 1)) (used + 1) p = .ok (condition, k) →
        ∀ other ∈ db.tables.links m name (scope source),
          condition.truth db (scope.bind (.sub (used + 1)) other) = some true ↔
            decide other = true) :
    c.truth db scope = some ((db.tables.links m name (scope source)).any decide) := by
  obtain ⟨⟨link', target⟩, hjoin, h⟩ := bind_eq_ok_iff.1 h
  obtain ⟨⟨condition, k⟩, hc, h⟩ := bind_eq_ok_iff.1 h
  cases h
  obtain ⟨hlink', htarget⟩ := relationshipOf_eq_ok_iff.1 hjoin
  obtain rfl := Option.some.inj (hlink.symm.trans hlink')
  simp only [truth, Join.truth, Scope.bind_self, Scope.bind_of_ne _ _ hsource.ne_next]
  exact congrArg some (any_join_eq hlink htarget hlocal hr (hdecide target _ _ htarget hc))

end Condition

end

namespace Condition

variable {schema : Schema} {m : Model} {db : Database} {scope : Scope} {source : Alias}
  {used n : Nat} {c : Condition} {name : String} {value : Value} {values : List Value}
  {comparison : Comparison}

/-! ## Comparisons -/

theorem value_of_column? {column : Column} (h : m.column? name = some column) :
    ColumnRef.value ⟨source, column⟩ scope = (scope source).get name := by
  unfold ColumnRef.value
  rw [Model.name_of_column? h]

/-- The column that a predicate names, and what its condition says of a value there. -/
def said? : Predicate → Option (String × (Value → Truth))
  | .eq name value =>
    some (name, fun x => if value.isNull then some x.isNull else equality x value)
  | .compare name comparison value => some (name, fun x => inOrder comparison x value)
  | .isIn name values => some (name, fun x => Truth.any (values.map (equality x)))
  | .isNull name => some (name, fun x => some x.isNull)
  | .notNull name => some (name, fun x => some (!x.isNull))
  | _ => none

/-- The condition on one column says of a row what it says of the value there. -/
theorem truth_of_column {p : Predicate} {f : Value → Truth}
    (h : ofPredicate schema m source used p = .ok (c, n)) (hsaid : said? p = some (name, f)) :
    c.truth db scope = f ((scope source).get name) := by
  cases p with
  | like | all | any | not | linked => cases hsaid
  | eq name value =>
      cases hsaid
      obtain ⟨column, hcolumn, h⟩ := bind_eq_ok_iff.1 h
      have hvalue : ColumnRef.value ⟨source, column⟩ scope = (scope source).get name :=
        value_of_column? (columnOf_eq_ok_iff.1 hcolumn)
      cases h
      split <;> rw [truth, hvalue]
  | compare | isIn | isNull | notNull =>
      cases hsaid
      obtain ⟨column, hcolumn, h⟩ := bind_eq_ok_iff.1 h
      cases h
      rw [truth, value_of_column? (columnOf_eq_ok_iff.1 hcolumn)]

/-- Of a value that is not null it is known whether it is one of some values that are not. -/
theorem any_equality_of_ne_null {type : ColumnType} (ht : type.Ordered) {x : Value}
    (hx : x.Fits type) (hn : x ≠ .null) (hvalues : ∀ v ∈ values, v.Fits type) :
    Truth.any ((values.filter fun v => !v.isNull).map (equality x)) = some (values.any x.same) := by
  induction values with
  | nil => rfl
  | cons v rest ih =>
      obtain ⟨hv, hrest⟩ := List.forall_mem_cons.1 hvalues
      rw [List.filter_cons, List.any_cons]
      by_cases hnull : v = .null
      · subst hnull
        rw [Value.same_null hn, Bool.false_or]
        exact ih hrest
      · rw [Value.isNull_eq_false_iff.2 hnull]
        change Truth.either (equality x v)
          (Truth.any ((rest.filter fun v => !v.isNull).map (equality x))) = _
        rw [ih hrest, equality_of_ne_null ht hx hv hn hnull, Truth.either_some]

/-! ## Guarded predicates -/

/-- A condition behind one that asks for a value is read only where there is one. -/
theorem truth_of_notNull_and {p : Predicate}
    (h : ofPredicate schema m source used (.all [.notNull name, p]) = .ok (c, n)) :
    ∃ rest, ofPredicate schema m source used p = .ok (rest, n) ∧
      c.truth db scope =
        if ((scope source).get name).isNull then some false else rest.truth db scope := by
  obtain ⟨⟨cs, k⟩, hcs, h⟩ := bind_eq_ok_iff.1 h
  cases h
  obtain ⟨⟨first, k⟩, hfirst, hcs⟩ := bind_eq_ok_iff.1 hcs
  have htruth : first.truth db scope = some (!((scope source).get name).isNull) :=
    truth_of_column hfirst rfl
  obtain ⟨column, -, hfirst⟩ := bind_eq_ok_iff.1 hfirst
  cases hfirst
  obtain ⟨⟨cs, k⟩, hrest, hcs⟩ := bind_eq_ok_iff.1 hcs
  cases hcs
  obtain ⟨⟨rest, k⟩, hp, hrest⟩ := bind_eq_ok_iff.1 hrest
  cases hrest
  refine ⟨rest, hp, ?_⟩
  change Truth.both (truth db scope _) (Truth.both (rest.truth db scope) (some true)) = _
  rw [htruth]
  cases ((scope source).get name).isNull with
  | true => rfl
  | false => cases rest.truth db scope with
    | none => rfl
    | some b => cases b <;> rfl

theorem truth_of_guarded_eq {links : Links} {inside : Bool} (hp : m.Compares name [value])
    (hr : (scope source).Typed m)
    (h : ofPredicate schema m source used ((Predicate.eq name value).guarded inside) =
      .ok (c, n)) :
    c.truth db scope = some ((Predicate.eq name value).holds links (scope source)) := by
  obtain ⟨column, hcolumn, hordered, hvalue⟩ := hp
  unfold Predicate.guarded at h
  unfold Predicate.holds
  split at h
  · next hnull => rw [truth_of_column h rfl, if_pos hnull, if_pos hnull]
  · next hnull =>
    obtain ⟨rest, hrest, htruth⟩ := truth_of_notNull_and h
    rw [htruth, truth_of_column hrest rfl, if_neg hnull, if_neg hnull]
    rw [Value.isNull_eq_true_iff] at hnull
    split
    · next hx =>
      rw [Value.isNull_eq_true_iff] at hx
      rw [hx, Value.null_same hnull]
    · next hx =>
      rw [Value.isNull_eq_true_iff] at hx
      exact equality_of_ne_null hordered (hr _ _ hcolumn) (hvalue value List.mem_cons_self) hx hnull

theorem truth_of_guarded_compare {links : Links} {inside : Bool} (hp : m.Compares name [value])
    (hr : (scope source).Typed m)
    (h : ofPredicate schema m source used ((Predicate.compare name comparison value).guarded inside)
      = .ok (c, n)) :
    c.truth db scope =
      some ((Predicate.compare name comparison value).holds links (scope source)) := by
  obtain ⟨column, hcolumn, hordered, hvalue⟩ := hp
  unfold Predicate.guarded at h
  unfold Predicate.holds
  split at h
  · next hnull =>
    cases h
    rw [hnull, Bool.not_true, Bool.and_false, Bool.false_and]
    rfl
  · next hnull =>
    obtain ⟨rest, hrest, htruth⟩ := truth_of_notNull_and h
    rw [htruth, truth_of_column hrest rfl]
    rw [Value.isNull_eq_true_iff] at hnull
    split
    · next hx =>
      rw [hx]
      rfl
    · next hx =>
      rw [Value.isNull_eq_true_iff] at hx
      rw [inOrder_of_ne_null hordered (hr _ _ hcolumn) (hvalue value List.mem_cons_self) hx hnull,
        Value.isNull_eq_false_iff.2 hx, Value.isNull_eq_false_iff.2 hnull]
      rfl

theorem truth_of_guarded_isIn {links : Links} {inside : Bool} (hp : m.Compares name values)
    (hr : (scope source).Typed m)
    (h : ofPredicate schema m source used ((Predicate.isIn name values).guarded inside) =
      .ok (c, n)) :
    c.truth db scope = some ((Predicate.isIn name values).holds links (scope source)) := by
  obtain ⟨column, hcolumn, hordered, hvalues⟩ := hp
  unfold Predicate.holds
  obtain ⟨rest, hrest, htruth⟩ := truth_of_notNull_and h
  rw [htruth, truth_of_column hrest rfl]
  split
  · next hx =>
    rw [hx]
    rfl
  · next hx =>
    rw [Value.isNull_eq_true_iff] at hx
    rw [any_equality_of_ne_null hordered (hr _ _ hcolumn) hx hvalues,
      Value.isNull_eq_false_iff.2 hx]
    rfl

mutual

/-- The condition of a guarded predicate is true or false of a row, as the predicate holds. -/
theorem truth_of_guarded (htyped : db.tables.Typed schema) (inside : Bool) :
    ∀ (p : Predicate) {m : Model}, p.Over schema m →
      ∀ {source : Alias} {used : Nat} {scope : Scope}, source.Below used →
        (scope source).Typed m → ∀ {c : Condition} {n : Nat},
          ofPredicate schema m source used (p.guarded inside) = .ok (c, n) →
            c.truth db scope =
              some (p.holds (if inside then Links.none else db.tables.links m) (scope source))
  | .eq _ _, _, hp, _, _, _, _, hr, _, _, h => truth_of_guarded_eq hp hr h
  | .compare _ _ _, _, hp, _, _, _, _, hr, _, _, h => truth_of_guarded_compare hp hr h
  | .isIn _ _, _, hp, _, _, _, _, hr, _, _, h => truth_of_guarded_isIn hp hr h
  | .isNull _, _, _, _, _, _, _, _, _, _, h => truth_of_column h rfl
  | .notNull _, _, _, _, _, _, _, _, _, _, h => truth_of_column h rfl
  | .like _ _ _, _, hp, _, _, _, _, _, _, _, _ => hp.elim
  | .all ps, _, hp, _, _, _, hsource, hr, _, _, h => by
      obtain ⟨⟨cs, n⟩, hps, h⟩ := bind_eq_ok_iff.1 h
      cases h
      exact (truths_of_guarded htyped inside ps hp hsource hr hps).1
  | .any ps, _, hp, _, _, _, hsource, hr, _, _, h => by
      obtain ⟨⟨cs, n⟩, hps, h⟩ := bind_eq_ok_iff.1 h
      cases h
      exact (truths_of_guarded htyped inside ps hp hsource hr hps).2
  | .not p, _, hp, _, _, _, hsource, hr, _, _, h => by
      obtain ⟨⟨c, n⟩, hc, h⟩ := bind_eq_ok_iff.1 h
      cases h
      rw [truth, truth_of_guarded htyped inside p hp hsource hr hc]
      rfl
  | .linked name p, _, ⟨link, hlink, hlocal, hover⟩, _, _, scope, hsource, hr, _, _, h => by
      unfold Predicate.guarded at h
      unfold Predicate.holds
      cases inside with
      | true =>
          cases h
          rfl
      | false =>
          refine truth_of_linked hsource hr hlink hlocal h ?_
          intro target condition k htarget hc other hother
          have hother := htyped.of_mem_links hlink htarget hother
          rw [← scope.bind_self (.sub _) other] at hother
          rw [truth_of_guarded htyped true p (hover target htarget) (Alias.below_self _) hother hc,
            Scope.bind_self, Option.some.injEq]
          rfl

theorem truths_of_guarded (htyped : db.tables.Typed schema) (inside : Bool) :
    ∀ (ps : List Predicate) {m : Model}, Predicate.OverAll schema m ps →
      ∀ {source : Alias} {used : Nat} {scope : Scope}, source.Below used →
        (scope source).Typed m → ∀ {cs : List Condition} {n : Nat},
          ofPredicates schema m source used (Predicate.guardedAll inside ps) = .ok (cs, n) →
            Truth.all (truths db scope cs) = some (Predicate.holdAll
              (if inside then Links.none else db.tables.links m) (scope source) ps) ∧
            Truth.any (truths db scope cs) = some (Predicate.holdAny
              (if inside then Links.none else db.tables.links m) (scope source) ps)
  | [], _, _, _, _, _, _, _, _, _, h => by
      cases h
      exact ⟨rfl, rfl⟩
  | p :: rest, _, hp, _, _, _, hsource, hr, _, _, h => by
      obtain ⟨⟨c, k⟩, hc, h⟩ := bind_eq_ok_iff.1 h
      obtain ⟨⟨cs, n⟩, hcs, h⟩ := bind_eq_ok_iff.1 h
      cases h
      have hfirst := truth_of_guarded htyped inside p hp.1 hsource hr hc
      have hle := le_of_ofPredicate _ _ _ _ hc
      obtain ⟨hall, hany⟩ := truths_of_guarded htyped inside rest hp.2 (hsource.mono hle) hr hcs
      change (truth db _ c).both (Truth.all (truths db _ cs)) = _ ∧
        (truth db _ c).either (Truth.any (truths db _ cs)) = _
      rw [hfirst, hall, hany, Truth.both_some, Truth.either_some]
      exact ⟨rfl, rfl⟩

end

/-! ## Settled predicates -/

section

variable {links : Links} {inside negated : Bool}

/-- A condition is true where a predicate holds, and it is true or false where the predicate is
negated. -/
structure Reads (db : Database) (scope : Scope) (negated : Bool) (c : Condition) (holds : Bool) :
    Prop where
  keeps : c.truth db scope = some true ↔ holds = true
  known : negated = true → c.truth db scope ≠ none

theorem reads_of_eq (hp : m.Compares name [value]) (hr : (scope source).Typed m)
    (hsettled : (Predicate.eq name value).Settled links inside negated (scope source))
    (h : ofPredicate schema m source used (.eq name value) = .ok (c, n)) :
    c.Reads db scope negated ((Predicate.eq name value).holds links (scope source)) := by
  obtain ⟨column, hcolumn, hordered, hvalue⟩ := hp
  have hx := hr _ _ hcolumn
  have hvalue := hvalue value List.mem_cons_self
  have htruth : c.truth db scope = _ := truth_of_column h rfl
  unfold Predicate.holds
  split at htruth
  · next hnull =>
    rw [if_pos hnull]
    exact ⟨by rw [htruth, Option.some.injEq], by simp [htruth]⟩
  · next hnull =>
    rw [if_neg hnull]
    rw [Value.isNull_eq_true_iff] at hnull
    constructor
    · rw [htruth, equality_eq_true_iff hordered hvalue]
      exact and_iff_right hnull
    · intro hnegated
      have hne := (hsettled hnegated).resolve_left hnull
      rw [htruth, equality_of_ne_null hordered hx hvalue hne hnull]
      nofun

theorem reads_of_compare (hp : m.Compares name [value]) (hr : (scope source).Typed m)
    (hsettled : (Predicate.compare name comparison value).Settled links inside negated
      (scope source))
    (h : ofPredicate schema m source used (.compare name comparison value) = .ok (c, n)) :
    c.Reads db scope negated
      ((Predicate.compare name comparison value).holds links (scope source)) := by
  obtain ⟨column, hcolumn, hordered, hvalue⟩ := hp
  have hx := hr _ _ hcolumn
  have hvalue := hvalue value List.mem_cons_self
  have htruth : c.truth db scope = _ := truth_of_column h rfl
  unfold Predicate.holds
  constructor
  · rw [htruth]
    by_cases hn : (scope source).get name = .null
    · rw [hn]
      simp [inOrder, order?_null_left]
    · by_cases hv : value = .null
      · rw [hv]
        simp [inOrder, order?_null_right]
      · rw [inOrder_of_ne_null hordered hx hvalue hn hv, Value.isNull_eq_false_iff.2 hn,
          Value.isNull_eq_false_iff.2 hv, Option.some.injEq]
        rfl
  · intro hnegated
    obtain ⟨hv, hn⟩ := hsettled hnegated
    rw [htruth, inOrder_of_ne_null hordered hx hvalue hn hv]
    nofun

theorem reads_of_isIn (hp : m.Compares name values) (hr : (scope source).Typed m)
    (hsettled : (Predicate.isIn name values).Settled links inside negated (scope source))
    (h : ofPredicate schema m source used (.isIn name values) = .ok (c, n)) :
    c.Reads db scope negated ((Predicate.isIn name values).holds links (scope source)) := by
  obtain ⟨column, hcolumn, hordered, hvalues⟩ := hp
  have hx := hr _ _ hcolumn
  have htruth : c.truth db scope = _ := truth_of_column h rfl
  unfold Predicate.holds
  constructor
  · rw [htruth, Truth.any_eq_true_iff, Bool.and_eq_true, Bool.not_eq_true', List.mem_map,
      List.any_eq_true, Value.isNull_eq_false_iff]
    constructor
    · rintro ⟨v, hv, hequal⟩
      obtain ⟨hn, hsame⟩ := (equality_eq_true_iff hordered (hvalues v hv)).1 hequal
      refine ⟨fun hnull => ?_, v, hv, hsame⟩
      rw [hnull, Value.null_same hn] at hsame
      cases hsame
    · rintro ⟨hnull, v, hv, hsame⟩
      refine ⟨v, hv, (equality_eq_true_iff hordered (hvalues v hv)).2 ⟨?_, hsame⟩⟩
      rintro rfl
      rw [Value.same_null hnull] at hsame
      cases hsame
  · intro hnegated
    rw [htruth]
    rcases hsettled hnegated with rfl | ⟨hnull, hnone⟩
    · nofun
    · refine Truth.any_ne_none fun a ha => ?_
      obtain ⟨v, hv, rfl⟩ := List.mem_map.1 ha
      rw [equality_of_ne_null hordered hx (hvalues v hv) hnull (hnone v hv)]
      nofun

theorem reads_of_eq_some {holds : Bool} (h : c.truth db scope = some holds) :
    c.Reads db scope negated holds :=
  ⟨by rw [h, Option.some.injEq], fun _ => by rw [h]; nofun⟩

end

mutual

/-- The condition of a settled predicate is true of a row where the predicate holds. -/
theorem reads_of_settled (htyped : db.tables.Typed schema) {links : Links} (inside : Bool) :
    ∀ (p : Predicate) (negated : Bool) {m : Model}, p.Over schema m →
      (inside = false → links = db.tables.links m) →
        ∀ {source : Alias} {used : Nat} {scope : Scope}, source.Below used →
          (scope source).Typed m → p.Settled links inside negated (scope source) →
            ∀ {c : Condition} {n : Nat}, ofPredicate schema m source used p = .ok (c, n) →
              c.Reads db scope negated (p.holds links (scope source))
  | .eq _ _, _, _, hp, _, _, _, _, _, hr, hsettled, _, _, h => reads_of_eq hp hr hsettled h
  | .compare _ _ _, _, _, hp, _, _, _, _, _, hr, hsettled, _, _, h =>
      reads_of_compare hp hr hsettled h
  | .isIn _ _, _, _, hp, _, _, _, _, _, hr, hsettled, _, _, h => reads_of_isIn hp hr hsettled h
  | .isNull _, _, _, _, _, _, _, _, _, _, _, _, _, h => reads_of_eq_some (truth_of_column h rfl)
  | .notNull _, _, _, _, _, _, _, _, _, _, _, _, _, h => reads_of_eq_some (truth_of_column h rfl)
  | .like _ _ _, _, _, hp, _, _, _, _, _, _, _, _, _, _ => hp.elim
  | .all ps, negated, _, hp, hlinks, _, _, _, hsource, hr, hsettled, _, _, h => by
      obtain ⟨⟨cs, n⟩, hps, h⟩ := bind_eq_ok_iff.1 h
      cases h
      exact (reads_of_settledAll htyped inside ps negated hp hlinks hsource hr hsettled hps).1
  | .any ps, negated, _, hp, hlinks, _, _, _, hsource, hr, hsettled, _, _, h => by
      obtain ⟨⟨cs, n⟩, hps, h⟩ := bind_eq_ok_iff.1 h
      cases h
      exact (reads_of_settledAll htyped inside ps negated hp hlinks hsource hr hsettled hps).2
  | .not p, _, _, hp, hlinks, _, _, _, hsource, hr, hsettled, _, _, h => by
      obtain ⟨⟨c, n⟩, hc, h⟩ := bind_eq_ok_iff.1 h
      cases h
      obtain ⟨hkeeps, hknown⟩ :=
        reads_of_settled htyped inside p true hp hlinks hsource hr hsettled hc
      constructor
      · rw [truth, Truth.opposite_eq_true_iff (hknown rfl), ne_eq, hkeeps, Predicate.holds,
          Bool.not_eq_true, Bool.not_eq_true']
      · intro _
        rw [truth]
        exact Truth.opposite_ne_none (hknown rfl)
  | .linked name p, _, _, ⟨link, hlink, hlocal, hover⟩, hlinks, _, _, scope, hsource, hr,
      ⟨hinside, hsettled⟩, _, _, h => by
      obtain rfl := hlinks hinside
      refine reads_of_eq_some (truth_of_linked hsource hr hlink hlocal h ?_)
      intro target condition k htarget hc other hmem
      have hother := htyped.of_mem_links hlink htarget hmem
      have hsettled := hsettled other hmem
      rw [← scope.bind_self (.sub _) other] at hother hsettled
      have hreads := reads_of_settled htyped true p false (hover target htarget) nofun
        (Alias.below_self _) hother hsettled hc
      rw [hreads.keeps, Scope.bind_self]

theorem reads_of_settledAll (htyped : db.tables.Typed schema) {links : Links} (inside : Bool) :
    ∀ (ps : List Predicate) (negated : Bool) {m : Model}, Predicate.OverAll schema m ps →
      (inside = false → links = db.tables.links m) →
        ∀ {source : Alias} {used : Nat} {scope : Scope}, source.Below used →
          (scope source).Typed m → Predicate.SettledAll links inside negated (scope source) ps →
            ∀ {cs : List Condition} {n : Nat},
              ofPredicates schema m source used ps = .ok (cs, n) →
                (Condition.all cs).Reads db scope negated
                    (Predicate.holdAll links (scope source) ps) ∧
                  (Condition.any cs).Reads db scope negated
                    (Predicate.holdAny links (scope source) ps)
  | [], _, _, _, _, _, _, _, _, _, _, _, _, h => by
      cases h
      exact ⟨reads_of_eq_some rfl, reads_of_eq_some rfl⟩
  | p :: rest, negated, _, hp, hlinks, _, _, scope, hsource, hr, hsettled, _, _, h => by
      obtain ⟨⟨c, k⟩, hc, h⟩ := bind_eq_ok_iff.1 h
      obtain ⟨⟨cs, n⟩, hcs, h⟩ := bind_eq_ok_iff.1 h
      cases h
      obtain ⟨hkeeps, hknown⟩ :=
        reads_of_settled htyped inside p negated hp.1 hlinks hsource hr hsettled.1 hc
      have hle := le_of_ofPredicate _ _ _ _ hc
      obtain ⟨hall, hany⟩ := reads_of_settledAll htyped inside rest negated hp.2 hlinks
        (hsource.mono hle) hr hsettled.2 hcs
      have hboth : (Condition.all (c :: cs)).truth db scope =
          (c.truth db scope).both ((Condition.all cs).truth db scope) := rfl
      have heither : (Condition.any (c :: cs)).truth db scope =
          (c.truth db scope).either ((Condition.any cs).truth db scope) := rfl
      refine ⟨⟨?_, fun hn => ?_⟩, ⟨?_, fun hn => ?_⟩⟩
      · rw [hboth, Truth.both_eq_true_iff, hkeeps, hall.keeps, Predicate.holdAll, Bool.and_eq_true]
      · rw [hboth]
        exact Truth.both_ne_none (hknown hn) (hall.known hn)
      · rw [heither, Truth.either_eq_true_iff, hkeeps, hany.keeps, Predicate.holdAny,
          Bool.or_eq_true]
      · rw [heither]
        exact Truth.either_ne_none (hknown hn) (hany.known hn)

end

/-- A predicate over a model of a resolved schema has a condition, and so has the guarded predicate.
The guarded one keeps the records for which the predicate holds, whatever the predicate. The
condition of the predicate itself keeps the same records where the predicate is settled. -/
theorem selects_same {d : SchemaDecl} (hd : d.resolve = .ok schema) {m : Model}
    (hm : m ∈ schema.models) (htyped : db.tables.Typed schema) {p : Predicate}
    (hp : p.Over schema m) (used : Nat) {r : Record} (hr : r ∈ db.tables.rows m.name) :
    ∃ c n g k, ofPredicate schema m .main used p = .ok (c, n) ∧
      ofPredicate schema m .main used (p.guarded false) = .ok (g, k) ∧
      (p.holds (db.tables.links m) r = true ↔ g.Keeps db r) ∧
      (p.Settled (db.tables.links m) false false r →
        (p.holds (db.tables.links m) r = true ↔ c.Keeps db r)) := by
  have hr : Record.Typed m ((fun _ => r : Scope) .main) := htyped m hm r hr
  have hmain : Alias.main.Below used := trivial
  obtain ⟨c, n, hc⟩ := exists_ofPredicate hd p hm hp .main used
  obtain ⟨g, k, hg⟩ :=
    exists_ofPredicate hd (p.guarded false) hm (Predicate.over_guarded false p hp) .main used
  refine ⟨c, n, g, k, hc, hg, ?_, fun hsettled => ?_⟩
  · unfold Keeps
    rw [truth_of_guarded htyped false p hp hmain hr hg, Option.some.injEq]
    rfl
  · have hreads : c.Reads db (fun _ => r) false (p.holds (db.tables.links m) r) :=
      reads_of_settled htyped false p false hp (fun _ => rfl) hmain hr hsettled hc
    exact hreads.keeps.symm

end Condition

end Sql

/-! ## Employees -/

/-- An employee whose boss has a boss. -/
def Record.third : Record := .ofList [("id", .int 3), ("boss_id", .int 2)]

/-- Three employees, each the boss of the next one. -/
def Tables.employees : Tables :=
  [("employee", [.ofList [("id", .int 1)], .ofList [("id", .int 2), ("boss_id", .int 1)], .third])]

theorem Record.fits_of_entries {r : Record} {type : ColumnType}
    (h : ∀ e ∈ r.entries, e.2.Fits type) (name : String) : (r.get name).Fits type := by
  unfold get
  cases hv : r.get? name with
  | none => exact .inl rfl
  | some v => exact h _ (Keyed.mem_of_get?_eq_some hv)

theorem Tables.typed_employees : Tables.employees.Typed .employees := by
  intro m hm r hr name c hc
  have hwf := (SchemaDecl.wellFormed SchemaDecl.resolve_employees).models m hm
  obtain rfl := List.mem_singleton.1 hm
  have hinteger : ∀ c ∈ Model.employee.columns, c.type = .integer := by decide
  rw [hinteger c ((Model.column?_eq_some_iff hwf.names).1 hc).1]
  refine Record.fits_of_entries (fun e he => ?_) name
  change r ∈ [_, _, _] at hr
  simp only [List.mem_cons, List.not_mem_nil, or_false] at hr
  rcases hr with rfl | rfl | rfl
  · obtain rfl : e = ("id", .int 1) := List.mem_singleton.1 he
    exact .inr rfl
  · change e ∈ [("boss_id", .int 1), ("id", .int 2)] at he
    simp only [List.mem_cons, List.not_mem_nil, or_false] at he
    rcases he with rfl | rfl <;> exact .inr rfl
  · change e ∈ [("boss_id", .int 2), ("id", .int 3)] at he
    simp only [List.mem_cons, List.not_mem_nil, or_false] at he
    rcases he with rfl | rfl <;> exact .inr rfl

/-- Someone whose boss has a boss. -/
def Predicate.bossHasBoss : Predicate :=
  .linked "boss" (.linked "boss" (.notNull "id"))

theorem Predicate.over_bossHasBoss : Predicate.bossHasBoss.Over .employees .employee := by
  have hlocal : Model.employee.Compares "boss_id" [] := ⟨_, rfl, trivial, fun _ h => by cases h⟩
  refine ⟨_, rfl, hlocal, fun target htarget => ?_⟩
  obtain rfl := Option.some.inj htarget
  refine ⟨_, rfl, hlocal, fun target htarget => ?_⟩
  obtain rfl := Option.some.inj htarget
  exact ⟨_, rfl, trivial, fun _ h => by cases h⟩

namespace Sql

/-- A database of the employees. -/
def Database.employees : Database :=
  ⟨.employees, fun _ _ _ => none⟩

/-- The boss of the third employee has a boss, which only the condition of the predicate sees. -/
theorem Condition.selects_same_bossHasBoss : ∃ c n g k,
    ofPredicate .employees .employee .main 0 .bossHasBoss = .ok (c, n) ∧ c.Keeps .employees .third ∧
      ofPredicate .employees .employee .main 0 (Predicate.bossHasBoss.guarded false) =
          .ok (g, k) ∧
        ¬g.Keeps .employees .third := by
  have hthird : Record.third ∈ Database.employees.tables.rows Model.employee.name :=
    List.mem_cons_of_mem _ (List.mem_cons_of_mem _ List.mem_cons_self)
  obtain ⟨c, n, g, k, hc, hg, hguarded, -⟩ := selects_same SchemaDecl.resolve_employees
    (List.mem_singleton.2 rfl) Tables.typed_employees Predicate.over_bossHasBoss 0 hthird
  refine ⟨c, n, g, k, hc, ?_, hg, fun hkeeps => ?_⟩
  · obtain ⟨rfl, rfl⟩ := Prod.mk.inj (Except.ok.inj hc)
    rfl
  · exact absurd (hguarded.2 hkeeps) (by decide)

end Sql

end RecordApi
