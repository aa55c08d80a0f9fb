import RecordApi.Proofs.Sql.Readable

/-!
# What the text of a condition says

The condition that is read from the text of a query says the predicates that the query was made
from: it has their tree, its markers stand for their values, and each of its subqueries is about
the target of its relationship, with the rows of the query around it. The proof follows a predicate
through the draft that writes it (`Condition.speaks_ofPredicate`), which says what is read, which
values the markers stand for wherever the numbers begin, and which aliases the subqueries take.
-/

namespace RecordApi.Sql

/-- The value that is bound to a marker. -/
def bound? (params : List Bound) : Nat → Option Bound
  | 0 => none
  | n + 1 => params[n]?

mutual

/-- What is read says a predicate on the records of a model under an alias: it has the tree of the
predicate, and its markers stand for the values. All of no conditions is true, any of none is false,
and so is a value in none. -/
def Says (schema : Schema) (params : List Bound) : Predicate → Model → String → Reading → Prop
  | .eq column value, m, source, r => ∃ c, m.column? column = some c ∧
      if value.isNull then r = .isNull ⟨source, column⟩
      else ∃ n, r = .equal ⟨source, column⟩ n ∧ bound? params n = some (.ofValue c.type value)
  | .isNull column, m, source, r => ∃ c, m.column? column = some c ∧ r = .isNull ⟨source, column⟩
  | .notNull column, m, source, r => ∃ c, m.column? column = some c ∧ r = .notNull ⟨source, column⟩
  | .like column pattern ignoresCase, m, source, r => ∃ c, m.column? column = some c ∧
      ∃ n, r = .like ⟨source, column⟩ n ignoresCase ∧ bound? params n = some (.text pattern)
  | .compare column comparison value, m, source, r => ∃ c, m.column? column = some c ∧
      ∃ n, r = .compare ⟨source, column⟩ comparison n ∧
        bound? params n = some (.ofValue c.type value)
  | .isIn column values, m, source, r => ∃ c, m.column? column = some c ∧
      if values.isEmpty then r = .any []
      else ∃ ns, r = .isIn ⟨source, column⟩ ns ∧
        ns.map (bound? params) = values.map fun v => some (.ofValue c.type v)
  | .all ps, m, source, r => ∃ rs, SaysEach schema params ps m source rs ∧ r = .under .all rs
  | .any ps, m, source, r => ∃ rs, SaysEach schema params ps m source rs ∧ r = .under .any rs
  | .not p, m, source, r => ∃ s, Says schema params p m source s ∧ r = .not s
  | .linked name p, m, source, r => ∃ link target, m.relationship? name = some link ∧
      schema.model? link.target = some target ∧ ∃ inner s, Says schema params p target inner s ∧
        r = .present (tableNames target) inner
          (.all [.same ⟨inner, link.remoteColumn⟩ ⟨source, link.localColumn⟩, s])

/-- What is read says several predicates. -/
def SaysEach (schema : Schema) (params : List Bound) :
    List Predicate → Model → String → List Reading → Prop
  | [], _, _, rs => rs = []
  | p :: ps, m, source, rs => ∃ r rest, rs = r :: rest ∧ Says schema params p m source r ∧
      SaysEach schema params ps m source rest

end

namespace Reading

mutual

/-- The aliases of the subqueries in a condition, from left to right. -/
def aliases : Reading → List String
  | .all rs | .any rs => aliasesEach rs
  | .not r => aliases r
  | .present _ source r => source :: aliases r
  | _ => []

/-- The aliases of the subqueries in several conditions. -/
def aliasesEach : List Reading → List String
  | [] => []
  | r :: rs => aliases r ++ aliasesEach rs

end

/-- Several conditions have their aliases together, whichever connective holds them. -/
theorem aliases_under {connective : List Reading → Reading}
    (h : ∀ rs, (connective rs).aliases = aliasesEach rs) (rs : List Reading) :
    (under connective rs).aliases = aliasesEach rs := by
  match rs with
  | [] | _ :: _ :: _ => exact h _
  | [r] => exact (List.append_nil _).symm

end Reading

/-! ## Values behind their markers -/

section

variable {params values more : List Bound} {start : Nat}

theorem bound?_of_prefix {value : Bound} (h : [value] <+: params.drop start) :
    bound? params (start + 1) = some value := by
  obtain ⟨rest, hrest⟩ := h
  have h : (params.drop start)[0]? = some value := by
    rw [← hrest]
    rfl
  rwa [List.getElem?_drop, Nat.add_zero] at h

theorem prefix_behind (h : values ++ more <+: params.drop start) :
    more <+: params.drop (start + values.length) := by
  obtain ⟨rest, hrest⟩ := h
  rw [← List.drop_drop, ← hrest, List.append_assoc, List.drop_left]
  exact List.prefix_append more rest

/-- Where each of several drafts binds one value, and reads as something with its number, the number
is that of the value wherever the drafts stand. -/
theorem Draft.Yields.each {α β : Type} {f : α → Draft Statement} {g : α → Bound}
    {read : List Part → Option β} {a : α → Nat → β} {xs : List α}
    (h : ∀ x ∈ xs, (f x).Yields fun start values s =>
      values = [g x] ∧ s.ReadsAs read (a x (start + 1))) :
    (xs.mapM f).Yields fun start values parts => parts.length = xs.length ∧
      ∃ bs, List.Forall₂ (fun s b => s.ReadsAs read b) parts bs ∧
        ∀ params, values <+: params.drop start →
          List.Forall₂ (fun x b => ∃ n, b = a x n ∧ bound? params n = some (g x)) xs bs := by
  refine Draft.Yields.mapM (R := fun xs start values parts => parts.length = xs.length ∧
      ∃ bs, List.Forall₂ (fun s b => s.ReadsAs read b) parts bs ∧
        ∀ params, values <+: params.drop start →
          List.Forall₂ (fun x b => ∃ n, b = a x n ∧ bound? params n = some (g x)) xs bs)
    h (fun _ => ⟨rfl, [], .nil, fun _ _ => .nil⟩) ?_
  rintro x rest start _ s more parts ⟨rfl, hs⟩ ⟨hlength, bs, hparts, hbound⟩
  refine ⟨by rw [List.length_cons, List.length_cons, hlength], _, .cons hs hparts,
    fun params hparams => .cons ⟨_, rfl, ?_⟩ (hbound params (prefix_behind hparams))⟩
  exact bound?_of_prefix ((List.prefix_append _ _).trans hparams)

end

/-! ## Aliases of subqueries -/

/-- The aliases of the subqueries that are numbered from one number up to another. -/
def subqueries (used n : Nat) : List String :=
  (List.range' (used + 1) (n - used)).map fun k => (Alias.sub k).word

theorem subqueries_self (used : Nat) : subqueries used used = [] := by
  simp [subqueries]

theorem subqueries_append {used k n : Nat} (hk : used ≤ k) (hn : k ≤ n) :
    subqueries used k ++ subqueries k n = subqueries used n := by
  obtain ⟨a, rfl⟩ := Nat.exists_eq_add_of_le hk
  obtain ⟨b, rfl⟩ := Nat.exists_eq_add_of_le hn
  have hcount : used + a + b - used = a + b := by omega
  unfold subqueries
  rw [← List.map_append, Nat.add_sub_cancel_left, Nat.add_sub_cancel_left, hcount,
    ← List.range'_append_1, Nat.add_right_comm]

theorem subqueries_succ {used n : Nat} (h : used + 1 ≤ n) :
    (Alias.sub (used + 1)).word :: subqueries (used + 1) n = subqueries used n := by
  have hone : subqueries used (used + 1) = [(Alias.sub (used + 1)).word] := by
    simp [subqueries]
  rw [← subqueries_append (Nat.le_succ used) h, hone]
  rfl

theorem Alias.word_injective : Function.Injective Alias.word := by
  intro source other h
  cases source with
  | main =>
      cases other with
      | main => rfl
      | sub number => simp [word, ← String.toList_inj] at h
  | sub number =>
      cases other with
      | main => simp [word, ← String.toList_inj] at h
      | sub other =>
          have hrepr : number.repr = other.repr := (String.append_right_inj "sub").1 h
          have hdigits : Text.natDigits number = Text.natDigits other := by
            simpa [Nat.repr, Text.natDigits] using congrArg String.toList hrepr
          rw [← Text.ofDigits_natDigits number, hdigits, Text.ofDigits_natDigits]

theorem subqueries_nodup (n : Nat) : ("main" :: subqueries 0 n).Nodup := by
  have h : "main" :: subqueries 0 n =
      (.main :: (List.range' 1 n).map Alias.sub).map Alias.word := by
    simp [subqueries, Alias.word]
  rw [h]
  refine List.Nodup.map Alias.word_injective (List.nodup_cons.2 ⟨by simp, ?_⟩)
  exact List.Nodup.map (fun _ _ h => Alias.sub.inj h) (List.nodup_range' 1)

/-! ## Conditions -/

/-- What a draft makes reads as the predicate says, and its subqueries have the aliases that are
numbered from one number up to another. -/
def Draft.Speaks (schema : Schema) (m : Model) (source : Alias) (p : Predicate) (used n : Nat)
    (d : Draft Statement) : Prop :=
  d.Yields fun start values s => ∃ r, s.ReadsAs readFactor r ∧
    (∀ params, values <+: params.drop start → Says schema params p m source.word r) ∧
      r.aliases = subqueries used n

/-- What a draft makes reads as several predicates say. -/
def Draft.SpeaksEach (schema : Schema) (m : Model) (source : Alias) (ps : List Predicate)
    (used n : Nat) (d : Draft (List Statement)) : Prop :=
  d.Yields fun start values parts => ∃ rs,
    List.Forall₂ (fun s r => s.ReadsAs readFactor r) parts rs ∧
      (∀ params, values <+: params.drop start → SaysEach schema params ps m source.word rs) ∧
        Reading.aliasesEach rs = subqueries used n

namespace Condition

variable {schema : Schema}

theorem speaks_isIn {m : Model} {c : Column} (hcolumn : m.column? c.name = some c)
    (source : Alias) (used : Nat) (values : List Value) :
    (isIn ⟨source, c⟩ values).draft.Speaks schema m source (.isIn c.name values) used used := by
  unfold draft
  split
  · next hempty =>
    exact .pure fun _ => ⟨_, false_readsAs, fun _ _ => ⟨c, hcolumn, by rw [if_pos hempty]⟩,
      (subqueries_self used).symm⟩
  · next hempty =>
    have hnumbers := Draft.Yields.each (a := fun _ n => n)
      fun v (_ : v ∈ values) => placeholder_yields c v
    refine hnumbers.map ?_
    rintro start bound parts ⟨hlength, ns, hparts, hbound⟩
    have hne : parts ≠ [] := by
      rintro rfl
      exact hempty (List.isEmpty_iff_length_eq_zero.2 hlength.symm)
    refine ⟨_, isIn_readsAs source c.name hparts hne, fun params hparams => ⟨c, hcolumn, ?_⟩,
      (subqueries_self used).symm⟩
    rw [if_neg hempty]
    have heach : List.Forall₂ (fun n v => bound? params n = some (.ofValue c.type v)) ns
        values := by
      refine .flip ((hbound params hparams).imp ?_)
      rintro v n ⟨k, rfl, hv⟩
      exact hv
    exact ⟨ns, rfl, List.forall₂_eq_eq_eq ▸
      List.forall₂_map_left_iff.2 (List.forall₂_map_right_iff.2 heach)⟩

mutual

theorem speaks_ofPredicate : ∀ (p : Predicate) (m : Model) (source : Alias) (used : Nat)
    {c : Condition} {n : Nat}, ofPredicate schema m source used p = .ok (c, n) →
      c.draft.Speaks schema m source p used n
  | .eq name value, m, source, used, _, _, h => by
      obtain ⟨c, rfl, hcolumn, h⟩ := bind_columnOf_eq_ok h
      cases h
      split
      · next hnull =>
        have hs := isNull_readsAs source c.name
        exact .pure fun _ => ⟨_, hs, fun _ _ => ⟨c, hcolumn, by rw [if_pos hnull]⟩,
          (subqueries_self used).symm⟩
      · next hnull =>
        refine (placeholder_yields c value).map ?_
        rintro start values s ⟨rfl, parts, hnests, hundivided, hread⟩
        have hs := relation_readsAs source c.name tokens?_equals (by decide) (by decide) hnests
          hundivided (readRelation_equal _ hread)
        refine ⟨_, hs, fun params hparams => ⟨c, hcolumn, ?_⟩, (subqueries_self used).symm⟩
        rw [if_neg hnull]
        exact ⟨_, rfl, bound?_of_prefix hparams⟩
  | .isNull name, m, source, used, _, _, h => by
      obtain ⟨c, rfl, hcolumn, h⟩ := bind_columnOf_eq_ok h
      cases h
      exact .pure fun _ => ⟨_, isNull_readsAs source c.name, fun _ _ => ⟨c, hcolumn, rfl⟩,
        (subqueries_self used).symm⟩
  | .notNull name, m, source, used, _, _, h => by
      obtain ⟨c, rfl, hcolumn, h⟩ := bind_columnOf_eq_ok h
      cases h
      exact .pure fun _ => ⟨_, notNull_readsAs source c.name, fun _ _ => ⟨c, hcolumn, rfl⟩,
        (subqueries_self used).symm⟩
  | .like name pattern ignoresCase, m, source, used, _, _, h => by
      obtain ⟨c, rfl, hcolumn, h⟩ := bind_columnOf_eq_ok h
      cases h
      refine (marked_yields (.text pattern)).map ?_
      rintro start values p ⟨rfl, rfl⟩
      exact ⟨_, like_readsAs source c.name (start + 1) ignoresCase, fun params hparams =>
        ⟨c, hcolumn, _, rfl, bound?_of_prefix hparams⟩, (subqueries_self used).symm⟩
  | .compare name comparison value, m, source, used, _, _, h => by
      obtain ⟨c, rfl, hcolumn, h⟩ := bind_columnOf_eq_ok h
      cases h
      refine (placeholder_yields c value).map ?_
      rintro start values s ⟨rfl, parts, hnests, hundivided, hread⟩
      have hs := relation_readsAs source c.name (tokens?_sign comparison)
        (by cases comparison <;> decide) (by cases comparison <;> decide) hnests hundivided
        (readRelation_compare _ comparison hread)
      exact ⟨_, hs, fun params hparams => ⟨c, hcolumn, _, rfl, bound?_of_prefix hparams⟩,
        (subqueries_self used).symm⟩
  | .isIn name values, m, source, used, _, _, h => by
      obtain ⟨c, rfl, hcolumn, h⟩ := bind_columnOf_eq_ok h
      cases h
      exact speaks_isIn hcolumn source used values
  | .all ps, m, source, used, _, _, h => by
      obtain ⟨⟨cs, n⟩, hps, h⟩ := bind_eq_ok_iff.1 h
      cases h
      refine (speaks_ofPredicates ps m source used hps).map ?_
      rintro start values parts ⟨rs, hparts, hsays, haliases⟩
      have hgroup := group_readsAs true_readsAs hparts (exists_conjunction hparts)
      exact ⟨_, hgroup, fun params hparams => ⟨rs, hsays params hparams, rfl⟩,
        (Reading.aliases_under (fun _ => rfl) rs).trans haliases⟩
  | .any ps, m, source, used, _, _, h => by
      obtain ⟨⟨cs, n⟩, hps, h⟩ := bind_eq_ok_iff.1 h
      cases h
      refine (speaks_ofPredicates ps m source used hps).map ?_
      rintro start values parts ⟨rs, hparts, hsays, haliases⟩
      have hgroup := group_readsAs false_readsAs hparts (exists_disjunction hparts)
      exact ⟨_, hgroup, fun params hparams => ⟨rs, hsays params hparams, rfl⟩,
        (Reading.aliases_under (fun _ => rfl) rs).trans haliases⟩
  | .not p, m, source, used, _, _, h => by
      obtain ⟨⟨c, n⟩, hp, h⟩ := bind_eq_ok_iff.1 h
      cases h
      refine (speaks_ofPredicate p m source used hp).map ?_
      rintro start values s ⟨r, hs, hsays, haliases⟩
      exact ⟨_, not_readsAs hs, fun params hparams => ⟨r, hsays params hparams, rfl⟩, haliases⟩
  | .linked name p, m, source, used, _, _, h => by
      obtain ⟨⟨link, target⟩, hlink, h⟩ := bind_eq_ok_iff.1 h
      obtain ⟨⟨c, n⟩, hp, h⟩ := bind_eq_ok_iff.1 h
      cases h
      obtain ⟨hlink, htarget⟩ := relationshipOf_eq_ok_iff.1 hlink
      refine (speaks_ofPredicate p target (.sub (used + 1)) (used + 1) hp).map ?_
      rintro start values s ⟨r, hs, hsays, haliases⟩
      refine ⟨_,
        linked_readsAs target (.sub (used + 1)) source link.remoteColumn link.localColumn hs,
        fun params hparams => ⟨link, target, hlink, htarget, _, r, hsays params hparams, rfl⟩, ?_⟩
      rw [← subqueries_succ (le_of_ofPredicate p target _ _ hp), ← haliases]
      simp [Reading.aliases, Reading.aliasesEach]

theorem speaks_ofPredicates : ∀ (ps : List Predicate) (m : Model) (source : Alias) (used : Nat)
    {cs : List Condition} {n : Nat}, ofPredicates schema m source used ps = .ok (cs, n) →
      (drafts cs).SpeaksEach schema m source ps used n
  | [], m, source, used, _, _, h => by
      cases h
      exact .pure fun _ => ⟨[], .nil, fun _ _ => rfl, (subqueries_self used).symm⟩
  | p :: rest, m, source, used, _, _, h => by
      obtain ⟨⟨c, k⟩, hp, h⟩ := bind_eq_ok_iff.1 h
      obtain ⟨⟨cs, n⟩, hrest, h⟩ := bind_eq_ok_iff.1 h
      cases h
      refine (speaks_ofPredicate p m source used hp).map₂
        (speaks_ofPredicates rest m source k hrest) ?_
      rintro start values s more parts ⟨r, hs, hsays, haliases⟩
        ⟨rs, hparts, hsaysEach, haliasesEach⟩
      refine ⟨r :: rs, .cons hs hparts, fun params hparams => ⟨r, rs, rfl, ?_, ?_⟩, ?_⟩
      · exact hsays params ((List.prefix_append _ _).trans hparams)
      · exact hsaysEach params (prefix_behind hparams)
      · rw [Reading.aliasesEach, haliases, haliasesEach]
        exact subqueries_append (le_of_ofPredicate p m _ _ hp) (le_of_ofPredicates rest m _ _ hrest)

end

end Condition

/-! ## The condition of a count -/

section

variable {schema : Schema} {p : Plan}

theorem whereDraft_speaks {used : Nat} {conditions : Draft Statement}
    (h : whereDraft schema p used = .ok conditions) :
    conditions.Yields fun start values s => ∃ parts r, Nests s.tokens parts ∧
      readWhere parts = some r ∧ (∀ params, values <+: params.drop start →
        Says schema params (.all p.predicates) p.model "main" r) ∧
          ∃ n, r.aliases = subqueries used n := by
  obtain ⟨⟨cs, n⟩, hcs, h⟩ := bind_eq_ok_iff.1 h
  have hspeaks := Condition.speaks_ofPredicates p.predicates p.model .main used hcs
  dsimp only at h
  intro bound
  obtain ⟨values, hbound, rs, hparts, hsays, haliases⟩ := hspeaks bound
  split at h
  · next hempty =>
    cases h
    obtain rfl := List.isEmpty_iff.1 hempty
    obtain rfl := List.forall₂_nil_left_iff.1 hparts
    exact ⟨values, hbound, [], .all [], .nil, rfl,
      fun params hparams => ⟨[], hsays params hparams, rfl⟩, n, haliases⟩
  · next hempty =>
    cases h
    have hne : (Condition.drafts cs bound).1 ≠ [] := by
      rw [← List.length_pos_iff, Condition.length_drafts]
      exact List.length_pos_iff.2 fun h => hempty (List.isEmpty_iff.2 h)
    obtain ⟨inner, hnests, hread⟩ := exists_conjunction hparts hne
    have h := (nests_words tokens?_where (by decide)).append hnests
    exact ⟨values, hbound, _, _, h.of_eq (Statement.tokens_append _ _), hread,
      fun params hparams => ⟨rs, hsays params hparams, rfl⟩, n,
        (Reading.aliases_under (fun _ => rfl) rs).trans haliases⟩

theorem exists_counting (m : Model) {conditions : Statement} {parts : List Part} {r : Reading}
    (hnests : Nests conditions.tokens parts) (hread : readWhere parts = some r) :
    ∃ all, Nests (Statement.tokens ([.words "SELECT COUNT(*) FROM "] ++ Statement.table m ++
        [.words " main"] ++ conditions)) all ∧ readQuery all = some ⟨tableNames m, "main", r⟩ := by
  have hselect : tokens? "SELECT COUNT(*) FROM " = some [.word "SELECT", .word "COUNT", .sign '(',
      .sign '*', .sign ')', .word "FROM"] := by decide
  have hmain : tokens? " main" = some [.word "main"] := by decide
  have hselected := (Nests.of_forall [.word "SELECT", .word "COUNT"] (by decide)).append
    (Nests.of_forall [.sign '*'] (by decide)).group
  have hquery := hselected.append ((Nests.single (.word "FROM") (by decide) (by decide)).append
    ((nests_table m).append ((Nests.single (.word "main") (by decide) (by decide)).append hnests)))
  refine ⟨_, hquery.of_eq ?_, readQuery_eq ?_ m "main" hread⟩
  · simp [Statement.tokens, Piece.tokens, hselect, hmain]
  · simp [Part.is, Part.close]

theorem exists_parts_count {q : Prepared} (h : count schema p = .ok q) :
    ∃ parts r n, Nests q.statement.tokens parts ∧
      readQuery parts = some ⟨tableNames p.model, "main", r⟩ ∧
      Says schema q.params (.all p.predicates) p.model "main" r ∧ r.aliases = subqueries 0 n := by
  obtain ⟨conditions, hconditions, h⟩ := bind_eq_ok_iff.1 h
  cases h
  refine Draft.Yields.prepare (P := fun start values s => ∀ params, values <+: params.drop start →
      ∃ parts r n, Nests s.tokens parts ∧
        readQuery parts = some ⟨tableNames p.model, "main", r⟩ ∧
        Says schema params (.all p.predicates) p.model "main" r ∧ r.aliases = subqueries 0 n)
    ((whereDraft_speaks hconditions).map ?_) _ (List.prefix_refl _)
  rintro start values s ⟨parts, r, hnests, hread, hsays, n, haliases⟩ params hparams
  obtain ⟨all, hall, hquery⟩ := exists_counting p.model hnests hread
  exact ⟨all, r, n, hall, hquery, hsays params hparams, haliases⟩

/-- The text that counts the records that satisfy some predicates reads as a query over their table
whose condition says all of the predicates; the subqueries in it have aliases of their own. -/
theorem count_says {d : SchemaDecl} (hd : d.resolve = .ok schema) (hm : p.model ∈ schema.models)
    {q : Prepared} (h : count schema p = .ok q) :
    ∃ r, readText q.text = some ⟨tableNames p.model, "main", r⟩ ∧
      Says schema q.params (.all p.predicates) p.model "main" r ∧ ("main" :: r.aliases).Nodup := by
  obtain ⟨parts, r, n, hnests, hread, hsays, haliases⟩ := exists_parts_count h
  have hparts := parts?_text (count_fits hd hm h).legible hnests
  refine ⟨r, Option.bind_eq_some_iff.2 ⟨parts, hparts, hread⟩, hsays, ?_⟩
  rw [haliases]
  exact subqueries_nodup n

end

/-! ## Employees without a boss of some kind -/

/-- The employees whose boss is the first one, or who have no boss with one of two numbers who has a
boss in turn. -/
def employeesWithout : Plan :=
  (Plan.ofModel .employee).filter (.any [.eq "boss_id" (.int 1),
    .not (.linked "boss" (.all [.isIn "id" [.int 2, .int 3], .linked "boss" (.all [])]))])

/-- The condition on the employees is read with its tree, and with two subqueries that are linked
one inside the other. -/
theorem count_says_employees : ∃ q r, count .employees employeesWithout = .ok q ∧
    q.text = "SELECT COUNT(*) FROM \"employee\" main WHERE (main.\"boss_id\" = $1::bigint OR " ++
      "NOT (EXISTS (SELECT 1 FROM \"employee\" sub1 WHERE sub1.\"id\" = main.\"boss_id\" AND " ++
      "(sub1.\"id\" IN ($2::bigint, $3::bigint) AND EXISTS (SELECT 1 FROM \"employee\" sub2 " ++
      "WHERE sub2.\"id\" = sub1.\"boss_id\" AND TRUE)))))" ∧
    readText q.text = some ⟨["employee"], "main", r⟩ ∧
    Says .employees q.params (.all employeesWithout.predicates) .employee "main" r ∧
    ("main" :: r.aliases).Nodup := by
  obtain ⟨r, hsaid⟩ :=
    count_says (p := employeesWithout) SchemaDecl.resolve_employees (List.mem_singleton.2 rfl) rfl
  exact ⟨_, r, rfl, by decide +kernel, hsaid⟩

end RecordApi.Sql
