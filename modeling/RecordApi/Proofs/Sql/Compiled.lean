import RecordApi.Proofs.Schema.Resolved
import RecordApi.Sql.Condition

/-!
# Conditions of predicates

When a column and a relationship of a model are found, and how the numbers of subqueries grow: the
condition of a predicate numbers its subqueries one after the other, from the number that stood
before.
-/

namespace RecordApi.Sql

variable {schema : Schema} {m : Model}

theorem columnOf_eq_ok_iff {name : String} {c : Column} :
    columnOf m name = .ok c ↔ m.column? name = some c := by
  unfold columnOf
  cases m.column? name <;> simp

theorem bind_columnOf_eq_ok {α : Type} {name : String} {f : Column → Except StoreError α} {a : α}
    (h : columnOf m name >>= f = .ok a) :
    ∃ c, c.name = name ∧ m.column? c.name = some c ∧ f c = .ok a := by
  obtain ⟨c, hc, hf⟩ := bind_eq_ok_iff.1 h
  have hcolumn := columnOf_eq_ok_iff.1 hc
  obtain rfl := Model.name_of_column? hcolumn
  exact ⟨c, rfl, hcolumn, hf⟩

theorem relationshipOf_eq_ok_iff {name : String} {link : Relationship} {target : Model} :
    relationshipOf schema m name = .ok (link, target) ↔
      m.relationship? name = some link ∧ schema.model? link.target = some target := by
  unfold relationshipOf
  cases m.relationship? name with
  | none => simp
  | some r =>
      dsimp only
      cases ht : schema.model? r.target with
      | none =>
          simp only [reduceCtorEq, Option.some.injEq, false_iff, not_and]
          rintro rfl
          simp [ht]
      | some t =>
          simp only [Except.ok.injEq, Prod.mk.injEq, Option.some.injEq]
          constructor
          · rintro ⟨rfl, rfl⟩
            exact ⟨rfl, ht⟩
          · rintro ⟨rfl, h⟩
            exact ⟨rfl, Option.some.inj (ht.symm.trans h)⟩

/-- The aliases that stand when subqueries are numbered up to a number: the main one and theirs. -/
def Alias.Below (used : Nat) : Alias → Prop
  | .main => True
  | .sub number => number ≤ used

theorem Alias.Below.mono {source : Alias} {used more : Nat} (h : source.Below used)
    (hle : used ≤ more) : source.Below more := by
  cases source with
  | main => trivial
  | sub number => exact Nat.le_trans h hle

theorem Alias.below_self (used : Nat) : (Alias.sub used).Below used :=
  Nat.le_refl used

theorem Alias.Below.ne_next {source : Alias} {used : Nat} (h : source.Below used) :
    source ≠ .sub (used + 1) := by
  rintro rfl
  exact absurd h (Nat.not_succ_le_self used)

namespace Condition

mutual

theorem le_of_ofPredicate : ∀ (p : Predicate) (m : Model) (source : Alias) (used : Nat)
    {c : Condition} {n : Nat}, ofPredicate schema m source used p = .ok (c, n) → used ≤ n
  | .eq _ _, _, _, _, _, _, h | .isNull _, _, _, _, _, _, h | .notNull _, _, _, _, _, _, h
  | .like _ _ _, _, _, _, _, _, h | .compare _ _ _, _, _, _, _, _, h
  | .isIn _ _, _, _, _, _, _, h => by
      obtain ⟨_, -, h⟩ := bind_eq_ok_iff.1 h
      cases h
      exact Nat.le_refl _
  | .all ps, m, source, used, _, _, h | .any ps, m, source, used, _, _, h => by
      obtain ⟨⟨conditions, n⟩, hps, h⟩ := bind_eq_ok_iff.1 h
      cases h
      exact le_of_ofPredicates ps m source used hps
  | .not p, m, source, used, _, _, h => by
      obtain ⟨⟨condition, n⟩, hp, h⟩ := bind_eq_ok_iff.1 h
      cases h
      exact le_of_ofPredicate p m source used hp
  | .linked name p, m, source, used, _, _, h => by
      obtain ⟨⟨link, target⟩, -, h⟩ := bind_eq_ok_iff.1 h
      obtain ⟨⟨condition, n⟩, hp, h⟩ := bind_eq_ok_iff.1 h
      cases h
      exact Nat.le_of_succ_le (le_of_ofPredicate p target _ _ hp)

theorem le_of_ofPredicates : ∀ (ps : List Predicate) (m : Model) (source : Alias) (used : Nat)
    {cs : List Condition} {n : Nat},
    ofPredicates schema m source used ps = .ok (cs, n) → used ≤ n
  | [], _, _, _, _, _, h => by
      cases h
      exact Nat.le_refl _
  | p :: rest, m, source, used, _, _, h => by
      obtain ⟨⟨c, k⟩, hp, h⟩ := bind_eq_ok_iff.1 h
      obtain ⟨⟨cs, n⟩, hrest, h⟩ := bind_eq_ok_iff.1 h
      cases h
      exact Nat.le_trans (le_of_ofPredicate p m source used hp)
        (le_of_ofPredicates rest m source k hrest)

end

end Condition

end RecordApi.Sql
