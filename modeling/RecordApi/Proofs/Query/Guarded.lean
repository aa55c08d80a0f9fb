import RecordApi.Proofs.Value.Ordered
import RecordApi.Store.Transaction

/-!
# What is read into a predicate

Where `Predicate.holds` decides a predicate, a comparison with null is false at once, and a record
behind a relationship has no relationships. `Predicate.guarded` says so in the predicate itself, and
`Predicate.Settled` is the condition under which nothing has to be said: nothing that meets a null
is negated, and no record behind a relationship is asked for its own.
-/

namespace RecordApi

/-! ## Predicates over a model -/

/-- A record has in every column of a model a value of the type of the column. -/
def Record.Typed (m : Model) (r : Record) : Prop :=
  ∀ name c, m.column? name = some c → (r.get name).Fits c.type

/-- All records have values of the types of their columns. -/
def Tables.Typed (schema : Schema) (t : Tables) : Prop :=
  ∀ m ∈ schema.models, ∀ r ∈ t.rows m.name, r.Typed m

/-- A model has a column with the name, of an ordered type whose values some values are. -/
def Model.Compares (m : Model) (name : String) (values : List Value) : Prop :=
  ∃ c, m.column? name = some c ∧ c.type.Ordered ∧ ∀ v ∈ values, v.Fits c.type

namespace Predicate

mutual

/-- A predicate asks for columns and relationships that there are, compares only columns of ordered
types, and those with values of their types, and matches no patterns. -/
def Over (schema : Schema) (m : Model) : Predicate → Prop
  | .eq name value | .compare name _ value => m.Compares name [value]
  | .isNull name | .notNull name => m.Compares name []
  | .isIn name values => m.Compares name values
  | .like _ _ _ => False
  | .all predicates | .any predicates => OverAll schema m predicates
  | .not predicate => Over schema m predicate
  | .linked name predicate => ∃ link, m.relationship? name = some link ∧
    m.Compares link.localColumn [] ∧
    ∀ target, schema.model? link.target = some target → Over schema target predicate

/-- All of some predicates are over a model. -/
def OverAll (schema : Schema) (m : Model) : List Predicate → Prop
  | [] => True
  | p :: rest => Over schema m p ∧ OverAll schema m rest

end

mutual

/-- The predicate that says what is read into a predicate: a comparison is one with something that
is not null, and a record that is reached through a relationship (`inside`) has none itself. -/
def guarded (inside : Bool) : Predicate → Predicate
  | .eq name value =>
    if value.isNull then .eq name value else .all [.notNull name, .eq name value]
  | .compare name comparison value =>
    if value.isNull then .any [] else .all [.notNull name, .compare name comparison value]
  | .isIn name values => .all [.notNull name, .isIn name (values.filter fun v => !v.isNull)]
  | .isNull name => .isNull name
  | .notNull name => .notNull name
  | .like name pattern ignoresCase => .like name pattern ignoresCase
  | .all predicates => .all (guardedAll inside predicates)
  | .any predicates => .any (guardedAll inside predicates)
  | .not predicate => .not (guarded inside predicate)
  | .linked name predicate => if inside then .any [] else .linked name (guarded true predicate)

/-- What is said of some predicates. -/
def guardedAll (inside : Bool) : List Predicate → List Predicate
  | [] => []
  | p :: rest => guarded inside p :: guardedAll inside rest

end

mutual

/-- A predicate on a record compares nothing with null where it negates the comparison (`negated`),
and records that it reaches through a relationship (`inside`) are not asked for theirs. -/
def Settled (links : Links) (inside negated : Bool) (r : Record) : Predicate → Prop
  | .eq name value => negated = true → value = .null ∨ r.get name ≠ .null
  | .compare name _ value => negated = true → value ≠ .null ∧ r.get name ≠ .null
  | .isIn name values => negated = true → values = [] ∨
    (r.get name ≠ .null ∧ ∀ v ∈ values, v ≠ .null)
  | .isNull _ | .notNull _ | .like _ _ _ => True
  | .all predicates | .any predicates => SettledAll links inside negated r predicates
  | .not predicate => Settled links inside true r predicate
  | .linked name predicate => inside = false ∧
    ∀ other ∈ links name r, Settled Links.none true false other predicate

/-- All of some predicates are settled. -/
def SettledAll (links : Links) (inside negated : Bool) (r : Record) : List Predicate → Prop
  | [] => True
  | p :: rest => Settled links inside negated r p ∧ SettledAll links inside negated r rest

end

end Predicate

theorem Model.Compares.mono {m : Model} {name : String} {values more : List Value}
    (h : m.Compares name values) (hsub : ∀ v ∈ more, v ∈ values) : m.Compares name more := by
  obtain ⟨c, hc, ht, hv⟩ := h
  exact ⟨c, hc, ht, fun v hm => hv v (hsub v hm)⟩

theorem Model.Compares.column {m : Model} {name : String} {values : List Value}
    (h : m.Compares name values) : m.Compares name [] :=
  h.mono fun _ hv => by cases hv

namespace Predicate

variable {schema : Schema}

mutual

/-- What is said explicitly is over the same model. -/
theorem over_guarded (inside : Bool) :
    ∀ (p : Predicate) {m : Model}, p.Over schema m → (p.guarded inside).Over schema m
  | .eq name value, _, h => by
      unfold guarded
      split
      · exact h
      · exact ⟨Model.Compares.column h, h, trivial⟩
  | .compare name comparison value, _, h => by
      unfold guarded
      split
      · trivial
      · exact ⟨Model.Compares.column h, h, trivial⟩
  | .isIn name values, _, h =>
      ⟨Model.Compares.column h, h.mono fun _ hv => (List.mem_filter.1 hv).1, trivial⟩
  | .isNull _, _, h | .notNull _, _, h => h
  | .like _ _ _, _, h => h.elim
  | .all ps, _, h | .any ps, _, h => overAll_guardedAll inside ps h
  | .not p, _, h => over_guarded inside p h
  | .linked name p, _, h => by
      unfold guarded
      split
      · trivial
      · obtain ⟨link, hlink, hlocal, htarget⟩ := h
        exact ⟨link, hlink, hlocal, fun target ht => over_guarded true p (htarget target ht)⟩

theorem overAll_guardedAll (inside : Bool) :
    ∀ (ps : List Predicate) {m : Model}, OverAll schema m ps →
      OverAll schema m (guardedAll inside ps)
  | [], _, _ => trivial
  | p :: rest, _, h => ⟨over_guarded inside p h.1, overAll_guardedAll inside rest h.2⟩

end

end Predicate

end RecordApi
