import RecordApi.Proofs.Success
import RecordApi.Proofs.Value.Coerce
import RecordApi.Query.Assembly

/-!
# What paths name

A parameter of a path that stands for a column denotes a value of it, or none. A path names the
records that have all the values which its parameters denote (`PathMap.Names`); its conditions hold
for these records and for no others, whatever else is in the tables
(`PathMap.holds_conditions_iff`).
-/

namespace RecordApi

namespace Column

variable {c : Column} {raw : String} {v : Value}

theorem coerce_of_typed (h : c.typed raw = .ok v) : (Value.text raw).coerce c.type = .ok v := by
  unfold typed at h
  split at h
  · next w hw =>
    cases h
    exact hw
  · cases h

/-- What a text of a request denotes is a value that the column holds. -/
theorem fits_of_typed (h : c.typed raw = .ok v) : v.Fits c.type :=
  Value.fits_of_coerce (coerce_of_typed h)

/-- What a text of a request denotes is not null. -/
theorem ne_null_of_typed (h : c.typed raw = .ok v) : v ≠ .null :=
  Value.ne_null_of_coerce (coerce_of_typed h) nofun

end Column

namespace PathMap

/-- A parameter of a path stands for a column and denotes a value of it. -/
inductive Denotes (map : PathMap) (m : Model) (param : String × String) (column : String)
    (v : Value) : Prop
  | intro {c : Column} (target : map.target param.1 = .column column)
    (found : m.column? column = some c) (typed : c.typed param.2 = .ok v)

/-- A path names the records that have the value of each of its parameters. -/
def Names (map : PathMap) (m : Model) (params : List (String × String)) (r : Record) : Prop :=
  ∀ p ∈ params, ∃ column v, map.Denotes m p column v ∧ (r.get column).same v = true

/-- A record has the value of each parameter of a path behind which no other one stands for the same
column. -/
def Sets (map : PathMap) (m : Model) (params : List (String × String)) (r : Record) : Prop :=
  ∀ front p back, params = front ++ p :: back → (∀ q ∈ back, map.target q.1 ≠ map.target p.1) →
    ∃ column v, map.Denotes m p column v ∧ r.get column = v

variable {map : PathMap} {m : Model}

theorem Denotes.unique {param : String × String} {column other : String} {v w : Value}
    (hv : map.Denotes m param column v) (hw : map.Denotes m param other w) :
    column = other ∧ v = w := by
  obtain ⟨target, found, typed⟩ := hv
  obtain ⟨target', found', typed'⟩ := hw
  obtain rfl : column = other := by
    rw [target, PathTarget.column.injEq] at target'
    exact target'
  obtain rfl := Option.some.inj (found.symm.trans found')
  exact ⟨rfl, Except.ok.inj (typed.symm.trans typed')⟩

/-- Where something is made of the value of a parameter that stands for a column, the parameter
denotes this value. -/
theorem exists_denotes {α : Type} {param : String × String} {column : String} {missing : ApiError}
    {make : Value → α} {a : α} (htarget : map.target param.1 = .column column)
    (h : (match m.column? column with
      | none => .error missing
      | some c =>
        match c.typed param.2 with
        | .ok v => .ok (make v)
        | .error _ => .error .notFound) = Except.ok a) :
    ∃ v, map.Denotes m param column v ∧ a = make v := by
  cases hc : m.column? column with
  | none => simp [hc] at h
  | some c =>
      cases hv : c.typed param.2 with
      | error e => simp [hc, hv] at h
      | ok v =>
          simp only [hc, hv, Except.ok.injEq] at h
          exact ⟨v, ⟨htarget, hc, hv⟩, h.symm⟩

/-- The condition of a parameter that stands for a column asks for the value that it denotes. -/
theorem denotes_of_condition {param : String × String} {conditions : List Predicate}
    (htarget : ∃ column, map.target param.1 = .column column)
    (h : map.condition m param = .ok conditions) :
    ∃ column v, map.Denotes m param column v ∧ conditions = [.eq column v] := by
  obtain ⟨column, htarget⟩ := htarget
  unfold condition at h
  rw [htarget] at h
  exact ⟨column, exists_denotes htarget h⟩

theorem holds_eq_iff {links : Links} {r : Record} {column : String} {v : Value}
    (hv : v ≠ .null) : (Predicate.eq column v).holds links r = (r.get column).same v := by
  cases v with
  | null => exact absurd rfl hv
  | _ => simp [Predicate.holds, Value.isNull]

/-- A path of which the conditions can be read denotes values only. -/
theorem denotes_of_conditions {params : List (String × String)} {conditions : List (List Predicate)}
    (htargets : ∀ p ∈ params, ∃ column, map.target p.1 = .column column)
    (h : params.mapM (map.condition m) = .ok conditions) :
    ∀ p ∈ params, ∃ column v, map.Denotes m p column v := by
  intro p hp
  obtain ⟨here, hhere⟩ := exists_mapM_eq_ok_iff.1 ⟨conditions, h⟩ p hp
  obtain ⟨column, v, hdenotes, -⟩ := denotes_of_condition (htargets p hp) hhere
  exact ⟨column, v, hdenotes⟩

theorem Denotes.ne_null {param : String × String} {column : String} {v : Value}
    (h : map.Denotes m param column v) : v ≠ .null := by
  obtain ⟨-, -, typed⟩ := h
  exact Column.ne_null_of_typed typed

/-- The conditions of a path hold for the records that it names. -/
theorem holds_conditions_iff {params : List (String × String)} {conditions : List (List Predicate)}
    (htargets : ∀ p ∈ params, ∃ column, map.target p.1 = .column column)
    (h : params.mapM (map.condition m) = .ok conditions) (links : Links) (r : Record) :
    conditions.flatten.all (·.holds links r) = true ↔ map.Names m params r := by
  have hconditions := mapM_eq_ok_iff.1 h
  clear h
  induction hconditions with
  | nil => simp [Names]
  | @cons p here params conditions hhere _ ih =>
      obtain ⟨htarget, htargets⟩ := List.forall_mem_cons.1 htargets
      obtain ⟨column, v, hdenotes, rfl⟩ := denotes_of_condition htarget hhere
      have hfirst : (∃ column' w, map.Denotes m p column' w ∧ (r.get column').same w = true) ↔
          (r.get column).same v = true := by
        constructor
        · rintro ⟨column', w, hw, hsame⟩
          obtain ⟨rfl, rfl⟩ := hdenotes.unique hw
          exact hsame
        · exact fun hsame => ⟨column, v, hdenotes, hsame⟩
      have hrest : conditions.flatten.all (·.holds links r) = true ↔ map.Names m params r :=
        ih htargets
      unfold Names at hrest ⊢
      rw [List.forall_mem_cons, hfirst, ← hrest]
      simp [holds_eq_iff hdenotes.ne_null]

end PathMap

end RecordApi
