import RecordApi.Query.Assembly
import RecordApi.Store.Transaction

/-!
# What plans find

A plan finds the records of its model that satisfy all its conditions (`Tables.satisfying`), each of
them once, in some order and cut to a part. The two records at most that are looked up for one say
whether there is none, one, or several (`Transaction.one_eq`).
-/

namespace RecordApi

/-- The records of a model in some tables that satisfy some conditions. -/
def Tables.satisfying (t : Tables) (m : Model) (conditions : List Predicate) : List Record :=
  (t.rows m.name).filter fun r => conditions.all (·.holds (t.links m) r)

namespace Tables

variable {t : Tables} {m : Model} {r : Record}

theorem satisfying_append (conditions more : List Predicate) :
    t.satisfying m (conditions ++ more) =
      (t.satisfying m conditions).filter fun r => more.all (·.holds (t.links m) r) := by
  unfold satisfying
  rw [List.filter_filter]
  refine List.filter_congr fun r _ => ?_
  rw [List.all_append, Bool.and_comm]

theorem mem_satisfying_iff {conditions : List Predicate} :
    r ∈ t.satisfying m conditions ↔
      r ∈ t.rows m.name ∧ ∀ p ∈ conditions, p.holds (t.links m) r = true := by
  unfold satisfying
  rw [List.mem_filter, List.all_eq_true]

end Tables

namespace Plan

/-- A record with the values that a plan asks for beside it. -/
def rowOf (p : Plan) (t : Tables) (r : Record) : Row :=
  ⟨r, p.extra.map (t.project p.model r)⟩

/-- The records that satisfy the conditions of a plan, in its order. -/
def sorted (p : Plan) (t : Tables) : List Record :=
  Sorting.sort (fun a b => p.order a b == .lt) (p.matching t)

variable (p : Plan) (t : Tables)

theorem fetch_eq : p.fetch t = (p.slice (p.sorted t)).map (p.rowOf t) := rfl

theorem sorted_perm : (p.sorted t).Perm (p.matching t) :=
  Sorting.sort_perm _ _

theorem matching_filters (filters : List Predicate) :
    (p.filters filters).matching t =
      (p.matching t).filter fun r => filters.all (·.holds (t.links p.model) r) :=
  Tables.satisfying_append p.predicates filters

end Plan

/-- Two rows are as good as all to tell how many there are. -/
theorem Resolution.ofRows_take_two (rows : List Row) :
    Resolution.ofRows (rows.take 2) = Resolution.ofRows rows := by
  rcases rows with _ | ⟨a, _ | ⟨b, rows⟩⟩ <;> rfl

/-- Rows in another order amount to the same. -/
theorem Resolution.ofRows_perm {rows others : List Row} (h : rows.Perm others) :
    Resolution.ofRows rows = Resolution.ofRows others := by
  have hlen := h.length_eq
  rcases rows with _ | ⟨a, _ | ⟨b, rows⟩⟩
  · rw [h.nil_eq]
  · rw [List.singleton_perm.1 h]
  · rcases others with _ | ⟨c, _ | ⟨d, others⟩⟩
    · cases hlen
    · cases hlen
    · rfl

/-- Looking up one record tells whether the conditions of a plan are satisfied by none, by one, or
by several. -/
theorem Transaction.one_eq (tx : Transaction) (p : Plan) :
    tx.one p = .ofRows ((p.matching tx.working).map (p.rowOf tx.working)) := by
  have hperm : ((p.forOne.sorted tx.working).map (p.rowOf tx.working)).Perm
      ((p.matching tx.working).map (p.rowOf tx.working)) :=
    (p.forOne.sorted_perm tx.working).map _
  rw [← Resolution.ofRows_perm hperm, ← Resolution.ofRows_take_two, ← List.map_take]
  rfl

end RecordApi
