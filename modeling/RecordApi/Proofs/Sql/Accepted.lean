import RecordApi.Proofs.Record
import RecordApi.Proofs.Sql.Compiled
import RecordApi.Resource.Config
import RecordApi.Sql.Query

/-!
# Requests that are accepted

A plan that is made of a request has statements. What the path, the filters and the order of a
request name is checked against the columns of the model when the plan is made, and the names in a
plan are looked up again when its statements are. All that the operators and paths of a request make
are conditions on one column (`Predicate.subject?`), so the second look finds what the first has
found. The statement that fetches and the one that counts have their conditions and their values in
common.
-/

namespace RecordApi

/-! ## Conditions on one column -/

/-- The column that a condition is on, if it is one on a column alone. -/
def Predicate.subject? : Predicate → Option String
  | .eq name _ | .isNull name | .notNull name | .like name _ _ | .compare name _ _
  | .isIn name _ => some name
  | .all _ | .any _ | .not _ | .linked _ _ => none

/-- A condition on a column of a model. -/
def Predicate.OnColumn (m : Model) (p : Predicate) : Prop :=
  ∃ name, p.subject? = some name ∧ m.isColumn name

/-- Whatever an operator makes is a condition on the column that it is given. -/
def Operator.OnSubject (f : Operator) : Prop :=
  ∀ c raw p, f c raw = .ok p → p.subject? = some c.name

namespace Operator.OnSubject

theorem equal : OnSubject equal := by
  intro c raw p h
  obtain ⟨v, -, rfl⟩ := map_eq_ok_iff.1 h
  rfl

theorem null : OnSubject null := by
  intro c raw p h
  obtain rfl := Except.ok.inj h
  split <;> rfl

theorem pattern (ignoresCase : Bool) (before after : String) :
    OnSubject (pattern ignoresCase before after) := by
  intro c raw p h
  obtain rfl := Except.ok.inj h
  rfl

theorem comparing (comparison : Comparison) : OnSubject (comparing comparison) := by
  intro c raw p h
  obtain ⟨v, -, rfl⟩ := map_eq_ok_iff.1 h
  rfl

theorem oneOf : OnSubject oneOf := by
  intro c raw p h
  obtain ⟨items, -, h⟩ := bind_eq_ok_iff.1 h
  obtain ⟨values, -, h⟩ := bind_eq_ok_iff.1 h
  obtain rfl := pure_eq_ok_iff.1 h
  rfl

end Operator.OnSubject

namespace OperatorTable

variable {m : Model}

theorem onSubject_of_standard {name : String} {operator : Operator}
    (h : standard.get? name = some operator) : operator.OnSubject := by
  have hmem := (Keyed.get?_ofList_eq_some_iff (by decide)).1 h
  refine (?_ : ∀ e ∈ _, Operator.OnSubject e.2) _ hmem
  simp only [List.forall_mem_cons]
  exact ⟨.equal, .null, .pattern _ _ _, .pattern _ _ _, .pattern _ _ _, .pattern _ _ _,
    .pattern _ _ _, .pattern _ _ _, .comparing _, .comparing _, .comparing _, .comparing _, .oneOf,
    nofun⟩

theorem onColumn_of_compile {clause : FilterClause} {p : Predicate}
    (h : standard.compile m clause = .ok p) : p.OnColumn m := by
  unfold compile at h
  split at h
  · cases h
  · next c hc =>
    split at h
    · cases h
    · next operator hoperator =>
      refine ⟨c.name, onSubject_of_standard hoperator c _ p h, ?_⟩
      rw [Model.name_of_column? hc]
      exact Option.isSome_iff_exists.2 ⟨c, hc⟩

theorem onColumn_of_ofParams {params : List (String × String)} {filters : List Predicate}
    (h : standard.ofParams m params = .ok filters) : ∀ p ∈ filters, p.OnColumn m := by
  obtain ⟨parts, hparts, rfl⟩ := map_eq_ok_iff.1 h
  intro p hp
  obtain ⟨part, hpart, hp⟩ := List.mem_flatten.1 hp
  obtain ⟨param, -, hparam⟩ := mem_of_mapM_eq_ok hparts hpart
  obtain ⟨clause, -, hclause⟩ := bind_eq_ok_iff.1 hparam
  cases clause with
  | none =>
      obtain rfl := pure_eq_ok_iff.1 hclause
      cases hp
  | some clause =>
      obtain ⟨q, hq, rfl⟩ := map_eq_ok_iff.1 hclause
      obtain rfl := List.mem_singleton.1 hp
      exact onColumn_of_compile hq

end OperatorTable

/-! ## Paths and orders -/

/-- Every parameter of a path stands for a column or for nothing. -/
def PathMap.Plain (map : PathMap) : Prop :=
  ∀ e ∈ map, ∀ condition, e.2 ≠ .lookup condition

theorem PathMap.Plain.target_ne {map : PathMap} (h : map.Plain) (name : String)
    (condition : String → Except ApiError Predicate) : map.target name ≠ .lookup condition := by
  unfold target
  cases hfound : Keyed.get? map name with
  | none => nofun
  | some t => exact h (name, t) (Keyed.mem_of_get?_eq_some hfound) condition

theorem PathMap.onColumn_of_condition {map : PathMap} (hmap : map.Plain) {m : Model}
    {param : String × String} {conditions : List Predicate}
    (h : map.condition m param = .ok conditions) : ∀ p ∈ conditions, p.OnColumn m := by
  unfold condition at h
  cases ht : map.target param.1 with
  | ignore =>
      rw [ht] at h
      cases h
      nofun
  | lookup condition => exact absurd ht (hmap.target_ne _ _)
  | column name =>
      rw [ht] at h
      dsimp only at h
      split at h
      · cases h
      · next c hc =>
        split at h
        · cases h
          intro p hp
          obtain rfl := List.mem_singleton.1 hp
          exact ⟨name, rfl, Option.isSome_iff_exists.2 ⟨c, hc⟩⟩
        · cases h

theorem Model.isColumn_of_sortKeys {m : Model} {fault : String → ApiError} {fields : List String}
    {keys : List SortKey} (h : m.sortKeys fault fields = .ok keys) :
    ∀ k ∈ keys, m.isColumn k.column := by
  intro k hk
  obtain ⟨field, -, hfield⟩ := mem_of_mapM_eq_ok h hk
  dsimp only at hfield
  split at hfield
  · next hcolumn =>
    cases hfield
    exact hcolumn
  · cases hfield

namespace Plan

/-- The conditions and the order of a plan name columns of its model, and nothing is fetched beside
the records. -/
structure OnColumns (p : Plan) : Prop where
  predicates : ∀ q ∈ p.predicates, q.OnColumn p.model
  sort : ∀ k ∈ p.sort, p.model.isColumn k.column
  extra : p.extra = []

namespace OnColumns

variable {p q : Plan}

theorem ofModel (m : Model) : (Plan.ofModel m).OnColumns :=
  ⟨nofun, nofun, rfl⟩

theorem filters (h : p.OnColumns) {predicates : List Predicate}
    (hpredicates : ∀ q ∈ predicates, q.OnColumn p.model) : (p.filters predicates).OnColumns :=
  ⟨fun q hq => (List.mem_append.1 hq).elim (h.predicates q) (hpredicates q), h.sort, h.extra⟩

theorem filterByPath (h : p.OnColumns) {map : PathMap} (hmap : map.Plain)
    {params : List (String × String)} (hq : p.filterByPath map params = .ok q) :
    q.OnColumns ∧ q.model = p.model := by
  obtain ⟨conditions, hconditions, rfl⟩ := map_eq_ok_iff.1 hq
  refine ⟨h.filters fun c hc => ?_, rfl⟩
  obtain ⟨part, hpart, hc⟩ := List.mem_flatten.1 hc
  obtain ⟨param, -, hparam⟩ := mem_of_mapM_eq_ok hconditions hpart
  exact PathMap.onColumn_of_condition hmap hparam c hc

theorem sortFor (h : p.OnColumns) {ctx : Context} {standard : Option (List String)}
    (hq : p.sortFor p.model ctx standard = .ok q) : q.OnColumns := by
  have hkeys {fault : String → ApiError} {fields : List String}
      (hq : (p.model.sortKeys fault fields).map p.orderBy = .ok q) : q.OnColumns := by
    obtain ⟨keys, hkeys, rfl⟩ := map_eq_ok_iff.1 hq
    exact ⟨h.predicates, Model.isColumn_of_sortKeys hkeys, h.extra⟩
  unfold Plan.sortFor at hq
  split at hq
  · exact hkeys hq
  · exact hkeys hq
  · cases hq
    exact h

theorem window (h : p.OnColumns) (offset limit : Option Nat) : (p.window offset limit).OnColumns :=
  ⟨h.predicates, h.sort, h.extra⟩

theorem counting (h : p.OnColumns) : p.counting.OnColumns :=
  (ofModel p.model).filters h.predicates

end OnColumns

end Plan

namespace Sql

/-! ## Statements of plans -/

/-- What stands before the conditions of a statement that fetches. -/
def selectHead (p : Plan) : Statement :=
  [.words "SELECT "] ++ Statement.join ", " [selectList (qualified .main) p.model] ++
    [.words " FROM "] ++ Statement.table p.model ++ [.words " main"]

/-- A key of the order in a statement that fetches. -/
def orderPart (key : SortKey) : Statement :=
  qualified .main key.column ++ if key.descending then [.words " DESC"] else []

/-- What stands behind the conditions of a statement that fetches. -/
def selectTail (p : Plan) : Statement :=
  [.words " ORDER BY "] ++
    Statement.join ", " (p.sort.map orderPart ++ [qualified .main p.model.primaryKey.name]) ++
    boundary "LIMIT" p.limit ++ boundary "OFFSET" p.offset

/-- What stands before the conditions of a statement that counts. -/
def countHead (p : Plan) : Statement :=
  [.words "SELECT COUNT(*) FROM "] ++ Statement.table p.model ++ [.words " main"]

variable {schema : Schema} {m : Model}

theorem exists_columnOf {name : String} (h : m.isColumn name) : ∃ c, columnOf m name = .ok c := by
  obtain ⟨c, hc⟩ := Option.isSome_iff_exists.1 h
  exact ⟨c, columnOf_eq_ok_iff.2 hc⟩

theorem Condition.exists_ofPredicate_of_onColumn {p : Predicate} (h : p.OnColumn m) (source : Alias)
    (used : Nat) : ∃ c, ofPredicate schema m source used p = .ok (c, used) := by
  obtain ⟨name, hsubject, hcolumn⟩ := h
  obtain ⟨c, hc⟩ := exists_columnOf hcolumn
  cases p <;> cases hsubject <;> exact ⟨_, bind_eq_ok_iff.2 ⟨c, hc, rfl⟩⟩

theorem Condition.exists_ofPredicates_of_onColumn {ps : List Predicate}
    (h : ∀ p ∈ ps, p.OnColumn m) (source : Alias) (used : Nat) :
    ∃ cs, ofPredicates schema m source used ps = .ok (cs, used) := by
  induction ps with
  | nil => exact ⟨[], rfl⟩
  | cons p rest ih =>
      obtain ⟨hp, hrest⟩ := List.forall_mem_cons.1 h
      obtain ⟨c, hc⟩ : ∃ c, ofPredicate schema m source used p = .ok (c, used) :=
        exists_ofPredicate_of_onColumn hp source used
      obtain ⟨cs, hcs⟩ := ih hrest
      exact ⟨c :: cs, bind_eq_ok_iff.2 ⟨_, hc, bind_eq_ok_iff.2 ⟨_, hcs, rfl⟩⟩⟩

theorem exists_whereDraft {p : Plan} (h : p.OnColumns) (used : Nat) :
    ∃ conditions, whereDraft schema p used = .ok conditions := by
  obtain ⟨cs, hcs⟩ : ∃ cs, Condition.ofPredicates schema p.model .main used p.predicates =
      .ok (cs, used) :=
    Condition.exists_ofPredicates_of_onColumn h.predicates .main used
  unfold whereDraft
  rw [hcs]
  cases cs with
  | nil => exact ⟨_, rfl⟩
  | cons c rest => exact ⟨_, rfl⟩

theorem sortPieces_eq {key : SortKey} (h : m.isColumn key.column) :
    sortPieces m key = .ok (orderPart key) := by
  obtain ⟨c, hc⟩ := exists_columnOf h
  unfold sortPieces
  rw [hc]
  rfl

theorem select_eq {p : Plan} (h : p.OnColumns) {conditions : Draft Statement}
    (hconditions : whereDraft schema p 0 = .ok conditions) :
    select schema p = .ok ⟨selectHead p ++ (Draft.prepare conditions).statement ++ selectTail p,
      (Draft.prepare conditions).params⟩ := by
  have hsort : p.sort.mapM (sortPieces p.model) = .ok (p.sort.map orderPart) :=
    mapM_eq_ok_iff.2 (List.forall₂_map_right_iff.2
      (List.forall₂_same.2 fun k hk => sortPieces_eq (h.sort k hk)))
  unfold select
  rw [h.extra, List.length_nil, hconditions, hsort]
  refine congrArg Except.ok ?_
  simp only [selectTail, ← List.append_assoc]
  rfl

theorem count_eq {p : Plan} {conditions : Draft Statement}
    (hconditions : whereDraft schema p 0 = .ok conditions) :
    count schema p = .ok ⟨countHead p ++ (Draft.prepare conditions).statement,
      (Draft.prepare conditions).params⟩ := by
  unfold count
  rw [hconditions]
  rfl

/-- The statements that fetch and count what a plan asks for differ only in what stands before and
behind their conditions, and bind the same values. -/
theorem select_count_eq {p : Plan} (h : p.OnColumns) {conditions : Draft Statement}
    (hconditions : whereDraft schema p 0 = .ok conditions) :
    ∀ q ∈ [p, p.forOne, p.counting],
      select schema q = .ok ⟨selectHead q ++ (Draft.prepare conditions).statement ++ selectTail q,
        (Draft.prepare conditions).params⟩ ∧
      count schema q = .ok ⟨countHead q ++ (Draft.prepare conditions).statement,
        (Draft.prepare conditions).params⟩ := by
  simp only [List.forall_mem_cons, List.not_mem_nil, false_implies, implies_true, and_true]
  exact ⟨⟨select_eq h hconditions, count_eq hconditions⟩,
    ⟨select_eq (h.window _ _) hconditions, count_eq hconditions⟩,
    ⟨select_eq h.counting hconditions, count_eq hconditions⟩⟩

end Sql

/-- The plan that is made of the path, the filters, the order and the part that a request asks for
can be fetched and counted by statements, as can its variants for one record and for the number of
all. All of these have their conditions and the values of these in common. -/
theorem Config.exists_statements {σ : Type} {config : Config σ} {path : List (String × String)}
    {ctx : Context} {located plan : Plan} {filters : List Predicate}
    (hoperators : config.operators = .standard) (hextra : config.extra = [])
    (htargets : config.lookup.Plain)
    (hlocated : ((Plan.ofModel config.model).withExtra config.extra).filterByPath config.lookup
      path = .ok located)
    (hfilters : config.operators.ofParams config.model ctx.params = .ok filters)
    (hplan : (located.filters filters).sortFor config.model ctx config.defaultSort = .ok plan)
    (part : Pagination) :
    ∃ conditions, Sql.whereDraft config.schema plan 0 = .ok conditions ∧
      ∀ p ∈ [plan.window part.offset part.limit, (plan.window part.offset part.limit).forOne,
          (plan.window part.offset part.limit).counting],
        Sql.select config.schema p = .ok ⟨Sql.selectHead p ++
          (Sql.Draft.prepare conditions).statement ++ Sql.selectTail p,
            (Sql.Draft.prepare conditions).params⟩ ∧
        Sql.count config.schema p = .ok ⟨Sql.countHead p ++
          (Sql.Draft.prepare conditions).statement, (Sql.Draft.prepare conditions).params⟩ := by
  rw [hextra] at hlocated
  rw [hoperators] at hfilters
  obtain ⟨hlocated, (hmodel : located.model = config.model)⟩ :=
    (Plan.OnColumns.ofModel config.model).filterByPath htargets hlocated
  have hfiltered : (located.filters filters).OnColumns :=
    hlocated.filters (hmodel ▸ OperatorTable.onColumn_of_ofParams hfilters)
  have hsort : (located.filters filters).sortFor (located.filters filters).model ctx
      config.defaultSort = .ok plan := by
    change (located.filters filters).sortFor located.model ctx _ = _
    rwa [hmodel]
  have hsorted : plan.OnColumns := hfiltered.sortFor hsort
  obtain ⟨conditions, hconditions⟩ : ∃ conditions,
      Sql.whereDraft config.schema plan 0 = .ok conditions := Sql.exists_whereDraft hsorted 0
  exact ⟨conditions, hconditions,
    Sql.select_count_eq (hsorted.window part.offset part.limit) hconditions⟩

/-- A request for the notes with a text and one of two versions, the last one first. -/
def Context.searchingNotes : Context :=
  { Context.ofMethod .get with
    params := [("text__icontains", "a"), ("__sort", "-id"), ("version__in", "[1,2]")] }

/-- The collection of notes, where a parameter of the path stands for a column. -/
def Config.notesById : Config Unit :=
  { Config.ofModel Unit .notes .note with
    lookupMap := some [("note", .column "id"), ("tenant", .ignore)] }

/-- The conditions of a request for notes. -/
def Predicate.onNotes : List Predicate :=
  [.like "text" "%a%" true, .isIn "version" [.int 1, .int 2]]

/-- A plan for notes, the last one first. -/
def Plan.searchedNotes : Plan where
  model := .note
  predicates := .eq "id" (.int 7) :: Predicate.onNotes
  sort := [⟨"id", true⟩]
  offset := none
  limit := none
  extra := []

theorem Config.exists_statements_searchingNotes :
    SchemaDecl.notes.resolve = .ok Config.notesById.schema ∧
    ∃ conditions, Sql.whereDraft .notes .searchedNotes 0 = .ok conditions ∧
      ∀ p ∈ [Plan.searchedNotes.window none (some 2),
          (Plan.searchedNotes.window none (some 2)).forOne,
          (Plan.searchedNotes.window none (some 2)).counting],
        Sql.select .notes p = .ok ⟨Sql.selectHead p ++
          (Sql.Draft.prepare conditions).statement ++ Sql.selectTail p,
            (Sql.Draft.prepare conditions).params⟩ ∧
        Sql.count .notes p = .ok ⟨Sql.countHead p ++
          (Sql.Draft.prepare conditions).statement, (Sql.Draft.prepare conditions).params⟩ := by
  have htargets : Config.notesById.lookup.Plain := by
    intro e he condition hlookup
    rcases List.mem_cons.1 he with rfl | he
    · cases hlookup
    · obtain rfl := List.mem_singleton.1 he
      cases hlookup
  have hlocated : ((Plan.ofModel notesById.model).withExtra notesById.extra).filterByPath
      notesById.lookup [("tenant", "x"), ("note", "7")] =
        .ok ((Plan.ofModel .note).filters [.eq "id" (.int 7)]) := rfl
  have hfilters : notesById.operators.ofParams notesById.model Context.searchingNotes.params =
      .ok Predicate.onNotes := rfl
  have hplan : (((Plan.ofModel .note).filters [.eq "id" (.int 7)]).filters
      Predicate.onNotes).sortFor notesById.model .searchingNotes notesById.defaultSort =
        .ok .searchedNotes := rfl
  exact ⟨SchemaDecl.resolve_notes,
    exists_statements rfl rfl htargets hlocated hfilters hplan ⟨none, some 2⟩⟩

end RecordApi
