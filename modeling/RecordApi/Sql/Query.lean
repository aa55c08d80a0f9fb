import RecordApi.Query.Plan
import RecordApi.Sql.Condition

/-!
# Queries

The statements that fetch and count what a plan asks for. Values beside the records are subqueries,
numbered before those of the conditions.
-/

namespace RecordApi.Sql

/-- A column in the form in which it is read. -/
def readColumn (reference : Statement) (c : Column) : Statement :=
  match c.type with
  | .geometry _ _ => [.words "ST_AsGeoJSON("] ++ reference ++ [.words ")"]
  | .other _ => reference ++ [.words "::text"]
  | type => reference ++ [.words ("::" ++ type.cast)]

/-- All columns of a model under their names, where `reference` says how to refer to one. -/
def selectList (reference : String → Statement) (m : Model) : Statement :=
  Statement.join ", " (m.columns.map fun c =>
    readColumn (reference c.name) c ++ [.words " AS ", .name c.name])

/-- The conditions of a plan, where some subqueries stand before theirs. -/
def whereDraft (schema : Schema) (p : Plan) (used : Nat) : Except StoreError (Draft Statement) := do
  let (conditions, _) ← Condition.ofPredicates schema p.model .main used p.predicates
  if conditions.isEmpty then pure (pure [])
  else pure do
    let parts ← Condition.drafts conditions
    pure ([.words " WHERE "] ++ Statement.join " AND " parts)

/-- The subquery of a projection, with the number of its alias. -/
def projectionPieces (schema : Schema) (m : Model) (number : Nat) :
    Projection → Except StoreError Statement
  | .count name => do
    let (r, target) ← relationshipOf schema m name
    let join : Join := ⟨target, .sub number, r.remoteColumn, .main, r.localColumn⟩
    pure ([.words "(SELECT COUNT(*) FROM "] ++ join.pieces ++ [.words ")"])
  | .related name columnName => do
    let (r, target) ← relationshipOf schema m name
    let join : Join := ⟨target, .sub number, r.remoteColumn, .main, r.localColumn⟩
    let c ← columnOf target columnName
    let value := readColumn (qualified join.inner c.name) c
    if r.isToMany then
      pure ([.words "(SELECT COALESCE(json_agg("] ++ value ++ [.words "), '[]'::json) FROM "] ++
        join.pieces ++ [.words ")::jsonb"])
    else
      pure ([.words "(SELECT "] ++ value ++ [.words " FROM "] ++ join.pieces ++
        [.words " LIMIT 1)"])

/-- The name of the value of a projection. -/
def extraName (position : Nat) : String :=
  "__extra_" ++ position.repr

/-- The values beside the records, each under its name; `number` of them stand before. -/
def extraPieces (schema : Schema) (m : Model) (number : Nat) :
    List Projection → Except StoreError (List Statement)
  | [] => .ok []
  | p :: rest => do
    let value ← projectionPieces schema m (number + 1) p
    let values ← extraPieces schema m (number + 1) rest
    pure ((value ++ [.words " AS ", .name (extraName number)]) :: values)

/-- One key to sort by. -/
def sortPieces (m : Model) (key : SortKey) : Except StoreError Statement := do
  let _ ← columnOf m key.column
  pure (qualified .main key.column ++ if key.descending then [.words " DESC"] else [])

/-- A number with a word in front of it, or nothing. -/
def boundary (word : String) : Option Nat → Statement
  | some n => [.words (" " ++ word ++ " " ++ n.repr)]
  | none => []

/-- The statement that fetches what a plan asks for. -/
def select (schema : Schema) (p : Plan) : Except StoreError Prepared := do
  let extra ← extraPieces schema p.model 0 p.extra
  let conditions ← whereDraft schema p p.extra.length
  let sort ← p.sort.mapM (sortPieces p.model)
  let order := sort ++ [qualified .main p.model.primaryKey.name]
  pure (Draft.prepare do
    let conditions ← conditions
    pure ([.words "SELECT "] ++
      Statement.join ", " (selectList (qualified .main) p.model :: extra) ++
      [.words " FROM "] ++ Statement.table p.model ++ [.words " main"] ++ conditions ++
      [.words " ORDER BY "] ++ Statement.join ", " order ++
      boundary "LIMIT" p.limit ++ boundary "OFFSET" p.offset))

/-- The statement that counts the records that satisfy the conditions of a plan. -/
def count (schema : Schema) (p : Plan) : Except StoreError Prepared := do
  let conditions ← whereDraft schema p 0
  pure (Draft.prepare do
    let conditions ← conditions
    pure ([.words "SELECT COUNT(*) FROM "] ++ Statement.table p.model ++ [.words " main"] ++
      conditions))

end RecordApi.Sql
