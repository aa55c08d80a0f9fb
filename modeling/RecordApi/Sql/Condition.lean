import RecordApi.Query.Predicate
import RecordApi.Sql.Statement
import RecordApi.Store.Error

/-!
# Conditions of statements

A predicate on the records of a model as a condition on rows (`Condition.ofPredicate`): its columns
are checked against the model, and each subquery gets a name of its own. `Condition.draft` writes a
condition and binds its values in the order in which they stand.
-/

namespace RecordApi.Sql

/-- The name of the rows that a query goes over. -/
inductive Alias where
  | main
  | sub (number : Nat)
  deriving DecidableEq

/-- The word for an alias. -/
def Alias.word : Alias → String
  | .main => "main"
  | .sub number => "sub" ++ number.repr

/-- A column of the rows with an alias. -/
structure ColumnRef where
  source : Alias
  column : Column

/-- A way from the rows of one query to those of a subquery. -/
structure Join where
  target : Model
  inner : Alias
  remoteColumn : String
  outer : Alias
  localColumn : String

/-- A condition on a row. -/
inductive Condition where
  | isNull (column : ColumnRef)
  | notNull (column : ColumnRef)
  | equal (column : ColumnRef) (value : Value)
  | like (column : ColumnRef) (pattern : String) (ignoresCase : Bool)
  | compare (column : ColumnRef) (comparison : Comparison) (value : Value)
  | isIn (column : ColumnRef) (values : List Value)
  | all (conditions : List Condition)
  | any (conditions : List Condition)
  | not (condition : Condition)
  | linked (join : Join) (condition : Condition)

/-- The column of a model with a name. -/
def columnOf (m : Model) (name : String) : Except StoreError Column :=
  match m.column? name with
  | some c => .ok c
  | none => .error (.unsupported (.noColumn m.name name))

/-- The relationship of a model with a name, and its target. -/
def relationshipOf (schema : Schema) (m : Model) (name : String) :
    Except StoreError (Relationship × Model) :=
  match m.relationship? name with
  | none => .error (.unsupported (.noRelationship m.name name))
  | some r =>
    match schema.model? r.target with
    | none => .error (.unknownModel r.target)
    | some target => .ok (r, target)

namespace Condition

mutual

/-- The condition of a predicate on rows with an alias, and the number of subqueries so far, which
`used` is the start of. -/
def ofPredicate (schema : Schema) (m : Model) (source : Alias) (used : Nat) :
    Predicate → Except StoreError (Condition × Nat)
  | .eq name value => do
    let c ← columnOf m name
    pure (if value.isNull then .isNull ⟨source, c⟩ else .equal ⟨source, c⟩ value, used)
  | .isNull name => do
    let c ← columnOf m name
    pure (.isNull ⟨source, c⟩, used)
  | .notNull name => do
    let c ← columnOf m name
    pure (.notNull ⟨source, c⟩, used)
  | .like name pattern ignoresCase => do
    let c ← columnOf m name
    pure (.like ⟨source, c⟩ pattern ignoresCase, used)
  | .compare name comparison value => do
    let c ← columnOf m name
    pure (.compare ⟨source, c⟩ comparison value, used)
  | .isIn name values => do
    let c ← columnOf m name
    pure (.isIn ⟨source, c⟩ values, used)
  | .all predicates => do
    let (conditions, used) ← ofPredicates schema m source used predicates
    pure (.all conditions, used)
  | .any predicates => do
    let (conditions, used) ← ofPredicates schema m source used predicates
    pure (.any conditions, used)
  | .not predicate => do
    let (condition, used) ← ofPredicate schema m source used predicate
    pure (.not condition, used)
  | .linked name predicate => do
    let (r, target) ← relationshipOf schema m name
    let inner := Alias.sub (used + 1)
    let (condition, used) ← ofPredicate schema target inner (used + 1) predicate
    pure (.linked ⟨target, inner, r.remoteColumn, source, r.localColumn⟩ condition, used)

/-- The conditions of several predicates. -/
def ofPredicates (schema : Schema) (m : Model) (source : Alias) (used : Nat) :
    List Predicate → Except StoreError (List Condition × Nat)
  | [] => .ok ([], used)
  | p :: rest => do
    let (condition, used) ← ofPredicate schema m source used p
    let (conditions, used) ← ofPredicates schema m source used rest
    pure (condition :: conditions, used)

end

end Condition

/-! ## Writing -/

/-- A name in the rows with an alias. -/
def qualified (source : Alias) (name : String) : Statement :=
  [.words (source.word ++ "."), .name name]

/-- A marker for a value of a column, cast to its type. -/
def placeholder (c : Column) (value : Value) : Draft Statement := do
  let marker ← Draft.marked (.ofValue c.type value)
  pure (match c.type with
    | .geometry _ _ =>
      [.words "ST_SetSRID(ST_GeomFromGeoJSON(", marker, .words "::text), 4326)"]
    | .other _ => [marker]
    | type => [marker, .words ("::" ++ type.cast)])

/-- The rows of a subquery that belong to a row of the outer query. -/
def Join.pieces (j : Join) : Statement :=
  Statement.table j.target ++ [.words (" " ++ j.inner.word ++ " WHERE ")] ++
    qualified j.inner j.remoteColumn ++ [.words " = "] ++ qualified j.outer j.localColumn

namespace ColumnRef

/-- A column as it is named in a condition. -/
def pieces (r : ColumnRef) : Statement :=
  qualified r.source r.column.name

end ColumnRef

namespace Condition

/-- Conditions in parentheses with a word between them, or the word for none. -/
def group (between none : String) (parts : List Statement) : Statement :=
  if parts.isEmpty then [.words none]
  else [.words "("] ++ Statement.join between parts ++ [.words ")"]

mutual

/-- A condition as it is written. All of no conditions is `TRUE`, any of none `FALSE`. -/
def draft : Condition → Draft Statement
  | .isNull c => pure (c.pieces ++ [.words " IS NULL"])
  | .notNull c => pure (c.pieces ++ [.words " IS NOT NULL"])
  | .equal c value => do
    let operand ← placeholder c.column value
    pure (c.pieces ++ [.words " = "] ++ operand)
  | .like c pattern ignoresCase => do
    let marker ← Draft.marked (.text pattern)
    pure (c.pieces ++ [.words (if ignoresCase then "::text ILIKE " else "::text LIKE "), marker,
      .words "::text"])
  | .compare c comparison value => do
    let operand ← placeholder c.column value
    pure (c.pieces ++ [.words (" " ++ comparison.sign ++ " ")] ++ operand)
  | .isIn c values =>
    if values.isEmpty then pure [.words "FALSE"]
    else do
      let operands ← values.mapM (placeholder c.column)
      pure (c.pieces ++ [.words " IN ("] ++ Statement.join ", " operands ++ [.words ")"])
  | .all conditions => do
    let parts ← drafts conditions
    pure (group " AND " "TRUE" parts)
  | .any conditions => do
    let parts ← drafts conditions
    pure (group " OR " "FALSE" parts)
  | .not condition => do
    let part ← draft condition
    pure ([.words "NOT ("] ++ part ++ [.words ")"])
  | .linked join condition => do
    let part ← draft condition
    pure ([.words "EXISTS (SELECT 1 FROM "] ++ join.pieces ++ [.words " AND "] ++ part ++
      [.words ")"])

/-- Several conditions as they are written. -/
def drafts : List Condition → Draft (List Statement)
  | [] => pure []
  | c :: rest => do
    let part ← draft c
    let parts ← drafts rest
    pure (part :: parts)

end

end Condition

end RecordApi.Sql
