import RecordApi.Proofs.Sql.Token

/-!
# How a condition is read

The tokens of a text are put in groups by their parentheses (`nest`). A group is read where it
closes, as the condition or as the query that it may be. A condition is read by its operators, of
which `OR` binds least, then `AND`, then `NOT`: it is split at each `OR`, what is between two of
them at each `AND`, and what is then left is a single condition, which may be negated.
-/

namespace RecordApi.Sql

/-- A column of the rows with an alias. -/
structure Field where
  source : String
  column : String
  deriving DecidableEq

/-- A condition as it is read, with the numbers of the markers for its values. -/
inductive Reading where
  | isNull (field : Field)
  | notNull (field : Field)
  | equal (field : Field) (number : Nat)
  | like (field : Field) (number : Nat) (ignoresCase : Bool)
  | compare (field : Field) (comparison : Comparison) (number : Nat)
  | isIn (field : Field) (numbers : List Nat)
  | same (field other : Field)
  | all (readings : List Reading)
  | any (readings : List Reading)
  | not (reading : Reading)
  | present (table : List String) (source : String) (reading : Reading)

/-- Several conditions under an operator; a single one stands for itself. -/
def Reading.under (operator : List Reading → Reading) : List Reading → Reading
  | [r] => r
  | rs => operator rs

/-- Rows of a table under an alias, with the condition on them. -/
structure Query where
  table : List String
  source : String
  reading : Reading

/-- A part of a text: a token, or a group in parentheses with what it is read as. -/
inductive Part where
  | token (t : Token)
  | group (parts : List Part) (condition : Option Reading) (query : Option Query)

/-- Whether a part is a certain token. -/
def Part.is (t : Token) : Part → Bool
  | .token u => u == t
  | .group _ _ _ => false

/-! ## Single conditions -/

/-- A marker with the type that it is cast to, if any. -/
def readMarker : List Part → Option Nat
  | [.token (.marker n)] => some n
  | [.token (.marker n), .token (.sign ':'), .token (.sign ':'), .token (.word _)] => some n
  | [.token (.marker n), .token (.sign ':'), .token (.sign ':'), .token (.word _),
      .token (.word _)] => some n
  | _ => none

/-- A value: a marker, or a geometry that is made from one. -/
def readOperand : List Part → Option Nat
  | [.token (.word "ST_SetSRID"), .group [.token (.word "ST_GeomFromGeoJSON"), .group parts _ _,
      .token (.sign ','), .token (.word "4326")] _ _] => readMarker parts
  | parts => readMarker parts

/-- A column, and what follows it. -/
def readField : List Part → Option (Field × List Part)
  | .token (.word source) :: .token (.sign '.') :: .token (.name column) :: rest =>
    some (⟨source, column⟩, rest)
  | _ => none

/-- What is said of a column behind it. -/
def readRelation (field : Field) : List Part → Option Reading
  | [.token (.word "IS"), .token (.word "NULL")] => some (.isNull field)
  | [.token (.word "IS"), .token (.word "NOT"), .token (.word "NULL")] => some (.notNull field)
  | .token (.sign ':') :: .token (.sign ':') :: .token (.word "text") ::
      .token (.word "LIKE") :: operand => (readMarker operand).map (.like field · false)
  | .token (.sign ':') :: .token (.sign ':') :: .token (.word "text") ::
      .token (.word "ILIKE") :: operand => (readMarker operand).map (.like field · true)
  | [.token (.word "IN"), .group parts _ _] =>
    ((parts.splitOnP (Part.is (.sign ','))).mapM readOperand).map (.isIn field)
  | .token (.sign '<') :: .token (.sign '=') :: operand =>
    (readOperand operand).map (.compare field .lessOrEqual)
  | .token (.sign '<') :: operand => (readOperand operand).map (.compare field .less)
  | .token (.sign '>') :: .token (.sign '=') :: operand =>
    (readOperand operand).map (.compare field .greaterOrEqual)
  | .token (.sign '>') :: operand => (readOperand operand).map (.compare field .greater)
  | .token (.sign '=') :: operand =>
    match readField operand with
    | some (other, []) => some (.same field other)
    | _ => (readOperand operand).map (.equal field)
  | _ => none

/-- A condition without `AND` and `OR` outside of groups. -/
def readFactor : List Part → Option Reading
  | .token (.word "NOT") :: rest => (readFactor rest).map .not
  | [.token (.word "TRUE")] => some (.all [])
  | [.token (.word "FALSE")] => some (.any [])
  | [.token (.word "EXISTS"), .group _ _ query] =>
    query.map fun q => .present q.table q.source q.reading
  | [.group _ condition _] => condition
  | parts => do
    let (field, rest) ← readField parts
    readRelation field rest

/-! ## Operators and queries -/

/-- A condition without `OR` outside of groups. -/
def readConjunction (parts : List Part) : Option Reading :=
  ((parts.splitOnP (Part.is (.word "AND"))).mapM readFactor).map (.under .all)

/-- A condition. -/
def readCondition (parts : List Part) : Option Reading :=
  ((parts.splitOnP (Part.is (.word "OR"))).mapM readConjunction).map (.under .any)

/-- A table, with its schema if it is named, and what follows it. -/
def readTable : List Part → Option (List String × List Part)
  | .token (.name schema) :: .token (.sign '.') :: .token (.name table) :: rest =>
    some ([schema, table], rest)
  | .token (.name table) :: rest => some ([table], rest)
  | _ => none

/-- The condition on the rows of a query. All rows are taken where there is none. -/
def readWhere : List Part → Option Reading
  | [] => some (.all [])
  | .token (.word "WHERE") :: rest => readCondition rest
  | _ => none

/-- The rows that a query is about, whatever it selects of them. -/
def readQuery (parts : List Part) : Option Query :=
  match parts.dropWhile fun p => !p.is (.word "FROM") with
  | [] => none
  | _ :: rest => do
    let (table, rest) ← readTable rest
    match rest with
    | .token (.word source) :: rest => (readWhere rest).map (⟨table, source, ·⟩)
    | _ => none

/-! ## Groups -/

/-- A group, read where it closes. -/
def Part.close (parts : List Part) : Part :=
  .group parts (readCondition parts) (readQuery parts)

/-- The tokens in groups, where `parts` were read in the innermost group that is open, and `outer`
in the others. -/
def nest (parts : List Part) (outer : List (List Part)) : List Token → Option (List Part)
  | [] => if outer.isEmpty then some parts else none
  | t :: rest =>
    if t = .sign '(' then nest [] (parts :: outer) rest
    else if t = .sign ')' then
      match outer with
      | [] => none
      | before :: outer => nest (before ++ [.close parts]) outer rest
    else nest (parts ++ [.token t]) outer rest

/-- The parts of a text. -/
def parts? (s : String) : Option (List Part) := do
  let tokens ← tokens? s
  nest [] [] tokens

/-- The rows that a text asks for. -/
def readText (s : String) : Option Query := do
  let parts ← parts? s
  readQuery parts

end RecordApi.Sql
