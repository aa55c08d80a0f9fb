import RecordApi.Schema.Basic
import RecordApi.Sql.Bound
import RecordApi.Sql.Identifier

/-!
# Statements

A statement is a list of pieces: words, names, and markers for values that are bound. Its parts are
drafted one after the other (`Draft`), and each value that a part needs is bound behind those that
are bound already: its marker is its number. What is drafted and the values that it has bound make
up a prepared statement.
-/

namespace RecordApi.Sql

/-- A part of a statement. -/
inductive Piece where
  | words (text : String)
  | name (name : String)
  | marker (number : Nat)
  deriving DecidableEq

/-- The text of a part. -/
def Piece.text : Piece → String
  | .words w => w
  | .name n => quoteName n
  | .marker n => "$" ++ n.repr

/-- The parts of a statement in order. -/
abbrev Statement := List Piece

namespace Statement

/-- The text of a statement. -/
def text : Statement → String
  | [] => ""
  | p :: rest => p.text ++ text rest

/-- Statements with words between them. -/
def join (between : String) (parts : List Statement) : Statement :=
  List.intercalate [.words between] parts

/-- The table of a model, with its schema if it has one. -/
def table (m : Model) : Statement :=
  match m.schemaName with
  | some schema => [.name schema, .words ".", .name m.tableName]
  | none => [.name m.tableName]

end Statement

/-- A statement with the values that are bound to its markers. -/
structure Prepared where
  statement : Statement
  params : List Bound

/-- The text of a prepared statement. -/
def Prepared.text (q : Prepared) : String :=
  q.statement.text

/-- Something that is made while values are bound. -/
abbrev Draft (α : Type) := StateM (List Bound) α

namespace Draft

/-- Binds one more value, and marks its place by its number. -/
def marked (value : Bound) : Draft Piece := fun bound =>
  (.marker (bound.length + 1), bound ++ [value])

/-- A statement that is drafted from its beginning. -/
def prepare (draft : Draft Statement) : Prepared :=
  ⟨(draft.run []).1, (draft.run []).2⟩

end Draft

end RecordApi.Sql
