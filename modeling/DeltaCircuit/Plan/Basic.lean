import DeltaCircuit.Plan.Scalar

/-!
# Relational plans

A plan is a tree of relational operators. Every node carries the schema of its output; columns are
referred to by position, and in a join the row is the left row followed by the right row.

* `Schema` — named, typed columns; `Schema.rowType` is the type of the rows.
* `Plan` — the tree.
* `Command` — a step of a program: a table, a view over a plan, or constant rows.
-/

namespace DeltaCircuit

/-! ### Schemas -/

/-- A named, typed column. -/
structure Column where
  name : String
  type : Ty
deriving DecidableEq

/-- The columns of a relation. -/
structure Schema where
  columns : List Column
deriving DecidableEq

namespace Schema

/-- The number of columns. -/
def width (s : Schema) : Nat := s.columns.length

def types (s : Schema) : List Ty := s.columns.map Column.type

/-- The type of the rows: a tuple of the column types. -/
def rowType (s : Schema) : Ty := .tuple s.types

/-- The columns of a row followed by those of another. -/
def append (left right : Schema) : Schema := ⟨left.columns ++ right.columns⟩

end Schema

/-! ### Parts of nodes -/

inductive AggregateFunction where
  | count | sum | min | max | avg
deriving DecidableEq

def AggregateFunction.text : AggregateFunction → String
  | .count => "COUNT"
  | .sum => "SUM"
  | .min => "MIN"
  | .max => "MAX"
  | .avg => "AVG"

/-- An aggregate of a column, or of whole rows, with its result type. -/
structure AggregateCall where
  function : AggregateFunction
  argument : Option Nat
  type : Ty
deriving DecidableEq

def AggregateCall.text (call : AggregateCall) : String :=
  call.function.text ++
    match call.argument with
    | some column => "($" ++ toString column ++ ")"
    | none => "(*)"

inductive JoinType where
  | inner | leftOuter | rightOuter | fullOuter | cross
deriving DecidableEq

def JoinType.text : JoinType → String
  | .inner => "INNER"
  | .leftOuter => "LEFT"
  | .rightOuter => "RIGHT"
  | .fullOuter => "FULL OUTER"
  | .cross => "CROSS"

inductive SetOperation where
  /-- A union without duplicates. -/
  | union
  | unionAll
  | intersect
  | except
deriving DecidableEq

def SetOperation.text : SetOperation → String
  | .union => "UNION"
  | .unionAll => "UNION ALL"
  | .intersect => "INTERSECT"
  | .except => "EXCEPT"

/-- A column to sort by. -/
structure SortKey where
  column : Nat
  ascending : Bool
deriving DecidableEq

/-! ### Plans -/

/-- A relational plan. -/
inductive Plan where
  | scan (table : String) (schema : Schema)
  | filter (input : Plan) (condition : ScalarExpr) (schema : Schema)
  | project (input : Plan) (exprs : List ScalarExpr) (schema : Schema)
  /-- The condition is over the left columns followed by the right columns. -/
  | join (left right : Plan) (type : JoinType) (condition : Option ScalarExpr) (schema : Schema)
  /-- The output columns are the group keys followed by the aggregates. -/
  | aggregate (input : Plan) (groupKeys : List Nat) (aggregates : List AggregateCall)
    (schema : Schema)
  | sort (input : Plan) (keys : List SortKey) (schema : Schema)
  | limit (input : Plan) (fetch : Nat) (schema : Schema)
  | setOp (operation : SetOperation) (inputs : List Plan) (schema : Schema)

namespace Plan

/-- The schema of the output. -/
def schema : Plan → Schema
  | scan _ s => s
  | filter _ _ s => s
  | project _ _ s => s
  | join _ _ _ _ s => s
  | aggregate _ _ _ s => s
  | sort _ _ s => s
  | limit _ _ s => s
  | setOp _ _ s => s

/-- The name of a node in diagnostics. -/
def name : Plan → String
  | scan _ _ => "Scan"
  | filter _ _ _ => "Filter"
  | project _ _ _ => "Project"
  | join _ _ _ _ _ => "Join"
  | aggregate _ _ _ _ => "Aggregate"
  | sort _ _ _ => "Sort"
  | limit _ _ _ => "Limit"
  | setOp _ _ _ => "SetOp"

end Plan

/-! ### Programs -/

/-- A row of constants. -/
abbrev ConstantRow := List ScalarExpr

/-- A step of a program. -/
inductive Command where
  | createTable (name : String) (schema : Schema)
  /-- A view keeps the text of its query. -/
  | createView (name query : String) (comment : Option String) (plan : Plan)
  | insert (table : String) (rows : List ConstantRow)
  | delete (table : String) (rows : List ConstantRow)

end DeltaCircuit
