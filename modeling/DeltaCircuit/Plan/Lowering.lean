import DeltaCircuit.Assoc
import DeltaCircuit.Diagnostic
import DeltaCircuit.Plan.RowFunction

/-!
# Plans as operators

A plan is lowered to operators that are appended to a circuit. Tables that exist are known by their
source and their schema.

* `Lowering` — the circuit so far, the tables, and the diagnostics.
* `Plan.lower` — appends the operators of a plan and gives the last one. When it fails, what it has
  appended stays.

A join keeps the rows whose key columns are present, indexes both inputs by the key, joins them,
checks what is left of the condition, and converts the columns. An aggregate without group keys
gives one row for the empty input too: the row of no rows, minus one copy of it for each row that
the aggregate gives.
-/

namespace DeltaCircuit

/-- A table of a program. -/
structure Table where
  source : OperatorId
  schema : Schema

/-- What lowering works on. -/
structure Lowering where
  circuit : Circuit
  tables : List (String × Table)
  diagnostics : List Diagnostic

/-- Steps of lowering, which keep what they have done when they fail. -/
abbrev Lower := ExceptT CompileError (StateM Lowering)

namespace Lower

/-- A result that needs no circuit. -/
def ofExcept {α : Type} (result : Except CompileError α) : Lower α := fun t => (result, t)

/-- Appends an operator. -/
def append (build : Circuit → Except CircuitError (Circuit × OperatorId)) :
    Lower OperatorId := fun t =>
  match build t.circuit with
  | .ok (circuit, id) => (.ok id, { t with circuit })
  | .error e => (.error (.circuit e), t)

def report (d : Diagnostic) : Lower Unit :=
  modify fun t => { t with diagnostics := t.diagnostics ++ [d] }

end Lower

/-! ### Diagnostics -/

/-- An order has no effect on a Z-set. -/
def orderIgnored : Diagnostic :=
  ⟨"Z001", .info, "ORDER BY has no effect on an unordered result and was dropped", some "Sort"⟩

/-- A join without keys. -/
def crossJoin : Diagnostic :=
  ⟨"Z002", .info, "join has no equality keys and is computed as a Cartesian product", some "Join"⟩

/-! ### Nodes -/

namespace Lower

/-- The source of a table, scanned under its own schema. -/
def scan (table : String) (schema : Schema) : Lower OperatorId := do
  match Assoc.get? (← get).tables table with
  | none => throw (.unknownTable table)
  | some found =>
    if found.schema.rowType = schema.rowType then return found.source
    else throw (.malformed (.scanSchema table))

def filter (input : OperatorId) (schema : Schema) (condition : ScalarExpr) :
    Lower OperatorId := do
  let function ← ofExcept (filterFunction schema condition)
  append (·.addFilter input function)

def project (input : OperatorId) (inputSchema : Schema) (exprs : List ScalarExpr)
    (schema : Schema) : Lower OperatorId := do
  let function ← ofExcept (projectFunction inputSchema exprs schema)
  append (·.addMap input function schema.rowType)

/-- Converts rows to another schema, if its row type is another one. -/
def conform (input : OperatorId) (source target : Schema) : Lower OperatorId := do
  if source.rowType = target.rowType then return input
  let function ← ofExcept (conformFunction source target)
  append (·.addMap input function target.rowType)

/-! ### Joins -/

/-- Splits the condition of a join. Only inner and cross joins have operators. -/
def joinCondition (type : JoinType) (condition : Option ScalarExpr) (left right : Schema) :
    Lower JoinCondition := do
  if type ≠ .inner ∧ type ≠ .cross then throw (.unsupported (.outerJoin type))
  let condition ←
    match condition with
    | some e => ofExcept (e.joinCondition ⟨left.width, right.width⟩)
    | none => pure ⟨[], none⟩
  if condition.keys.isEmpty then report crossJoin
  return condition

/-- Keeps the rows whose key columns are present and indexes them by the key. -/
def indexByKey (input : OperatorId) (schema : Schema) (columns : List Nat) (types : List Ty) :
    Lower OperatorId := do
  let nullable := columns.filter schema.isNullable
  let input ←
    if nullable.isEmpty then pure input
    else do
      let function ← ofExcept (presenceFunction schema nullable)
      append (·.addFilter input function)
  let function ← ofExcept (keyFunction schema columns types)
  append (·.addIndex input function (.tuple types) schema.rowType)

/-- Joins two inputs on a split condition. -/
def join (left right : OperatorId) (leftSchema rightSchema : Schema) (condition : JoinCondition)
    (schema : Schema) : Lower OperatorId := do
  let types := condition.keys.map JoinKey.type
  let leftIndex ← indexByKey left leftSchema (condition.keys.map JoinKey.leftColumn) types
  let rightIndex ← indexByKey right rightSchema (condition.keys.map JoinKey.rightColumn) types
  let joinedSchema := leftSchema.append rightSchema
  let keyType := Ty.tuple types
  let function ← ofExcept (joinFunction keyType leftSchema rightSchema joinedSchema)
  let joined ← append (·.addJoin leftIndex rightIndex function keyType joinedSchema.rowType)
  let kept ←
    match condition.residual with
    | some residual => filter joined joinedSchema residual
    | none => pure joined
  conform kept joinedSchema schema

/-! ### Aggregates -/

/-- The types of the group keys. -/
def groupKeyTypes (schema : Schema) (groupKeys : List Nat) : Except CompileError (List Ty) :=
  groupKeys.mapM fun column =>
    match schema.types[column]? with
    | some type => .ok type
    | none => .error (.malformed (.noGroupColumn column))

/-- Adds the row of no rows to an aggregate without group keys where it gives no row. -/
def orDefaultRow (aggregated : OperatorId) (calls : List AggregateCall) (schema : Schema) :
    Lower OperatorId := do
  let row ← ofExcept (emptyGroupRow calls)
  let literal ← ofExcept (ofTerm ((ZSetLiteral.empty schema.rowType).addElement row 1))
  let constant ← append (·.addConstant literal)
  let function ← ofExcept (constantFunction schema row)
  let present ← append (·.addMap aggregated function schema.rowType)
  let missing ← append (·.addSubtract constant present)
  append (·.addSum [aggregated, missing])

def aggregate (input : OperatorId) (inputSchema : Schema) (groupKeys : List Nat)
    (calls : List AggregateCall) (schema : Schema) : Lower OperatorId := do
  let keyType := Ty.tuple (← ofExcept (groupKeyTypes inputSchema groupKeys))
  let rowType := inputSchema.rowType
  let indexFunction ← ofExcept (groupFunction inputSchema groupKeys)
  let indexed ← append (·.addIndex input indexFunction keyType rowType)
  let (fold, resultType) ← ofExcept (foldFunction keyType rowType calls)
  let folded ← append (·.addAggregate indexed fold keyType resultType)
  let flatten ← ofExcept
    (flattenFunction keyType resultType groupKeys.length calls.length schema)
  let aggregated ← append (·.addMap folded flatten schema.rowType)
  if groupKeys.isEmpty then orDefaultRow aggregated calls schema else return aggregated

/-! ### Set operations -/

/-- Indexes rows by themselves. -/
def indexByRow (input : OperatorId) (schema : Schema) : Lower OperatorId := do
  let function ← ofExcept (wholeRowFunction schema)
  append (·.addIndex input function schema.rowType .unit)

/-- Removes the rows of one more input. -/
def exceptOne (result input : OperatorId) : Lower OperatorId := do
  let removed ← append (·.addUnary .distinct input)
  append (·.addSubtract result removed)

/-- Keeps the rows of one more input. -/
def intersectOne (schema : Schema) (result input : OperatorId) : Lower OperatorId := do
  let other ← append (·.addUnary .distinct input)
  let left ← indexByRow result schema
  let right ← indexByRow other schema
  let function ← ofExcept (keyOnlyFunction schema)
  append (·.addJoin left right function schema.rowType schema.rowType)

/-- Combines the inputs of a set operation, which have the row type of the schema. -/
def setOp (operation : SetOperation) (inputs : List OperatorId) (schema : Schema) :
    Lower OperatorId := do
  match operation, inputs with
  | _, [] => throw (.malformed (.noInputs operation))
  | .unionAll, inputs => append (·.addSum inputs)
  | .union, inputs =>
    let sum ← append (·.addSum inputs)
    append (·.addUnary .distinct sum)
  | .except, first :: rest =>
    let result ← rest.foldlM exceptOne (← append (·.addUnary .distinct first))
    append (·.addUnary .distinct result)
  | .intersect, first :: rest =>
    let result ← rest.foldlM (intersectOne schema) (← append (·.addUnary .distinct first))
    append (·.addUnary .distinct result)

end Lower

/-! ### Plans -/

namespace Plan

mutual

/-- Appends the operators of a plan. -/
def lower : Plan → Lower OperatorId
  | .scan table schema => Lower.scan table schema
  | .filter input condition _ => do
    let source ← input.lower
    Lower.filter source input.schema condition
  | .project input exprs schema => do
    let source ← input.lower
    Lower.project source input.schema exprs schema
  | .join left right type condition schema => do
    let condition ← Lower.joinCondition type condition left.schema right.schema
    let leftSource ← left.lower
    let rightSource ← right.lower
    Lower.join leftSource rightSource left.schema right.schema condition schema
  | .aggregate input groupKeys calls schema => do
    let source ← input.lower
    Lower.aggregate source input.schema groupKeys calls schema
  | .sort input _ _ => do
    let source ← input.lower
    Lower.report orderIgnored
    Lower.append (·.addUnary .noop source)
  | .limit _ fetch _ => throw (.unsupported (.limit fetch))
  | .setOp operation inputs schema => do
    let sources ← lowerAll schema inputs
    Lower.setOp operation sources schema
termination_by structural x => x

/-- Appends the operators of plans, each converted to a schema. -/
def lowerAll (schema : Schema) : List Plan → Lower (List OperatorId)
  | [] => return []
  | input :: inputs => do
    let source ← input.lower
    let source ← Lower.conform source input.schema schema
    let sources ← lowerAll schema inputs
    return source :: sources
termination_by structural x => x

end

end Plan
end DeltaCircuit
