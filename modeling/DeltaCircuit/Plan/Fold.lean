import DeltaCircuit.Circuit.Basic
import DeltaCircuit.Plan.Error

/-!
# Folding groups

Aggregates are computed by one loop over the rows of a group and their weights. Every aggregate
has one or two accumulators that each round of the loop updates.

* `foldFunction` — the function of an aggregating operator.
* `emptyGroupRow` — the aggregates of no rows: zero for counts and NULL for all else.
-/

namespace DeltaCircuit

/-! ### A row of a group -/

/-- The row that the loop looks at. -/
def groupRow (rowType : Ty) : Expr := Expr.var "v" (.byRef rowType)

/-- The weight of that row, as a type. -/
def weightAs (type : Ty) : Except TermError Expr := do
  Expr.castIfNeeded (← Expr.deref (Expr.var "w" (.byRef .weight))) type

/-- The weight, or zero where a column is NULL. -/
def weightIfPresent (row : Expr) (column : Nat) (type : Ty) : Except TermError Expr := do
  let weight ← weightAs type
  let value ← Expr.field row column
  if !(← value.requireType).nullable then return weight
  let isNull ← Expr.unary .isNull value .bool
  Expr.ifElse isNull (← type.zero) (some weight)

/-- A column times the weight, in a type. -/
def weightedColumn (row : Expr) (column : Nat) (type : Ty) : Except TermError Expr := do
  let value ← Expr.castIfNeeded (← Expr.field row column) type
  Expr.binary (.arithmetic .mul) value (← weightAs type) type

/-! ### Accumulators -/

/-- A variable of the loop, with its initial value and its value after a round. -/
structure Accumulator where
  name : String
  type : Ty
  init : Expr
  update : Expr

namespace Accumulator

/-- The variable of an accumulator. -/
def value (a : Accumulator) : Expr := Expr.var a.name a.type

/-- An accumulator whose update is made from its own variable. -/
def make (name : String) (init : Expr) (update : Expr → Except TermError Expr) :
    Except TermError Accumulator := do
  let type ← init.requireType
  return ⟨name, type, init, ← update (Expr.var name type)⟩

def declaration (a : Accumulator) : Statement := .binding a.name a.init true

def assignment (a : Accumulator) : Except TermError Statement := do
  return .eval (← Expr.assign a.value a.update)

end Accumulator

/-- Adds to a sum of its type. -/
def addTo (sum addend : Expr) : Except TermError Expr := do
  Expr.binary (.arithmetic .add) sum addend (← sum.requireType)

/-- Combines an accumulator with a value by an operator that skips NULL. -/
def combineWith (op : AggregateOp) (acc value : Expr) : Except TermError Expr := do
  let type ← acc.requireType
  Expr.binary (.aggregate op) acc (← Expr.castIfNeeded value type) type

/-- The weights of the rows in which a column is present, or of all rows. -/
def countIncrement (row : Expr) (argument : Option Nat) (type : Ty) : Except TermError Expr :=
  match argument with
  | some column => weightIfPresent row column type
  | none => weightAs type

/-- The column that an aggregate is taken of. -/
def AggregateCall.requireArgument (call : AggregateCall) : Except CompileError Nat :=
  match call.argument with
  | some column => .ok column
  | none => .error (.malformed (.noArgument call))

/-- The accumulators of an aggregate and its result. -/
structure AggregatePlan where
  accumulators : List Accumulator
  result : Expr

/-- One accumulator, whose last value is the result. -/
def single (type : Ty) (acc : Accumulator) : Except TermError AggregatePlan := do
  return ⟨[acc], ← Expr.castIfNeeded acc.value type⟩

/-- The least or the greatest value of a column. -/
def planExtremum (op : AggregateOp) (name : String) (row : Expr) (column : Nat)
    (type nullable : Ty) : Except TermError AggregatePlan := do
  let acc ← Accumulator.make name (← Expr.null nullable) fun acc => do
    combineWith op acc (← Expr.field row column)
  single type acc

/-- The accumulator of the weighted sum of a column. -/
def sumAccumulator (name : String) (row : Expr) (column : Nat) (nullable : Ty) :
    Except TermError Accumulator := do
  Accumulator.make name (← Expr.null nullable) fun acc => do
    combineWith .plus acc (← weightedColumn row column nullable)

/-- The accumulators and the result of an aggregate at a position of the call list. -/
def AggregateCall.plan (call : AggregateCall) (position : Nat) (row : Expr) :
    Except CompileError AggregatePlan := do
  let nullable ← ofTerm (call.type.withNullable true)
  let name (stem : String) : String := stem ++ toString position
  match call.function with
  | .count => ofTerm do
    let acc ← Accumulator.make (name "count") (← call.type.zero) fun acc => do
      addTo acc (← countIncrement row call.argument call.type)
    return ⟨[acc], acc.value⟩
  | .sum =>
    let column ← call.requireArgument
    ofTerm do single call.type (← sumAccumulator (name "sum") row column nullable)
  | .min =>
    let column ← call.requireArgument
    ofTerm (planExtremum .min (name "min") row column call.type nullable)
  | .max =>
    let column ← call.requireArgument
    ofTerm (planExtremum .max (name "max") row column call.type nullable)
  | .avg =>
    let column ← call.requireArgument
    ofTerm do
      let sum ← sumAccumulator (name "avg_sum") row column nullable
      let count ← Accumulator.make (name "avg_count") (← Ty.weight.zero) fun acc => do
        addTo acc (← weightIfPresent row column .weight)
      let divisor ← Expr.castIfNeeded count.value nullable
      let average ← Expr.binary (.arithmetic .div) sum.value divisor nullable
      return ⟨[sum, count], ← Expr.castIfNeeded average call.type⟩

/-! ### The fold -/

/-- The plans of all aggregates. -/
def planAll (row : Expr) (calls : List AggregateCall) : Except CompileError (List AggregatePlan) :=
  calls.zipIdx.mapM fun (call, position) => call.plan position row

/-- The function `(&Key, &Vec<(Row, Weight)>) → (aggregates)`, and the type of its result. -/
def foldFunction (keyType rowType : Ty) (calls : List AggregateCall) :
    Except CompileError (Expr × Ty) := do
  let plans ← planAll (groupRow rowType) calls
  let accumulators := plans.flatMap AggregatePlan.accumulators
  ofTerm do
    let body := Expr.block (← accumulators.mapM Accumulator.assignment) none
    let group := Ty.byRef (Circuit.groupType rowType)
    let loop ← Expr.forLoop (.tuple [.identifier "v" false, .identifier "w" false])
      (Expr.var "g" group) body
    let result ← Expr.tuple (plans.map AggregatePlan.result)
    let resultType ← result.requireType
    let statements := accumulators.map Accumulator.declaration ++ [.eval loop]
    let function ← Expr.closure [.named "k" (.byRef keyType), .named "g" group]
      (Expr.block statements (some result))
    return (function, resultType)

/-- The value of an aggregate of no rows. -/
def AggregateCall.emptyValue (call : AggregateCall) : Except CompileError Expr :=
  match call.function with
  | .count => ofTerm call.type.zero
  | _ =>
    if call.type.nullable then ofTerm (Expr.null call.type)
    else .error (.malformed (.notNullable call))

/-- The aggregates of no rows. -/
def emptyGroupRow (calls : List AggregateCall) : Except CompileError Expr := do
  ofTerm (Expr.tuple (← calls.mapM AggregateCall.emptyValue))

end DeltaCircuit
