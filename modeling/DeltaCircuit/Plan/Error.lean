import DeltaCircuit.Circuit.Error
import DeltaCircuit.Plan.Basic

/-!
# Errors of compilation

`CompileError` lists why a plan or a program cannot be compiled. Errors of expressions and of
circuits keep their causes. `CompileError.message` is the only place that words a reason.
-/

namespace DeltaCircuit

/-- What is wrong with a plan that is put together wrongly. -/
inductive PlanDefect where
  | operandCount (op : CallOp) (count : Nat)
  | columnInConstant (index : Nat)
  | columnType (index : Nat) (declared found : Ty)
  | joinColumn (index total : Nat)
  | noArgument (call : AggregateCall)
  | notNullable (call : AggregateCall)
  | rowWidth (values columns : Nat)
  | scanSchema (table : String)
  | noGroupColumn (index : Nat)
  | noInputs (operation : SetOperation)

/-- A construct that has no circuit. -/
inductive Unsupported where
  | limit (fetch : Nat)
  | outerJoin (type : JoinType)

/-- Why a plan or a program cannot be compiled. -/
inductive CompileError where
  | unsupported (construct : Unsupported)
  | unknownTable (name : String)
  | duplicateTable (name : String)
  | duplicateView (name : String)
  | emptyJoinCondition
  | malformed (defect : PlanDefect)
  | term (cause : TermError)
  | circuit (cause : CircuitError)

def Unsupported.text : Unsupported → String
  | .limit fetch => "LIMIT " ++ toString fetch
  | .outerJoin type => type.text ++ " JOIN"

/-- The part of a plan that is wrong. -/
def PlanDefect.place : PlanDefect → String
  | .operandCount op _ => "call " ++ op.text
  | .columnInConstant index => "column $" ++ toString index
  | .columnType index _ _ => "column $" ++ toString index
  | .joinColumn index _ => "join condition column $" ++ toString index
  | .noArgument call => "aggregate " ++ call.text
  | .notNullable call => "aggregate " ++ call.text
  | .rowWidth _ _ => "row"
  | .scanSchema table => "scan of " ++ table
  | .noGroupColumn _ => "Aggregate"
  | .noInputs operation => operation.text

/-- What is wrong with it. -/
def PlanDefect.reason : PlanDefect → String
  | .operandCount _ count => "unexpected operand count " ++ toString count
  | .columnInConstant _ => "column reference in a constant expression"
  | .columnType _ declared found =>
    "declared as " ++ declared.text ++ " but the row holds " ++ found.text
  | .joinColumn _ total => "join inputs have only " ++ toString total ++ " columns"
  | .noArgument _ => "missing argument column"
  | .notNullable _ => "result over an empty input must be nullable"
  | .rowWidth values columns =>
    toString values ++ " values for " ++ toString columns ++ " columns"
  | .scanSchema _ => "schema differs from the table definition"
  | .noGroupColumn index => "no group column $" ++ toString index
  | .noInputs _ => "no inputs"

namespace CompileError

def category : CompileError → ErrorCategory
  | unsupported _ => .unimplemented
  | term cause => cause.category
  | circuit cause => cause.category
  | _ => .malformed

/-- The wording of an error, with its code. -/
def message : CompileError → String
  | unsupported construct => "[CP001] Unsupported construct: " ++ construct.text
  | unknownTable name => "[CP002] Unknown table: " ++ name
  | duplicateTable name => "[CP003] Duplicate table: " ++ name
  | duplicateView name => "[CP004] Duplicate view: " ++ name
  | emptyJoinCondition => "[CP005] Empty join condition"
  | malformed defect => "[CP006] Malformed " ++ defect.place ++ ": " ++ defect.reason
  | term cause => "[CP011] " ++ cause.message
  | circuit cause => "[CP012] " ++ cause.message

end CompileError

/-- A result about expressions as a result about plans. -/
def ofTerm {α : Type} (result : Except TermError α) : Except CompileError α :=
  result.mapError .term

end DeltaCircuit
