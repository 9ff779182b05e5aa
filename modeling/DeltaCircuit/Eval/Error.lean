import DeltaCircuit.Expr.Text
import DeltaCircuit.Value

/-!
# Errors of evaluation

`EvalError` lists why an expression has no value, or why an operator of a circuit has no output.
`EvalError.message` is the only place that words a reason.
-/

namespace DeltaCircuit

/-- Why an evaluation fails. -/
inductive EvalError where
  | weightOverflow
  | notPair (found : Value)
  | divisionByZero
  | overflow (op : ArithmeticOp) (left right : Int)
  | notArithmetic (op : BinaryOp)
  | notApplicable (op : BinaryOp) (left right : Value)
  | notComparable (left right : Value)
  | unaryNotApplicable (op : UnaryOp) (operand : Value)
  | notConvertible (text : String) (type : Ty)
  | unbound (name : String)
  | notClosure (function : Expr)
  | argumentCount (expected actual : Nat)
  | argumentMismatch (pattern : Pattern)
  | noField (index : Nat) (found : Value)
  /-- A field to assign to is missing. -/
  | noFieldToAssign (index : Nat)
  | notRowToAssign (found : Value)
  | notAssignable (target : Expr)
  | notEvaluable (expr : Expr)
  | closureIsNoValue
  | zsetIsNoRowValue
  | noArm (subject : Value)
  | notIterable (found : Value)
  | itemMismatch (item : Value) (pattern : Pattern)
  | notExpressible (value : Value) (type : Ty)
  /-- An operator reads from one that comes later or does not exist. -/
  | missingInput (operator : String)
  | missingFunction (operator : String)

/-- The wording of an error. -/
def EvalError.message : EvalError → String
  | .weightOverflow => "weight overflow"
  | .notPair found => "expected a (key, value) pair, found " ++ found.text
  | .divisionByZero => "division by zero"
  | .overflow op left right =>
    "overflow in " ++ toString left ++ " " ++ op.text ++ " " ++ toString right
  | .notArithmetic op => op.text ++ " is not arithmetic"
  | .notApplicable op left right =>
    "cannot apply " ++ op.text ++ " to " ++ left.text ++ " and " ++ right.text
  | .notComparable left right => "cannot compare " ++ left.text ++ " with " ++ right.text
  | .unaryNotApplicable op operand => "cannot apply " ++ op.text ++ " to " ++ operand.text
  | .notConvertible text type => "cannot cast " ++ Text.quote text ++ " to " ++ type.text
  | .unbound name => "unbound variable '" ++ name ++ "'"
  | .notClosure function => function.text ++ " is not a closure"
  | .argumentCount expected actual =>
    "closure takes " ++ toString expected ++ " argument(s), got " ++ toString actual
  | .argumentMismatch pattern => "argument does not match " ++ pattern.text
  | .noField index found => "no field " ++ toString index ++ " in " ++ found.text
  | .noFieldToAssign index => "no field " ++ toString index
  | .notRowToAssign found => "cannot assign a field of " ++ found.text
  | .notAssignable target => "cannot assign to " ++ target.text
  | .notEvaluable expr => "cannot evaluate " ++ expr.text
  | .closureIsNoValue => "closures are not values"
  | .zsetIsNoRowValue => "Z-set literals are not row values"
  | .noArm subject => "no case matches " ++ subject.text
  | .notIterable found => "cannot iterate over " ++ found.text
  | .itemMismatch item pattern => item.text ++ " does not match " ++ pattern.text
  | .notExpressible value type => "cannot express " ++ value.text ++ " as " ++ type.text
  | .missingInput operator => operator ++ " reads a missing input"
  | .missingFunction operator => operator ++ " has no function"

end DeltaCircuit
