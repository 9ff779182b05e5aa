import DeltaCircuit.Expr.Build
import DeltaCircuit.Plan.Error

/-!
# Compiling scalar expressions

`ScalarExpr.compile` turns an expression over columns into one over a row variable; without a row
only constants can be compiled. Operands of arithmetic and comparisons are converted to their
common type first, each keeping its own nullability; arithmetic happens in that type, and its
result is then converted to the declared one.

`ScalarExpr.compilePredicate` makes a condition of it, in which NULL counts as false.
-/

namespace DeltaCircuit

/-- The binary operator of a call. -/
def CallOp.binary? : CallOp → Option BinaryOp
  | .equals => some (.comparison .eq)
  | .notEquals => some (.comparison .neq)
  | .lessThan => some (.comparison .lt)
  | .lessThanOrEqual => some (.comparison .lte)
  | .greaterThan => some (.comparison .gt)
  | .greaterThanOrEqual => some (.comparison .gte)
  | .and => some (.logical .and)
  | .or => some (.logical .or)
  | .plus => some (.arithmetic .add)
  | .minus => some (.arithmetic .sub)
  | .times => some (.arithmetic .mul)
  | .divide => some (.arithmetic .div)
  | .mod => some (.arithmetic .mod)
  | .concat => some .concat
  | .not | .negate | .isNull | .isNotNull => none

/-- The unary operator of a call. -/
def CallOp.unary? : CallOp → Option UnaryOp
  | .not => some .not
  | .negate => some .neg
  | .isNull => some .isNull
  | .isNotNull => some .isNotNull
  | _ => none

namespace Expr

/-- Converts an expression to the kind of a type, with its own nullability. -/
def promote (e : Expr) (target : Ty) : Except TermError Expr := do
  let own ← e.requireType
  castIfNeeded e (← target.withNullable own.nullable)

/-- A binary operation of a plan with its declared type. -/
def compileBinary (op : BinaryOp) (left right : Expr) (type : Ty) : Except TermError Expr :=
  match op with
  | .logical _ => binary op left right type
  | op => do
    let leftType ← left.requireType
    let rightType ← right.requireType
    let common ← leftType.deref.unify rightType.deref
    let left ← left.promote common
    let right ← right.promote common
    match op with
    | .comparison _ => binary op left right type
    | op =>
      let result ← binary op left right common
      castIfNeeded result type

end Expr

namespace ScalarExpr

/-- A call on compiled operands. -/
def compileCall (op : CallOp) (operands : List Expr) (type : Ty) : Except CompileError Expr :=
  match op.binary?, op.unary?, operands with
  | some binary, _, [left, right] => ofTerm (Expr.compileBinary binary left right type)
  | _, some unary, [operand] => ofTerm (Expr.unary unary operand type)
  | _, _, _ => .error (.malformed (.operandCount op operands.length))

/-- A column of a row, which has to have the declared type. -/
def compileColumn (row : Option Expr) (index : Nat) (type : Ty) : Except CompileError Expr := do
  match row with
  | none => throw (.malformed (.columnInConstant index))
  | some row =>
    let field ← ofTerm (Expr.field row index)
    let found ← ofTerm field.requireType
    if found = type then return field
    else throw (.malformed (.columnType index type found))

mutual

/-- Compiles an expression over the columns of a row. -/
def compile (row : Option Expr) : ScalarExpr → Except CompileError Expr
  | .column index type => compileColumn row index type
  | .literal value type => ofTerm (Expr.literal value type)
  | .cast operand type => do
    let operand ← operand.compile row
    ofTerm (Expr.castIfNeeded operand type)
  | .call op operands type => do
    let operands ← compileAll row operands
    compileCall op operands type
termination_by structural x => x

/-- Compiles expressions from left to right. -/
def compileAll (row : Option Expr) : List ScalarExpr → Except CompileError (List Expr)
  | [] => .ok []
  | e :: es => do
    let compiled ← e.compile row
    let rest ← compileAll row es
    return compiled :: rest
termination_by structural x => x

end

/-- Compiles a condition, in which NULL counts as false. -/
def compilePredicate (row : Option Expr) (e : ScalarExpr) : Except CompileError Expr := do
  let compiled ← e.compile row
  let type ← ofTerm compiled.requireType
  if !type.isBool then
    throw (.term (.mismatch (.predicate e.text) (.words "bool") (.type type)))
  if type.nullable then ofTerm (Expr.unary .wrapBool compiled .bool) else return compiled

end ScalarExpr
end DeltaCircuit
