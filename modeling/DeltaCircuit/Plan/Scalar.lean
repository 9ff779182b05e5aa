import DeltaCircuit.Expr.Text

/-!
# Scalar expressions of plans

Expressions over the columns of a row, as a query planner hands them over: columns by position,
every node with its type. `ScalarExpr.text` shows them in the notation of queries.
-/

namespace DeltaCircuit

/-- Functions and operators over columns. -/
inductive CallOp where
  | equals | notEquals | lessThan | lessThanOrEqual | greaterThan | greaterThanOrEqual
  | and | or | not
  | plus | minus | times | divide | mod | negate
  | isNull | isNotNull | concat
deriving DecidableEq

/-- The notation of an operator. -/
def CallOp.text : CallOp → String
  | .equals => "="
  | .notEquals => "<>"
  | .lessThan => "<"
  | .lessThanOrEqual => "<="
  | .greaterThan => ">"
  | .greaterThanOrEqual => ">="
  | .and => "AND"
  | .or => "OR"
  | .not => "NOT"
  | .plus => "+"
  | .minus => "-"
  | .times => "*"
  | .divide => "/"
  | .mod => "%"
  | .negate => "NEGATE"
  | .isNull => "IS NULL"
  | .isNotNull => "IS NOT NULL"
  | .concat => "||"

/-- A typed expression over the columns of a row. -/
inductive ScalarExpr where
  | column (index : Nat) (type : Ty)
  /-- A constant; `none` is NULL. -/
  | literal (value : Option Literal) (type : Ty)
  | call (op : CallOp) (operands : List ScalarExpr) (type : Ty)
  | cast (operand : ScalarExpr) (type : Ty)

namespace ScalarExpr

/-- The declared type of an expression. -/
def type : ScalarExpr → Ty
  | column _ t => t
  | literal _ t => t
  | call _ _ t => t
  | cast _ t => t

/-- The equality of two expressions, which may be NULL if one of them may. -/
def equals (left right : ScalarExpr) : ScalarExpr :=
  .call .equals [left, right] { Ty.bool with nullable := left.type.nullable || right.type.nullable }

/-- A call in the notation of queries. -/
def callText (op : CallOp) : List String → String
  | [operand] => op.text ++ "(" ++ operand ++ ")"
  | [left, right] => "(" ++ left ++ " " ++ op.text ++ " " ++ right ++ ")"
  | operands => op.text ++ "(" ++ commaSeparated operands ++ ")"

mutual

/-- The text of an expression. -/
def text : ScalarExpr → String
  | .column index _ => "$" ++ toString index
  | .literal none _ => "NULL"
  | .literal (some value) _ => value.text
  | .call op operands _ => callText op (texts operands)
  | .cast operand type => "CAST(" ++ operand.text ++ " AS " ++ type.text ++ ")"
termination_by structural x => x

def texts : List ScalarExpr → List String
  | [] => []
  | e :: es => e.text :: texts es
termination_by structural x => x

end

end ScalarExpr
end DeltaCircuit
