import DeltaCircuit.Double.Arithmetic
import DeltaCircuit.Double.Reader
import DeltaCircuit.Eval.Error
import DeltaCircuit.Text.Blank

/-!
# Operations on values

The meaning of operators and conversions.

* `Value.arithmetic` — integers are exact, and a result outside 128 bits is an error; an integer
  next to a floating point number becomes one.
* `Value.comparison` — the total order of values of one sort; integers and floating point numbers
  are compared as numbers.
* `Value.logical` — three-valued logic.
* `Value.aggregate` — skips NULL.
* `Value.convert` — conversions between numbers, texts and booleans; anything else stays as it is.
-/

namespace DeltaCircuit

/-! ### Integers -/

/-- The least and the greatest integer value. -/
def leastInt : Int := -(Nat.pow 2 127 : Nat)

def greatestInt : Int := (Nat.pow 2 127 : Nat) - 1

def isIntValue (i : Int) : Bool := leastInt ≤ i && i ≤ greatestInt

/-- The exact result of an operation with a divisor other than zero. Division truncates toward
zero. -/
def ArithmeticOp.exact (op : ArithmeticOp) (l r : Int) : Int :=
  match op with
  | .add => l + r
  | .sub => l - r
  | .mul => l * r
  | .div => l.tdiv r
  | .mod => l.tmod r

/-- Whether an operation stays within the integer values. A remainder does if its quotient
does. -/
def ArithmeticOp.isExact (op : ArithmeticOp) (l r : Int) : Bool :=
  match op with
  | .mod => isIntValue (l.tdiv r)
  | op => isIntValue (op.exact l r)

def ArithmeticOp.onInts (op : ArithmeticOp) (l r : Int) : Except EvalError Int :=
  if (op = .div ∨ op = .mod) ∧ r = 0 then .error .divisionByZero
  else if op.isExact l r then .ok (op.exact l r)
  else .error (.overflow op l r)

def ArithmeticOp.onFloats : ArithmeticOp → Double → Double → Double
  | .add => Double.add
  | .sub => Double.sub
  | .mul => Double.mul
  | .div => Double.div
  | .mod => Double.rem

namespace Value

/-! ### Arithmetic -/

/-- Arithmetic on values other than NULL. -/
def arithmetic (op : ArithmeticOp) (left right : Value) : Except EvalError Value :=
  match left, right with
  | .scalar (.int l), .scalar (.int r) => (op.onInts l r).map int
  | .scalar (.int l), .scalar (.float r) => .ok (float (op.onFloats (Double.ofInt l) r))
  | .scalar (.float l), .scalar (.int r) => .ok (float (op.onFloats l (Double.ofInt r)))
  | .scalar (.float l), .scalar (.float r) => .ok (float (op.onFloats l r))
  | _, _ => .error (.notApplicable (.arithmetic op) left right)

/-- Whether a value is a number. -/
def isNumber : Value → Bool
  | .scalar (.int _) | .scalar (.float _) => true
  | _ => false

/-- Concatenation of texts. -/
def concat (left right : Value) : Except EvalError Value :=
  match left, right with
  | .scalar (.string l), .scalar (.string r) => .ok (string (l ++ r))
  | _, _ =>
    if left.isNumber && right.isNumber then .error (.notArithmetic .concat)
    else .error (.notApplicable .concat left right)

/-! ### Comparison and logic -/

/-- The order of two comparable values. -/
def compareWith (left right : Value) : Except EvalError Ordering :=
  match left, right with
  | .scalar (.int l), .scalar (.float r) => .ok ((Double.ofInt l).order r)
  | .scalar (.float l), .scalar (.int r) => .ok (l.order (Double.ofInt r))
  | _, _ =>
    if left.sortIndex = right.sortIndex then .ok (left.order right)
    else .error (.notComparable left right)

end Value

/-- Whether an operator holds of two values in a given order. -/
def ComparisonOp.holds : ComparisonOp → Ordering → Bool
  | .eq => Ordering.isEq
  | .neq => Ordering.isNe
  | .lt => Ordering.isLT
  | .lte => Ordering.isLE
  | .gt => Ordering.isGT
  | .gte => Ordering.isGE

/-- The truth value that decides an operation alone. -/
def LogicalOp.decisive : LogicalOp → Bool
  | .and => false
  | .or => true

namespace Value

def comparison (op : ComparisonOp) (left right : Value) : Except EvalError Value := do
  return bool (op.holds (← left.compareWith right))

/-- Three-valued logic. -/
def logical (op : LogicalOp) (left right : Value) : Except EvalError Value :=
  if left.isBool op.decisive || right.isBool op.decisive then .ok (bool op.decisive)
  else if left.isNull || right.isNull then .ok null
  else if left.isBool (!op.decisive) && right.isBool (!op.decisive) then .ok (bool (!op.decisive))
  else .error (.notApplicable (.logical op) left right)

/-- The operand that stands on the given side of the other one. -/
def extremum (op : ComparisonOp) (left right : Value) : Except EvalError Value := do
  return if op.holds (← left.compareWith right) then left else right

/-- Operators that skip NULL. -/
def aggregate (op : AggregateOp) (left right : Value) : Except EvalError Value :=
  if left.isNull then .ok right
  else if right.isNull then .ok left
  else
    match op with
    | .plus => arithmetic .add left right
    | .min => extremum .lte left right
    | .max => extremum .gte left right

/-- A binary operation. Arithmetic, concatenation and comparison with NULL give NULL. -/
def binary (op : BinaryOp) (left right : Value) : Except EvalError Value :=
  match op with
  | .logical op => logical op left right
  | .aggregate op => aggregate op left right
  | .comparison op => if left.isNull || right.isNull then .ok null else comparison op left right
  | .arithmetic op => if left.isNull || right.isNull then .ok null else arithmetic op left right
  | .concat => if left.isNull || right.isNull then .ok null else concat left right

/-- The negative of an integer; the least one is its own. -/
def negative (i : Int) : Int := if i = leastInt then leastInt else -i

/-- A unary operation. -/
def unary (op : UnaryOp) (operand : Value) : Except EvalError Value :=
  match op, operand with
  | .isNull, v => .ok (bool v.isNull)
  | .isNotNull, v => .ok (bool (!v.isNull))
  | .wrapBool, v => .ok (bool (v.isBool true))
  | _, .null => .ok .null
  | .not, .scalar (.bool b) => .ok (bool (!b))
  | .neg, .scalar (.int i) => .ok (int (negative i))
  | .neg, .scalar (.float d) => .ok (float d.neg)
  | .plus, .scalar (.int i) => .ok (int i)
  | .plus, .scalar (.float d) => .ok (float d)
  | op, v => .error (.unaryNotApplicable op v)

/-! ### Conversion -/

/-- Reads an integer, with blanks around it, within the integer values. -/
def readInt? (s : String) : Option Int :=
  (Text.readInt? (Text.trim s.toList)).filter isIntValue

/-- Reads a floating point number with blanks around it. -/
def readFloat? (s : String) : Option Double := Double.read? (Text.trim s.toList)

/-- The value of a text that has been read, or else an error. -/
def ofRead {α : Type} (make : α → Value) (s : String) (type : Ty) (value : Option α) :
    Except EvalError Value :=
  match value with
  | some a => .ok (make a)
  | none => .error (.notConvertible s type)

/-- Converts a value to a type. The range of an integer type is not checked. -/
def convert (value : Value) (type : Ty) : Except EvalError Value :=
  match type.kind, value with
  | .base (.integer _ _), .scalar (.float d) => .ok (int (d.truncate leastInt greatestInt))
  | .base (.integer _ _), .scalar (.bool b) => .ok (int b.toInt)
  | .base (.integer _ _), .scalar (.string s) => ofRead int s type (readInt? s)
  | .base (.float _), .scalar (.int i) => .ok (float (Double.ofInt i))
  | .base (.float _), .scalar (.string s) => ofRead float s type (readFloat? s)
  | .base .bool, .scalar (.int i) => .ok (bool (i ≠ 0))
  | kind, .scalar l =>
    if kind = .base .string || kind = .base .str then
      match l with
      | .int i => .ok (string (toString i))
      | .float d => .ok (string (d.text .plain))
      | .bool b => .ok (string (toString b))
      | l => .ok (.scalar l)
    else .ok (.scalar l)
  | _, value => .ok value

end Value
end DeltaCircuit
