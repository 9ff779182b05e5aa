import DeltaCircuit.Expr.Equality
import DeltaCircuit.Expr.Text
import DeltaCircuit.ZSetLiteral

/-!
# Operators

An operator of a circuit reads the outputs of other operators and gives a stream of Z-sets. Its
kind says what it does, some kinds apply a function to rows, and the type of the output and the
multiset flag are derived when it is inserted into a circuit.

* `OperatorKind.arity` — how many inputs a kind reads.
* `OperatorKind.requiresFunction` — whether a kind applies a function.
* `Operator.shallowSame` — the same operator apart from its inputs, down to the function node.
-/

namespace DeltaCircuit

/-- The position of an operator in its circuit. -/
abbrev OperatorId := Nat

/-- The name of the stream that an operator gives. -/
def streamName (id : OperatorId) : String := "stream" ++ toString id

/-! ### Kinds -/

/-- What an operator does. -/
inductive OperatorKind where
  /-- The rows of an input table. -/
  | source (table : String) (element : Ty)
  | constant (value : ZSetLiteral)
  /-- Applies a function to every row. -/
  | map (outputElement : Ty)
  /-- Keeps the rows for which a function is true. -/
  | filter
  /-- Makes pairs of a key and a value out of rows. -/
  | index (keyType valueType : Ty)
  /-- Folds the values of every key. -/
  | aggregate (keyType outputElement : Ty)
  /-- Combines the values of equal keys. -/
  | join (keyType outputElement : Ty)
  | sum
  | subtract
  | negate
  /-- Weight one for every positive weight. -/
  | distinct
  /-- The running sum over time. -/
  | integral
  /-- The difference from the step before. -/
  | differential
  | noop
  /-- A named output. -/
  | sink (name query : String) (comment : Option String)

/-- How many inputs a kind reads. -/
inductive Arity where
  | exactly (count : Nat)
  | atLeast (count : Nat)
deriving DecidableEq

namespace Arity

def accepts : Arity → Nat → Bool
  | exactly n, count => count = n
  | atLeast n, count => n ≤ count

def text : Arity → String
  | exactly n => toString n
  | atLeast n => "at least " ++ toString n

end Arity

namespace OperatorKind

/-- The name of the operation in texts of circuits. -/
def name : OperatorKind → String
  | source _ _ => "source"
  | constant _ => "constant"
  | map _ => "map"
  | filter => "filter"
  | index _ _ => "index_with"
  | aggregate _ _ => "stream_aggregate"
  | join _ _ => "stream_join"
  | sum => "sum"
  | subtract => "minus"
  | negate => "neg"
  | distinct => "distinct"
  | integral => "integrate"
  | differential => "differentiate"
  | noop => "noop"
  | sink _ _ _ => "inspect"

def arity : OperatorKind → Arity
  | source _ _ | constant _ => .exactly 0
  | join _ _ | subtract => .exactly 2
  | sum => .atLeast 1
  | map _ | filter | index _ _ | aggregate _ _ | negate | distinct | integral | differential
  | noop | sink _ _ _ => .exactly 1

def requiresFunction : OperatorKind → Bool
  | map _ | filter | index _ _ | aggregate _ _ | join _ _ => true
  | _ => false

/-- Equality of kinds. Constants are compared as Z-sets, whatever the order of their entries. -/
def same : OperatorKind → OperatorKind → Bool
  | source t e, source t' e' => t == t' && e == e'
  | constant z, constant z' => z.equal z'
  | map o, map o' => o == o'
  | filter, filter => true
  | index k v, index k' v' => k == k' && v == v'
  | aggregate k o, aggregate k' o' => k == k' && o == o'
  | join k o, join k' o' => k == k' && o == o'
  | sum, sum | subtract, subtract | negate, negate | distinct, distinct | integral, integral
  | differential, differential | noop, noop => true
  | sink n q c, sink n' q' c' => n == n' && q == q' && c == c'
  | _, _ => false

def isSource : OperatorKind → Bool
  | source _ _ => true
  | _ => false

def isSink : OperatorKind → Bool
  | sink _ _ _ => true
  | _ => false

def isNoop : OperatorKind → Bool
  | noop => true
  | _ => false

/-- The table that a source reads. -/
def table? : OperatorKind → Option String
  | source table _ => some table
  | _ => none

/-- The name of a sink. -/
def sinkName? : OperatorKind → Option String
  | sink name _ _ => some name
  | _ => none

end OperatorKind

/-! ### Operators -/

/-- A node of a circuit. -/
structure Operator where
  kind : OperatorKind
  inputs : List OperatorId
  function : Option Expr
  outputType : Ty
  /-- Whether weights of the output may be greater than one. -/
  isMultiset : Bool

namespace Operator

def name (op : Operator) : String := op.kind.name

/-- The operator with other inputs. -/
def withInputs (op : Operator) (inputs : List OperatorId) : Operator := { op with inputs }

/-- The operator with another function. -/
def withFunction (op : Operator) (function : Expr) : Operator :=
  { op with function := some function }

/-- Whether two optional functions are the same node or both absent. -/
def sameFunction : Option Expr → Option Expr → Bool
  | none, none => true
  | some f, some g => f.sameNode g
  | _, _ => false

/-- Whether two operators are the same apart from their inputs. -/
def shallowSame (a b : Operator) : Bool :=
  sameFunction a.function b.function && a.kind.same b.kind && a.isMultiset == b.isMultiset &&
    a.outputType == b.outputType

end Operator
end DeltaCircuit
