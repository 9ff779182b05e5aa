import DeltaCircuit.Circuit.Operator
import DeltaCircuit.Eval.Error
import DeltaCircuit.Expr.Error

/-!
# Errors of circuits

`CircuitError` lists why an operator cannot be inserted into a circuit, or a circuit not be
rewired or run. Errors of expressions and of evaluations keep their causes.

`CircuitError.message` is the only place that words a reason.
-/

namespace DeltaCircuit

/-- What is wrong with an operator. -/
inductive Defect where
  | notClosure (function : Expr)
  | parameterCount (declared expected : Nat)
  | noResultType
  | freeVariables (names : List String)
  | functionMissing
  | functionUnexpected
  | multisetFlag
  /-- An input was left out of a new circuit, but is read. -/
  | inputDropped (input : OperatorId)
  /-- An input that a rewiring needs was left out of the new circuit. -/
  | inputGone (input : OperatorId)
  | sinkInputGone
  | nothingToSplice

/-- Why a circuit cannot be built, rewired or run. Operators are named by their operation. -/
inductive CircuitError where
  | arity (operator : String) (expected : Arity) (actual : Nat)
  | unknownInput (operator : String) (input : OperatorId)
  | mismatch (operator : String) (expected found : Shape)
  | malformed (operator : String) (defect : Defect)
  | noSuchOperator (id : OperatorId)
  | duplicateSource (table : String)
  | cycle (circuit : String)
  | term (cause : TermError)
  | evaluation (cause : EvalError)

def Defect.text : Defect → String
  | .notClosure function => "function " ++ function.text ++ " is not a closure"
  | .parameterCount declared expected =>
    "function takes " ++ toString declared ++ " parameter(s), expected " ++ toString expected
  | .noResultType => "function has no result type"
  | .freeVariables names => "function refers to free variables " ++ commaSeparated names
  | .functionMissing => "requires a function"
  | .functionUnexpected => "takes no function"
  | .multisetFlag => "multiset flag disagrees with its inputs"
  | .inputDropped input => "input " ++ streamName input ++ " was removed but is still read"
  | .inputGone input => "input " ++ streamName input ++ " was removed"
  | .sinkInputGone => "sink input was removed"
  | .nothingToSplice => "cannot splice an operator without inputs"

namespace CircuitError

def category : CircuitError → ErrorCategory
  | term cause => cause.category
  | mismatch _ _ _ => .typeMismatch
  | _ => .malformed

/-- The wording of an error, with its code. -/
def message : CircuitError → String
  | arity operator expected actual =>
    "[CE001] Operator '" ++ operator ++ "' expects " ++ expected.text ++ " input(s), got " ++
      toString actual
  | unknownInput operator input =>
    "[CE002] Operator '" ++ operator ++ "' refers to unknown input " ++ toString input
  | mismatch operator expected found =>
    "[CE003] Type mismatch in '" ++ operator ++ "': expected " ++ expected.text ++ ", found " ++
      found.text
  | malformed operator defect =>
    "[CE004] Malformed operator '" ++ operator ++ "': " ++ defect.text
  | noSuchOperator id => "[CE005] No operator with id " ++ toString id
  | duplicateSource table => "[CE006] Duplicate source '" ++ table ++ "'"
  | cycle circuit => "[CE007] Circuit '" ++ circuit ++ "' contains a cycle"
  | term cause => "[CE008] " ++ cause.message
  | evaluation cause => "[CE010] Evaluation failed: " ++ cause.message

end CircuitError

/-- A result about expressions as a result about circuits. -/
def liftTerm {α : Type} (result : Except TermError α) : Except CircuitError α :=
  result.mapError .term

/-- The result of an evaluation as a result about circuits. -/
def liftEval {α : Type} (result : Except EvalError α) : Except CircuitError α :=
  result.mapError .evaluation

end DeltaCircuit
