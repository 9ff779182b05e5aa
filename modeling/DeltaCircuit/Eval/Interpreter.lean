import DeltaCircuit.Eval.Operation
import DeltaCircuit.Eval.Scopes
import DeltaCircuit.Expr.Build

/-!
# Evaluation of expressions

An evaluation reads and changes variables and may fail; what it has changed before a failure stays
changed, except that every scope that it opened is closed again.

* `Eval` — the monad of evaluations.
* `Expr.eval` — the value of an expression. Blocks, arms and rounds of a loop have scopes of their
  own.
* `Pattern.bind` — takes a value apart in the innermost scope; the answer says whether it matches.
* `Expr.evaluate` — the value of a closed expression.
* `Expr.applyTo` — a call of a closure. Closures are not values: only operators call them.
-/

namespace DeltaCircuit

/-- Evaluations: functions of the variables that give a value or an error, and the variables
afterwards. -/
abbrev Eval := ExceptT EvalError (StateM Scopes)

namespace Eval

variable {α : Type}

/-- A result that needs no variables. -/
def ofExcept (result : Except EvalError α) : Eval α := fun scopes => (result, scopes)

/-- Runs an evaluation in a new innermost scope. -/
def inScope (body : Eval α) : Eval α := fun scopes =>
  let (result, after) := body ([] :: scopes)
  (result, after.tail)

def lookup (name : String) : Eval Value := fun scopes =>
  match scopes.find? name with
  | some value => (.ok value, scopes)
  | none => (.error (.unbound name), scopes)

def bind (name : String) (value : Value) : Eval Unit := fun scopes =>
  (.ok (), scopes.bind name value)

def assign (target : Expr) (value : Value) : Eval Unit := fun scopes =>
  match scopes.assign target value with
  | .ok scopes => (.ok (), scopes)
  | .error e => (.error e, scopes)

/-- Runs an action for every item. -/
def forEach (action : Value → Eval Unit) : List Value → Eval Unit
  | [] => return ()
  | item :: items => do
    action item
    forEach action items

end Eval

/-- The field of a row; NULL has every field, and it is NULL. -/
def Value.field (index : Nat) (value : Value) : Except EvalError Value :=
  match value with
  | .null => .ok .null
  | .row fields =>
    match fields[index]? with
    | some field => .ok field
    | none => .error (.noField index value)
  | _ => .error (.noField index value)

/-- The items of a vector. -/
def Value.items (value : Value) : Except EvalError (List Value) :=
  match value with
  | .vec items => .ok items
  | _ => .error (.notIterable value)

mutual

/-- Evaluates an expression. -/
def Expr.eval : Expr → Eval Value
  | ⟨_, _, .literal none⟩ => return .null
  | ⟨_, _, .literal (some l)⟩ => return .scalar l
  | ⟨_, _, .var name⟩ => Eval.lookup name
  | ⟨_, _, .field base index⟩ => do
    let value ← base.eval
    Eval.ofExcept (value.field index)
  | ⟨_, _, .binary op left right⟩ => do
    let left ← left.eval
    let right ← right.eval
    Eval.ofExcept (Value.binary op left right)
  | ⟨_, _, .unary op operand⟩ => do
    let operand ← operand.eval
    Eval.ofExcept (Value.unary op operand)
  | ⟨_, none, .cast operand⟩ => operand.eval
  | ⟨_, some type, .cast operand⟩ => do
    let value ← operand.eval
    Eval.ofExcept (value.convert type)
  | ⟨tag, type, .apply function args⟩ => throw (.notEvaluable ⟨tag, type, .apply function args⟩)
  | ⟨tag, type, .path segments⟩ => throw (.notEvaluable ⟨tag, type, .path segments⟩)
  | ⟨_, _, .closure _ _⟩ => throw .closureIsNoValue
  | ⟨_, _, .block statements none⟩ => Eval.inScope do
    Statement.runAll statements
    return .unit
  | ⟨_, _, .block statements (some last)⟩ => Eval.inScope do
    Statement.runAll statements
    last.eval
  | ⟨_, _, .ifElse condition positive none⟩ => do
    let condition ← condition.eval
    if condition.isBool true then positive.eval else return .unit
  | ⟨_, _, .ifElse condition positive (some negative)⟩ => do
    let condition ← condition.eval
    if condition.isBool true then positive.eval else negative.eval
  | ⟨_, _, .matchOn subject arms⟩ => do
    let subject ← subject.eval
    Arm.evalFirst arms subject
  | ⟨_, _, .forLoop pattern iterated body⟩ => do
    let iterated ← iterated.eval
    let items ← Eval.ofExcept iterated.items
    Eval.forEach (fun item => Eval.inScope do
      let fits ← pattern.bind item
      if fits then discard body.eval else throw (.itemMismatch item pattern)) items
    return .unit
  | ⟨_, _, .assign target value⟩ => do
    let value ← value.eval
    Eval.assign target value
    return .unit
  | ⟨_, _, .tuple fields⟩ => do return .row (← Expr.evalAll fields)
  | ⟨_, _, .rawTuple fields⟩ => do return .row (← Expr.evalAll fields)
  | ⟨_, _, .struct fields⟩ => do return .row (← Expr.evalAll fields)
  | ⟨_, _, .qualify operand _⟩ => operand.eval
  | ⟨_, _, .borrow operand _⟩ => operand.eval
  | ⟨_, _, .deref operand⟩ => operand.eval
  | ⟨_, _, .zset _⟩ => throw .zsetIsNoRowValue
termination_by structural x => x

/-- Binds the names of a pattern to the components of a value, from left to right, as far as the
value matches. -/
def Pattern.bind : Pattern → Value → Eval Bool
  | .identifier name _, value => do
    Eval.bind name value
    return true
  | .wildcard, _ => return true
  | .tuple fields, .row values =>
    if values.length = fields.length then Pattern.bindAll fields values else return false
  | .tuple _, _ => return false
  | .literal constant, value => do
    let constant ← constant.eval
    return constant.same value
termination_by structural x => x

def Pattern.bindAll : List Pattern → List Value → Eval Bool
  | pattern :: patterns, value :: values => do
    let fits ← pattern.bind value
    if fits then Pattern.bindAll patterns values else return false
  | _, _ => return true
termination_by structural x => x

/-- Evaluates expressions from left to right. -/
def Expr.evalAll : List Expr → Eval (List Value)
  | [] => return []
  | e :: es => do
    let value ← e.eval
    let values ← Expr.evalAll es
    return value :: values
termination_by structural x => x

/-- Runs the statements of a block. A variable without an initial value starts as NULL. -/
def Statement.runAll : List Statement → Eval Unit
  | [] => return ()
  | .letBind name _ _ none :: statements => do
    Eval.bind name .null
    Statement.runAll statements
  | .letBind name _ _ (some init) :: statements => do
    let value ← init.eval
    Eval.bind name value
    Statement.runAll statements
  | .eval e :: statements => do
    discard e.eval
    Statement.runAll statements
termination_by structural x => x

/-- Evaluates the first arm whose pattern matches. -/
def Arm.evalFirst : List Arm → (subject : Value) → Eval Value
  | [], subject => throw (.noArm subject)
  | ⟨pattern, result⟩ :: arms, subject => do
    let outcome ← Eval.inScope do
      let fits ← pattern.bind subject
      if fits then some <$> result.eval else return none
    match outcome with
    | some value => return value
    | none => Arm.evalFirst arms subject
termination_by structural x => x

end

/-! ### Calls -/

/-- Binds parameters to arguments. -/
def Parameter.bindAll : List Parameter → List Value → Eval Unit
  | param :: params, arg :: args => do
    let fits ← param.pattern.bind arg
    if fits then Parameter.bindAll params args else throw (.argumentMismatch param.pattern)
  | _, _ => return ()

/-- Calls a closure in a scope of its own. -/
def Expr.call (function : Expr) (args : List Value) : Eval Value :=
  match function.form with
  | .closure params body =>
    if params.length = args.length then
      Eval.inScope do
        Parameter.bindAll params args
        body.eval
    else throw (.argumentCount params.length args.length)
  | _ => throw (.notClosure function)

/-- The value of a closed expression. -/
def Expr.evaluate (e : Expr) : Except EvalError Value := (e.eval []).1

/-- The result of a closed closure. -/
def Expr.applyTo (function : Expr) (args : List Value) : Except EvalError Value :=
  (function.call args []).1

end DeltaCircuit
