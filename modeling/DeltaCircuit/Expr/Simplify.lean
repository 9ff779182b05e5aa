import DeltaCircuit.Expr.Transform

/-!
# Simplification

`Expr.simplify` transforms an expression with one local rule (`Expr.simplerForm?`):

* a field of a tuple constructor becomes the component;
* the negation of a boolean constant becomes the constant;
* a conjunction or disjunction with an absorbing constant becomes that constant, and one with a
  neutral constant becomes the other operand;
* dereferencing a borrow becomes what was borrowed;
* a cast to the operand's own type disappears.

Every rule applies only where it keeps the type of the node.
-/

namespace DeltaCircuit

/-- The constant that absorbs the other operand of a logical operator. -/
def LogicalOp.absorbing : LogicalOp → Bool
  | .and => false
  | .or => true

namespace Expr

/-- The components of a tuple constructor. -/
def components? (e : Expr) : Option (List Expr) :=
  match e.form with
  | .tuple fields | .rawTuple fields => some fields
  | _ => none

/-- The simpler form of a logical operation of a type. -/
def simplerLogical? (type : Ty) (op : LogicalOp) (left right : Expr) :
    Except TermError (Option Expr) :=
  let absorbs (e : Expr) : Bool := e.asBool? = some op.absorbing
  if absorbs left || absorbs right then
    (literal (some (.bool op.absorbing)) type).map some
  else if left.asBool?.isSome && right.type = some type then .ok (some right)
  else if right.asBool?.isSome && left.type = some type then .ok (some left)
  else .ok none

/-- What the rule turns an expression into, if it applies. -/
def simplerForm? (e : Expr) : Except TermError (Option Expr) :=
  match e.type with
  | none => .ok none
  | some type =>
    match e.form with
    | .field base index =>
      .ok ((base.components?.bind (·[index]?)).filter fun component => component.type = some type)
    | .unary .not operand =>
      match operand.asBool? with
      | some value => (literal (some (.bool (!value))) type).map some
      | none => .ok none
    | .binary (.logical op) left right => simplerLogical? type op left right
    | .deref operand =>
      match operand.form with
      | .borrow target _ => .ok (some target)
      | _ => .ok none
    | .cast operand => .ok (if operand.type = some type then some operand else none)
    | _ => .ok none

/-- The transformer that applies the rule to every node once its parts are simplified. -/
def simplifier : Transformer (Except TermError) where
  before _ := .ok none
  after _ rebuilt := do return (← rebuilt.simplerForm?).getD rebuilt

/-- Simplifies an expression. -/
def simplify (e : Expr) : Except TermError Expr := e.transform simplifier

end Expr
end DeltaCircuit
