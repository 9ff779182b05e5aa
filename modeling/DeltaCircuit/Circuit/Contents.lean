import DeltaCircuit.Circuit.Error
import DeltaCircuit.Expr.Build
import DeltaCircuit.ZSet

/-!
# Values as literals

`ZSet.toLiteral` writes the values of a Z-set as expressions of a type. Rows become tuples of the
type's kind and NULL a literal of the type made to admit it; every value is checked against its
type.
-/

namespace DeltaCircuit

mutual

/-- A value as an expression of a type. -/
def Value.toExpr : Value → Ty → Except CircuitError Expr
  | .null, type => liftTerm (Expr.null type)
  | .row values, type =>
    match type.kind with
    | .tuple types =>
      if values.length = types.length then do
        liftTerm (Expr.tuple (← Value.toExprs values types))
      else .error (.evaluation (.notExpressible (.row values) type))
    | .rawTuple types =>
      if values.length = types.length then do
        liftTerm (Expr.rawTuple (← Value.toExprs values types))
      else .error (.evaluation (.notExpressible (.row values) type))
    | _ => .error (.evaluation (.notExpressible (.row values) type))
  | .vec values, type => .error (.evaluation (.notExpressible (.vec values) type))
  | .scalar l, type => liftTerm (Expr.literal (some l) type)
termination_by structural x => x

def Value.toExprs : List Value → List Ty → Except CircuitError (List Expr)
  | value :: values, type :: types => do
    let e ← value.toExpr type
    let es ← Value.toExprs values types
    return e :: es
  | _, _ => return []
termination_by structural x => x

end

/-- The literal of a Z-set of values of a type. -/
def ZSet.toLiteral (z : ZSet) (elementType : Ty) : Except CircuitError ZSetLiteral :=
  z.foldlM (fun literal entry => do
    let element ← entry.1.toExpr elementType
    liftTerm (literal.addElement element entry.2)) (.empty elementType)

end DeltaCircuit
