import DeltaCircuit.Circuit.Rewiring
import DeltaCircuit.Expr.Simplify

/-!
# Simplifying functions

`Circuit.simplifyFunctions` simplifies the function of every operator. Operators whose function
stays the same node are kept; a function that changes is a new node, different from every other
one in the circuit.
-/

namespace DeltaCircuit

/-- The number of a rebuilt node. -/
def Tag.rebuiltNumber : Tag → Nat
  | .rebuilt n => n
  | _ => 0

/-- A number above those of all rebuilt functions of a circuit. -/
def Circuit.freshNumber (c : Circuit) : Nat :=
  c.operators.foldl
    (fun n op => max n (((op.function.map fun f => f.tag.rebuiltNumber).getD 0) + 1)) 1

/-- Simplifies the function of one operator; a new function takes its identity from `number`. -/
def Rewiring.simplifyFunction (number : Nat) (id : OperatorId) (op : Operator) :
    Rewire Unit := do
  match op.function with
  | none => discard (Rewiring.keep id op)
  | some function =>
    match function.simplify with
    | .error e => throw (.term e)
    | .ok simplified =>
      if simplified.sameNode function then discard (Rewiring.keep id op)
      else
        match (← get).mapInputs op .inputGone with
        | .error e => throw e
        | .ok inputs =>
          let function := simplified.identify (.rebuilt (number + id))
          discard (Rewiring.replace id ((op.withFunction function).withInputs inputs))

/-- Simplifies the function of every operator. -/
def Circuit.simplifyFunctions (c : Circuit) : Except CircuitError Circuit :=
  Rewiring.run c.name
    (c.numbered.forM fun (id, op) => Rewiring.simplifyFunction c.freshNumber id op) c

end DeltaCircuit
