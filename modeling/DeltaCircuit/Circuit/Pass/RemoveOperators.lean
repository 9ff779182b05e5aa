import DeltaCircuit.Circuit.Graph
import DeltaCircuit.Circuit.Rewiring

/-!
# Removing operators

* `Circuit.removeOperators` — drops every operator outside a given set, and lets the readers of a
  no-op read its input. It fails if an operator that is kept reads one that is dropped.
* `Circuit.removeDeadCode` — keeps what the sinks need.
-/

namespace DeltaCircuit

/-- What becomes of one operator. -/
def Rewiring.removeUnless (keep : List OperatorId) (id : OperatorId) (op : Operator) :
    Rewire Unit := do
  if op.kind.isNoop then
    match op.inputs.head?.bind (← get).mapped? with
    | some _ => discard (Rewiring.splice id op)
    | none => Rewiring.drop id
  else if keep.contains id then discard (Rewiring.keep id op)
  else Rewiring.drop id

/-- Drops every operator outside `keep` and splices out no-ops. -/
def Circuit.removeOperators (c : Circuit) (name : String) (keep : List OperatorId) :
    Except CircuitError Circuit :=
  Rewiring.run name (c.numbered.forM fun (id, op) => Rewiring.removeUnless keep id op) c

/-- Drops every operator that no sink needs and splices out no-ops. -/
def Circuit.removeDeadCode (c : Circuit) : Except CircuitError Circuit :=
  c.removeOperators c.name (c.ancestors c.sinks)

end DeltaCircuit
