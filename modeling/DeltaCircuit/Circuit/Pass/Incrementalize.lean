import DeltaCircuit.Circuit.Rewiring

/-!
# Incrementalization

`Circuit.incrementalize` turns a circuit on whole tables into one on changes. Every source is
followed by an integral, which sums the changes up to the whole table, and every sink reports the
differential of what it showed before.
-/

namespace DeltaCircuit

/-- What becomes of one operator. -/
def Rewiring.incrementalizeOperator (id : OperatorId) (op : Operator) : Rewire Unit := do
  if op.kind.isSource then
    let source ← Rewiring.keep id op
    let integral ← Rewiring.extend (·.addUnary .integral source)
    Rewiring.mapTo id integral
  else if op.kind.isSink then
    match op.inputs.head?.bind (← get).mapped? with
    | none => throw (.malformed op.name .sinkInputGone)
    | some input =>
      let differential ← Rewiring.extend (·.addUnary .differential input)
      discard (Rewiring.replace id (op.withInputs [differential]))
  else discard (Rewiring.keep id op)

/-- Integrates every source and differentiates every sink. -/
def Circuit.incrementalize (c : Circuit) : Except CircuitError Circuit :=
  Rewiring.run c.name (c.numbered.forM fun (id, op) => Rewiring.incrementalizeOperator id op) c

end DeltaCircuit
