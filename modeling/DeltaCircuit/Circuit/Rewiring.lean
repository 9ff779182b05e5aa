import DeltaCircuit.Assoc
import DeltaCircuit.Circuit.Basic

/-!
# Rewiring a circuit

A rewiring builds a new circuit out of an old one, operator by operator. Each old operator is kept,
replaced, spliced out or dropped, and the rewiring remembers which new operator stands for it, so
that its readers can be connected.

* `Rewiring.keep`, `Rewiring.replace`, `Rewiring.splice`, `Rewiring.drop`, `Rewiring.mapTo`,
  `Rewiring.extend` — the steps. A step that fails inserts nothing, but a kept operator that is
  connected otherwise counts as a change even if it is refused.
* `Rewiring.finish` — the new circuit, or the old one if nothing changed.
-/

namespace DeltaCircuit

/-- A new circuit under construction. -/
structure Rewiring where
  output : Circuit
  /-- The new operators that stand for old ones. -/
  mapping : List (OperatorId × OperatorId)
  /-- Whether kept operators count as changed even if they read the same inputs. -/
  force : Bool
  changed : Bool

/-- A step of a rewiring, which keeps what it has done when it fails. -/
abbrev Rewire := ExceptT CircuitError (StateM Rewiring)

namespace Rewiring

/-- The start of a rewiring into a circuit of the given name. -/
def start (name : String) (force : Bool) : Rewiring := ⟨.empty name, [], force, false⟩

/-- The new operator that stands for an old one. -/
def mapped? (r : Rewiring) (old : OperatorId) : Option OperatorId := Assoc.get? r.mapping old

def mapOld (r : Rewiring) (old new : OperatorId) : Rewiring :=
  { r with mapping := Assoc.set r.mapping old new }

/-- The new operators that stand for the inputs of an old one. -/
def mapInputs (r : Rewiring) (op : Operator) (defect : OperatorId → Defect) :
    Except CircuitError (List OperatorId) :=
  op.inputs.mapM fun input =>
    match r.mapped? input with
    | some new => .ok new
    | none => .error (.malformed op.name (defect input))

/-- Marks the circuit as changed. -/
def markChanged : Rewire Unit := modify fun r => { r with changed := true }

/-- Runs a function that extends the output. -/
def onOutput (build : Circuit → Except CircuitError (Circuit × OperatorId)) :
    Rewire OperatorId := do
  let (output, id) ← liftExcept (build (← get).output)
  modify fun r => { r with output }
  return id
where
  liftExcept {α : Type} : Except CircuitError α → Rewire α
    | .ok a => pure a
    | .error e => throw e

/-- Copies an operator with its inputs connected. -/
def keep (old : OperatorId) (op : Operator) : Rewire OperatorId := do
  let r ← get
  match r.mapInputs op .inputDropped with
  | .error e => throw e
  | .ok inputs =>
    if r.force || inputs ≠ op.inputs || old ≠ r.output.size then markChanged
    let new ← onOutput (·.insert (op.withInputs inputs))
    modify (·.mapOld old new)
    return new

/-- Puts an operator in place of an old one. Its inputs refer to the new circuit. -/
def replace (old : OperatorId) (replacement : Operator) : Rewire OperatorId := do
  let new ← onOutput (·.insert replacement)
  markChanged
  modify (·.mapOld old new)
  return new

/-- Lets the readers of an operator read its first input instead. -/
def splice (old : OperatorId) (op : Operator) : Rewire OperatorId := do
  match op.inputs with
  | [] => throw (.malformed op.name .nothingToSplice)
  | input :: _ =>
    match (← get).mapped? input with
    | none => throw (.malformed op.name (.inputGone input))
    | some new =>
      markChanged
      modify (·.mapOld old new)
      return new

/-- Leaves an operator out. Readers of it are refused. -/
def drop (old : OperatorId) : Rewire Unit :=
  modify fun r => { r with changed := true, mapping := Assoc.erase r.mapping old }

/-- Lets a new operator stand for an old one. -/
def mapTo (old new : OperatorId) : Rewire Unit :=
  modify fun r => { r.mapOld old new with changed := r.changed || r.mapped? old ≠ some new }

/-- Appends an operator that stands for no old one. -/
def extend (build : Circuit → Except CircuitError (Circuit × OperatorId)) : Rewire OperatorId := do
  markChanged
  onOutput build

/-- The new circuit, or the old one when nothing changed. -/
def finish (r : Rewiring) (old : Circuit) : Circuit :=
  if r.changed || r.output.size ≠ old.size then r.output else old

/-- Runs steps from a fresh start. -/
def run (name : String) (steps : Rewire Unit) (old : Circuit) :
    Except CircuitError Circuit :=
  match steps (start name false) with
  | (.ok (), r) => .ok (r.finish old)
  | (.error e, _) => .error e

end Rewiring
end DeltaCircuit
