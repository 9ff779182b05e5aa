import DeltaCircuit.Circuit.Basic
import DeltaCircuit.ZSet

/-!
# Running a circuit

A circuit is run in steps. A step takes a Z-set for every table and gives one for every sink;
between steps, integrals keep their sum and differentials their last input.

* `RunState` — what is kept between steps.
* `Operator.output` — the output of an operator in one step.
* `Circuit.step` — a whole step. When it fails, the state stays as the operators before the failure
  have left it; an integral that fails keeps what it has added up.
-/

namespace DeltaCircuit

/-- What operators keep from step to step. -/
structure RunState where
  /-- The sums of integrals. -/
  integrals : List (OperatorId × ZSet)
  /-- The last inputs of differentials. -/
  previous : List (OperatorId × ZSet)

def RunState.start : RunState := ⟨[], []⟩

/-! ### Operators without a state -/

/-- The key and the value of an entry of an indexed Z-set. -/
def Value.pair (v : Value) : Except EvalError (Value × Value) :=
  match v with
  | .row [key, value] => .ok (key, value)
  | _ => .error (.notPair v)

namespace ZSet

/-- Applies a function to every value. -/
def map (z : ZSet) (function : Expr) : Except EvalError ZSet :=
  z.foldlM (fun out (row, weight) => do out.add (← function.applyTo [row]) weight) []

/-- Keeps the values for which a function is true. -/
def filterBy (z : ZSet) (function : Expr) : Except EvalError ZSet :=
  z.foldlM (fun out (row, weight) => do
    let keep ← function.applyTo [row]
    if keep.isBool true then out.add row weight else return out) []

/-- Makes pairs of a key and a value. -/
def index (z : ZSet) (function : Expr) : Except EvalError ZSet :=
  z.foldlM (fun out (row, weight) => do
    let (key, value) ← (← function.applyTo [row]).pair
    out.add (.row [key, value]) weight) []

/-- Adds a value with its weight to the group of a key; groups stand in the order of their first
value. -/
def addToGroup (groups : List (Value × List Value)) (key member : Value) :
    List (Value × List Value) :=
  match groups with
  | [] => [(key, [member])]
  | (k, members) :: groups =>
    if k.same key then (k, members ++ [member]) :: groups
    else (k, members) :: addToGroup groups key member

/-- The values of every key, each with its weight. -/
def groups (z : ZSet) : Except EvalError (List (Value × List Value)) :=
  z.foldlM (fun groups (entry, weight) => do
    let (key, value) ← entry.pair
    return addToGroup groups key (.row [value, .int weight])) []

/-- Folds the values of every key. -/
def aggregate (z : ZSet) (function : Expr) : Except EvalError ZSet := do
  (← z.groups).foldlM (fun out (key, members) => do
    let result ← function.applyTo [key, .vec members]
    out.add (.row [key, result]) 1) []

/-- Combines one entry with all entries of the same key. -/
def joinOne (function : Expr) (key left : Value) (weight : Int) (right : ZSet) (out : ZSet) :
    Except EvalError ZSet :=
  right.foldlM (fun out (entry, rightWeight) => do
    let (rightKey, value) ← entry.pair
    if rightKey.same key then
      let joined ← function.applyTo [key, left, value]
      if Weighted.isWeight (weight * rightWeight) then out.add joined (weight * rightWeight)
      else throw .weightOverflow
    else return out) out

/-- Combines the values of equal keys. -/
def join (left right : ZSet) (function : Expr) : Except EvalError ZSet :=
  left.foldlM (fun out (entry, weight) => do
    let (key, value) ← entry.pair
    joinOne function key value weight right out) []

/-- The values of positive weight, each once. -/
def distinct (z : ZSet) : ZSet :=
  z.foldl (fun out (row, weight) => if 0 < weight then out.put row 1 else out) []

end ZSet

/-! ### One operator -/

/-- The outputs of the operators in front, and the inputs of the tables. -/
structure Streams where
  outputs : List ZSet
  tables : List (String × ZSet)

/-- The output of the operator that another one reads at a position. -/
def Streams.input (s : Streams) (id : OperatorId) (op : Operator) (n : Nat) :
    Except EvalError ZSet :=
  match op.inputs[n]?.bind (s.outputs[·]?) with
  | some z => .ok z
  | none => .error (.missingInput (streamName id))

/-- The function of an operator, which has to be there. -/
def Operator.requireFunction (id : OperatorId) (op : Operator) : Except EvalError Expr :=
  match op.function with
  | some f => .ok f
  | none => .error (.missingFunction (streamName id))

/-- The output of an operator that keeps no state. -/
def Operator.statelessOutput (s : Streams) (id : OperatorId) (op : Operator) :
    Except EvalError ZSet := do
  match op.kind with
  | .source table _ => return (Assoc.get? s.tables table).getD []
  | .constant value => value.contents
  | .map _ => (← s.input id op 0).map (← op.requireFunction id)
  | .filter => (← s.input id op 0).filterBy (← op.requireFunction id)
  | .index _ _ => (← s.input id op 0).index (← op.requireFunction id)
  | .aggregate _ _ => (← s.input id op 0).aggregate (← op.requireFunction id)
  | .join _ _ =>
    let right ← s.input id op 1
    (← s.input id op 0).join right (← op.requireFunction id)
  | .sum =>
    (List.range op.inputs.length).foldlM (fun out n => do out.merge (← s.input id op n) 1) []
  | .subtract =>
    let left ← ZSet.merge [] (← s.input id op 0) 1
    left.merge (← s.input id op 1) (-1)
  | .negate => ZSet.merge [] (← s.input id op 0) (-1)
  | .distinct => return (← s.input id op 0).distinct
  | .integral | .differential | .noop | .sink _ _ _ => s.input id op 0

/-- The output of an operator, and the state after it. -/
def Operator.output (s : Streams) (id : OperatorId) (op : Operator) (state : RunState) :
    Except EvalError ZSet × RunState :=
  match op.statelessOutput s id with
  | .error e => (.error e, state)
  | .ok z =>
    match op.kind with
    | .integral =>
      let (result, sum) := ((Assoc.get? state.integrals id).getD []).mergeFrom 1 z
      (result.map fun _ => sum, { state with integrals := Assoc.set state.integrals id sum })
    | .differential =>
      let result :=
        match Assoc.get? state.previous id with
        | none => .ok z
        | some previous => z.merge previous (-1)
      (result, { state with previous := Assoc.set state.previous id z })
    | _ => (.ok z, state)

/-! ### A whole step -/

/-- Runs operators in order; the result holds the outputs of all operators. -/
def runOperators (tables : List (String × ZSet)) :
    List (OperatorId × Operator) → (outputs : List ZSet) → RunState →
      Except EvalError (List ZSet) × RunState
  | [], outputs, state => (.ok outputs, state)
  | (id, op) :: rest, outputs, state =>
    match op.output ⟨outputs, tables⟩ id state with
    | (.ok z, state) => runOperators tables rest (outputs ++ [z]) state
    | (.error e, state) => (.error e, state)

/-- The outputs of the sinks by name. Of several sinks of one name, the last one counts. -/
def Circuit.sinkOutputs (c : Circuit) (outputs : List ZSet) : List (String × ZSet) :=
  (c.operators.zip outputs).foldl (fun found (op, z) =>
    match op.kind.sinkName? with
    | some name => Assoc.set found name z
    | none => found) []

/-- One step of a circuit on the inputs of its tables. A table without input is empty. -/
def Circuit.step (c : Circuit) (tables : List (String × ZSet)) (state : RunState) :
    Except EvalError (List (String × ZSet)) × RunState :=
  match runOperators tables c.numbered [] state with
  | (.ok outputs, state) => (.ok (c.sinkOutputs outputs), state)
  | (.error e, state) => (.error e, state)

/-- The contents of tables that are given as literals. -/
def contentsOfTables (tables : List (String × ZSetLiteral)) :
    Except EvalError (List (String × ZSet)) :=
  tables.mapM fun (table, literal) => do return (table, ← literal.contents)

/-- One step on inputs that are given as literals. -/
def Circuit.stepLiterals (c : Circuit) (tables : List (String × ZSetLiteral)) (state : RunState) :
    Except EvalError (List (String × ZSet)) × RunState :=
  match contentsOfTables tables with
  | .ok tables => c.step tables state
  | .error e => (.error e, state)

end DeltaCircuit
