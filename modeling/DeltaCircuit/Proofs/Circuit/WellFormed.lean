import DeltaCircuit.Proofs.Circuit.Incrementalize
import DeltaCircuit.Proofs.Circuit.Construction
import DeltaCircuit.Proofs.Eval.Wiring

/-!
# Well-formed circuits

A circuit is built by calls, each of which appends one operator or fails. Whatever the calls are and
whichever of them fail, the circuit between two calls is well formed, and a step on a well-formed
circuit can go wrong in its values only.

* `Circuit.Call`, `Circuit.performAll` — sequences of calls.
* `Circuit.WellFormed` — what every operator may rely on.
* `Circuit.Built.wellFormed` — circuits built by insertions are well formed.
* `Circuit.WellFormed.wired_step` — a step meets no missing input and no missing function.
* `Circuit.wellFormed_performAll` — the three together, for every sequence of calls.
-/

namespace DeltaCircuit.Circuit

variable {c : Circuit} {op : Operator} {id : Nat}

/-! ### Calls -/

/-- A call that is to append an operator. -/
inductive Call where
  | addSource (table : String) (element : Ty)
  | addConstant (value : ZSetLiteral)
  | addMap (input : OperatorId) (function : Expr) (outputElement : Ty)
  | addFilter (input : OperatorId) (function : Expr)
  | addIndex (input : OperatorId) (function : Expr) (keyType valueType : Ty)
  | addAggregate (input : OperatorId) (function : Expr) (keyType outputElement : Ty)
  | addJoin (left right : OperatorId) (function : Expr) (keyType outputElement : Ty)
  | addSum (inputs : List OperatorId)
  | addSubtract (left right : OperatorId)
  | addNegate (input : OperatorId)
  | addDistinct (input : OperatorId)
  | addIntegral (input : OperatorId)
  | addDifferential (input : OperatorId)
  | addNoop (input : OperatorId)
  | addSink (input : OperatorId) (name query : String) (comment : Option String)
  | insert (op : Operator)

/-- What a call does to a circuit, unless it fails. -/
def attempt (c : Circuit) : Call → Except CircuitError (Circuit × OperatorId)
  | .addSource table element => c.addSource table element
  | .addConstant value => c.addConstant value
  | .addMap input function output => c.addMap input function output
  | .addFilter input function => c.addFilter input function
  | .addIndex input function key value => c.addIndex input function key value
  | .addAggregate input function key output => c.addAggregate input function key output
  | .addJoin left right function key output => c.addJoin left right function key output
  | .addSum inputs => c.addSum inputs
  | .addSubtract left right => c.addSubtract left right
  | .addNegate input => c.addUnary .negate input
  | .addDistinct input => c.addUnary .distinct input
  | .addIntegral input => c.addUnary .integral input
  | .addDifferential input => c.addUnary .differential input
  | .addNoop input => c.addUnary .noop input
  | .addSink input name query comment => c.addSink input name query comment
  | .insert op => c.insert op

/-- The circuit after a call, whether it fails or not. -/
def perform (c : Circuit) (call : Call) : Circuit :=
  match c.attempt call with
  | .ok (c', _) => c'
  | .error _ => c

/-- The circuit after a sequence of calls. -/
def performAll (c : Circuit) (calls : List Call) : Circuit := calls.foldl perform c

/-- **Calls append.** A call that succeeds appends one operator, whose type and flag are derived. -/
theorem attempt_eq_ok {call : Call} {r : Circuit × OperatorId} (h : c.attempt call = .ok r) :
    ∃ op : Operator,
      c.derive op.kind op.inputs op.function = .ok (op.outputType, op.isMultiset) ∧
        r = (c.push op, c.size) := by
  cases call with
  -- an operator that is inserted brings its type and flag along, which are checked
  | insert op => exact ⟨op, insert_eq_ok.mp h⟩
  | _ =>
    obtain ⟨type, multiset, hderive, hr⟩ := build_eq_ok.mp h
    exact ⟨_, hderive, hr⟩

theorem Built.perform (hc : c.Built) (call : Call) : (c.perform call).Built := by
  unfold Circuit.perform
  split
  · next c' id h =>
    obtain ⟨op, hderive, hr⟩ := attempt_eq_ok h
    obtain ⟨rfl, -⟩ := Prod.mk.inj hr
    exact hc.push hderive
  · exact hc

theorem Built.performAll (hc : c.Built) (calls : List Call) : (c.performAll calls).Built := by
  induction calls generalizing c with
  | nil => exact hc
  | cons call calls ih => exact ih (hc.perform call)

/-! ### Well-formedness -/

/-- What operators of a circuit may rely on. -/
structure WellFormed (c : Circuit) : Prop where
  /-- Operators read what stands in front of them. -/
  ordered : c.Ordered
  /-- The number of inputs fits the kind. -/
  arity : ∀ id op, c.get? id = some op → op.kind.arity.accepts op.inputs.length = true
  /-- A function is there exactly if the kind needs one. -/
  function : ∀ id op, c.get? id = some op → op.function.isSome = op.kind.requiresFunction
  /-- The function has the signature that the kind and the streams that are read determine. -/
  signature : ∀ id op f, c.get? id = some op → op.function = some f →
    ∃ inputs params result, List.Forall₂ (fun input other => c.get? input = some other)
      op.inputs inputs ∧
      op.kind.signature? (inputs.map Operator.outputType) = some (params, result) ∧
      f.HasSignature params result
  /-- The type and the flag are those derived in the circuit in front of the operator. -/
  derived : ∀ id op, c.get? id = some op →
    (c.take id).derive op.kind op.inputs op.function = .ok (op.outputType, op.isMultiset)
  /-- No table has two sources. -/
  sources : ∀ (i j : Nat) a b table, c.get? i = some a → c.get? j = some b →
    a.kind.table? = some table → b.kind.table? = some table → i = j

theorem isSome_of_checkFunctionPresence {kind : OperatorKind} {function : Option Expr}
    (h : checkFunctionPresence kind function = .ok ()) :
    function.isSome = kind.requiresFunction := by
  unfold checkFunctionPresence at h
  -- the check fails if one of the two is there without the other
  cases hrequires : kind.requiresFunction <;> cases function <;> simp_all

/-- **Built circuits are well formed.** -/
theorem Built.wellFormed (hc : c.Built) : c.WellFormed where
  ordered := hc.ordered
  arity id op hop := (derive_eq_ok.mp (hc.derive_take hop)).1
  function id op hop :=
    isSome_of_checkFunctionPresence (derive_eq_ok.mp (hc.derive_take hop)).2.1
  signature id op f hop hf := by
    have hderive := hc.derive_take hop
    rw [hf] at hderive
    obtain ⟨inputs, params, result, hinputs, hsignature⟩ := hasSignature_of_derive hderive
    -- the operators that were found stand in front, and so in the whole circuit
    refine ⟨inputs, params, result, hinputs.imp fun input other hother => ?_, hsignature⟩
    exact (get?_of_get?_take hother).2
  derived id op hop := hc.derive_take hop
  sources i j a b table := hc.source_unique

/-! ### Steps -/

/-- An input of an operator that reads only earlier ones is there. -/
theorem wired_input {s : Streams} (hinputs : ∀ input ∈ op.inputs, input < s.outputs.length)
    {n : Nat} (hn : n < op.inputs.length) : Wired (s.input id op n) := by
  have hlt := hinputs op.inputs[n] (List.getElem_mem hn)
  have hread : op.inputs[n]?.bind (s.outputs[·]?) = some s.outputs[op.inputs[n]] := by
    rw [List.getElem?_eq_getElem hn, Option.bind_some, List.getElem?_eq_getElem hlt]
  unfold Streams.input
  rw [hread]
  exact wired_ok _

theorem wired_requireFunction (hf : op.function.isSome = true) :
    Wired (op.requireFunction id) := by
  obtain ⟨f, hf⟩ := Option.isSome_iff_exists.mp hf
  unfold Operator.requireFunction
  rw [hf]
  exact wired_ok f

/-- The output of an operator raises no error of wiring, if its inputs and its function are
there. -/
theorem wired_statelessOutput {s : Streams} (harity : op.kind.arity.accepts op.inputs.length = true)
    (hfunction : op.function.isSome = op.kind.requiresFunction)
    (hinputs : ∀ input ∈ op.inputs, input < s.outputs.length) :
    Wired (op.statelessOutput s id) := by
  have hinput : ∀ n < op.inputs.length, Wired (s.input id op n) := fun n hn =>
    wired_input hinputs hn
  have hrequire : op.kind.requiresFunction = true → Wired (op.requireFunction id) := fun h =>
    wired_requireFunction (hfunction.trans h)
  unfold Operator.statelessOutput
  cases hkind : op.kind with
  | source table element => exact wired_ok _
  | constant value => exact value.wired_contents
  | sum =>
    -- every position below the number of inputs is read
    exact Except.RaisesOnly.foldlM_of_mem [] fun n hn out =>
      (hinput n (List.mem_range.mp hn)).bind fun z => ZSet.wired_merge out z 1
  | join key output =>
    have hlength : op.inputs.length = 2 := by
      simpa [hkind, OperatorKind.arity, Arity.accepts] using harity
    have hf := hrequire (by rw [hkind]; rfl)
    refine (hinput 1 (by omega)).bind fun right => (hinput 0 (by omega)).bind fun left => ?_
    exact hf.bind fun f => left.wired_join right f
  | subtract =>
    have hlength : op.inputs.length = 2 := by
      simpa [hkind, OperatorKind.arity, Arity.accepts] using harity
    refine (hinput 0 (by omega)).bind fun z => (ZSet.wired_merge [] z 1).bind fun left => ?_
    exact (hinput 1 (by omega)).bind fun right => left.wired_merge right (-1)
  | map output | filter | index key value | aggregate key output =>
    -- the kinds that read one input and apply a function to it
    have hlength : op.inputs.length = 1 := by
      simpa [hkind, OperatorKind.arity, Arity.accepts] using harity
    have hf := hrequire (by rw [hkind]; rfl)
    refine (hinput 0 (by omega)).bind fun z => hf.bind fun f => ?_
    first
      | exact z.wired_map f
      | exact z.wired_filterBy f
      | exact z.wired_index f
      | exact z.wired_aggregate f
  | negate | distinct | integral | differential | noop | sink name query comment =>
    -- the kinds that read one input and need no function
    have hlength : op.inputs.length = 1 := by
      simpa [hkind, OperatorKind.arity, Arity.accepts] using harity
    have hfirst := hinput 0 (by omega)
    first
      | exact hfirst
      | exact hfirst.bind fun z => ZSet.wired_merge [] z (-1)
      | exact hfirst.bind fun z => wired_ok _

theorem wired_output {s : Streams} {state : RunState}
    (h : Wired (op.statelessOutput s id)) : Wired (op.output s id state).1 := by
  unfold Operator.output
  cases hout : op.statelessOutput s id with
  | error e => exact wired_error (h e hout)
  | ok z =>
    cases op.kind with
    | integral => exact (ZSet.wired_mergeFrom 1 z _).map _
    | differential =>
      dsimp only
      split
      · exact wired_ok z
      · exact ZSet.wired_merge z _ (-1)
    | _ => exact wired_ok z

/-- **The run of a well-formed circuit.** From any operator on, with the outputs of those in front
of it, no operator misses an input or its function. -/
theorem WellFormed.wired_runOperators (hc : c.WellFormed) (tables : List (String × ZSet)) {n : Nat}
    {outputs : List ZSet} (hlength : outputs.length = n) (hn : n ≤ c.size) (state : RunState) :
    Wired (runOperators tables (c.numbered.drop n) outputs state).1 := by
  -- on the number of operators that are still to run
  induction hk : c.size - n generalizing n outputs state with
  | zero =>
    obtain rfl : n = c.size := by omega
    rw [drop_numbered_size]
    exact wired_ok outputs
  | succ k ih =>
    obtain ⟨op, hop⟩ := exists_get?_of_lt (c := c) (n := n) (by omega)
    -- the inputs stand in front of the operator, so they have been computed
    have hout : Wired (op.output ⟨outputs, tables⟩ n state).1 := by
      refine wired_output (wired_statelessOutput (hc.arity n op hop) (hc.function n op hop) ?_)
      intro input hinput
      rw [hlength]
      exact hc.ordered n op hop input hinput
    rw [drop_numbered hop]
    obtain ⟨result, after, hrun⟩ :
      ∃ result after, op.output ⟨outputs, tables⟩ n state = (result, after) := ⟨_, _, rfl⟩
    rw [hrun] at hout
    cases result with
    | error e =>
      rw [runOperators, hrun]
      exact wired_error (hout e rfl)
    | ok z =>
      rw [runOperators, hrun]
      exact ih (by simp [hlength]) (by omega) after (by omega)

/-- **A step of a well-formed circuit** never fails for a missing input or a missing function. -/
theorem WellFormed.wired_step (hc : c.WellFormed) (tables : List (String × ZSet))
    (state : RunState) : Wired (c.step tables state).1 := by
  have hrun : Wired (runOperators tables c.numbered [] state).1 :=
    hc.wired_runOperators tables (n := 0) rfl (Nat.zero_le _) state
  unfold step
  split
  · exact wired_ok _
  · next e after heq =>
    rw [heq] at hrun
    exact wired_error (hrun e rfl)

/-! ### Sequences of calls -/

/-- **Circuits stay well formed.** After every sequence of calls on an empty circuit, of which any
may have failed, the circuit is well formed; one more call either appends one operator or fails and
leaves the circuit as it is; and no step of the circuit fails for a missing input or a missing
function. -/
theorem wellFormed_performAll (name : String) (calls : List Call) :
    let c := (empty name).performAll calls
    c.WellFormed ∧
      (∀ call,
        -- calls only append, so what can be said of built circuits is said of what they lead to
        (∃ op, c.attempt call = .ok (c.push op, c.size) ∧ c.perform call = c.push op) ∨
          ∃ e, c.attempt call = .error e ∧ c.perform call = c) ∧
      ∀ tables state e state', c.step tables state = (.error e, state') →
        (∀ operator, e ≠ .missingInput operator) ∧ ∀ operator, e ≠ .missingFunction operator := by
  intro c
  have hc : c.Built := (Built.empty name).performAll calls
  refine ⟨hc.wellFormed, fun call => ?_, fun tables state e state' h => ?_⟩
  · unfold perform
    cases hcall : c.attempt call with
    | ok r =>
      obtain ⟨op, -, rfl⟩ := attempt_eq_ok hcall
      exact .inl ⟨op, rfl, rfl⟩
    | error e => exact .inr ⟨e, rfl, rfl⟩
  · -- a missing input and a missing function are errors of wiring
    have hwired := hc.wellFormed.wired_step tables state e (by rw [h])
    constructor <;> rintro operator rfl <;> cases hwired

end DeltaCircuit.Circuit
