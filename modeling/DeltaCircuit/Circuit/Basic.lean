import DeltaCircuit.Circuit.Error
import DeltaCircuit.Expr.Free

/-!
# Circuits

A circuit is a list of operators. Every operator reads operators in front of it only, so the list
is in an order in which it can be run.

* `Circuit.derive` — the output type and the multiset flag of an operator, as its kind, its inputs
  and its function determine them, or what is wrong with it.
* `Circuit.insert` — appends an operator that agrees with what is derived.
* `Circuit.build` and the functions after it — append an operator of a kind.

An operator's function is a closure without free variables; the types of its parameters are
references to what it is applied to, and parameters without a declared type accept anything.
-/

namespace DeltaCircuit

/-- A circuit: a name and operators, each of which reads only earlier ones. -/
structure Circuit where
  name : String
  operators : List Operator

namespace Circuit

/-! ### Questions about a circuit -/

/-- The circuit without operators. -/
def empty (name : String) : Circuit := ⟨name, []⟩

def size (c : Circuit) : Nat := c.operators.length

def get? (c : Circuit) (id : OperatorId) : Option Operator := c.operators[id]?

/-- The operator of an id, which has to exist. -/
def operator (c : Circuit) (id : OperatorId) : Except CircuitError Operator :=
  match c.get? id with
  | some op => .ok op
  | none => .error (.noSuchOperator id)

/-- The operators with their ids, in order. -/
def numbered (c : Circuit) : List (OperatorId × Operator) :=
  c.operators.zipIdx.map fun (op, id) => (id, op)

/-- The ids of the operators with a property. -/
def idsWhere (c : Circuit) (p : Operator → Bool) : List OperatorId :=
  (c.numbered.filter fun (_, op) => p op).map Prod.fst

def sources (c : Circuit) : List OperatorId := c.idsWhere fun op => op.kind.isSource

def sinks (c : Circuit) : List OperatorId := c.idsWhere fun op => op.kind.isSink

/-- The source of a table. -/
def source? (c : Circuit) (table : String) : Option OperatorId :=
  (c.idsWhere fun op => op.kind.table? = some table).head?

/-- The first sink of a name. -/
def sink? (c : Circuit) (name : String) : Option OperatorId :=
  (c.idsWhere fun op => op.kind.sinkName? = some name).head?

/-- The operators that read an operator. -/
def consumers (c : Circuit) (id : OperatorId) : List OperatorId :=
  c.idsWhere fun op => op.inputs.contains id

/-! ### Checks of operators -/

/-- The type of the rows that an input gives. -/
def elementOf (operator : String) (input : Operator) : Except CircuitError Ty :=
  match input.outputType.elementType? with
  | some t => .ok t
  | none => .error (.mismatch operator (.words "Z-set") (.type input.outputType))

/-- The types of the keys and of the values that an input gives. -/
def indexedParts (operator : String) (input : Operator) : Except CircuitError (Ty × Ty) :=
  match input.outputType.kind with
  | .indexedZSet key value _ => .ok (key, value)
  | _ => .error (.mismatch operator (.words "indexed Z-set") (.type input.outputType))

/-- Compares declared parameter types with expected ones. -/
def checkParameters (operator : String) : List Parameter → List Ty → Except CircuitError Unit
  | param :: params, expected :: rest =>
    match param.type with
    | some declared =>
      if declared = expected then checkParameters operator params rest
      else .error (.mismatch operator (.type expected) (.type declared))
    | none => checkParameters operator params rest
  | _, _ => .ok ()

/-- Whether a function is a closure without free variables, of the given parameter and result
types. -/
def checkClosure (operator : String) (function : Expr) (params : List Ty) (result : Ty) :
    Except CircuitError Unit := do
  match function.params? with
  | none => throw (.malformed operator (.notClosure function))
  | some declared =>
    if declared.length ≠ params.length then
      throw (.malformed operator (.parameterCount declared.length params.length))
    checkParameters operator declared params
    match function.resultType? with
    | none => throw (.malformed operator .noResultType)
    | some actual =>
      if actual ≠ result then throw (.mismatch operator (.type result) (.type actual))
      if !function.isClosed then
        throw (.malformed operator (.freeVariables function.freeVariables))

/-- Whether all inputs have the type of the first. -/
def checkSameTypes (operator : String) (first : Ty) : List Operator → Except CircuitError Unit
  | [] => .ok ()
  | op :: ops =>
    if op.outputType = first then checkSameTypes operator first ops
    else .error (.mismatch operator (.type first) (.type op.outputType))

/-- Whether a key type is the declared one. -/
def checkKey (operator : String) (declared key : Ty) : Except CircuitError Unit :=
  if key = declared then .ok () else .error (.mismatch operator (.type declared) (.type key))

/-- The type of the group of values that an aggregate folds: pairs of a value and its weight. -/
def groupType (value : Ty) : Ty := .vec (.rawTuple [value, .weight])

/-- The output type and the multiset flag of an operator, from the operators that it reads. -/
def deriveFrom (c : Circuit) (kind : OperatorKind) (inputs : List Operator)
    (function : Option Expr) : Except CircuitError (Ty × Bool) := do
  let name := kind.name
  match kind, inputs, function with
  | .source table element, [], none =>
    if (c.source? table).isSome then throw (.duplicateSource table)
    return (.zset element, true)
  | .constant value, [], none => return (value.type, true)
  | .map output, [input], some function =>
    let element ← elementOf name input
    checkClosure name function [.byRef element] output
    return (.zset output, true)
  | .filter, [input], some function =>
    let element ← elementOf name input
    checkClosure name function [.byRef element] .bool
    return (input.outputType, input.isMultiset)
  | .index key value, [input], some function =>
    let element ← elementOf name input
    checkClosure name function [.byRef element] (.rawTuple [key, value])
    return (.indexedZSet key value, true)
  | .aggregate keyType output, [input], some function =>
    let (key, value) ← indexedParts name input
    checkKey name keyType key
    checkClosure name function [.byRef key, .byRef (groupType value)] output
    return (.indexedZSet keyType output, false)
  | .join keyType output, [left, right], some function =>
    let (leftKey, leftValue) ← indexedParts name left
    let (rightKey, rightValue) ← indexedParts name right
    checkKey name keyType leftKey
    checkKey name keyType rightKey
    checkClosure name function [.byRef leftKey, .byRef leftValue, .byRef rightValue] output
    return (.zset output, true)
  | .sum, first :: rest, none =>
    checkSameTypes name first.outputType rest
    return (first.outputType, true)
  | .subtract, [left, right], none =>
    checkSameTypes name left.outputType [right]
    return (left.outputType, true)
  | .negate, [input], none => return (input.outputType, true)
  | .distinct, [input], none =>
    discard (elementOf name input)
    return (input.outputType, false)
  | .integral, [input], none | .differential, [input], none | .noop, [input], none
  | .sink _ _ _, [input], none => return (input.outputType, input.isMultiset)
  | kind, inputs, _ => throw (.arity name kind.arity inputs.length)

/-- Whether a function is there exactly if the kind needs one. -/
def checkFunctionPresence (kind : OperatorKind) (function : Option Expr) :
    Except CircuitError Unit :=
  match kind.requiresFunction, function with
  | true, none => .error (.malformed kind.name .functionMissing)
  | false, some _ => .error (.malformed kind.name .functionUnexpected)
  | _, _ => .ok ()

/-- The operators that an operator reads. -/
def inputOperators (c : Circuit) (kind : OperatorKind) (inputs : List OperatorId) :
    Except CircuitError (List Operator) :=
  inputs.mapM fun id =>
    match c.get? id with
    | some op => .ok op
    | none => .error (.unknownInput kind.name id)

/-- The output type and the multiset flag of an operator. -/
def derive (c : Circuit) (kind : OperatorKind) (inputs : List OperatorId)
    (function : Option Expr) : Except CircuitError (Ty × Bool) := do
  if !kind.arity.accepts inputs.length then
    throw (.arity kind.name kind.arity inputs.length)
  let operators ← c.inputOperators kind inputs
  checkFunctionPresence kind function
  c.deriveFrom kind operators function

/-! ### Insertion -/

/-- Appends an operator without any check. -/
def push (c : Circuit) (op : Operator) : Circuit := { c with operators := c.operators ++ [op] }

/-- Appends an operator, whose output type and flag have to be those that are derived. -/
def insert (c : Circuit) (op : Operator) : Except CircuitError (Circuit × OperatorId) := do
  let (type, multiset) ← c.derive op.kind op.inputs op.function
  if type ≠ op.outputType then throw (.mismatch op.name (.type type) (.type op.outputType))
  if multiset ≠ op.isMultiset then throw (.malformed op.name .multisetFlag)
  return (c.push op, c.size)

/-- Appends an operator of a kind. -/
def build (c : Circuit) (kind : OperatorKind) (inputs : List OperatorId)
    (function : Option Expr) : Except CircuitError (Circuit × OperatorId) := do
  let (type, multiset) ← c.derive kind inputs function
  c.insert ⟨kind, inputs, function, type, multiset⟩

/-- The input table of rows of a type. -/
def addSource (c : Circuit) (table : String) (element : Ty) :=
  c.build (.source table element) [] none

def addConstant (c : Circuit) (value : ZSetLiteral) := c.build (.constant value) [] none

/-- Applies `function : &Row → outputElement` to every row. -/
def addMap (c : Circuit) (input : OperatorId) (function : Expr) (outputElement : Ty) :=
  c.build (.map outputElement) [input] (some function)

/-- Keeps the rows for which `function : &Row → bool` is true. -/
def addFilter (c : Circuit) (input : OperatorId) (function : Expr) :=
  c.build .filter [input] (some function)

/-- Applies `function : &Row → (keyType, valueType)` to every row. -/
def addIndex (c : Circuit) (input : OperatorId) (function : Expr) (keyType valueType : Ty) :=
  c.build (.index keyType valueType) [input] (some function)

/-- Applies `function : (&Key, &Vec<(Value, Weight)>) → outputElement` to every group. -/
def addAggregate (c : Circuit) (input : OperatorId) (function : Expr)
    (keyType outputElement : Ty) :=
  c.build (.aggregate keyType outputElement) [input] (some function)

/-- Applies `function : (&Key, &Left, &Right) → outputElement` to the pairs of equal keys. -/
def addJoin (c : Circuit) (left right : OperatorId) (function : Expr)
    (keyType outputElement : Ty) :=
  c.build (.join keyType outputElement) [left, right] (some function)

def addSum (c : Circuit) (inputs : List OperatorId) := c.build .sum inputs none

def addSubtract (c : Circuit) (left right : OperatorId) := c.build .subtract [left, right] none

/-- An operator that reads one input and has no function. -/
def addUnary (c : Circuit) (kind : OperatorKind) (input : OperatorId) := c.build kind [input] none

/-- A named output with the text of its query. -/
def addSink (c : Circuit) (input : OperatorId) (name query : String) (comment : Option String) :=
  c.build (.sink name query comment) [input] none

end Circuit
end DeltaCircuit
