import DeltaCircuit.Circuit.Basic
import DeltaCircuit.Traversal.Recording

/-!
# Traversal of circuits

A circuit visitor is called before and after a circuit and each of its operators, in order. As in a
traversal of syntax, there is a hook for each kind of operator, there are hooks for operators of
one and of two inputs, for all operators and for all nodes, and a call may be passed on to the next
wider hook.

* `CircuitVisitor` — the hooks, and a visitor for the output type and the function of every operator
  that is entered.
* `Circuit.traverse` — a whole visit.
* `CircuitRecorder`, `Circuit.record` — the events of a visit.
-/

namespace DeltaCircuit

/-! ### Hooks -/

/-- The hooks of a circuit visitor. -/
inductive OperatorHook where
  | node | operator | unaryOperator | binaryOperator
  | source | constant | sum | map | filter | index | aggregate | negate | distinct | integral
  | differential | noop | sink | join | subtract
deriving DecidableEq

namespace OperatorHook

/-- The name under which a hook is known. -/
def name : OperatorHook → String
  | node => "node"
  | operator => "operator"
  | unaryOperator => "unary_operator"
  | binaryOperator => "binary_operator"
  | source => "source"
  | constant => "constant"
  | sum => "sum"
  | map => "map"
  | filter => "filter"
  | index => "index"
  | aggregate => "aggregate"
  | negate => "negate"
  | distinct => "distinct"
  | integral => "integral"
  | differential => "differential"
  | noop => "noop"
  | sink => "sink"
  | join => "join"
  | subtract => "subtract"

/-- The hook that a call is passed on to. -/
def wider? : OperatorHook → Option OperatorHook
  | node => none
  | operator => some node
  | unaryOperator | binaryOperator | source | constant | sum => some operator
  | map | filter | index | aggregate | negate | distinct | integral | differential | noop
  | sink => some unaryOperator
  | join | subtract => some binaryOperator

/-- How much a hook covers. -/
def breadth : OperatorHook → Hook.Breadth
  | node => .all
  | operator | unaryOperator | binaryOperator => .family
  | _ => .form

/-- A hook and the wider ones, at most `steps` of them. -/
def chainUpTo : (steps : Nat) → OperatorHook → List OperatorHook
  | 0, h => [h]
  | steps + 1, h => h :: (h.wider?.map (chainUpTo steps)).getD []

/-- A hook and all the wider ones. There are at most three of those. -/
def chain (h : OperatorHook) : List OperatorHook := chainUpTo 3 h

/-- The hook that an operator is announced to first. -/
def ofKind : OperatorKind → OperatorHook
  | .source _ _ => source
  | .constant _ => constant
  | .map _ => map
  | .filter => filter
  | .index _ _ => index
  | .aggregate _ _ => aggregate
  | .join _ _ => join
  | .sum => sum
  | .subtract => subtract
  | .negate => negate
  | .distinct => distinct
  | .integral => integral
  | .differential => differential
  | .noop => noop
  | .sink _ _ _ => sink

end OperatorHook

/-! ### Visitors -/

/-- The hooks of a circuit visitor with a state. -/
structure CircuitVisitor (σ : Type) where
  start : σ → σ
  finish : σ → σ
  /-- Called before a circuit; the answer says whether to visit its operators. -/
  beforeCircuit : Circuit → σ → Bool × σ
  afterCircuit : Circuit → σ → σ
  /-- Called before an operator. -/
  before : OperatorHook → OperatorId → Operator → σ → Entry × σ
  /-- Called after an operator; the flag says whether the next wider hook is called too. -/
  after : OperatorHook → OperatorId → Operator → σ → Bool × σ
  /-- The visitor of the output type and the function of an operator. -/
  inner : Option (Visitor σ)

namespace CircuitVisitor

variable {σ : Type} (v : CircuitVisitor σ)

/-- Calls hooks from the narrowest on until one settles whether to enter. -/
def enterAlong (id : OperatorId) (op : Operator) : List OperatorHook → σ → Bool × σ
  | [], s => (true, s)
  | h :: wider, s =>
    match v.before h id op s with
    | (.settled enter, s) => (enter, s)
    | (.passedOn, s) => enterAlong id op wider s

/-- Calls hooks from the narrowest on as long as they pass the call on. -/
def leaveAlong (id : OperatorId) (op : Operator) : List OperatorHook → σ → σ
  | [], s => s
  | h :: wider, s =>
    match v.after h id op s with
    | (true, s) => leaveAlong id op wider s
    | (false, s) => s

/-- Visits the output type and the function of an operator. -/
def visitParts (op : Operator) (s : σ) : σ :=
  match v.inner with
  | none => s
  | some inner =>
    let s := op.outputType.walk inner s
    match op.function with
    | none => s
    | some function => function.walk inner s

/-- Visits an operator. -/
def visitOperator (s : σ) (node : OperatorId × Operator) : σ :=
  let (id, op) := node
  let chain := (OperatorHook.ofKind op.kind).chain
  match v.enterAlong id op chain s with
  | (false, s) => s
  | (true, s) => v.leaveAlong id op chain (v.visitParts op s)

end CircuitVisitor

/-- Visits a circuit and its operators between the start and the end of a visit. -/
def Circuit.traverse {σ : Type} (v : CircuitVisitor σ) (c : Circuit) (s : σ) : σ :=
  match v.beforeCircuit c (v.start s) with
  | (false, s) => v.finish s
  | (true, s) => v.finish (v.afterCircuit c (c.numbered.foldl v.visitOperator s))

/-! ### Recorded traversals -/

/-- What a circuit recorder has heard from operators and from their parts, the last first. -/
structure CircuitEvents where
  events : List Event
  inner : List Event

/-- A circuit visitor that records. -/
structure CircuitRecorder where
  level : Level
  /-- Whether a hook that is not heard passes its calls on, and with it the hooks of families. -/
  delegates : Bool
  /-- Hooks, and nodes at hooks, that are not entered. -/
  skipped : List String
  /-- The recorder of types and functions. -/
  inner : Option Recorder

namespace CircuitRecorder

/-- Whether a recorder hears a hook. At the level of families the hook of all nodes is heard
too. -/
def hears (r : CircuitRecorder) (h : OperatorHook) : Bool :=
  match r.level with
  | .nodes => h.breadth = .all
  | .families => h.breadth = .all || h.breadth = .family
  | .leaves => h.breadth = .form

def skips (r : CircuitRecorder) (hook text : String) : Bool :=
  r.skipped.contains hook || r.skipped.contains (labelled hook text)

/-- Whether a hook that is heard passes its calls on: those of families do. -/
def passesOn (r : CircuitRecorder) (h : OperatorHook) : Bool :=
  r.delegates && h.breadth = .family

/-- An operator in an event. -/
def operatorText (id : OperatorId) (op : Operator) : String := streamName id ++ ":" ++ op.name

def add (e : Event) (s : CircuitEvents) : CircuitEvents := { s with events := e :: s.events }

/-- A visitor of parts, on the inner events. -/
def onInner (v : Visitor (List Event)) : Visitor CircuitEvents where
  start s := { s with inner := v.start s.inner }
  finish s := { s with inner := v.finish s.inner }
  before h n s := let (entry, inner) := v.before h n s.inner; (entry, { s with inner })
  after h n s := let (passed, inner) := v.after h n s.inner; (passed, { s with inner })

/-- The visitor of a recorder. -/
def visitor (r : CircuitRecorder) : CircuitVisitor CircuitEvents where
  start := add .start
  finish := add .finish
  beforeCircuit c s := (!r.skips "circuit" c.name, add (.before "circuit" c.name) s)
  afterCircuit c s := add (.after "circuit" c.name) s
  before h id op s :=
    if r.hears h then
      let text := operatorText id op
      let entry :=
        if r.skips h.name text then .settled false
        else if r.passesOn h then .passedOn
        else .settled true
      (entry, add (.before h.name text) s)
    else (if r.delegates then .passedOn else .settled true, s)
  after h id op s :=
    if r.hears h then (r.passesOn h, add (.after h.name (operatorText id op)) s)
    else (r.delegates, s)
  inner := r.inner.map fun inner => onInner inner.visitor

end CircuitRecorder

/-- The events of a whole visit, and those inside operators. -/
def Circuit.record (r : CircuitRecorder) (c : Circuit) : List Event × List Event :=
  let s := c.traverse r.visitor ⟨[], []⟩
  (s.events.reverse, s.inner.reverse)

end DeltaCircuit
