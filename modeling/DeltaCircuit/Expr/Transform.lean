import DeltaCircuit.Expr.Build

/-!
# Transformations of expressions

A transformer has two hooks, which run in any monad that can report a `TermError`. The first may
replace a node before its parts are transformed; the second has the last word on a node whose parts
have been transformed.

* `Expr.transform` — the walk. A node whose parts all stayed the same nodes is kept as it is; any
  other node is built again, and checked again, from its new parts. Patterns and the elements of
  Z-set literals are left alone.
* `Form.rebuild` — builds a node from transformed parts.
-/

namespace DeltaCircuit

/-- The two hooks of a transformer. -/
structure Transformer (m : Type → Type) where
  /-- A replacement of a node, made before its parts are transformed. -/
  before : Expr → m (Option Expr)
  /-- The node that replaces `old`, given the node built from its transformed parts. -/
  after : (old rebuilt : Expr) → m Expr

/-- Builds a node of the given type and form with the checks of its constructor. The forms without
parts are never built again. -/
def Form.rebuild (type : Option Ty) (form : Form) : Except TermError Expr :=
  let typed (build : Ty → Except TermError Expr) : Except TermError Expr := do
    build (← (Expr.ofForm type form).requireType)
  match form with
  | .field base index => Expr.field base index
  | .binary op left right => typed (Expr.binary op left right)
  | .unary op operand => typed (Expr.unary op operand)
  | .cast operand => typed (Expr.cast operand)
  | .apply function args => typed (Expr.apply function args)
  | .closure params body => Expr.closure params body
  | .block statements last => .ok (Expr.block statements last)
  | .ifElse condition positive negative => Expr.ifElse condition positive negative
  | .matchOn subject arms => typed (Expr.matchOn subject arms)
  | .forLoop pattern iterated body => Expr.forLoop pattern iterated body
  | .assign target value => Expr.assign target value
  | .tuple fields => Expr.tuple fields
  | .rawTuple fields => Expr.rawTuple fields
  | .struct fields => typed fun type => Expr.struct type fields
  | .qualify operand types => Expr.qualify operand types
  | .borrow operand mutable => Expr.borrow operand mutable
  | .deref operand => Expr.deref operand
  | .literal _ | .var _ | .path _ | .zset _ => .ok (Expr.ofForm type form)

section

variable {m : Type → Type} [Monad m] [MonadLiftT (Except TermError) m]

/-- A node with its transformed form: the node itself if the form is the same, and otherwise a node
built again. -/
def Expr.withForm (e : Expr) (form : Form) : Except TermError Expr :=
  if form.beq e.form then .ok e else form.rebuild e.type

mutual

/-- Transforms an expression from its parts upwards. -/
def Expr.transform (r : Transformer m) : Expr → m Expr
  | ⟨tag, type, form⟩ => do
    match ← r.before ⟨tag, type, form⟩ with
    | some replacement => return replacement
    | none =>
      let parts ← form.transformParts r
      let rebuilt ← Expr.withForm ⟨tag, type, form⟩ parts
      r.after ⟨tag, type, form⟩ rebuilt
termination_by structural x => x

/-- Transforms the parts of a form from left to right. -/
def Form.transformParts (r : Transformer m) : Form → m Form
  | .literal value => return .literal value
  | .var name => return .var name
  | .path segments => return .path segments
  | .zset z => return .zset z
  | .field base index => do return .field (← base.transform r) index
  | .binary op left right => do
    let left ← left.transform r
    let right ← right.transform r
    return .binary op left right
  | .unary op operand => do return .unary op (← operand.transform r)
  | .cast operand => do return .cast (← operand.transform r)
  | .apply function args => do
    let function ← function.transform r
    let args ← Expr.transformAll r args
    return .apply function args
  | .closure params body => do return .closure params (← body.transform r)
  | .block statements none => do return .block (← Statement.transformAll r statements) none
  | .block statements (some last) => do
    let statements ← Statement.transformAll r statements
    let last ← last.transform r
    return .block statements (some last)
  | .ifElse condition positive none => do
    let condition ← condition.transform r
    let positive ← positive.transform r
    return .ifElse condition positive none
  | .ifElse condition positive (some negative) => do
    let condition ← condition.transform r
    let positive ← positive.transform r
    let negative ← negative.transform r
    return .ifElse condition positive (some negative)
  | .matchOn subject arms => do
    let subject ← subject.transform r
    let arms ← Arm.transformAll r arms
    return .matchOn subject arms
  | .forLoop pattern iterated body => do
    let iterated ← iterated.transform r
    let body ← body.transform r
    return .forLoop pattern iterated body
  | .assign target value => do
    let target ← target.transform r
    let value ← value.transform r
    return .assign target value
  | .tuple fields => do return .tuple (← Expr.transformAll r fields)
  | .rawTuple fields => do return .rawTuple (← Expr.transformAll r fields)
  | .struct fields => do return .struct (← Expr.transformAll r fields)
  | .qualify operand types => do return .qualify (← operand.transform r) types
  | .borrow operand mutable => do return .borrow (← operand.transform r) mutable
  | .deref operand => do return .deref (← operand.transform r)
termination_by structural x => x

def Expr.transformAll (r : Transformer m) : List Expr → m (List Expr)
  | [] => return []
  | e :: es => do
    let e ← e.transform r
    let es ← Expr.transformAll r es
    return e :: es
termination_by structural x => x

def Statement.transformAll (r : Transformer m) : List Statement → m (List Statement)
  | [] => return []
  | .letBind name mutable type none :: statements => do
    let statements ← Statement.transformAll r statements
    return .letBind name mutable type none :: statements
  | .letBind name mutable type (some init) :: statements => do
    let init ← init.transform r
    let statements ← Statement.transformAll r statements
    return .letBind name mutable type (some init) :: statements
  | .eval e :: statements => do
    let e ← e.transform r
    let statements ← Statement.transformAll r statements
    return .eval e :: statements
termination_by structural x => x

def Arm.transformAll (r : Transformer m) : List Arm → m (List Arm)
  | [] => return []
  | ⟨pattern, result⟩ :: arms => do
    let result ← result.transform r
    let arms ← Arm.transformAll r arms
    return ⟨pattern, result⟩ :: arms
termination_by structural x => x

end

end

end DeltaCircuit
