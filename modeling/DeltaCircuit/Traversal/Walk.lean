import DeltaCircuit.Traversal.Hook

/-!
# Traversal of syntax

A visitor says what every hook does before and after a node. The walk announces a node, visits its
type and its parts from left to right, and announces that it leaves the node. A visitor that does
not want to enter a node skips its parts, and does not leave it either.

* `Visitor` — what the hooks do, with a state that goes through the whole walk.
* `Visitor.enter`, `Visitor.leave` — a call of the first hook of a node, passed on to wider hooks
  as long as they say so.
* `Expr.walk`, `Ty.walk`, `Pattern.walk`, `Statement.walk` — the walk. A loop visits what it
  iterates over before its pattern, and a closure parameter its pattern before its type.
* `SyntaxNode.traverse` — a whole visit, from its start to its end.
-/

namespace DeltaCircuit

/-- What a hook decides about entering a node. -/
inductive Entry where
  /-- The call is settled. -/
  | settled (enter : Bool)
  /-- The next wider hook decides; without one the node is entered. -/
  | passedOn
deriving DecidableEq

/-- The hooks of a visitor with a state. -/
structure Visitor (σ : Type) where
  start : σ → σ
  finish : σ → σ
  /-- Called before a node. -/
  before : Hook → SyntaxNode → σ → Entry × σ
  /-- Called after a node; the flag says whether the next wider hook is called too. -/
  after : Hook → SyntaxNode → σ → Bool × σ

namespace Visitor

variable {σ : Type}

/-- What a hook does that a visitor says nothing about: it passes calls on, or it settles them
with nothing done. -/
def silent (delegates : Bool) : Visitor σ where
  start := id
  finish := id
  before _ _ s := (if delegates then .passedOn else .settled true, s)
  after _ _ s := (delegates, s)

/-- Calls hooks from the narrowest on until one settles whether to enter. -/
def enterAlong (v : Visitor σ) (n : SyntaxNode) : List Hook → σ → Bool × σ
  | [], s => (true, s)
  | h :: wider, s =>
    match v.before h n s with
    | (.settled enter, s) => (enter, s)
    | (.passedOn, s) => enterAlong v n wider s

/-- Whether to enter a node. -/
def enter (v : Visitor σ) (n : SyntaxNode) (s : σ) : Bool × σ := v.enterAlong n n.hook.chain s

/-- Calls hooks from the narrowest on as long as they pass the call on. -/
def leaveAlong (v : Visitor σ) (n : SyntaxNode) : List Hook → σ → σ
  | [], s => s
  | h :: wider, s =>
    match v.after h n s with
    | (true, s) => leaveAlong v n wider s
    | (false, s) => s

/-- Leaves a node. -/
def leave (v : Visitor σ) (n : SyntaxNode) (s : σ) : σ := v.leaveAlong n n.hook.chain s

/-- Visits a node whose parts are visited by `parts`. -/
def around (v : Visitor σ) (n : SyntaxNode) (parts : σ → σ) (s : σ) : σ :=
  match v.enter n s with
  | (true, s) => v.leave n (parts s)
  | (false, s) => s

end Visitor

/-! ### Types -/

section

variable {σ : Type} (v : Visitor σ)

mutual

/-- Visits a type and its component types. -/
def Ty.walk : Ty → σ → σ
  | ⟨kind, nullable⟩, s => v.around (.type ⟨kind, nullable⟩) (fun s => kind.walkParts s) s
termination_by structural x => x

def Kind.walkParts : Kind → σ → σ
  | .base _, s => s
  | .tuple fields, s => Ty.walkAll fields s
  | .rawTuple fields, s => Ty.walkAll fields s
  | .struct _ fields, s => StructField.walkAll fields s
  | .vec element, s => element.walk s
  | .zset element weight, s => weight.walk (element.walk s)
  | .indexedZSet key value weight, s => weight.walk (value.walk (key.walk s))
  | .function none params, s => Ty.walkAll params s
  | .function (some result) params, s => Ty.walkAll params (result.walk s)
  | .reference inner _, s => inner.walk s
  | .user _ args, s => Ty.walkAll args s
termination_by structural x => x

def Ty.walkAll : List Ty → σ → σ
  | [], s => s
  | t :: ts, s => Ty.walkAll ts (t.walk s)
termination_by structural x => x

def StructField.walkAll : List StructField → σ → σ
  | [], s => s
  | ⟨_, t⟩ :: fields, s => StructField.walkAll fields (t.walk s)
termination_by structural x => x

end

/-- Visits a type, where there is one. -/
def Ty.walkOptional : Option Ty → σ → σ
  | none, s => s
  | some t, s => t.walk v s

/-! ### Expressions -/

mutual

/-- Visits an expression, its type and its sub-expressions. -/
def Expr.walk : Expr → σ → σ
  | ⟨tag, type, form⟩, s =>
    v.around (.expr ⟨tag, type, form⟩) (fun s => form.walkParts (Ty.walkOptional v type s)) s
termination_by structural x => x

def Form.walkParts : Form → σ → σ
  | .literal _, s => s
  | .var _, s => s
  | .path _, s => s
  | .field base _, s => base.walk s
  | .binary _ left right, s => right.walk (left.walk s)
  | .unary _ operand, s => operand.walk s
  | .cast operand, s => operand.walk s
  | .apply function args, s => Expr.walkAll args (function.walk s)
  | .closure params body, s => body.walk (Parameter.walkAll params s)
  | .block statements none, s => Statement.walkAll statements s
  | .block statements (some last), s => last.walk (Statement.walkAll statements s)
  | .ifElse condition positive none, s => positive.walk (condition.walk s)
  | .ifElse condition positive (some negative), s =>
    negative.walk (positive.walk (condition.walk s))
  | .matchOn subject arms, s => Arm.walkAll arms (subject.walk s)
  | .forLoop pattern iterated body, s => body.walk (pattern.walk (iterated.walk s))
  | .assign target value, s => value.walk (target.walk s)
  | .tuple fields, s => Expr.walkAll fields s
  | .rawTuple fields, s => Expr.walkAll fields s
  | .struct fields, s => Expr.walkAll fields s
  | .qualify operand types, s => Ty.walkAll v types (operand.walk s)
  | .borrow operand _, s => operand.walk s
  | .deref operand, s => operand.walk s
  | .zset ⟨_, entries⟩, s => ZSetLiteral.walkAll entries s
termination_by structural x => x

/-- Visits a pattern and its parts. -/
def Pattern.walk : Pattern → σ → σ
  | .identifier name mutable, s => v.around (.pattern (.identifier name mutable)) id s
  | .wildcard, s => v.around (.pattern .wildcard) id s
  | .tuple fields, s =>
    v.around (.pattern (.tuple fields)) (fun s => Pattern.walkAll fields s) s
  | .literal value, s => v.around (.pattern (.literal value)) (fun s => value.walk s) s
termination_by structural x => x

/-- Visits a statement, its declared type and its expression. -/
def Statement.walk : Statement → σ → σ
  | .letBind name mutable type none, s =>
    v.around (.statement (.letBind name mutable type none)) (Ty.walkOptional v type) s
  | .letBind name mutable type (some init), s =>
    v.around (.statement (.letBind name mutable type (some init)))
      (fun s => init.walk (Ty.walkOptional v type s)) s
  | .eval e, s => v.around (.statement (.eval e)) (fun s => e.walk s) s
termination_by structural x => x

def Expr.walkAll : List Expr → σ → σ
  | [], s => s
  | e :: es, s => Expr.walkAll es (e.walk s)
termination_by structural x => x

def Pattern.walkAll : List Pattern → σ → σ
  | [], s => s
  | p :: ps, s => Pattern.walkAll ps (p.walk s)
termination_by structural x => x

def Statement.walkAll : List Statement → σ → σ
  | [], s => s
  | statement :: statements, s => Statement.walkAll statements (statement.walk s)
termination_by structural x => x

def Arm.walkAll : List Arm → σ → σ
  | [], s => s
  | ⟨pattern, result⟩ :: arms, s =>
    Arm.walkAll arms
      (v.around (.arm ⟨pattern, result⟩) (fun s => result.walk (pattern.walk s)) s)
termination_by structural x => x

def Parameter.walkAll : List Parameter → σ → σ
  | [], s => s
  | ⟨pattern, type⟩ :: params, s =>
    Parameter.walkAll params (Ty.walkOptional v type (pattern.walk s))
termination_by structural x => x

def ZSetLiteral.walkAll : List (Expr × Int) → σ → σ
  | [], s => s
  | (element, _) :: entries, s => ZSetLiteral.walkAll entries (element.walk s)
termination_by structural x => x

end

/-! ### A whole visit -/

/-- Visits a node and its parts. An arm is visited like the arm of a match. -/
def SyntaxNode.walk : SyntaxNode → σ → σ
  | .type t, s => t.walk v s
  | .expr e, s => e.walk v s
  | .pattern p, s => p.walk v s
  | .statement st, s => st.walk v s
  | .arm a, s => Arm.walkAll v [a] s

/-- Visits a node between the start and the end of a visit. -/
def SyntaxNode.traverse (n : SyntaxNode) (s : σ) : σ := v.finish (n.walk v (v.start s))

end

end DeltaCircuit
