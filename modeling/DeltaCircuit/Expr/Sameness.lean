import DeltaCircuit.Expr.Equality

/-!
# Shallow sameness

`Expr.shallowSame` stands between identity of nodes and equality. It compares one level of two
expressions: their types, their form, and their sub-expressions by identity. Patterns, closure
parameters and Z-set literals are compared by equality. A loop is the same as itself only.
-/

namespace DeltaCircuit

namespace Expr

/-- Whether two lists hold the same nodes. -/
def sameNodes (as bs : List Expr) : Bool := as = bs

/-- Whether two optional expressions are the same node or both absent. -/
def sameOptional (a b : Option Expr) : Bool := a = b

end Expr

/-- Whether two statements are the same apart from the expressions in them, and those are the same
nodes. -/
def Statement.same : Statement → Statement → Bool
  | .letBind n m t e, .letBind n' m' t' e' =>
    n == n' && m == m' && t == t' && Expr.sameOptional e e'
  | .eval e, .eval e' => e.sameNode e'
  | _, _ => false

/-- Whether two arms have equal patterns and the same node as a result. -/
def Arm.same (a b : Arm) : Bool := a.pattern.equal b.pattern && a.result.sameNode b.result

/-- Whether two lists agree item by item. -/
def sameItems {α : Type} (same : α → α → Bool) : List α → List α → Bool
  | [], [] => true
  | a :: as, b :: bs => same a b && sameItems same as bs
  | _, _ => false

/-- One level of comparison. -/
def Form.shallowSame : Form → Form → Bool
  | .literal v, .literal v' => sameLiteral v v'
  | .var n, .var n' => n == n'
  | .field e i, .field e' i' => i == i' && e.sameNode e'
  | .binary o l r, .binary o' l' r' => o == o' && l.sameNode l' && r.sameNode r'
  | .unary o e, .unary o' e' => o == o' && e.sameNode e'
  | .cast e, .cast e' => e.sameNode e'
  | .apply f as, .apply f' as' => f.sameNode f' && Expr.sameNodes as as'
  | .closure ps b, .closure ps' b' => Parameter.equalAll ps ps' && b.sameNode b'
  | .block ss e, .block ss' e' => sameItems Statement.same ss ss' && Expr.sameOptional e e'
  | .ifElse c p n, .ifElse c' p' n' => c.sameNode c' && p.sameNode p' && Expr.sameOptional n n'
  | .matchOn e as, .matchOn e' as' => e.sameNode e' && sameItems Arm.same as as'
  | .assign t v, .assign t' v' => t.sameNode t' && v.sameNode v'
  | .tuple fs, .tuple fs' => Expr.sameNodes fs fs'
  | .rawTuple fs, .rawTuple fs' => Expr.sameNodes fs fs'
  | .struct fs, .struct fs' => Expr.sameNodes fs fs'
  | .path s, .path s' => s == s'
  | .qualify e ts, .qualify e' ts' => e.sameNode e' && ts == ts'
  | .borrow e m, .borrow e' m' => m == m' && e.sameNode e'
  | .deref e, .deref e' => e.sameNode e'
  | .zset z, .zset z' => z.equal z'
  | _, _ => false

/-- Whether two expressions are the same node, or agree in one level. -/
def Expr.shallowSame (a b : Expr) : Bool :=
  a.sameNode b || (a.type == b.type && a.form.shallowSame b.form)

end DeltaCircuit
