import DeltaCircuit.Expr.Basic

/-!
# Equality of expressions

`Expr.equal` compares what two expressions say: types, forms and literal values, but not the
identities of nodes. Two Z-set literals are equal when they have the same element type and give
every expression the same weight, in whatever order the entries stand.

For Z-set literals this is two tests: every element of the first has the same weight in both, and
every element of the second is one of the first.
-/

namespace DeltaCircuit

/-- Equality of optional literals. -/
def sameLiteral (a b : Option Literal) : Bool :=
  match a, b with
  | none, none => true
  | some x, some y => x.same y
  | _, _ => false

mutual

/-- Whether two expressions say the same. -/
def Expr.equal : Expr → Expr → Bool
  | ⟨_, t, f⟩, ⟨_, t', f'⟩ => t == t' && f.equal f'
termination_by structural x => x

def Form.equal : Form → Form → Bool
  | .literal v, .literal v' => sameLiteral v v'
  | .var n, .var n' => n == n'
  | .field b i, .field b' i' => i == i' && b.equal b'
  | .binary o l r, .binary o' l' r' => o == o' && l.equal l' && r.equal r'
  | .unary o e, .unary o' e' => o == o' && e.equal e'
  | .cast e, .cast e' => e.equal e'
  | .apply f as, .apply f' as' => f.equal f' && Expr.equalAll as as'
  | .closure ps b, .closure ps' b' => Parameter.equalAll ps ps' && b.equal b'
  | .block ss none, .block ss' none => Statement.equalAll ss ss'
  | .block ss (some e), .block ss' (some e') => Statement.equalAll ss ss' && e.equal e'
  | .ifElse c p none, .ifElse c' p' none => c.equal c' && p.equal p'
  | .ifElse c p (some n), .ifElse c' p' (some n') => c.equal c' && p.equal p' && n.equal n'
  | .matchOn e as, .matchOn e' as' => e.equal e' && Arm.equalAll as as'
  | .forLoop p i b, .forLoop p' i' b' => p.equal p' && i.equal i' && b.equal b'
  | .assign t v, .assign t' v' => t.equal t' && v.equal v'
  | .tuple fs, .tuple fs' => Expr.equalAll fs fs'
  | .rawTuple fs, .rawTuple fs' => Expr.equalAll fs fs'
  | .struct fs, .struct fs' => Expr.equalAll fs fs'
  | .path s, .path s' => s == s'
  | .qualify e ts, .qualify e' ts' => e.equal e' && ts == ts'
  | .borrow e m, .borrow e' m' => m == m' && e.equal e'
  | .deref e, .deref e' => e.equal e'
  | .zset z, .zset z' => z.equal z'
  | _, _ => false
termination_by structural x => x

/-- Whether two patterns match and bind the same. -/
def Pattern.equal : Pattern → Pattern → Bool
  | .identifier n m, .identifier n' m' => n == n' && m == m'
  | .wildcard, .wildcard => true
  | .tuple ps, .tuple ps' => Pattern.equalAll ps ps'
  | .literal e, .literal e' => e.equal e'
  | _, _ => false
termination_by structural x => x

/-- Whether two Z-set literals have one element type and one weight for every expression. -/
def ZSetLiteral.equal : ZSetLiteral → ZSetLiteral → Bool
  | ⟨t, es⟩, ⟨t', es'⟩ =>
    t == t' && ZSetLiteral.agree es (ZSetLiteral.find? es) es' &&
      es'.all fun entry => (ZSetLiteral.find? es entry.1).isSome
termination_by structural x => x

def Expr.equalAll : List Expr → List Expr → Bool
  | [], [] => true
  | a :: as, b :: bs => a.equal b && Expr.equalAll as bs
  | _, _ => false
termination_by structural x => x

def Pattern.equalAll : List Pattern → List Pattern → Bool
  | [], [] => true
  | a :: as, b :: bs => a.equal b && Pattern.equalAll as bs
  | _, _ => false
termination_by structural x => x

def Statement.equalAll : List Statement → List Statement → Bool
  | [], [] => true
  | .letBind n m t none :: as, .letBind n' m' t' none :: bs =>
    n == n' && m == m' && t == t' && Statement.equalAll as bs
  | .letBind n m t (some e) :: as, .letBind n' m' t' (some e') :: bs =>
    n == n' && m == m' && t == t' && e.equal e' && Statement.equalAll as bs
  | .eval e :: as, .eval e' :: bs => e.equal e' && Statement.equalAll as bs
  | _, _ => false
termination_by structural x => x

def Arm.equalAll : List Arm → List Arm → Bool
  | [], [] => true
  | ⟨p, e⟩ :: as, ⟨p', e'⟩ :: bs => p.equal p' && e.equal e' && Arm.equalAll as bs
  | _, _ => false
termination_by structural x => x

def Parameter.equalAll : List Parameter → List Parameter → Bool
  | [], [] => true
  | ⟨p, t⟩ :: as, ⟨p', t'⟩ :: bs => t == t' && p.equal p' && Parameter.equalAll as bs
  | _, _ => false
termination_by structural x => x

/-- The weight of the first entry whose element equals an expression. -/
def ZSetLiteral.find? : List (Expr × Int) → Expr → Option Int
  | [], _ => none
  | (element, weight) :: entries, e =>
    if element.equal e then some weight else ZSetLiteral.find? entries e
termination_by structural x => x

/-- Whether every element of the first list has, among the entries `others`, the weight that
`own` gives it. -/
def ZSetLiteral.agree :
    List (Expr × Int) → (own : Expr → Option Int) → (others : List (Expr × Int)) → Bool
  | [], _, _ => true
  | (element, _) :: entries, own, others =>
    ((others.find? fun entry => element.equal entry.1).map Prod.snd == own element) &&
      ZSetLiteral.agree entries own others
termination_by structural x => x

end

end DeltaCircuit
