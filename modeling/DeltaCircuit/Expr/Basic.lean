import DeltaCircuit.Literal

/-!
# Expressions, patterns, statements

The syntax of the functions that circuit operators apply to rows. Expressions, patterns,
statements and Z-set literals contain one another, so they are declared together.

* `Expr` — a node: an identity, the static type if the expression gives a value, and a form.
* `Pattern` — what closure parameters, loops and match arms bind.
* `Statement` — a step of a block.
* `ZSetLiteral` — expressions with integer weights.

Equality of nodes is decidable. It compares identities too, so it means "the very same node";
equality of what two expressions say is `Expr.equal`.
-/

namespace DeltaCircuit

/-! ### Operators -/

inductive ArithmeticOp where
  | add | sub | mul | div | mod
deriving DecidableEq

inductive ComparisonOp where
  | eq | neq | lt | lte | gt | gte
deriving DecidableEq

inductive LogicalOp where
  | and | or
deriving DecidableEq

/-- Operators that skip NULL operands. -/
inductive AggregateOp where
  | plus | min | max
deriving DecidableEq

inductive BinaryOp where
  | arithmetic (op : ArithmeticOp)
  | comparison (op : ComparisonOp)
  | logical (op : LogicalOp)
  | concat
  | aggregate (op : AggregateOp)
deriving DecidableEq

def BinaryOp.all : List BinaryOp :=
  [.arithmetic .add, .arithmetic .sub, .arithmetic .mul, .arithmetic .div, .arithmetic .mod,
    .comparison .eq, .comparison .neq, .comparison .lt, .comparison .lte, .comparison .gt,
    .comparison .gte, .logical .and, .logical .or, .concat, .aggregate .plus, .aggregate .min,
    .aggregate .max]

inductive UnaryOp where
  | not | neg | plus | isNull | isNotNull
  /-- A boolean in which NULL counts as false. -/
  | wrapBool
deriving DecidableEq

def UnaryOp.all : List UnaryOp := [.not, .neg, .plus, .isNull, .isNotNull, .wrapBool]

/-! ### The syntax -/

/-- The identity of a node. Nodes of the same structure are told apart by numbers, given either by
whoever builds them or by a pass that rebuilds them. -/
inductive Tag where
  | anonymous
  | given (number : Nat)
  | rebuilt (number : Nat)
deriving DecidableEq

mutual

/-- An expression node. Expressions that give no value have no type. -/
structure Expr where
  tag : Tag
  type : Option Ty
  form : Form

/-- The forms of expressions. -/
inductive Form where
  /-- A literal; `none` is NULL. -/
  | literal (value : Option Literal)
  | var (name : String)
  /-- A field of a tuple or of a reference to one. -/
  | field (base : Expr) (index : Nat)
  | binary (op : BinaryOp) (left right : Expr)
  | unary (op : UnaryOp) (operand : Expr)
  /-- A conversion to the type of the node. -/
  | cast (operand : Expr)
  | apply (function : Expr) (args : List Expr)
  | closure (params : List Parameter) (body : Expr)
  | block (statements : List Statement) (last : Option Expr)
  | ifElse (condition positive : Expr) (negative : Option Expr)
  | matchOn (subject : Expr) (arms : List Arm)
  | forLoop (pattern : Pattern) (iterated block : Expr)
  | assign (target value : Expr)
  | tuple (fields : List Expr)
  | rawTuple (fields : List Expr)
  /-- A struct; the names of its fields are in its type. -/
  | struct (fields : List Expr)
  /-- An item of a library, known by its path only. -/
  | path (segments : List String)
  /-- An expression with explicit type arguments. -/
  | qualify (operand : Expr) (types : List Ty)
  | borrow (operand : Expr) (mutable : Bool)
  | deref (operand : Expr)
  | zset (literal : ZSetLiteral)

/-- What takes a value apart and binds names to its components. -/
inductive Pattern where
  | identifier (name : String) (mutable : Bool)
  | wildcard
  /-- A tuple of either kind. -/
  | tuple (fields : List Pattern)
  /-- A constant that the value has to equal. -/
  | literal (value : Expr)

/-- A step of a block. -/
inductive Statement where
  | letBind (name : String) (mutable : Bool) (type : Option Ty) (init : Option Expr)
  | eval (expr : Expr)

/-- An arm of a match. -/
structure Arm where
  pattern : Pattern
  result : Expr

/-- A closure parameter with its type, where one is declared. -/
structure Parameter where
  pattern : Pattern
  type : Option Ty

/-- Elements of one type with their weights, in the order in which they were first added. -/
structure ZSetLiteral where
  elementType : Ty
  entries : List (Expr × Int)

end

/-! ### Identity of nodes -/

mutual

/-- Compares two nodes, identities included. -/
def Expr.beq : Expr → Expr → Bool
  | ⟨g, t, f⟩, ⟨g', t', f'⟩ => g == g' && t == t' && Form.beq f f'
termination_by structural x => x

def Form.beq : Form → Form → Bool
  | .literal v, .literal v' => v == v'
  | .var n, .var n' => n == n'
  | .field b i, .field b' i' => i == i' && b.beq b'
  | .binary o l r, .binary o' l' r' => o == o' && l.beq l' && r.beq r'
  | .unary o e, .unary o' e' => o == o' && e.beq e'
  | .cast e, .cast e' => e.beq e'
  | .apply f as, .apply f' as' => f.beq f' && Expr.beqAll as as'
  | .closure ps b, .closure ps' b' => b.beq b' && Parameter.beqAll ps ps'
  | .block ss none, .block ss' none => Statement.beqAll ss ss'
  | .block ss (some e), .block ss' (some e') => e.beq e' && Statement.beqAll ss ss'
  | .ifElse c p none, .ifElse c' p' none => c.beq c' && p.beq p'
  | .ifElse c p (some n), .ifElse c' p' (some n') => c.beq c' && p.beq p' && n.beq n'
  | .matchOn e as, .matchOn e' as' => e.beq e' && Arm.beqAll as as'
  | .forLoop p i b, .forLoop p' i' b' => p.beq p' && i.beq i' && b.beq b'
  | .assign t v, .assign t' v' => t.beq t' && v.beq v'
  | .tuple fs, .tuple fs' => Expr.beqAll fs fs'
  | .rawTuple fs, .rawTuple fs' => Expr.beqAll fs fs'
  | .struct fs, .struct fs' => Expr.beqAll fs fs'
  | .path s, .path s' => s == s'
  | .qualify e ts, .qualify e' ts' => ts == ts' && e.beq e'
  | .borrow e m, .borrow e' m' => m == m' && e.beq e'
  | .deref e, .deref e' => e.beq e'
  | .zset z, .zset z' => z.beq z'
  | _, _ => false
termination_by structural x => x

def Pattern.beq : Pattern → Pattern → Bool
  | .identifier n m, .identifier n' m' => n == n' && m == m'
  | .wildcard, .wildcard => true
  | .tuple ps, .tuple ps' => Pattern.beqAll ps ps'
  | .literal e, .literal e' => e.beq e'
  | _, _ => false
termination_by structural x => x

def ZSetLiteral.beq : ZSetLiteral → ZSetLiteral → Bool
  | ⟨t, es⟩, ⟨t', es'⟩ => t == t' && ZSetLiteral.beqEntries es es'
termination_by structural x => x

def Expr.beqAll : List Expr → List Expr → Bool
  | [], [] => true
  | a :: as, b :: bs => a.beq b && Expr.beqAll as bs
  | _, _ => false
termination_by structural x => x

def Pattern.beqAll : List Pattern → List Pattern → Bool
  | [], [] => true
  | a :: as, b :: bs => a.beq b && Pattern.beqAll as bs
  | _, _ => false
termination_by structural x => x

def Statement.beqAll : List Statement → List Statement → Bool
  | [], [] => true
  | .letBind n m t none :: as, .letBind n' m' t' none :: bs =>
    n == n' && m == m' && t == t' && Statement.beqAll as bs
  | .letBind n m t (some e) :: as, .letBind n' m' t' (some e') :: bs =>
    n == n' && m == m' && t == t' && e.beq e' && Statement.beqAll as bs
  | .eval e :: as, .eval e' :: bs => e.beq e' && Statement.beqAll as bs
  | _, _ => false
termination_by structural x => x

def Arm.beqAll : List Arm → List Arm → Bool
  | [], [] => true
  | ⟨p, e⟩ :: as, ⟨p', e'⟩ :: bs => p.beq p' && e.beq e' && Arm.beqAll as bs
  | _, _ => false
termination_by structural x => x

def Parameter.beqAll : List Parameter → List Parameter → Bool
  | [], [] => true
  | ⟨p, t⟩ :: as, ⟨p', t'⟩ :: bs => t == t' && p.beq p' && Parameter.beqAll as bs
  | _, _ => false
termination_by structural x => x

def ZSetLiteral.beqEntries : List (Expr × Int) → List (Expr × Int) → Bool
  | [], [] => true
  | (e, w) :: as, (e', w') :: bs => w == w' && e.beq e' && ZSetLiteral.beqEntries as bs
  | _, _ => false
termination_by structural x => x

end

mutual

theorem Expr.beq_iff_eq : ∀ a b : Expr, a.beq b = true ↔ a = b
  | ⟨g, t, f⟩, ⟨g', t', f'⟩ => by simp [Expr.beq, Form.beq_iff_eq f, and_assoc]

theorem Form.beq_iff_eq : ∀ a b : Form, a.beq b = true ↔ a = b
  | .literal _, b => by cases b <;> simp [Form.beq]
  | .var _, b => by cases b <;> simp [Form.beq]
  | .field e _, b => by cases b <;> simp [Form.beq, Expr.beq_iff_eq e, and_comm]
  | .binary _ l r, b => by
    cases b <;> simp [Form.beq, Expr.beq_iff_eq l, Expr.beq_iff_eq r, and_assoc]
  | .unary _ e, b => by cases b <;> simp [Form.beq, Expr.beq_iff_eq e]
  | .cast e, b => by cases b <;> simp [Form.beq, Expr.beq_iff_eq e]
  | .apply f as, b => by cases b <;> simp [Form.beq, Expr.beq_iff_eq f, Expr.beqAll_iff_eq as]
  | .closure ps e, b => by
    cases b <;> simp [Form.beq, Expr.beq_iff_eq e, Parameter.beqAll_iff_eq ps, and_comm]
  | .block ss none, b => by
    cases b with
    | block ss' last => cases last <;> simp [Form.beq, Statement.beqAll_iff_eq ss]
    | _ => simp [Form.beq]
  | .block ss (some e), b => by
    cases b with
    | block ss' last =>
      cases last <;> simp [Form.beq, Expr.beq_iff_eq e, Statement.beqAll_iff_eq ss, and_comm]
    | _ => simp [Form.beq]
  | .ifElse c p none, b => by
    cases b with
    | ifElse c' p' n' => cases n' <;> simp [Form.beq, Expr.beq_iff_eq c, Expr.beq_iff_eq p]
    | _ => simp [Form.beq]
  | .ifElse c p (some n), b => by
    cases b with
    | ifElse c' p' n' =>
      cases n' <;>
        simp [Form.beq, Expr.beq_iff_eq c, Expr.beq_iff_eq p, Expr.beq_iff_eq n, and_assoc]
    | _ => simp [Form.beq]
  | .matchOn e as, b => by cases b <;> simp [Form.beq, Expr.beq_iff_eq e, Arm.beqAll_iff_eq as]
  | .forLoop p i e, b => by
    cases b <;>
      simp [Form.beq, Pattern.beq_iff_eq p, Expr.beq_iff_eq i, Expr.beq_iff_eq e, and_assoc]
  | .assign t v, b => by cases b <;> simp [Form.beq, Expr.beq_iff_eq t, Expr.beq_iff_eq v]
  | .tuple fs, b => by cases b <;> simp [Form.beq, Expr.beqAll_iff_eq fs]
  | .rawTuple fs, b => by cases b <;> simp [Form.beq, Expr.beqAll_iff_eq fs]
  | .struct fs, b => by cases b <;> simp [Form.beq, Expr.beqAll_iff_eq fs]
  | .path _, b => by cases b <;> simp [Form.beq]
  | .qualify e _, b => by cases b <;> simp [Form.beq, Expr.beq_iff_eq e, and_comm]
  | .borrow e _, b => by cases b <;> simp [Form.beq, Expr.beq_iff_eq e, and_comm]
  | .deref e, b => by cases b <;> simp [Form.beq, Expr.beq_iff_eq e]
  | .zset z, b => by cases b <;> simp [Form.beq, ZSetLiteral.beq_iff_eq z]

theorem Pattern.beq_iff_eq : ∀ a b : Pattern, a.beq b = true ↔ a = b
  | .identifier _ _, b => by cases b <;> simp [Pattern.beq]
  | .wildcard, b => by cases b <;> simp [Pattern.beq]
  | .tuple ps, b => by cases b <;> simp [Pattern.beq, Pattern.beqAll_iff_eq ps]
  | .literal e, b => by cases b <;> simp [Pattern.beq, Expr.beq_iff_eq e]

theorem ZSetLiteral.beq_iff_eq : ∀ a b : ZSetLiteral, a.beq b = true ↔ a = b
  | ⟨_, es⟩, ⟨_, _⟩ => by simp [ZSetLiteral.beq, ZSetLiteral.beqEntries_iff_eq es]

theorem Expr.beqAll_iff_eq : ∀ as bs : List Expr, Expr.beqAll as bs = true ↔ as = bs
  | [], bs => by cases bs <;> simp [Expr.beqAll]
  | a :: as, bs => by cases bs <;> simp [Expr.beqAll, Expr.beq_iff_eq a, Expr.beqAll_iff_eq as]

theorem Pattern.beqAll_iff_eq : ∀ as bs : List Pattern, Pattern.beqAll as bs = true ↔ as = bs
  | [], bs => by cases bs <;> simp [Pattern.beqAll]
  | a :: as, bs => by
    cases bs <;> simp [Pattern.beqAll, Pattern.beq_iff_eq a, Pattern.beqAll_iff_eq as]

theorem Statement.beqAll_iff_eq :
    ∀ as bs : List Statement, Statement.beqAll as bs = true ↔ as = bs
  | [], bs => by cases bs <;> simp [Statement.beqAll]
  | .letBind _ _ _ none :: as, bs => by
    rcases bs with - | ⟨⟨_, _, _, (- | -)⟩ | _, bs⟩ <;>
      simp [Statement.beqAll, Statement.beqAll_iff_eq as, and_assoc]
  | .letBind _ _ _ (some e) :: as, bs => by
    rcases bs with - | ⟨⟨_, _, _, (- | -)⟩ | _, bs⟩ <;>
      simp [Statement.beqAll, Expr.beq_iff_eq e, Statement.beqAll_iff_eq as, and_assoc]
  | .eval e :: as, bs => by
    rcases bs with - | ⟨⟨_, _, _, (- | -)⟩ | _, bs⟩ <;>
      simp [Statement.beqAll, Expr.beq_iff_eq e, Statement.beqAll_iff_eq as]

theorem Arm.beqAll_iff_eq : ∀ as bs : List Arm, Arm.beqAll as bs = true ↔ as = bs
  | [], bs => by cases bs <;> simp [Arm.beqAll]
  | ⟨p, e⟩ :: as, bs => by
    rcases bs with - | ⟨⟨_, _⟩, bs⟩ <;>
      simp [Arm.beqAll, Pattern.beq_iff_eq p, Expr.beq_iff_eq e, Arm.beqAll_iff_eq as]

theorem Parameter.beqAll_iff_eq :
    ∀ as bs : List Parameter, Parameter.beqAll as bs = true ↔ as = bs
  | [], bs => by cases bs <;> simp [Parameter.beqAll]
  | ⟨p, t⟩ :: as, bs => by
    rcases bs with - | ⟨⟨p', t'⟩, bs⟩
    · simp [Parameter.beqAll]
    · simp [Parameter.beqAll, Pattern.beq_iff_eq p, Parameter.beqAll_iff_eq as,
        and_comm (a := t = t')]

theorem ZSetLiteral.beqEntries_iff_eq :
    ∀ as bs : List (Expr × Int), ZSetLiteral.beqEntries as bs = true ↔ as = bs
  | [], bs => by cases bs <;> simp [ZSetLiteral.beqEntries]
  | (e, w) :: as, bs => by
    rcases bs with - | ⟨⟨e', w'⟩, bs⟩
    · simp [ZSetLiteral.beqEntries]
    · simp [ZSetLiteral.beqEntries, Expr.beq_iff_eq e, ZSetLiteral.beqEntries_iff_eq as,
        and_comm (a := w = w')]

end

instance : DecidableEq Expr :=
  fun a b => decidable_of_iff (a.beq b = true) (Expr.beq_iff_eq a b)

/-- **Same node.** Whether two expressions are one and the same node. -/
def Expr.sameNode (a b : Expr) : Bool := a = b

/-- An expression that nobody has given an identity yet. -/
def Expr.ofForm (type : Option Ty) (form : Form) : Expr := ⟨.anonymous, type, form⟩

/-- Gives an identity to a node that has none. -/
def Expr.identify (tag : Tag) (e : Expr) : Expr :=
  if e.tag = .anonymous then { e with tag := tag } else e

end DeltaCircuit
