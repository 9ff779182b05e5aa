import DeltaCircuit.Expr.Build

/-!
# Free variables

`Expr.freeVariables` lists the variables of an expression that nothing around them binds, in the
order of their first use. Closure parameters, loop patterns and match arms bind names in their
bodies, and a `let` binds its name in the rest of its block; its initial value still sees what was
bound before. The constants inside patterns and the elements of Z-set literals are expressions and
count as well.

`Expr.isClosed` says that there are none.
-/

namespace DeltaCircuit

/-- The names that a list of statements binds for what follows it. -/
def Statement.namesAll : List Statement → List String
  | [] => []
  | .letBind name _ _ _ :: statements => name :: Statement.namesAll statements
  | .eval _ :: statements => Statement.namesAll statements

/-- The names that closure parameters bind. -/
def Parameter.namesAll : List Parameter → List String
  | [] => []
  | param :: params => param.pattern.names ++ Parameter.namesAll params

/-- A use of a name, unless the name is bound. -/
def freeUse (bound : List String) (name : String) : List String :=
  if bound.contains name then [] else [name]

mutual

/-- The uses of names outside `bound`, in the order in which they are met. -/
def Expr.freeUses : Expr → (bound : List String) → List String
  | ⟨_, _, form⟩, bound => form.freeUses bound
termination_by structural x => x

def Form.freeUses : Form → (bound : List String) → List String
  | .literal _, _ => []
  | .var name, bound => freeUse bound name
  | .field base _, bound => base.freeUses bound
  | .binary _ left right, bound => left.freeUses bound ++ right.freeUses bound
  | .unary _ operand, bound => operand.freeUses bound
  | .cast operand, bound => operand.freeUses bound
  | .apply function args, bound => function.freeUses bound ++ Expr.freeUsesAll args bound
  | .closure params body, bound =>
    Parameter.freeUsesAll params bound ++ body.freeUses (Parameter.namesAll params ++ bound)
  | .block statements none, bound => Statement.freeUsesAll statements bound
  | .block statements (some last), bound =>
    Statement.freeUsesAll statements bound ++
      last.freeUses (Statement.namesAll statements ++ bound)
  | .ifElse condition positive none, bound =>
    condition.freeUses bound ++ positive.freeUses bound
  | .ifElse condition positive (some negative), bound =>
    condition.freeUses bound ++ positive.freeUses bound ++ negative.freeUses bound
  | .matchOn subject arms, bound => subject.freeUses bound ++ Arm.freeUsesAll arms bound
  | .forLoop pattern iterated block, bound =>
    iterated.freeUses bound ++ pattern.freeUses bound ++ block.freeUses (pattern.names ++ bound)
  | .assign target value, bound => target.freeUses bound ++ value.freeUses bound
  | .tuple fields, bound => Expr.freeUsesAll fields bound
  | .rawTuple fields, bound => Expr.freeUsesAll fields bound
  | .struct fields, bound => Expr.freeUsesAll fields bound
  | .path _, _ => []
  | .qualify operand _, bound => operand.freeUses bound
  | .borrow operand _, bound => operand.freeUses bound
  | .deref operand, bound => operand.freeUses bound
  | .zset ⟨_, entries⟩, bound => ZSetLiteral.freeUsesAll entries bound
termination_by structural x => x

/-- The uses in the constants of a pattern. A name bound further left in it counts as bound. -/
def Pattern.freeUses : Pattern → (bound : List String) → List String
  | .identifier _ _, _ => []
  | .wildcard, _ => []
  | .tuple fields, bound => Pattern.freeUsesAll fields bound
  | .literal value, bound => value.freeUses bound
termination_by structural x => x

def Pattern.freeUsesAll : List Pattern → (bound : List String) → List String
  | [], _ => []
  | pattern :: patterns, bound =>
    pattern.freeUses bound ++ Pattern.freeUsesAll patterns (pattern.names ++ bound)
termination_by structural x => x

def Expr.freeUsesAll : List Expr → (bound : List String) → List String
  | [], _ => []
  | e :: es, bound => e.freeUses bound ++ Expr.freeUsesAll es bound
termination_by structural x => x

/-- The uses in the statements of a block. -/
def Statement.freeUsesAll : List Statement → (bound : List String) → List String
  | [], _ => []
  | .letBind name _ _ none :: statements, bound =>
    Statement.freeUsesAll statements (name :: bound)
  | .letBind name _ _ (some init) :: statements, bound =>
    init.freeUses bound ++ Statement.freeUsesAll statements (name :: bound)
  | .eval e :: statements, bound => e.freeUses bound ++ Statement.freeUsesAll statements bound
termination_by structural x => x

def Arm.freeUsesAll : List Arm → (bound : List String) → List String
  | [], _ => []
  | ⟨pattern, result⟩ :: arms, bound =>
    pattern.freeUses bound ++ result.freeUses (pattern.names ++ bound) ++
      Arm.freeUsesAll arms bound
termination_by structural x => x

def Parameter.freeUsesAll : List Parameter → (bound : List String) → List String
  | [], _ => []
  | ⟨pattern, _⟩ :: params, bound =>
    pattern.freeUses bound ++ Parameter.freeUsesAll params (pattern.names ++ bound)
termination_by structural x => x

def ZSetLiteral.freeUsesAll : List (Expr × Int) → (bound : List String) → List String
  | [], _ => []
  | (element, _) :: entries, bound =>
    element.freeUses bound ++ ZSetLiteral.freeUsesAll entries bound
termination_by structural x => x

end

/-- The free variables of an expression, in the order of their first use. -/
def Expr.freeVariables (e : Expr) : List String := (e.freeUses []).eraseDups

/-- Whether an expression refers to nothing outside it. -/
def Expr.isClosed (e : Expr) : Bool := (e.freeUses []).isEmpty

end DeltaCircuit
