import DeltaCircuit.Plan.Error
import DeltaCircuit.Ty.Unify

/-!
# Keys of joins

A join condition is split into equalities of a left and a right column, which become the key of an
indexed join, and a rest that is checked afterwards.

`ScalarExpr.decompose` walks the conjuncts from left to right. It stops at the first one that is no
key: if other conjuncts follow in the same conjunction, the whole conjunction is the rest, and
otherwise only that conjunct.
-/

namespace DeltaCircuit

/-- A left column that equals a right column. -/
structure JoinKey where
  leftColumn : Nat
  /-- A position in the right row. -/
  rightColumn : Nat
  /-- The common type, without NULL, in which the columns are compared. -/
  type : Ty
deriving DecidableEq

/-- A join condition as keys and a rest. -/
structure JoinCondition where
  keys : List JoinKey
  residual : Option ScalarExpr

/-- The numbers of columns of the inputs of a join. -/
structure JoinWidths where
  left : Nat
  right : Nat

/-- A column of one input of a join. -/
inductive JoinSide where
  | left (column : Nat)
  | right (column : Nat)

namespace ScalarExpr

/-- The side and the type of a column reference; other expressions have no side. -/
def side (w : JoinWidths) : ScalarExpr → Except CompileError (Option (JoinSide × Ty))
  | .column index type =>
    if w.left + w.right ≤ index then
      .error (.malformed (.joinColumn index (w.left + w.right)))
    else if index < w.left then .ok (some (.left index, type))
    else .ok (some (.right (index - w.left), type))
  | _ => .ok none

/-- The key of a left and a right column. -/
def joinKey (left right : Nat) (leftType rightType : Ty) : Except CompileError JoinKey := do
  let common ← ofTerm (leftType.unify rightType)
  return ⟨left, right, ← ofTerm (common.withNullable false)⟩

/-- The key that an equality of two expressions stands for, if any. -/
def equalityKey (w : JoinWidths) (a b : ScalarExpr) : Except CompileError (Option JoinKey) := do
  let left ← a.side w
  let right ← b.side w
  match left, right with
  | some (.left l, lt), some (.right r, rt) => some <$> joinKey l r lt rt
  | some (.right r, rt), some (.left l, lt) => some <$> joinKey l r lt rt
  | _, _ => return none

mutual

/-- Splits a condition into keys and a rest. -/
def decompose (w : JoinWidths) : ScalarExpr → Except CompileError JoinCondition
  | .call .and operands type => decomposeAll w (.call .and operands type) operands
  | .call .equals [a, b] type => do
    match ← equalityKey w a b with
    | some key => return ⟨[key], none⟩
    | none => return ⟨[], some (.call .equals [a, b] type)⟩
  | e => return ⟨[], some e⟩
termination_by structural x => x

/-- Splits the conjuncts of the conjunction `whole`. -/
def decomposeAll (w : JoinWidths) (whole : ScalarExpr) :
    List ScalarExpr → Except CompileError JoinCondition
  | [] => return ⟨[], none⟩
  | e :: es => do
    let first ← e.decompose w
    match first.residual with
    | some residual => return ⟨first.keys, some (if es.isEmpty then residual else whole)⟩
    | none =>
      let rest ← decomposeAll w whole es
      return ⟨first.keys ++ rest.keys, rest.residual⟩
termination_by structural x => x

end

/-- Splits a condition that says something. -/
def joinCondition (w : JoinWidths) (e : ScalarExpr) : Except CompileError JoinCondition := do
  let condition ← e.decompose w
  if condition.keys.isEmpty && condition.residual.isNone then throw .emptyJoinCondition
  return condition

end ScalarExpr
end DeltaCircuit
