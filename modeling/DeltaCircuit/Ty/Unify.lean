import DeltaCircuit.Expr.Error

/-!
# Nullability and unification of types

* `Ty.withNullable` — the same kind with another nullability. References never admit NULL, and the
  NULL literal's type always does.
* `Ty.unify` — the common type of two operands. Numbers go to the wider kind, floating point over
  decimal over integer; every other kind unifies with itself and with the NULL literal's kind. The
  result admits NULL as soon as one operand does.
-/

namespace DeltaCircuit

namespace IntWidth

/-- The wider of two widths. -/
def max (a b : IntWidth) : IntWidth := if a.bits < b.bits then b else a

end IntWidth

namespace FloatWidth

/-- The wider of two widths. -/
def max : FloatWidth → FloatWidth → FloatWidth
  | .w32, b => b
  | .w64, _ => .w64

end FloatWidth

/-- The common kind of two operands. -/
def Kind.unify? : Kind → Kind → Option Kind
  | .base .null, k => some k
  | k, .base .null => some k
  | .base (.integer w s), .base (.integer w' s') => some (.base (.integer (w.max w') (s || s')))
  | .base (.float w), .base (.float w') => some (.base (.float (w.max w')))
  | .base (.integer _ _), .base (.float w) => some (.base (.float w))
  | .base (.float w), .base (.integer _ _) => some (.base (.float w))
  | .base .decimal, .base (.integer _ _) => some (.base .decimal)
  | .base (.integer _ _), .base .decimal => some (.base .decimal)
  | .base .decimal, .base (.float w) => some (.base (.float w))
  | .base (.float w), .base .decimal => some (.base (.float w))
  | k, k' => if k = k' then some k else none

namespace Ty

/-- The type of the same kind with the given nullability. -/
def withNullable (t : Ty) (nullable : Bool) : Except TermError Ty :=
  if t.nullable = nullable then .ok t
  else if t.isReference && nullable then .error (.nullableReference t)
  else if t.kind = .base .null && !nullable then .error .nonNullableNull
  else .ok { t with nullable := nullable }

/-- The common type of two operands. -/
def unify (a b : Ty) : Except TermError Ty :=
  match a.kind.unify? b.kind with
  | some kind => (ofKind kind).withNullable (a.nullable || b.nullable)
  | none => .error (.mismatch .unification (.type a) (.type b))

end Ty
end DeltaCircuit
