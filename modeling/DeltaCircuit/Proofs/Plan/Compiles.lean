import DeltaCircuit.Plan.ScalarCompiler
import DeltaCircuit.Proofs.Expr.Built
import DeltaCircuit.Proofs.Plan.Conformance

/-!
# Compiling, one form of expression at a time

What a scalar expression is compiled to, as a relation with one case for every form that is
compiled. Everything else about compiled expressions is an induction on it.

* `Expr.compileBinary_eq_ok` — binary operations, on operands as they are or of their common type.
* `ScalarExpr.Compiles` — the relation.
* `ScalarExpr.compile_eq_ok` — that it is what compiling does.
-/

namespace DeltaCircuit

@[simp] theorem ofTerm_eq_ok {α : Type} {result : Except TermError α} {a : α} :
    ofTerm result = .ok a ↔ result = .ok a := Except.mapError_eq_ok

/-- An operand that is taken to a common type keeps its own nullability. -/
theorem Expr.promote_eq_ok {e e' : Expr} {common : Ty} (h : promote e common = .ok e') :
    ∃ type : Ty, type.kind = common.kind ∧ castIfNeeded e type = .ok e' := by
  obtain ⟨own, -, h⟩ := Except.bind_eq_ok.mp h
  obtain ⟨type, htype, h⟩ := Except.bind_eq_ok.mp h
  exact ⟨type, Ty.kind_of_withNullable htype, h⟩

/-- Logical operations take their operands as they are. Anything else takes them to their common
type first, and all but a comparison is an operation of that type, whose result is converted. -/
theorem Expr.compileBinary_eq_ok {op : BinaryOp} {l r compiled : Expr} {type : Ty}
    (h : compileBinary op l r type = .ok compiled) :
    (∃ o, op = .logical o ∧ binary op l r type = .ok compiled) ∨
      ∃ leftType rightType common l' r', l.type = some leftType ∧ r.type = some rightType ∧
        leftType.deref.unify rightType.deref = .ok common ∧
        promote l common = .ok l' ∧ promote r common = .ok r' ∧
        ((∃ o, op = .comparison o ∧ binary op l' r' type = .ok compiled) ∨
          (∀ o, op ≠ .logical o) ∧ (∀ o, op ≠ .comparison o) ∧
            ∃ result, binary op l' r' common = .ok result ∧
              castIfNeeded result type = .ok compiled) := by
  unfold compileBinary at h
  split at h
  · exact .inl ⟨_, rfl, h⟩
  · next hlogical =>
    obtain ⟨leftType, hleft, h⟩ := Except.bind_eq_ok.mp h
    obtain ⟨rightType, hright, h⟩ := Except.bind_eq_ok.mp h
    obtain ⟨common, hcommon, h⟩ := Except.bind_eq_ok.mp h
    obtain ⟨l', hl', h⟩ := Except.bind_eq_ok.mp h
    obtain ⟨r', hr', h⟩ := Except.bind_eq_ok.mp h
    rw [requireType_eq_ok] at hleft hright
    refine .inr ⟨leftType, rightType, common, l', r', hleft, hright, hcommon, hl', hr', ?_⟩
    split at h
    · exact .inl ⟨_, rfl, h⟩
    · next hcomparison => exact .inr ⟨hlogical, hcomparison, Except.bind_eq_ok.mp h⟩

namespace ScalarExpr

variable {row : Option Expr} {e : ScalarExpr} {compiled : Expr}

/-- How an expression is compiled over a row. -/
inductive Compiles (row : Option Expr) : ScalarExpr → Expr → Prop
  | column {r : Expr} {index : Nat} {type : Ty} {compiled : Expr} (hrow : row = some r)
      (h : Expr.field r index = .ok compiled) (htype : compiled.type = some type) :
      Compiles row (.column index type) compiled
  | literal {value : Option Literal} {type : Ty} {compiled : Expr}
      (h : Expr.literal value type = .ok compiled) : Compiles row (.literal value type) compiled
  | cast {operand : ScalarExpr} {type : Ty} {inner compiled : Expr}
      (hinner : Compiles row operand inner) (h : Expr.castIfNeeded inner type = .ok compiled) :
      Compiles row (.cast operand type) compiled
  | binary {op : CallOp} {binary : BinaryOp} {x y : ScalarExpr} {type : Ty}
      {x' y' compiled : Expr} (hop : op.binary? = some binary) (hx : Compiles row x x')
      (hy : Compiles row y y') (h : Expr.compileBinary binary x' y' type = .ok compiled) :
      Compiles row (.call op [x, y] type) compiled
  | unary {op : CallOp} {unary : UnaryOp} {x : ScalarExpr} {type : Ty} {x' compiled : Expr}
      (hop : op.unary? = some unary) (hx : Compiles row x x')
      (h : Expr.unary unary x' type = .ok compiled) : Compiles row (.call op [x] type) compiled

/-- A column is compiled if there is a row and the field has the type that the reference declares.
-/
theorem compileColumn_eq_ok {index : Nat} {type : Ty} :
    compileColumn row index type = .ok compiled ↔
      ∃ r, row = some r ∧ Expr.field r index = .ok compiled ∧ compiled.type = some type := by
  unfold compileColumn
  constructor
  · intro h
    cases row with
    | none => cases h
    | some r =>
      obtain ⟨field, hfield, h⟩ := Except.bind_eq_ok.mp h
      obtain ⟨found, hfound, h⟩ := Except.bind_eq_ok.mp h
      rw [ofTerm_eq_ok] at hfield hfound
      split at h
      · next hsame =>
        obtain rfl := Except.ok.inj h
        rw [hsame] at hfound
        exact ⟨r, rfl, hfield, Expr.requireType_eq_ok.mp hfound⟩
      · cases h
  · rintro ⟨r, rfl, hfield, htype⟩
    -- the field is of the declared type, so the check on it passes
    refine Except.bind_eq_ok.mpr ⟨compiled, ofTerm_eq_ok.mpr hfield, ?_⟩
    refine Except.bind_eq_ok.mpr ⟨type, ofTerm_eq_ok.mpr (Expr.requireType_eq_ok.mpr htype), ?_⟩
    exact if_pos rfl

/-- A call that is compiled is one of a binary operator on two operands or of a unary operator on
one. -/
theorem compileCall_eq_ok {op : CallOp} {operands : List Expr} {type : Ty}
    (h : compileCall op operands type = .ok compiled) :
    (∃ binary l r, op.binary? = some binary ∧ operands = [l, r] ∧
      Expr.compileBinary binary l r type = .ok compiled) ∨
    ∃ unary operand, op.unary? = some unary ∧ operands = [operand] ∧
      Expr.unary unary operand type = .ok compiled := by
  unfold compileCall at h
  split at h
  case h_1 binary l r hbinary => exact .inl ⟨binary, l, r, hbinary, rfl, ofTerm_eq_ok.mp h⟩
  case h_2 unary operand hunary => exact .inr ⟨unary, operand, hunary, rfl, ofTerm_eq_ok.mp h⟩
  case h_3 => cases h

mutual

theorem compiles_of_compile :
    ∀ {e : ScalarExpr} {compiled : Expr}, e.compile row = .ok compiled → Compiles row e compiled
  | .column index type, compiled, h => by
    rw [compile] at h
    obtain ⟨r, hrow, hfield, htype⟩ := compileColumn_eq_ok.mp h
    exact .column hrow hfield htype
  | .literal value type, compiled, h => by
    rw [compile, ofTerm_eq_ok] at h
    exact .literal h
  | .cast operand type, compiled, h => by
    rw [compile, Except.bind_eq_ok] at h
    obtain ⟨inner, hinner, h⟩ := h
    exact .cast (compiles_of_compile hinner) (ofTerm_eq_ok.mp h)
  | .call op operands type, compiled, h => by
    rw [compile, Except.bind_eq_ok] at h
    obtain ⟨compileds, hcompileds, h⟩ := h
    have hoperands := forall₂_compiles hcompileds
    rcases compileCall_eq_ok h with ⟨binary, x, y, hop, rfl, hcall⟩ | ⟨unary, x, hop, rfl, hcall⟩
    · -- two operands on the one side are two on the other
      obtain _ | ⟨hx, _ | ⟨hy, ⟨⟩⟩⟩ := hoperands
      exact .binary hop hx hy hcall
    · obtain _ | ⟨hx, ⟨⟩⟩ := hoperands
      exact .unary hop hx hcall

theorem forall₂_compiles :
    ∀ {es : List ScalarExpr} {compileds : List Expr}, compileAll row es = .ok compileds →
      List.Forall₂ (Compiles row) es compileds
  | [], compileds, h => by
    rw [compileAll] at h
    obtain rfl := Except.ok.inj h
    exact .nil
  | e :: es, compileds, h => by
    rw [compileAll, Except.bind_eq_ok] at h
    obtain ⟨first, hfirst, h⟩ := h
    obtain ⟨rest, hrest, h⟩ := Except.bind_eq_ok.mp h
    obtain rfl := Except.ok.inj h
    exact .cons (compiles_of_compile hfirst) (forall₂_compiles hrest)

end

theorem Compiles.compile_eq (h : Compiles row e compiled) : e.compile row = .ok compiled := by
  induction h with
  | column hrow h htype => exact compileColumn_eq_ok.mpr ⟨_, hrow, h, htype⟩
  | literal h => exact ofTerm_eq_ok.mpr h
  | cast _ h ih => exact Except.bind_eq_ok.mpr ⟨_, ih, ofTerm_eq_ok.mpr h⟩
  | binary hop _ _ h ihx ihy =>
    rw [ScalarExpr.compile, compileAll, compileAll, compileAll, ihx, ihy]
    show compileCall _ [_, _] _ = _
    unfold compileCall
    rw [hop]
    exact ofTerm_eq_ok.mpr h
  | @unary op unary x type x' compiled hop _ h ih =>
    rw [ScalarExpr.compile, compileAll, compileAll, ih]
    -- no operator with a unary reading has a binary one, so the first case of a call is passed over
    cases op <;> cases hop <;> exact ofTerm_eq_ok.mpr h

/-- **Compiling.** -/
theorem compile_eq_ok : e.compile row = .ok compiled ↔ Compiles row e compiled :=
  ⟨compiles_of_compile, Compiles.compile_eq⟩

end ScalarExpr

end DeltaCircuit
