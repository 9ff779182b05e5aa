import DeltaCircuit.Program
import DeltaCircuit.Proofs.Circuit.Contents
import DeltaCircuit.Proofs.Eval.Exact
import DeltaCircuit.Proofs.Plan.Compiles

/-!
# Rows of constants

Constant rows are compiled to expressions of literals, operators and conversions. Two of them that
are equal may still be written with different numbers where equality does not tell these apart. If
no literal is a floating point number, this concerns the coordinates of points only, which no
operator looks at: equal rows have the same value.

That cannot be said of values that are the same in general. A conversion may bring in floating point
numbers, but then from operands that are equal as data (`Value.Alike`).

* `Value.Alike.binary`, `Value.Alike.unary`, `Value.Alike.convert` — operations on alike values.
* `Expr.Calculation` — what constants are compiled to.
* `Expr.Calculation.alike` — equal calculations, by induction.
* `ScalarExpr.Compiles.calculation` — compiled constants are calculations.
* `Compiler.same_of_equal_rows` — equal rows have the same value.
-/

namespace DeltaCircuit

namespace Value

/-- Equal values, or points that are the same. -/
inductive Alike : Value → Value → Prop
  | refl (v : Value) : Alike v v
  | point {x y x' y' : Double} (hx : x.canonical = x'.canonical)
    (hy : y.canonical = y'.canonical) :
    Alike (.scalar (.geoPoint x y)) (.scalar (.geoPoint x' y'))

/-- Whether a value is a point. -/
def isPoint : Value → Bool
  | .scalar (.geoPoint _ _) => true
  | _ => false

variable {v v' w w' a : Value}

/-! ### Alike values -/

theorem Alike.canonical_eq (h : v.Alike v') : v.canonical = v'.canonical := by
  cases h with
  | refl => rfl
  | point hx hy => simp [canonical, Literal.canonical, hx, hy]

theorem Alike.same (h : v.Alike v') : v.same v' = true := same_iff.mpr h.canonical_eq

theorem Alike.isNull (h : v.Alike v') : v.isNull = v'.isNull := by
  cases h with
  | refl => rfl
  | point => rfl

theorem Alike.isBool (h : v.Alike v') (b : Bool) : v.isBool b = v'.isBool b := by
  cases h with
  | refl => rfl
  | point => rfl

theorem Alike.eq_or_point (h : v.Alike v') : v = v' ∨ v.isPoint = true ∧ v'.isPoint = true := by
  cases h with
  | refl => exact .inl rfl
  | point => exact .inr ⟨rfl, rfl⟩

/-- Literals that are the same are alike, unless they are floating point numbers. -/
theorem alike_of_sameLiteral {l l' : Option Literal} (hfloat : l.any Literal.isFloat = false)
    (h : sameLiteral l l' = true) : Alike (l.elim .null .scalar) (l'.elim .null .scalar) := by
  cases l with
  | none =>
    cases l' with
    | none => exact .refl _
    | some _ => cases h
  | some l =>
    cases l' with
    | none => cases h
    | some l' =>
      have hsame : l.canonical = l'.canonical := by simpa [sameLiteral, Literal.same] using h
      cases l with
      -- zeros of both signs are the same number and differ as data
      | float d => cases hfloat
      | geoPoint x y =>
        cases l' with
        | geoPoint x' y' =>
          obtain ⟨hx, hy⟩ := Literal.geoPoint.inj hsame
          exact .point hx hy
        | _ => cases hsame
      -- all other literals are their own canonical forms
      | _ =>
        cases l' <;> cases hsame
        exact .refl _

/-! ### Operations on points -/

theorem isPoint_of_arithmetic {op : ArithmeticOp} (h : arithmetic op v w = .ok a) :
    v.isPoint = false ∧ w.isPoint = false := by
  unfold arithmetic at h
  split at h
  -- the fifth case is the one of other operands, where there is no result
  case h_5 => cases h
  all_goals exact ⟨rfl, rfl⟩

theorem isPoint_of_concat (h : concat v w = .ok a) :
    v.isPoint = false ∧ w.isPoint = false := by
  unfold concat at h
  split at h
  · exact ⟨rfl, rfl⟩
  · split at h <;> cases h

/-- Points are compared by their places in the order. -/
theorem compareWith_of_isPoint (h : v.isPoint = true ∨ w.isPoint = true) :
    v.compareWith w =
      if v.sortIndex = w.sortIndex then .ok (v.order w) else .error (.notComparable v w) := by
  unfold compareWith
  split
  · simp [isPoint] at h
  · simp [isPoint] at h
  · rfl

/-! ### Operations on alike values -/

theorem Alike.compareWith (hv : v.Alike v') (hw : w.Alike w') :
    (v.compareWith w).Follows Eq (v'.compareWith w') := by
  -- the order of points is read off their canonical forms, which agree
  have hpoints (h : v.isPoint = true ∨ w.isPoint = true)
      (h' : v'.isPoint = true ∨ w'.isPoint = true) :
      (v.compareWith w).Follows Eq (v'.compareWith w') := by
    rw [compareWith_of_isPoint h, compareWith_of_isPoint h', ← sortIndex_canonical v,
      ← sortIndex_canonical w, ← order_canonical v w, hv.canonical_eq, hw.canonical_eq,
      sortIndex_canonical, sortIndex_canonical, order_canonical]
    split
    · exact Except.follows_ok rfl
    · exact Except.follows_error
  rcases hv.eq_or_point with rfl | ⟨h, h'⟩
  · rcases hw.eq_or_point with rfl | ⟨h, h'⟩
    · exact fun o ho => ⟨o, ho, rfl⟩
    · exact hpoints (.inr h) (.inr h')
  · exact hpoints (.inl h) (.inl h')

/-- An operation that fails on points gives the same on alike values. -/
theorem Alike.follows_of_no_points {f : Value → Value → Except EvalError Value}
    (hf : ∀ {v w a : Value}, f v w = .ok a → v.isPoint = false ∧ w.isPoint = false)
    (hv : v.Alike v') (hw : w.Alike w') : (f v w).Follows Eq (f v' w') := by
  intro a h
  rcases hv.eq_or_point with rfl | ⟨hpoint, -⟩
  · rcases hw.eq_or_point with rfl | ⟨hpoint, -⟩
    · exact ⟨a, h, rfl⟩
    · exact absurd hpoint (Bool.eq_false_iff.mp (hf h).2)
  · exact absurd hpoint (Bool.eq_false_iff.mp (hf h).1)

theorem Alike.logical {op : LogicalOp} (hv : v.Alike v') (hw : w.Alike w') :
    (Value.logical op v w).Follows Eq (Value.logical op v' w') := by
  unfold Value.logical
  rw [hv.isBool, hw.isBool, hv.isNull, hw.isNull, hv.isBool, hw.isBool]
  split
  · exact Except.follows_ok rfl
  · split
    · exact Except.follows_ok rfl
    · split
      · exact Except.follows_ok rfl
      · exact Except.follows_error

end Value

/-- Whether an operator belongs to a fold over rows. -/
def BinaryOp.isAggregate : BinaryOp → Bool
  | .aggregate _ => true
  | _ => false

namespace Value

variable {v v' w w' : Value}

/-- **Binary operations** that do not belong to a fold give the same on alike values. -/
theorem Alike.binary {op : BinaryOp} (hop : op.isAggregate = false) (hv : v.Alike v')
    (hw : w.Alike w') : (Value.binary op v w).Follows Eq (Value.binary op v' w') := by
  unfold Value.binary
  rw [hv.isNull, hw.isNull]
  cases op with
  | logical op => exact hv.logical hw
  | aggregate op => cases hop
  | comparison op =>
    dsimp only
    split
    · exact Except.follows_ok rfl
    · exact (hv.compareWith hw).bind fun o o' ho => Except.follows_pure (by rw [ho])
  | arithmetic op =>
    dsimp only
    split
    · exact Except.follows_ok rfl
    · exact hv.follows_of_no_points isPoint_of_arithmetic hw
  | concat =>
    dsimp only
    split
    · exact Except.follows_ok rfl
    · exact hv.follows_of_no_points isPoint_of_concat hw

/-- **Unary operations** give the same on alike values. -/
theorem Alike.unary {op : UnaryOp} (hv : v.Alike v') :
    (Value.unary op v).Follows Eq (Value.unary op v') := by
  cases hv with
  | refl => exact fun a h => ⟨a, h, rfl⟩
  | point =>
    cases op with
    | isNull | isNotNull | wrapBool => exact Except.follows_ok rfl
    | not | neg | plus => exact Except.follows_error

/-- **Conversions** give alike values of alike ones. -/
theorem Alike.convert {type : Ty} (hv : v.Alike v') :
    (v.convert type).Follows Alike (v'.convert type) := by
  cases hv with
  | refl => exact fun a h => ⟨a, h, .refl a⟩
  | point hx hy =>
    rw [convert_compound (.inl ⟨_, _, rfl⟩), convert_compound (.inl ⟨_, _, rfl⟩)]
    exact Except.follows_ok (.point hx hy)

end Value

/-! ### Calculations -/

/-- The forms of literals, operators and conversions; no floating point literals, and no operators
that belong to a fold. -/
def Form.isCalculation : Form → Bool
  | .literal value => !value.any Literal.isFloat
  | .binary op _ _ => !op.isAggregate
  | .unary _ _ | .cast _ => true
  | _ => false

namespace Expr

/-- **Calculations.** What constants without floating point literals are compiled to. -/
abbrev Calculation (e : Expr) : Prop := e.Everywhere fun node => node.form.isCalculation = true

variable {e e' : Expr} {v v' : Value} {s s' : Scopes} {fields fields' : List Expr}
  {values : List Value}

/-- **Equal calculations.** If a calculation gives a value, an equal expression gives an alike
one. -/
theorem Calculation.alike (he : e.Calculation) (hequal : e.equal e' = true)
    (hv : e.eval.Gives s v s') : ∃ v', e'.Yields v' ∧ v.Alike v' := by
  induction he generalizing e' v s s' with
  | @node e here _ ih =>
    obtain ⟨tag, type, form⟩ := e
    obtain ⟨tag', type', form'⟩ := e'
    obtain ⟨rfl, hform⟩ := equal_iff_of_form.mp hequal
    cases form with
    | literal value =>
      cases form' with
      | literal value' =>
        refine ⟨_, yields_literal, ?_⟩
        obtain ⟨rfl, -⟩ : value.elim .null .scalar = v ∧ s = s' := by
          have hrun : (eval ⟨tag, type, .literal value⟩).Gives s (value.elim .null .scalar) s :=
            yields_literal s
          exact hrun.unique hv
        exact Value.alike_of_sameLiteral (by simpa [Form.isCalculation] using here)
          (by simpa only [Form.equal] using hform)
      | _ => simp [Form.equal] at hform
    | binary op left right =>
      cases form' with
      | binary op' left' right' =>
        obtain ⟨⟨hop, hleft⟩, hright⟩ :
            (op = op' ∧ left.equal left' = true) ∧ right.equal right' = true := by
          simpa [Form.equal] using hform
        subst hop
        obtain ⟨l, t, r, hl, hr, hbinary⟩ := gives_binary.mp hv
        obtain ⟨l', hl', hll'⟩ := ih left (by simp [Form.parts]) hleft hl
        obtain ⟨r', hr', hrr'⟩ := ih right (by simp [Form.parts]) hright hr
        have hop : op.isAggregate = false := by simpa [Form.isCalculation] using here
        -- the operation does not see that the operands differ, so its results do not differ at all
        obtain ⟨_, hbinary', rfl⟩ := hll'.binary hop hrr' v hbinary
        exact ⟨v, fun t => gives_binary.mpr ⟨l', t, r', hl' t, hr' t, hbinary'⟩, .refl v⟩
      | _ => simp [Form.equal] at hform
    | unary op operand =>
      cases form' with
      | unary op' operand' =>
        obtain ⟨hop, hoperand⟩ : op = op' ∧ operand.equal operand' = true := by
          simpa [Form.equal] using hform
        subst hop
        obtain ⟨u, hu, hunary⟩ := gives_unary.mp hv
        obtain ⟨u', hu', huu'⟩ := ih operand (by simp [Form.parts]) hoperand hu
        obtain ⟨_, hunary', rfl⟩ := huu'.unary v hunary
        exact ⟨v, fun t => gives_unary.mpr ⟨u', hu' t, hunary'⟩, .refl v⟩
      | _ => simp [Form.equal] at hform
    | cast operand =>
      cases form' with
      | cast operand' =>
        have hoperand : operand.equal operand' = true := by simpa [Form.equal] using hform
        cases type with
        | none =>
          obtain ⟨v', hv', hvv'⟩ := ih operand (by simp [Form.parts]) hoperand hv
          exact ⟨v', hv', hvv'⟩
        | some type =>
          obtain ⟨u, hu, hconvert⟩ := gives_cast.mp hv
          obtain ⟨u', hu', huu'⟩ := ih operand (by simp [Form.parts]) hoperand hu
          -- a point that is converted stays a point, so here the results may differ again
          obtain ⟨v', hconvert', hvv'⟩ := huu'.convert v hconvert
          exact ⟨v', fun t => gives_cast.mpr ⟨u', hu' t, hconvert'⟩, hvv'⟩
      | _ => simp [Form.equal] at hform
    | _ => cases here

/-- Lists of calculations give lists of alike values. -/
theorem alike_of_evalAll (hfields : ∀ e ∈ fields, e.Calculation)
    (hequal : List.Forall₂ (fun e e' => e.equal e' = true) fields fields')
    (h : (evalAll fields).Gives s values s') :
    ∃ values', List.Forall₂ Yields fields' values' ∧ List.Forall₂ Value.Alike values values' := by
  induction hequal generalizing s values with
  | nil =>
    obtain ⟨rfl, -⟩ := ExceptT.gives_pure.mp h
    exact ⟨[], .nil, .nil⟩
  | @cons e e' fields fields' hfirst _ ih =>
    obtain ⟨he, hfields⟩ := List.forall_mem_cons.mp hfields
    rw [evalAll] at h
    obtain ⟨v, t, hv, h⟩ := ExceptT.gives_bind.mp h
    obtain ⟨rest, t', hrest, h⟩ := ExceptT.gives_bind.mp h
    obtain ⟨rfl, rfl⟩ := ExceptT.gives_pure.mp h
    obtain ⟨v', hv', halike⟩ := he.alike hfirst hv
    obtain ⟨rest', hrest', halikes⟩ := ih hfields hrest
    exact ⟨v' :: rest', .cons hv' hrest', .cons halike halikes⟩

/-- A closed expression with a value. -/
theorem gives_of_evaluate (h : e.evaluate = .ok v) : e.eval.Gives [] v (e.eval []).2 :=
  Prod.ext h rfl

/-- **Equal rows.** If a row of calculations has a value, an equal expression has the same one. -/
theorem same_of_equal_tuple {tag : Tag} {type : Option Ty} (hfields : ∀ e ∈ fields, e.Calculation)
    (hequal : equal ⟨tag, type, .tuple fields⟩ e' = true)
    (hv : evaluate ⟨tag, type, .tuple fields⟩ = .ok v) :
    ∃ v', e'.evaluate = .ok v' ∧ v.same v' = true := by
  obtain ⟨tag', type', form'⟩ := e'
  obtain ⟨-, hform⟩ := equal_iff_of_form.mp hequal
  cases form' with
  | tuple fields' =>
    have hall := (equal_ofFields false).mp hform
    have hgives := gives_of_evaluate hv
    rw [Expr.eval] at hgives
    obtain ⟨values, t, hvalues, hpure⟩ := ExceptT.gives_bind.mp hgives
    obtain ⟨rfl, -⟩ := ExceptT.gives_pure.mp hpure
    obtain ⟨values', hyields, halike⟩ := alike_of_evalAll hfields hall hvalues
    exact ⟨.row values', (yields_ofFields false hyields).evaluate,
      Value.row_same_iff.mpr (halike.imp fun _ _ => Value.Alike.same)⟩
  | _ => simp [Form.equal] at hform

end Expr

/-! ### Compiled constants -/

namespace ScalarExpr

mutual

/-- Whether a literal in an expression is a floating point number. -/
def hasFloat : ScalarExpr → Bool
  | .column _ _ => false
  | .literal value _ => value.any Literal.isFloat
  | .call _ operands _ => hasFloatAll operands
  | .cast operand _ => operand.hasFloat
termination_by structural x => x

def hasFloatAll : List ScalarExpr → Bool
  | [] => false
  | e :: es => e.hasFloat || hasFloatAll es
termination_by structural x => x

end

theorem hasFloatAll_eq_false_iff {es : List ScalarExpr} :
    hasFloatAll es = false ↔ ∀ e ∈ es, e.hasFloat = false := by
  induction es with
  | nil => simp [hasFloatAll]
  | cons e es ih => simp [hasFloatAll, ih]

end ScalarExpr

namespace Expr

variable {e e' l r : Expr} {type common : Ty}

theorem Calculation.castIfNeeded (he : e.Calculation) (h : castIfNeeded e type = .ok e') :
    e'.Calculation := by
  obtain ⟨_, -, ⟨-, rfl⟩ | hcast⟩ := castIfNeeded_eq_ok h
  · exact he
  · obtain rfl := cast_eq_ok hcast
    exact .of_parts rfl he

theorem Calculation.promote (he : e.Calculation) (h : promote e common = .ok e') :
    e'.Calculation := by
  obtain ⟨_, -, hcast⟩ := promote_eq_ok h
  exact he.castIfNeeded hcast

theorem Calculation.binary {op : BinaryOp} (hop : op.isAggregate = false) (hl : l.Calculation)
    (hr : r.Calculation) (h : binary op l r type = .ok e) : e.Calculation := by
  obtain rfl := binary_eq_ok h
  exact .of_parts (by simp [ofForm, Form.isCalculation, hop]) ⟨hl, hr⟩

theorem Calculation.compileBinary {op : BinaryOp} (hop : op.isAggregate = false)
    (hl : l.Calculation) (hr : r.Calculation) (h : compileBinary op l r type = .ok e) :
    e.Calculation := by
  rcases compileBinary_eq_ok h with ⟨o, rfl, h⟩ | ⟨_, _, common, l', r', -, -, -, hl', hr', h⟩
  · exact hl.binary hop hr h
  · rcases h with ⟨o, rfl, h⟩ | ⟨-, -, result, hresult, h⟩
    · exact (hl.promote hl').binary hop (hr.promote hr') h
    · exact ((hl.promote hl').binary hop (hr.promote hr') hresult).castIfNeeded h

end Expr

theorem CallOp.isAggregate_binary? {op : CallOp} {binary : BinaryOp}
    (h : op.binary? = some binary) : binary.isAggregate = false := by
  cases op <;> cases h <;> rfl

/-- **Compiled constants** are calculations, unless a literal is a floating point number. -/
theorem ScalarExpr.Compiles.calculation {e : ScalarExpr} {compiled : Expr}
    (h : Compiles none e compiled) (hfloat : e.hasFloat = false) : compiled.Calculation := by
  induction h with
  | column hrow => cases hrow
  | literal h =>
    obtain rfl := Expr.literal_eq_ok h
    rw [hasFloat] at hfloat
    exact .leaf (by simp [Expr.ofForm, Form.isCalculation, hfloat]) rfl
  | cast _ h ih =>
    rw [hasFloat] at hfloat
    exact (ih hfloat).castIfNeeded h
  | binary hop _ _ h ihx ihy =>
    rw [hasFloat, hasFloatAll_eq_false_iff] at hfloat
    have hx := ihx (hfloat _ (by simp))
    have hy := ihy (hfloat _ (by simp))
    exact hx.compileBinary (CallOp.isAggregate_binary? hop) hy h
  | unary hop _ h ih =>
    rw [hasFloat, hasFloatAll_eq_false_iff] at hfloat
    obtain rfl := Expr.unary_eq_ok h
    exact .of_parts rfl (ih (hfloat _ (by simp)))

namespace Compiler

variable {schema : Schema} {row row' : ConstantRow} {e e' : Expr} {v : Value}

/-- A row of constants is a tuple of calculations. -/
theorem constantRow_eq_ok (hfloat : ScalarExpr.hasFloatAll row = false)
    (h : constantRow schema row = .ok e) :
    ∃ type fields, e = .ofForm type (.tuple fields) ∧ ∀ field ∈ fields, field.Calculation := by
  obtain ⟨compileds, hcompileds, h⟩ := Except.bind_eq_ok.mp h
  have hcalculations : ∀ compiled ∈ compileds, compiled.Calculation := by
    intro compiled hcompiled
    obtain ⟨constant, hconstant, hcompiles⟩ :=
      (ScalarExpr.forall₂_compiles hcompileds).exists_of_mem_right hcompiled
    exact hcompiles.calculation (ScalarExpr.hasFloatAll_eq_false_iff.mp hfloat _ hconstant)
  unfold schemaTuple at h
  split at h
  · cases h
  · dsimp only at h
    obtain ⟨fields, hfields, htuple⟩ := Except.bind_eq_ok.mp (ofTerm_eq_ok.mp h)
    obtain ⟨types, -, rfl⟩ := Expr.tuple_eq_ok htuple
    refine ⟨_, fields, rfl, ?_⟩
    -- the items are the compiled constants, brought to the types of the columns
    refine List.ensures_mapM (fun entry hentry field hfield => ?_) fields hfields
    exact (hcalculations _ (List.of_mem_zip hentry).1).castIfNeeded hfield

/-- **Equal rows of constants** have the same value. -/
theorem same_of_equal_rows (hfloat : ScalarExpr.hasFloatAll row = false)
    (h : constantRow schema row = .ok e) (hequal : e.equal e' = true) (hv : e.evaluate = .ok v) :
    ∃ v', e'.evaluate = .ok v' ∧ v.same v' = true := by
  obtain ⟨type, fields, rfl, hfields⟩ := constantRow_eq_ok hfloat h
  exact Expr.same_of_equal_tuple hfields hequal hv

end Compiler
end DeltaCircuit
