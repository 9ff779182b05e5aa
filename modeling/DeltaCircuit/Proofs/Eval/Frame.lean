import DeltaCircuit.Proofs.Eval.Law
import DeltaCircuit.Proofs.Eval.Steps

/-!
# Evaluations that change nothing

The only expression that changes a variable from outside of it is an assignment: what patterns and
statements bind is gone with the scope they bind it in. An expression without assignments therefore
leaves the variables as they are, however many blocks, loops and matches it contains.

* `Expr.AssignFree` — no assignment anywhere in an expression.
* `Eval.framing` — that evaluations change nothing and steps only the innermost scope, as a law.
* `Expr.AssignFree.keeps_eval` — an expression without assignments changes no variable.
-/

namespace DeltaCircuit

/-- No assignment occurs in the expression. -/
def Expr.AssignFree (e : Expr) : Prop :=
  e.Everywhere fun node => ∀ target value, node.form ≠ .assign target value

namespace Eval

/-- Evaluations change no variable, and steps inside a scope change only that scope. -/
def framing : Law where
  Known _ := True
  Whole _ x := x.Keeps
  Step _ x _ := x.Frames
  whole_pure _ _ := keeps_pure
  whole_throw _ _ := keeps_throw
  whole_bind hx hf := hx.bind hf
  whole_lookup _ := keeps_lookup
  whole_inScope hx := hx.inScope
  step_of_whole hx := hx.frames
  step_pure _ := keeps_pure.frames
  step_throw _ _ _ := keeps_throw.frames
  step_bind hx hf := hx.bind hf
  step_name _ _ _ := frames_bind
  step_mono hx _ := hx

theorem keeps_evalAll {es : List Expr} (h : ∀ e ∈ es, e.eval.Keeps) :
    (Expr.evalAll es).Keeps := by
  have hall : framing.Whole [] (Expr.evalAll es) := Law.whole_evalAll h
  exact hall

end Eval

/-- **The frame of an evaluation.** An expression without assignments changes no variable. -/
theorem Expr.AssignFree.keeps_eval {e : Expr} (h : e.AssignFree) : e.eval.Keeps := by
  have hassigns : e.Everywhere Eval.framing.Assigns :=
    h.imp fun node hnode target value hform => absurd hform (hnode target value)
  exact Eval.Law.holds hassigns [] fun _ _ => trivial

end DeltaCircuit
