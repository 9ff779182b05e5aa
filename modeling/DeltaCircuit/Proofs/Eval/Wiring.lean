import DeltaCircuit.Circuit.Run
import DeltaCircuit.Proofs.Eval.Law

/-!
# Errors that are not about wiring

Two errors say that an operator is wired wrongly: it reads an input that is missing, or it lacks the
function that it applies. This file shows that nothing but the operator itself raises them, so that
whoever rules them out for the operators rules them out for a whole step.

* `Wired`, `Eval.Wired` — results and evaluations that end in neither of them.
* `Eval.wiring` — that evaluations are wired, as a law of evaluation.
* `Expr.wired_eval`, `Expr.wired_applyTo` — expressions and calls of functions.
* `ZSet.wired_map`, `ZSet.wired_join`, … — the operations on Z-sets.
-/

namespace DeltaCircuit

/-- A result that is no error of wiring. -/
def Wired {α : Type} (x : Except EvalError α) : Prop :=
  ∀ e, x = .error e → e.isMiswired = false

section Results

variable {α β : Type}

theorem wired_ok (a : α) : Wired (.ok a) := Except.raisesOnly_ok

theorem wired_error {e : EvalError} (h : e.isMiswired = false) :
    Wired (.error e : Except EvalError α) := Except.raisesOnly_error h

theorem Wired.bind {x : Except EvalError α} {f : α → Except EvalError β} (hx : Wired x)
    (hf : ∀ a, Wired (f a)) : Wired (x >>= f) := Except.RaisesOnly.bind hx hf

theorem Wired.map {x : Except EvalError α} (hx : Wired x) (f : α → β) : Wired (x.map f) :=
  Except.RaisesOnly.map hx f

theorem Wired.foldlM {f : β → α → Except EvalError β} (hf : ∀ b a, Wired (f b a))
    (as : List α) (init : β) : Wired (as.foldlM f init) := Except.RaisesOnly.foldlM hf as init

/-- Errors about values are no errors of wiring. -/
theorem Plain.wired {x : Except EvalError α} (h : Plain x) : Wired x :=
  Except.RaisesOnly.imp h fun e he => by
    unfold EvalError.isPlain at he
    simp_all

end Results

theorem Value.wired_pair (value : Value) : Wired value.pair := by
  unfold Value.pair
  split
  · exact wired_ok _
  · exact wired_error rfl

/-! ### Evaluations -/

namespace Eval

variable {α β : Type} {x : Eval α} {f : α → Eval β}

/-- An evaluation that never ends in an error of wiring. -/
def Wired (x : Eval α) : Prop := ∀ s, DeltaCircuit.Wired (x s).1

theorem Wired.bind (hx : x.Wired) (hf : ∀ a, (f a).Wired) : (x >>= f).Wired := by
  intro s
  obtain ⟨result, t, hrun⟩ : ∃ result t, x s = (result, t) := ⟨_, _, rfl⟩
  cases result with
  | error e =>
    have he := hx s e (by rw [hrun])
    rw [ExceptT.bind_run_error hrun]
    exact wired_error he
  | ok a =>
    rw [ExceptT.bind_run_ok hrun]
    exact hf a t

/-- An unknown name is an error of the expression, not of the circuit. -/
theorem wired_lookup (name : String) : Wired (lookup name) := by
  intro s
  unfold lookup
  split
  · exact wired_ok _
  · exact wired_error rfl

theorem wired_assign (target : Expr) (value : Value) : Wired (assign target value) := by
  intro s
  unfold assign
  split
  · exact wired_ok _
  · next e he =>
    -- the error of an assignment is one about values, or an unbound name
    rcases Scopes.error_of_assign he with hplain | ⟨name, path, rfl, -, -⟩
    · exact (plain_error hplain).wired
    · exact wired_error rfl

/-- Nothing that an evaluation does raises an error of wiring. -/
def wiring : Law where
  Known _ := True
  Whole _ x := x.Wired
  Step _ x _ := x.Wired
  whole_pure _ a _ := wired_ok a
  whole_throw _ h _ := (plain_error h).wired
  whole_bind hx hf := hx.bind hf
  whole_lookup _ := wired_lookup _
  whole_inScope hx s := hx ([] :: s)
  step_of_whole hx := hx
  step_pure _ _ := wired_ok _
  step_throw _ _ h _ := (plain_error h).wired
  step_bind hx hf := hx.bind hf
  step_name _ _ _ _ := wired_ok ()
  step_mono hx _ := hx

theorem wiring_assigns (e : Expr) : wiring.Assigns e :=
  fun target _ _ _ value _ => wired_assign target value

end Eval

/-! ### Functions -/

/-- No expression raises an error of wiring. -/
theorem Expr.wired_eval (e : Expr) : e.eval.Wired :=
  Eval.Law.holds (.of_all Eval.wiring_assigns e) [] fun _ _ => trivial

theorem Expr.wired_applyTo (function : Expr) (args : List Value) :
    Wired (function.applyTo args) := by
  have hcall : Eval.wiring.Whole [] (function.call args) :=
    Eval.Law.whole_call Eval.wiring_assigns (fun _ _ => trivial) args
  exact hcall []

/-! ### Z-sets -/

namespace ZSet

theorem wired_add (z : ZSet) (v : Value) (w : Int) : Wired (z.add v w) := by
  unfold add
  split
  · exact wired_ok _
  · exact wired_error rfl

theorem wired_mergeFrom (sign : Int) :
    ∀ (entries : List (Value × Int)) (z : ZSet), Wired (z.mergeFrom sign entries).1
  | [], z => wired_ok ()
  | (v, w) :: entries, z => by
    have hadd := z.wired_add v (w * sign)
    unfold mergeFrom
    split
    · split
      · exact wired_mergeFrom sign entries _
      · next e he => exact wired_error (hadd e he)
    · -- the weight leaves its range with the sign already
      exact wired_error rfl

theorem wired_merge (z other : ZSet) (sign : Int) : Wired (z.merge other sign) := by
  have hmerge := wired_mergeFrom sign other z
  unfold merge
  split
  · exact wired_ok _
  · next e _ he => exact wired_error (hmerge e (by rw [he]))

theorem wired_map (z : ZSet) (function : Expr) : Wired (z.map function) := by
  refine Wired.foldlM (fun out entry => ?_) z []
  exact (function.wired_applyTo [entry.1]).bind fun v => wired_add out v entry.2

theorem wired_filterBy (z : ZSet) (function : Expr) : Wired (z.filterBy function) := by
  refine Wired.foldlM (fun out entry => ?_) z []
  refine (function.wired_applyTo [entry.1]).bind fun keep => ?_
  split
  · exact wired_add out entry.1 entry.2
  · exact wired_ok out

theorem wired_index (z : ZSet) (function : Expr) : Wired (z.index function) := by
  refine Wired.foldlM (fun out entry => ?_) z []
  refine (function.wired_applyTo [entry.1]).bind fun pair => ?_
  exact pair.wired_pair.bind fun (key, value) => wired_add out (.row [key, value]) entry.2

theorem wired_aggregate (z : ZSet) (function : Expr) : Wired (z.aggregate function) := by
  have hgroups : Wired z.groups :=
    Wired.foldlM (fun groups entry => entry.1.wired_pair.bind fun _ => wired_ok _) z []
  refine hgroups.bind fun groups => Wired.foldlM (fun out group => ?_) groups []
  refine (function.wired_applyTo [group.1, .vec group.2]).bind fun result => ?_
  exact wired_add out (.row [group.1, result]) 1

theorem wired_joinOne (function : Expr) (key left : Value) (weight : Int) (right out : ZSet) :
    Wired (joinOne function key left weight right out) := by
  refine Wired.foldlM (fun out entry => ?_) right out
  refine entry.1.wired_pair.bind fun (rightKey, value) => ?_
  dsimp only
  split
  · refine (function.wired_applyTo [key, left, value]).bind fun joined => ?_
    split
    · exact wired_add out joined _
    · exact wired_error rfl
  · exact wired_ok out

theorem wired_join (left right : ZSet) (function : Expr) : Wired (left.join right function) := by
  refine Wired.foldlM (fun out entry => ?_) left []
  refine entry.1.wired_pair.bind fun (key, value) => ?_
  exact wired_joinOne function key value entry.2 right out

end ZSet

theorem Expr.wired_evaluate (e : Expr) : Wired e.evaluate := e.wired_eval []

theorem ZSetLiteral.wired_contents (z : ZSetLiteral) : Wired z.contents := by
  refine Wired.foldlM (fun out entry => ?_) z.entries []
  exact entry.1.wired_evaluate.bind fun v => ZSet.wired_add out v entry.2

end DeltaCircuit
