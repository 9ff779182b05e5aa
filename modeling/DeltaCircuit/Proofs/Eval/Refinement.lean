import DeltaCircuit.Proofs.Eval.Steps
import DeltaCircuit.Proofs.Expr.Transform

/-!
# Exchanging parts

An expression may stand for another one when it gives whatever the other one gives, and when it is
the target of the same assignments. A node whose parts are exchanged so may itself be exchanged:
evaluation only ever uses what its parts give.

* `Expr.Refines` — an expression may stand for another one.
* `Form.Lift.refines` — exchanging the parts of a node.
-/

namespace DeltaCircuit

/-- **Standing for another expression.** Where the first expression gives a value, the second one
gives it too and leaves the same variables; where the first one denotes a place, the second one
denotes the same. -/
structure Expr.Refines (e e' : Expr) : Prop where
  eval : e.eval.Refines e'.eval
  place : ∀ target, e.place? = .ok target → e'.place? = .ok target

theorem Expr.Refines.refl {e : Expr} : e.Refines e := ⟨.refl, fun _ h => h⟩

theorem Expr.Refines.trans {e e' e'' : Expr} (h : e.Refines e') (h' : e'.Refines e'') :
    e.Refines e'' :=
  ⟨h.eval.trans h'.eval, fun target htarget => h'.place target (h.place target htarget)⟩

namespace Eval

/-! ### Lists of parts -/

theorem refines_evalAll {es es' : List Expr} (h : List.Forall₂ Expr.Refines es es') :
    (Expr.evalAll es).Refines (Expr.evalAll es') := by
  induction h with
  | nil => exact .refl
  | cons he _ ih =>
    rw [Expr.evalAll, Expr.evalAll]
    exact he.eval.bind fun _ => ih.bind fun _ => .refl

theorem refines_runAll {statements statements' : List Statement}
    (h : List.Forall₂ (Statement.Lift Expr.Refines) statements statements') :
    (Statement.runAll statements).Refines (Statement.runAll statements') := by
  induction h with
  | nil => exact .refl
  | cons hlift _ ih =>
    cases hlift with
    | declare =>
      rw [Statement.runAll, Statement.runAll]
      exact Refines.refl.bind fun _ => ih
    | letBind hinit =>
      rw [Statement.runAll, Statement.runAll]
      exact hinit.eval.bind fun _ => Refines.refl.bind fun _ => ih
    | eval he =>
      rw [Statement.runAll, Statement.runAll]
      exact he.eval.map.bind fun _ => ih

theorem refines_evalFirst {arms arms' : List Arm}
    (h : List.Forall₂ (Arm.Lift Expr.Refines) arms arms') (subject : Value) :
    (Arm.evalFirst arms subject).Refines (Arm.evalFirst arms' subject) := by
  induction h with
  | nil => exact .refl
  | cons hlift _ ih =>
    obtain ⟨hresult⟩ := hlift
    rw [Arm.evalFirst, Arm.evalFirst]
    -- both arms have one pattern, so they are taken or left together
    refine (Refines.inScope (Refines.refl.bind fun fits => ?_)).bind fun outcome => ?_
    · split
      · exact hresult.eval.map
      · exact .refl
    · split
      · exact .refl
      · exact ih

theorem refines_assign {target target' : Expr} {value : Value} (h : target.Refines target') :
    (Eval.assign target value).Refines (Eval.assign target' value) := by
  -- an assignment asks of its target nothing but the place that it denotes
  intro s a s' hgives
  unfold ExceptT.Gives at hgives ⊢
  unfold Eval.assign at hgives ⊢
  unfold Scopes.assign at hgives ⊢
  cases hplace : target.place? with
  | error e => rw [hplace] at hgives; cases hgives
  | ok place =>
    rw [hplace] at hgives
    rw [h.place place hplace]
    exact hgives

end Eval

/-! ### Nodes -/

/-- **Exchanging parts.** A node whose parts may stand for those of another node may stand for
that node. -/
theorem Form.Lift.refines_eval {tag tag' : Tag} {type : Option Ty} {form form' : Form}
    (h : form.Lift Expr.Refines form') :
    (Expr.eval ⟨tag, type, form⟩).Refines (Expr.eval ⟨tag', type, form'⟩) := by
  cases h with
  | @literal value => cases value <;> exact .refl
  | var | zset => exact .refl
  | path | apply => exact .throw
  | closure => exact .refl
  | field hbase =>
    rw [Expr.eval, Expr.eval]
    exact hbase.eval.bind fun _ => .refl
  | binary hleft hright =>
    rw [Expr.eval, Expr.eval]
    exact hleft.eval.bind fun _ => hright.eval.bind fun _ => .refl
  | unary hoperand =>
    rw [Expr.eval, Expr.eval]
    exact hoperand.eval.bind fun _ => .refl
  | cast hoperand =>
    cases type with
    | none => exact hoperand.eval
    | some type =>
      rw [Expr.eval, Expr.eval]
      exact hoperand.eval.bind fun _ => .refl
  | steps hstatements =>
    rw [Expr.eval, Expr.eval]
    exact .inScope ((Eval.refines_runAll hstatements).bind fun _ => .refl)
  | block hstatements hlast =>
    rw [Expr.eval, Expr.eval]
    exact .inScope ((Eval.refines_runAll hstatements).bind fun _ => hlast.eval)
  | when hcondition hpositive =>
    rw [Expr.eval, Expr.eval]
    -- both conditions give the same value, so the same branch is taken
    refine hcondition.eval.bind fun value => ?_
    split
    · exact hpositive.eval
    · exact .refl
  | ifElse hcondition hpositive hnegative =>
    rw [Expr.eval, Expr.eval]
    refine hcondition.eval.bind fun value => ?_
    split
    · exact hpositive.eval
    · exact hnegative.eval
  | matchOn hsubject harms =>
    rw [Expr.eval, Expr.eval]
    exact hsubject.eval.bind fun subject => Eval.refines_evalFirst harms subject
  | forLoop hiterated hbody =>
    rw [Expr.eval, Expr.eval]
    refine hiterated.eval.bind fun _ => Eval.Refines.refl.bind fun items => ?_
    refine Eval.Refines.bind (.forEach (fun item => ?_) items) fun _ => .refl
    refine .inScope (Eval.Refines.refl.bind fun fits => ?_)
    split
    · exact hbody.eval.map
    · exact .refl
  | assign htarget hvalue =>
    rw [Expr.eval, Expr.eval]
    refine hvalue.eval.bind fun value => ?_
    exact (Eval.refines_assign htarget).bind fun _ => .refl
  | tuple hfields | rawTuple hfields | struct hfields =>
    rw [Expr.eval, Expr.eval]
    exact (Eval.refines_evalAll hfields).bind fun _ => .refl
  | qualify hoperand | borrow hoperand | deref hoperand => exact hoperand.eval

/-- Exchanging parts keeps the place that a node denotes. -/
theorem Form.Lift.place {tag tag' : Tag} {type type' : Option Ty} {form form' : Form}
    (h : form.Lift Expr.Refines form') {target : String × List Nat}
    (htarget : Expr.place? ⟨tag, type, form⟩ = .ok target) :
    Expr.place? ⟨tag', type', form'⟩ = .ok target := by
  cases h with
  | var => exact htarget
  | field hbase =>
    rw [Expr.place?, Except.bind_eq_ok] at htarget ⊢
    obtain ⟨outer, houter, htarget⟩ := htarget
    exact ⟨outer, hbase.place outer houter, htarget⟩
  | deref hoperand =>
    rw [Expr.place?] at htarget ⊢
    exact hoperand.place target htarget
  | _ => cases htarget

/-- **Exchanging parts.** A node whose parts may stand for those of another node of its type may
stand for that node. -/
theorem Expr.Refines.of_lift {e e' : Expr} (htype : e'.type = e.type)
    (h : e.form.Lift Expr.Refines e'.form) : e.Refines e' := by
  obtain ⟨tag, type, form⟩ := e
  obtain ⟨tag', type', form'⟩ := e'
  obtain rfl : type' = type := htype
  exact ⟨h.refines_eval, fun _ htarget => h.place htarget⟩

end DeltaCircuit
