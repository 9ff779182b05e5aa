import DeltaCircuit.Proofs.Circuit.SimplifyFunctions

/-!
# Calls of simplified functions

Closures are not values, so simplification of a function is about its body: the parameters stay, and
no rule applies to the closure itself. A call of the simplified function gives what a call of the
function gives.

* `Expr.exists_body_of_simplify` — the simplified body.
* `Expr.applyTo_simplified` — calls of the simplified function.
* `Expr.Direct` — expressions without casts and assignments, for which simplification has no
  conditions.
-/

namespace DeltaCircuit

namespace Expr

variable {f g body body' : Expr} {params : List Parameter} {args : List Value} {v : Value}

/-! ### Calls -/

/-- What a call gives depends on the form of the function only. -/
theorem Alike.applyTo (h : f.Alike g) (hcall : f.applyTo args = .ok v) :
    g.applyTo args = .ok v := by
  obtain ⟨tag, type, form⟩ := f
  obtain ⟨tag', type', form'⟩ := g
  obtain ⟨rfl, rfl⟩ := h
  cases form' with
  | closure params body => exact hcall
  | _ => cases hcall

/-- Only closures are called. -/
theorem exists_closure_of_applyTo (hcall : f.applyTo args = .ok v) :
    ∃ params body, f.form = .closure params body := by
  obtain ⟨tag, type, form⟩ := f
  cases form with
  | closure params body => exact ⟨params, body, rfl⟩
  | _ => cases hcall

/-- A call of a closure gives what the call of one with another body gives, if the bodies do. -/
theorem applyTo_of_refines (hf : f.form = .closure params body)
    (hg : g.form = .closure params body') (hbody : body.eval.Refines body'.eval)
    (hcall : f.applyTo args = .ok v) : g.applyTo args = .ok v := by
  unfold Expr.applyTo call at hcall ⊢
  rw [hf] at hcall
  rw [hg]
  dsimp only at hcall ⊢
  split at hcall
  · next hlength =>
    -- both bodies run in a scope with the same arguments
    rw [if_pos hlength]
    have hscope : (Eval.inScope (do Parameter.bindAll params args; body.eval)).Refines
        (Eval.inScope (do Parameter.bindAll params args; body'.eval)) :=
      .inScope (Eval.Refines.refl.bind fun _ => hbody)
    exact congrArg Prod.fst (hscope [] v _ (Prod.ext hcall rfl))
  · cases hcall

/-! ### Simplified functions -/

/-- A simplified closure has the same parameters and a simplified body. -/
theorem exists_body_of_simplify (hbuilt : f.Built) (hguarded : f.Guarded) (hcasts : f.CastsKeep)
    (hform : f.form = .closure params body) (h : f.simplify = .ok g) :
    ∃ body', g.form = .closure params body' ∧ body.Simplifies body' := by
  have hpart : body ∈ f.form.parts := by simp [hform, Form.parts]
  obtain ⟨-, form, rebuilt, hparts, hrebuilt, hafter⟩ :=
    (transform_eq_ok.mp h).resolve_left (by rintro ⟨⟩)
  have hlift := (Form.lift_of_transformParts hparts).imp_of_mem fun part hpart part' hsimplify =>
    simplifies_of_simplify (hbuilt.part part hpart) (hguarded.part part hpart)
      (hcasts.part part hpart) hsimplify
  obtain ⟨-, rfl⟩ := Shape.of_lift hbuilt hguarded
    (hlift.imp_of_mem fun part _ part' h => h.toShape) hrebuilt
  rw [hform] at hlift
  generalize hnew : rebuilt.form = form' at hlift
  cases hlift with
  | @closure _ _ body' hbody =>
    refine ⟨body', ?_, hbody⟩
    -- no rule is about closures
    obtain ⟨simpler, hsimpler, hg⟩ := Except.bind_eq_ok.mp hafter
    obtain rfl := Except.ok.inj hg
    cases simpler with
    | none => exact hnew
    | some simpler =>
      obtain ⟨type, -, hrule⟩ := simplerForm?_eq_ok hsimpler
      rw [hnew] at hrule
      cases hrule

/-- **Calls.** Whatever a function gives, the simplified function gives. -/
theorem applyTo_simplified (hbuilt : f.Built) (hguarded : f.Guarded) (hcasts : f.CastsKeep)
    (number : Nat) (hcall : f.applyTo args = .ok v) :
    (f.simplified number).applyTo args = .ok v := by
  cases hsimplify : f.simplify with
  | error e =>
    have hsame : f.simplified number = f := by
      unfold simplified
      rw [hsimplify]
    rwa [hsame]
  | ok g =>
    refine (alike_simplified hsimplify number).applyTo ?_
    obtain ⟨params, body, hform⟩ := exists_closure_of_applyTo hcall
    obtain ⟨body', hform', hbody⟩ :=
      exists_body_of_simplify hbuilt hguarded hcasts hform hsimplify
    exact applyTo_of_refines hform hform' hbody.refines.eval hcall

/-! ### Functions without conditions -/

/-- No cast and no assignment occurs in the expression. -/
def Direct (e : Expr) : Prop :=
  e.Everywhere fun node =>
    (∀ operand, node.form ≠ .cast operand) ∧ ∀ target value, node.form ≠ .assign target value

theorem Direct.assignFree {e : Expr} (h : e.Direct) : e.AssignFree := h.imp fun _ h => h.2

theorem Direct.castsKeep {e : Expr} (h : e.Direct) : e.CastsKeep :=
  h.imp fun _ h operand _ hcast => absurd hcast (h.1 operand)

theorem mem_parts_of_droppable {form : Form} {part : Expr} (h : part ∈ form.droppable) :
    part ∈ form.parts := by
  unfold Form.droppable at h
  split at h
  · simpa [Form.parts] using h
  · exact h
  · exact h
  · exact absurd h List.not_mem_nil

theorem Direct.guarded {e : Expr} (h : e.Direct) : e.Guarded := by
  induction e using parts_induction with
  | node e ih =>
    refine .node (fun part hpart => ?_) fun part hpart => ih part hpart (h.part part hpart)
    exact Direct.assignFree (h.part part (mem_parts_of_droppable hpart))

/-- Of a function without casts and assignments nothing else is asked. -/
theorem Direct.applyTo_simplified (h : f.Direct) (hbuilt : f.Built) (number : Nat)
    (hcall : f.applyTo args = .ok v) : (f.simplified number).applyTo args = .ok v :=
  Expr.applyTo_simplified hbuilt h.guarded h.castsKeep number hcall

end Expr
end DeltaCircuit
