import DeltaCircuit.Expr.Free
import DeltaCircuit.Proofs.Expr.Transform

/-!
# Free variables of exchanged parts

A walk leaves patterns, parameters and names of bindings alone, so the names that are bound at a
place stay the same. Parts that use fewer free names therefore make a node that does.

* `Expr.UsesOnly` — an expression that uses no name freely that another one does not use.
* `Form.Lift.uses_subset` — the free names of a node, from those of its parts.
-/

namespace List

variable {α : Type} {as bs cs ds : List α}

theorem append_subset_append (h : as ⊆ bs) (h' : cs ⊆ ds) : as ++ cs ⊆ bs ++ ds :=
  append_subset_of_subset_of_subset (subset_append_of_subset_left ds h)
    (subset_append_of_subset_right bs h')

end List

namespace DeltaCircuit

open List (append_subset_append)

/-- **Fewer names.** Under whatever names are bound, the second expression uses no name freely that
the first one does not use. -/
def Expr.UsesOnly (e e' : Expr) : Prop := ∀ bound, e'.freeUses bound ⊆ e.freeUses bound

theorem Expr.UsesOnly.trans {e e' e'' : Expr} (h : e.UsesOnly e') (h' : e'.UsesOnly e'') :
    e.UsesOnly e'' :=
  fun bound => List.Subset.trans (h' bound) (h bound)

/-- Free names are those of the form. -/
theorem Expr.freeUses_eq (e : Expr) (bound : List String) :
    e.freeUses bound = e.form.freeUses bound := by
  obtain ⟨tag, type, form⟩ := e
  rw [Expr.freeUses]

/-! ### Lists -/

theorem Expr.freeUsesAll_subset {es es' : List Expr} (h : List.Forall₂ Expr.UsesOnly es es')
    (bound : List String) : freeUsesAll es' bound ⊆ freeUsesAll es bound := by
  induction h with
  | nil => exact List.Subset.refl _
  | cons he _ ih =>
    rw [freeUsesAll, freeUsesAll]
    exact append_subset_append (he bound) ih

theorem Statement.namesAll_eq {R : Expr → Expr → Prop} {statements statements' : List Statement}
    (h : List.Forall₂ (Statement.Lift R) statements statements') :
    namesAll statements' = namesAll statements := by
  induction h with
  | nil => rfl
  | cons hstatement _ ih => cases hstatement <;> simp only [namesAll, ih]

theorem Statement.freeUsesAll_subset {statements statements' : List Statement}
    (h : List.Forall₂ (Statement.Lift Expr.UsesOnly) statements statements')
    (bound : List String) : freeUsesAll statements' bound ⊆ freeUsesAll statements bound := by
  induction h generalizing bound with
  | nil => exact List.Subset.refl _
  | cons hstatement _ ih =>
    cases hstatement with
    | declare =>
      rw [freeUsesAll, freeUsesAll]
      exact ih _
    | letBind hinit =>
      rw [freeUsesAll, freeUsesAll]
      exact append_subset_append (hinit bound) (ih _)
    | eval he =>
      rw [freeUsesAll, freeUsesAll]
      exact append_subset_append (he bound) (ih bound)

theorem Arm.freeUsesAll_subset {arms arms' : List Arm}
    (h : List.Forall₂ (Arm.Lift Expr.UsesOnly) arms arms') (bound : List String) :
    freeUsesAll arms' bound ⊆ freeUsesAll arms bound := by
  induction h with
  | nil => exact List.Subset.refl _
  | cons harm _ ih =>
    cases harm with
    | arm hresult =>
      rw [freeUsesAll, freeUsesAll]
      exact append_subset_append
        (append_subset_append (List.Subset.refl _) (hresult _)) ih

/-! ### Nodes -/

/-- **Free names of a node.** Parts that use fewer names make a form that does. -/
theorem Form.Lift.uses_subset {form form' : Form} (h : form.Lift Expr.UsesOnly form')
    (bound : List String) : form'.freeUses bound ⊆ form.freeUses bound := by
  cases h with
  | literal | var | path | zset => exact List.Subset.refl _
  | field h | unary h | cast h | qualify h | borrow h | deref h => exact h bound
  | binary hleft hright => exact append_subset_append (hleft bound) (hright bound)
  | apply hfunction hargs =>
    exact append_subset_append (hfunction bound) (Expr.freeUsesAll_subset hargs bound)
  | closure hbody => exact append_subset_append (List.Subset.refl _) (hbody _)
  | steps hstatements => exact Statement.freeUsesAll_subset hstatements bound
  | block hstatements hlast =>
    -- the last expression sees the names that the statements bind
    simp only [Form.freeUses, Statement.namesAll_eq hstatements]
    exact append_subset_append (Statement.freeUsesAll_subset hstatements bound) (hlast _)
  | when hcondition hpositive => exact append_subset_append (hcondition bound) (hpositive bound)
  | ifElse hcondition hpositive hnegative =>
    exact append_subset_append (append_subset_append (hcondition bound) (hpositive bound))
      (hnegative bound)
  | matchOn hsubject harms =>
    exact append_subset_append (hsubject bound) (Arm.freeUsesAll_subset harms bound)
  | forLoop hiterated hbody =>
    exact append_subset_append
      (append_subset_append (hiterated bound) (List.Subset.refl _)) (hbody _)
  | assign htarget hvalue => exact append_subset_append (htarget bound) (hvalue bound)
  | tuple hfields | rawTuple hfields | struct hfields =>
    exact Expr.freeUsesAll_subset hfields bound

/-- An item of a list uses no other names than the list. -/
theorem Expr.freeUses_subset_of_mem {e : Expr} {es : List Expr} (h : e ∈ es)
    (bound : List String) : e.freeUses bound ⊆ freeUsesAll es bound := by
  induction es with
  | nil => exact absurd h List.not_mem_nil
  | cons first es ih =>
    rw [freeUsesAll]
    rcases List.mem_cons.mp h with rfl | h
    · exact List.subset_append_left _ _
    · exact List.subset_append_of_subset_right _ (ih h)

end DeltaCircuit
