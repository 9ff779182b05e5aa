import DeltaCircuit.Proofs.Expr.Simplifiable

/-!
# Normal forms of simplification

Simplification looks at every node once, after the parts of the node. A rule may put a part of a
part, or a fresh constant, in the place of a node, and the node above is looked at only then. Nothing
is therefore left to simplify in what comes out.

* `Expr.IsRedex`, `Expr.HasRedex` — a node that a rule applies to, and an expression with such a
  node in it, patterns and Z-set literals apart.
* `Expr.Rule.not_hasRedex` — a rule gives no new redex.
* `Expr.simplify_of_not_hasRedex` — an expression without redex is simplified to itself.
* `Expr.simplify_normalizes` — one run gives a normal form, and keeps the node exactly if the node
  was one.
-/

namespace DeltaCircuit

namespace Expr

/-! ### Redexes -/

/-- Whether the rule of simplification applies to a node. -/
def IsRedex (e : Expr) : Prop := e.simplerForm? ≠ .ok none

/-- A redex occurs in the expression, other than in a pattern or in a Z-set literal. -/
inductive HasRedex : Expr → Prop where
  | here {e : Expr} : e.IsRedex → HasRedex e
  | part {e part : Expr} : part ∈ e.form.walked → HasRedex part → HasRedex e

/-- A node that the constructors give is a redex if the rule turns it into something else: the rule
is never refused there. -/
theorem isRedex_iff {e : Expr} (hbuilt : e.IsBuilt) :
    e.IsRedex ↔ ∃ simpler, e.simplerForm? = .ok (some simpler) := by
  obtain ⟨result, hresult⟩ := exists_simplerForm? hbuilt
  unfold IsRedex
  rw [hresult]
  cases result with
  | none => simp
  | some simpler => simp

theorem not_hasRedex_iff {e : Expr} :
    ¬e.HasRedex ↔ e.simplerForm? = .ok none ∧ ∀ part ∈ e.form.walked, ¬part.HasRedex := by
  constructor
  · intro h
    exact ⟨not_not.mp fun hhere => h (.here hhere), fun part hpart hredex => h (.part hpart hredex)⟩
  · rintro ⟨hhere, hparts⟩ (hredex | ⟨hpart, hredex⟩)
    · exact hredex hhere
    · exact hparts _ hpart hredex

/-! ### One rule -/

/-- **A rule gives no new redex.** It gives a constant, a part, or a part of a part. -/
theorem Rule.not_hasRedex {type : Ty} {form : Form} {simpler : Expr}
    (hrule : Rule type form simpler) (hparts : ∀ part ∈ form.walked, ¬part.HasRedex) :
    ¬simpler.HasRedex := by
  rcases hrule.origin with ⟨value, hconstant⟩ | hpart | ⟨part, hpart, hdeeper⟩
  · obtain rfl := literal_eq_ok hconstant
    exact not_hasRedex_iff.mpr ⟨rfl, nofun⟩
  · exact hparts simpler hpart
  · exact (not_hasRedex_iff.mp (hparts part hpart)).2 simpler hdeeper

/-! ### The walk -/

/-- **Nothing is left to simplify** in a simplified expression. -/
theorem not_hasRedex_of_simplify {e e' : Expr} (h : e.simplify = .ok e') : ¬e'.HasRedex := by
  induction e using parts_induction generalizing e' with
  | node e ih =>
    rcases transform_eq_ok.mp h with hbefore | ⟨-, form, rebuilt, hparts, hrebuilt, hafter⟩
    · cases hbefore
    obtain rfl : rebuilt.form = form := form_of_withForm hrebuilt
    -- the parts of the node built again are simplified already
    have hlift : e.form.Lift (fun _ part' => ¬part'.HasRedex) rebuilt.form :=
      (Form.lift_of_transformParts hparts).imp_of_mem fun part hpart _ hsimplify =>
        ih part hpart hsimplify
    have hnew : ∀ part' ∈ rebuilt.form.walked, ¬part'.HasRedex := by
      intro part' hpart'
      obtain ⟨_, -, hpart'⟩ := hlift.walked.exists_of_mem_right hpart'
      exact hpart'
    -- so at most the node itself is a redex, and then the rule is applied to it
    obtain ⟨result, hresult, hafter⟩ := Except.bind_eq_ok.mp hafter
    obtain rfl : result.getD rebuilt = e' := Except.ok.inj hafter
    cases result with
    | none => exact not_hasRedex_iff.mpr ⟨hresult, hnew⟩
    | some simpler =>
      obtain ⟨type, -, hrule⟩ := simplerForm?_eq_ok hresult
      exact hrule.not_hasRedex hnew

/-- **A normal form is kept.** An expression without redex is simplified to the very same node. -/
theorem simplify_of_not_hasRedex {e : Expr} (h : ¬e.HasRedex) : e.simplify = .ok e := by
  induction e using parts_induction with
  | node e ih =>
    obtain ⟨hhere, hparts⟩ := not_hasRedex_iff.mp h
    have hkept : ∀ part ∈ e.form.walked, part.transform simplifier = .ok part :=
      fun part hpart => ih part (Form.walked_subset_parts hpart) (hparts part hpart)
    have hform : e.form.transformParts simplifier = .ok e.form :=
      Form.transformParts_of_kept hkept
    have hsame : e.withForm e.form = .ok e := by
      unfold withForm
      rw [if_pos ((Form.beq_iff_eq _ _).mpr rfl)]
    refine transform_eq_ok.mpr (.inr ⟨rfl, e.form, e, hform, hsame, ?_⟩)
    show (do return (← e.simplerForm?).getD e) = .ok e
    rw [hhere]
    rfl

/-- **One run reaches a normal form.** No redex is left in a simplified expression. It is the very
node that simplification was given exactly if there was no redex in that, and simplifying it again
gives this very node. -/
theorem simplify_normalizes {e e' : Expr} (h : e.simplify = .ok e') :
    ¬e'.HasRedex ∧ (e'.sameNode e = true ↔ ¬e.HasRedex) ∧
      ∃ e'', e'.simplify = .ok e'' ∧ e''.sameNode e' = true := by
  have hnormal : ¬e'.HasRedex := not_hasRedex_of_simplify h
  have hagain : e'.simplify = .ok e' := simplify_of_not_hasRedex hnormal
  refine ⟨hnormal, ⟨fun hsame => ?_, fun hredex => ?_⟩, e', hagain, decide_eq_true rfl⟩
  · obtain rfl : e' = e := of_decide_eq_true hsame
    exact hnormal
  · have hkept : e.simplify = .ok e := simplify_of_not_hasRedex hredex
    exact decide_eq_true (Except.ok.inj (h.symm.trans hkept))

/-- The expression `!(((true, !true).1) as bool)`: every node of it but the pair becomes a redex only
once the node below it is simplified. -/
def nested : Expr :=
  let pair := ofForm (some (.tuple [.bool, .bool]))
    (.tuple [boolLiteral true, ofForm (some .bool) (.unary .not (boolLiteral true))])
  let component := ofForm (some .bool) (.field pair 1)
  ofForm (some .bool) (.unary .not (ofForm (some .bool) (.cast component)))

/-- The block `{ x && y; last }`. -/
def conjoined (last : Expr) : Expr :=
  block [.eval (ofForm (some .bool) (.binary (.logical .and) (var "x" .bool) (var "y" .bool)))]
    (some last)

/-- The nested expression is simplified in one run. -/
theorem simplify_normalizes_nested :
    (conjoined nested).simplify = .ok (conjoined (boolLiteral true)) ∧
      ¬(conjoined (boolLiteral true)).HasRedex ∧
      ((conjoined (boolLiteral true)).sameNode (conjoined nested) = true ↔
        ¬(conjoined nested).HasRedex) ∧
      ∃ e'', (conjoined (boolLiteral true)).simplify = .ok e'' ∧
        e''.sameNode (conjoined (boolLiteral true)) = true := by
  have hsimplify : (conjoined nested).simplify = .ok (conjoined (boolLiteral true)) := rfl
  exact ⟨hsimplify, simplify_normalizes hsimplify⟩

end Expr

end DeltaCircuit
