import DeltaCircuit.Proofs.Expr.FreeUses
import DeltaCircuit.Proofs.Expr.Rebuild
import DeltaCircuit.Proofs.Expr.Simplify

/-!
# Simplification goes through

A simplified node is built again from its simplified parts and checked again. The parts keep their
types, and a block stays a block; but a field of a tuple constructor becomes the component, to which
nothing can be assigned. Simplification therefore succeeds on every expression that the constructors
give, unless it assigns to an expression with a tuple constructor in it.

* `Expr.PlainTargets` — assignments go to expressions without tuple constructors.
* `Expr.Simplifiable` — what simplification needs.
* `Expr.Reduces` — what a simplified expression keeps: its type, its parameters and its closedness.
* `Expr.exists_simplify` — simplification succeeds, and what it gives reduces what it is given.
* `Expr.Reduces.hasSignature` — a simplified function has the signatures of the function.
-/

namespace DeltaCircuit

namespace Expr

/-! ### Assignments -/

/-- No tuple constructor occurs in the expression. -/
def TupleFree (e : Expr) : Prop := e.Everywhere fun node => node.components? = none

/-- No assignment goes to an expression in which a tuple constructor occurs. -/
def PlainTargets (e : Expr) : Prop :=
  e.Everywhere fun node => ∀ target value, node.form = .assign target value → target.TupleFree

/-- What simplification needs: a well-built expression, with plain targets of assignments. -/
structure Simplifiable (e : Expr) : Prop where
  built : e.Built
  plain : e.PlainTargets

theorem Simplifiable.part {e part : Expr} (h : e.Simplifiable) (hpart : part ∈ e.form.parts) :
    part.Simplifiable :=
  ⟨h.built.part part hpart, h.plain.part part hpart⟩

/-! ### What simplification keeps -/

/-- **Reduction.** What every step of simplification keeps. -/
structure Reduces (e e' : Expr) : Prop extends PassesFor e e' where
  simplifiable : e'.Simplifiable
  tupleFree : e.TupleFree → e'.TupleFree
  assignable : e.TupleFree → e.isAssignable = true → e'.isAssignable = true
  params : ∀ params, e.params? = some params → e'.params? = some params
  uses : e.UsesOnly e'

theorem Reduces.trans {e e' e'' : Expr} (h : e.Reduces e') (h' : e'.Reduces e'') :
    e.Reduces e'' where
  type := h'.type.trans h.type
  block hblock := h'.block (h.block hblock)
  simplifiable := h'.simplifiable
  tupleFree hfree := h'.tupleFree (h.tupleFree hfree)
  assignable hfree h₀ := h'.assignable (h.tupleFree hfree) (h.assignable hfree h₀)
  params params h₀ := h'.params params (h.params params h₀)
  uses := h.uses.trans h'.uses

/-- What a rule gives in place of an operation. -/
theorem Reduces.of_operation {e simpler : Expr} (hblock : e.isBlock = false)
    (hparams : e.params? = none) (hassignable : e.TupleFree → e.isAssignable = false)
    (htype : simpler.type = e.type) (hsimplifiable : simpler.Simplifiable)
    (hfree : e.TupleFree → simpler.TupleFree) (huses : e.UsesOnly simpler) :
    e.Reduces simpler where
  type := htype
  block h := by
    rw [hblock] at h
    cases h
  simplifiable := hsimplifiable
  tupleFree := hfree
  assignable htupleFree h := by
    rw [hassignable htupleFree] at h
    cases h
  params params h := by
    rw [hparams] at h
    cases h
  uses := huses

theorem usesOnly_literal {e constant : Expr} {value : Option Literal} {type : Ty}
    (h : literal value type = .ok constant) : e.UsesOnly constant := by
  obtain rfl := literal_eq_ok h
  exact fun bound => List.nil_subset _

/-- A component uses no other names than the tuple. -/
theorem usesOnly_of_components? {e component : Expr} {fields : List Expr} {index : Nat}
    (h : e.components? = some fields) (hcomponent : fields[index]? = some component) :
    e.UsesOnly component := by
  intro bound
  have huses := freeUses_subset_of_mem (List.mem_of_getElem? hcomponent) bound
  rw [e.freeUses_eq]
  rcases form_of_components? h with hform | hform
  · rw [hform]
    exact huses
  · rw [hform]
    exact huses

/-- **Rules reduce.** What a rule turns a node into keeps what simplification has to keep. -/
theorem Rule.reduces {e simpler : Expr} {type : Ty} (h : e.Simplifiable)
    (htype : e.type = some type) (hrule : Rule type e.form simpler) : e.Reduces simpler := by
  have hty : simpler.type = e.type := hrule.type_eq h.built htype
  have hplain : simpler.PlainTargets := by
    refine hrule.everywhere (fun value hconstant target value' hassign => ?_) h.plain
    rw [literal_eq_ok hconstant] at hassign
    cases hassign
  have hsimplifiable : simpler.Simplifiable := ⟨hrule.built h.built, hplain⟩
  have hfree : e.TupleFree → simpler.TupleFree := by
    refine hrule.everywhere fun value hconstant => ?_
    rw [literal_eq_ok hconstant]
    rfl
  -- what is left depends on the node: nothing can be assigned to it, and its names are used
  obtain ⟨tag, declared, form⟩ := e
  cases hrule with
  | @component base fields index _ hfields hcomponent _ =>
    have hbase : base ∈ (Form.field base index).parts := by simp [Form.parts]
    -- a tuple constructor stands right here
    have hnot : ¬TupleFree ⟨tag, declared, .field base index⟩ := fun hfree => by
      have hnone := (hfree.part base hbase).here
      rw [hfields] at hnone
      cases hnone
    refine .of_operation rfl rfl (fun hfree => absurd hfree hnot) hty hsimplifiable hfree ?_
    intro bound
    show simpler.freeUses bound ⊆ base.freeUses bound
    exact usesOnly_of_components? hfields hcomponent bound
  | negated _ hconstant | decided _ hconstant =>
    exact .of_operation rfl rfl (fun _ => rfl) hty hsimplifiable hfree (usesOnly_literal hconstant)
  | second =>
    exact .of_operation rfl rfl (fun _ => rfl) hty hsimplifiable hfree
      fun bound => List.subset_append_right _ _
  | first =>
    exact .of_operation rfl rfl (fun _ => rfl) hty hsimplifiable hfree
      fun bound => List.subset_append_left _ _
  | @borrowed operand _ mutable hborrow =>
    refine .of_operation rfl rfl (fun _ => rfl) hty hsimplifiable hfree fun bound => ?_
    show simpler.freeUses bound ⊆ operand.freeUses bound
    rw [operand.freeUses_eq, hborrow]
    exact List.Subset.refl _
  | uncast =>
    exact .of_operation rfl rfl (fun _ => rfl) hty hsimplifiable hfree
      fun bound => List.Subset.refl _

/-! ### Nodes of reduced parts -/

end Expr

theorem Form.Lift.components?_eq_none {R : Expr → Expr → Prop} {e e' : Expr}
    (h : e.form.Lift R e'.form) (hnone : e.components? = none) : e'.components? = none := by
  obtain ⟨tag, type, form⟩ := e
  obtain ⟨tag', type', form'⟩ := e'
  cases h with
  | tuple | rawTuple => cases hnone
  | _ => rfl

theorem Form.Lift.params?_eq {R : Expr → Expr → Prop} {e e' : Expr}
    (h : e.form.Lift R e'.form) : e'.params? = e.params? := by
  obtain ⟨tag, type, form⟩ := e
  obtain ⟨tag', type', form'⟩ := e'
  cases h <;> rfl

theorem Form.Lift.isAssignable_eq {R : Expr → Expr → Prop} {e e' : Expr}
    (h : e.form.Lift R e'.form) : e'.isAssignable = e.isAssignable := by
  obtain ⟨tag, type, form⟩ := e
  obtain ⟨tag', type', form'⟩ := e'
  cases h <;> rfl

theorem Form.Lift.isBlock_eq {R : Expr → Expr → Prop} {e e' : Expr}
    (h : e.form.Lift R e'.form) : e'.isBlock = e.isBlock := by
  obtain ⟨tag, type, form⟩ := e
  obtain ⟨tag', type', form'⟩ := e'
  cases h <;> rfl

namespace Expr

/-- What an assignment goes to after its parts are reduced. -/
theorem PlainTargets.of_lift {e : Expr} {target' value' : Expr} (h : e.PlainTargets)
    (hbuilt : e.IsBuilt) (hlift : e.form.Lift Reduces (.assign target' value')) :
    target'.TupleFree ∧ target'.isAssignable = true := by
  generalize hform : e.form = form at hlift
  cases hlift with
  | @assign target _ value _ htarget _ =>
    have hfree : target.TupleFree := h.here target value hform
    have hassign : assign target value = .ok (ofForm e.type (.assign target value)) := by
      have hagain := (isBuilt_iff (by rw [hform]; rfl)).mp hbuilt
      rw [hform] at hagain
      exact hagain
    have hassignable : target.isAssignable = true := by
      unfold assign at hassign
      split at hassign
      · simp at hassign
      · next hnot => simpa using hnot
    exact ⟨htarget.tupleFree hfree, htarget.assignable hfree hassignable⟩

/-- A node with reduced parts reduces the old node. -/
theorem Reduces.of_lift {e e' : Expr} {form : Form} (h : e.Simplifiable)
    (hlift : e.form.Lift Reduces form) (hrebuilt : e.withForm form = .ok e') :
    e.Reduces e' ∧ e'.form = form := by
  have htypes := hlift.imp_of_mem fun part _ part' hpart => hpart.type
  obtain ⟨hhere, htype, rfl⟩ := withForm_eq_ok h.built.here htypes hrebuilt
  -- the new node is built of parts that have been built
  have hbuilt' : e'.Built :=
    .node hhere (hlift.everywhere h.built.part fun _ _ _ hpart => hpart.simplifiable.built)
  have hplain' : e'.PlainTargets := by
    refine .node ?_ (hlift.everywhere h.plain.part fun _ _ _ hpart => hpart.simplifiable.plain)
    intro target' value' hassign
    rw [hassign] at hlift
    exact (h.plain.of_lift h.built.here hlift).1
  refine ⟨{ type := htype, block := ?_, simplifiable := ⟨hbuilt', hplain'⟩, tupleFree := ?_,
            assignable := ?_, params := ?_, uses := ?_ }, rfl⟩
  · intro hblock
    rw [hlift.isBlock_eq, hblock]
  · intro hfree
    exact .node (hlift.components?_eq_none hfree.here) (hlift.everywhere hfree.part
      fun part hpart _ hreduces => hreduces.tupleFree (hfree.part part hpart))
  · intro _ hassignable
    rw [hlift.isAssignable_eq, hassignable]
  · intro params hparams
    rw [hlift.params?_eq, hparams]
  · intro bound
    rw [e.freeUses_eq, e'.freeUses_eq]
    exact (hlift.imp_of_mem fun part _ part' hpart => hpart.uses).uses_subset bound

/-- A node with reduced parts is not refused. -/
theorem Reduces.not_spoiled {e : Expr} {form : Form} (h : e.Simplifiable)
    (hlift : e.form.Lift Reduces form) (err : TermError) : ¬form.Spoiled err := by
  intro hspoiled
  have hbuilt : e.form.isLeaf = false → e.form.rebuild e.type = .ok (ofForm e.type e.form) :=
    fun hleaf => (isBuilt_iff hleaf).mp h.built.here
  cases hspoiled with
  | target htarget =>
    rw [(h.plain.of_lift h.built.here hlift).2] at htarget
    cases htarget
  | @body pattern iterated' body' hnot =>
    generalize hform : e.form = form at hlift hbuilt
    cases hlift with
    | @forLoop _ iterated _ body _ _ hbody =>
      -- the old body was a block, and so is the new one
      have hblock : body.isBlock = true := by
        by_contra hold
        have hspoiled : (Form.forLoop pattern iterated body).Spoiled _ :=
          .body (Bool.not_eq_true _ ▸ hold)
        cases (Form.rebuild_of_spoiled hspoiled).symm.trans (hbuilt rfl)
      rw [hbody.block hblock] at hnot
      cases hnot

/-! ### The rule can be tried -/

/-- A boolean constant exists of every boolean type. -/
theorem exists_boolLiteral {type : Ty} (h : type.isBool = true) (b : Bool) :
    ∃ constant, literal (some (.bool b)) type = .ok constant := by
  have hkind : type.kind = .base .bool := by simpa [Ty.isBool] using h
  refine ⟨ofForm (some type) (.literal (some (.bool b))), ?_⟩
  simp [literal, checkLiteral, hkind, Literal.fits]

theorem isBool_of_expectBoolType {site : Site} {type : Ty} {u : Unit}
    (h : expectBoolType site type = .ok u) : type.isBool = true := by
  unfold expectBoolType at h
  split at h
  · next hbool => exact hbool
  · simp at h

theorem exists_simplerLogical? {type : Ty} (h : type.isBool = true) (op : LogicalOp)
    (left right : Expr) : ∃ simpler, simplerLogical? type op left right = .ok simpler := by
  obtain ⟨constant, hconstant⟩ := exists_boolLiteral h op.absorbing
  unfold simplerLogical?
  dsimp only
  split
  · exact ⟨some constant, by rw [hconstant]; rfl⟩
  · split
    · exact ⟨_, rfl⟩
    · split
      · exact ⟨_, rfl⟩
      · exact ⟨_, rfl⟩

/-- **The rule never fails** on a node that the constructors give. -/
theorem exists_simplerForm? {e : Expr} (h : e.IsBuilt) :
    ∃ simpler, e.simplerForm? = .ok simpler := by
  obtain ⟨tag, _ | type, form⟩ := e
  · exact ⟨none, rfl⟩
  unfold simplerForm?
  dsimp only
  split
  · exact ⟨_, rfl⟩
  · next operand =>
    split
    · next b _ =>
      -- a negation is of a boolean type
      obtain ⟨_, ⟨⟩, hbuild⟩ := Form.typed_eq_ok h
      obtain ⟨u, hcheck, -⟩ := Except.bind_eq_ok.mp hbuild
      obtain ⟨v, -, hbool⟩ := Except.bind_eq_ok.mp hcheck
      obtain ⟨constant, hconstant⟩ := exists_boolLiteral (isBool_of_expectBoolType hbool) (!b)
      exact ⟨some constant, by rw [hconstant]; rfl⟩
    · exact ⟨_, rfl⟩
  · next op left right =>
    obtain ⟨_, ⟨⟩, hbuild⟩ := Form.typed_eq_ok h
    obtain ⟨leftType, -, hbuild⟩ := Except.bind_eq_ok.mp hbuild
    obtain ⟨rightType, -, hbuild⟩ := Except.bind_eq_ok.mp hbuild
    obtain ⟨u, hcheck, -⟩ := Except.bind_eq_ok.mp hbuild
    obtain ⟨v, -, hcheck⟩ := Except.bind_eq_ok.mp hcheck
    obtain ⟨w, -, hbool⟩ := Except.bind_eq_ok.mp hcheck
    exact exists_simplerLogical? (isBool_of_expectBoolType hbool) op left right
  · split <;> exact ⟨_, rfl⟩
  · exact ⟨_, rfl⟩
  · exact ⟨_, rfl⟩

/-! ### The walk -/

/-- **Simplification goes through.** An expression that the constructors give, in which no
assignment goes to an expression with a tuple constructor, can be simplified; what comes out reduces
it. -/
theorem exists_simplify {e : Expr} (h : e.Simplifiable) :
    ∃ e', e.simplify = .ok e' ∧ e.Reduces e' := by
  induction e using parts_induction with
  | node e ih =>
    -- the parts go through, and then the node can be built again
    have hparts : ∀ part ∈ e.form.parts, ∃ part', part.transform simplifier = .ok part' :=
      fun part hpart => by
        obtain ⟨part', hsimplify, -⟩ := ih part hpart (h.part hpart)
        exact ⟨part', hsimplify⟩
    obtain ⟨form, hform⟩ := Form.exists_transformParts fun part hpart =>
      hparts part (Form.walked_subset_parts hpart)
    have hlift : e.form.Lift Reduces form :=
      (Form.lift_of_transformParts hform).imp_of_mem fun part hpart part' hsimplify => by
        obtain ⟨part'', hsimplify', hreduces⟩ := ih part hpart (h.part hpart)
        obtain rfl := Except.ok.inj (hsimplify.symm.trans hsimplify')
        exact hreduces
    have htypes := hlift.imp_of_mem fun part _ part' hpart => hpart.type
    obtain ⟨rebuilt, hrebuilt⟩ :=
      exists_withForm h.built.here htypes (Reduces.not_spoiled h hlift)
    obtain ⟨hreduces, -⟩ := Reduces.of_lift h hlift hrebuilt
    -- and the rule for the node itself
    obtain ⟨simpler, hsimpler⟩ := exists_simplerForm? hreduces.simplifiable.built.here
    refine ⟨simpler.getD rebuilt, ?_, ?_⟩
    · refine transform_eq_ok.mpr (.inr ⟨rfl, form, rebuilt, hform, hrebuilt, ?_⟩)
      exact Except.bind_eq_ok.mpr ⟨simpler, hsimpler, rfl⟩
    · cases simpler with
      | none => exact hreduces
      | some simpler =>
        obtain ⟨type, htype, hrule⟩ := simplerForm?_eq_ok hsimpler
        exact hreduces.trans (hrule.reduces hreduces.simplifiable htype)

end Expr
end DeltaCircuit
