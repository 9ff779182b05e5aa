import DeltaCircuit.Proofs.Expr.Built

/-!
# Nodes of exchanged parts

The constructors check the types of the parts, and two of them look at a part itself: the body of a
loop has to be a block, and an assignment has to go to a variable or a field. Whatever passes the
same checks can be put in place of the parts of a node.

* `Expr.PassesFor` — a part of the same type that is a block if the other one is.
* `Expr.exists_field`, `Expr.exists_binary`, … — the constructors one by one.
* `Form.Spoiled` — the nodes that are refused whatever types their parts have.
* `Form.Lift.exists_rebuild` — all other nodes can be built again from parts of the old types.
* `Expr.exists_withForm`, `Expr.spoiled_of_withForm` — the two for the step of a walk.
-/

namespace DeltaCircuit

namespace Expr

/-- Whether a part may stand where another one stood: it has the same type, and it is a block if
the other one is. -/
structure PassesFor (e e' : Expr) : Prop where
  type : e'.type = e.type
  block : e.isBlock = true → e'.isBlock = true

/-! ### Constructors -/

section

variable {e base base' left left' right right' operand operand' : Expr}

theorem expectBool_congr {site : Site} {u : Unit} (htype : operand'.type = operand.type)
    (h : expectBool site operand = .ok u) : expectBool site operand' = .ok u := by
  unfold expectBool at h ⊢
  simp only [Except.bind_eq_ok, requireType_eq_ok] at h ⊢
  obtain ⟨type, hoperand, h⟩ := h
  refine ⟨type, htype.trans hoperand, ?_⟩
  split at h
  · next hbool =>
    rw [if_pos hbool]
    exact h
  · simp at h

theorem exists_field {index : Nat} (htype : base'.type = base.type)
    (h : field base index = .ok e) : ∃ e', field base' index = .ok e' := by
  unfold field at h ⊢
  rw [Except.bind_eq_ok] at h
  obtain ⟨found, hfound, h⟩ := h
  have hfound' : base'.requireType = .ok found := by
    rw [requireType_eq_ok] at hfound ⊢
    exact htype.trans hfound
  rw [hfound', Except.ok_bind]
  dsimp only
  -- the type of the base decides, and it is the same
  cases hfields : found.deref.tupleFields? with
  | none => simp [hfields] at h
  | some types =>
    cases hindex : types[index]? with
    | none => simp [hfields, hindex] at h
    | some type =>
      simp only [hfields, hindex] at h
      split at h
      · rename_i hnullable
        rw [Except.bind_eq_ok] at h
        obtain ⟨own, hown, -⟩ := h
        exact ⟨ofForm (some own) (.field base' index), by simp [hindex, hnullable, hown]⟩
      · rename_i hnullable
        exact ⟨ofForm (some type) (.field base' index), by simp [hindex, hnullable]⟩

theorem checkBinary_congr {op : BinaryOp} {leftType rightType type : Ty} {u : Unit}
    (hleft : left'.type = left.type) (hright : right'.type = right.type)
    (h : checkBinary op left right leftType rightType type = .ok u) :
    checkBinary op left' right' leftType rightType type = .ok u := by
  cases op with
  | logical op =>
    simp only [checkBinary, Except.bind_eq_ok] at h ⊢
    obtain ⟨a, ha, b, hb, h⟩ := h
    exact ⟨a, expectBool_congr hleft ha, b, expectBool_congr hright hb, h⟩
  | _ => exact h

theorem exists_binary {op : BinaryOp} {type : Ty} (hleft : left'.type = left.type)
    (hright : right'.type = right.type) (h : binary op left right type = .ok e) :
    ∃ e', binary op left' right' type = .ok e' := by
  unfold binary at h ⊢
  simp only [Except.bind_eq_ok, requireType_eq_ok] at h ⊢
  obtain ⟨leftType, hl, rightType, hr, u, hcheck, -⟩ := h
  exact ⟨_, leftType, hleft.trans hl, rightType, hright.trans hr, u,
    checkBinary_congr hleft hright hcheck, rfl⟩

theorem exists_unary {op : UnaryOp} {type : Ty} (htype : operand'.type = operand.type)
    (h : unary op operand type = .ok e) : ∃ e', unary op operand' type = .ok e' := by
  unfold unary at h ⊢
  simp only [Except.bind_eq_ok] at h ⊢
  obtain ⟨u, hcheck, -⟩ := h
  refine ⟨_, u, ?_, rfl⟩
  cases op with
  | isNull | isNotNull => exact hcheck
  | not | wrapBool =>
    simp only [checkUnary, Except.bind_eq_ok] at hcheck ⊢
    obtain ⟨v, hv, hcheck⟩ := hcheck
    exact ⟨v, expectBool_congr htype hv, hcheck⟩
  | neg | plus =>
    simp only [checkUnary, Except.bind_eq_ok, requireType_eq_ok] at hcheck ⊢
    obtain ⟨found, hfound, hcheck⟩ := hcheck
    refine ⟨found, htype.trans hfound, ?_⟩
    split at hcheck
    · next hnumeric =>
      rw [if_pos hnumeric]
      exact hcheck
    · simp at hcheck

theorem exists_cast {type : Ty} (htype : operand'.type = operand.type)
    (h : cast operand type = .ok e) : ∃ e', cast operand' type = .ok e' := by
  unfold cast at h ⊢
  simp only [Except.bind_eq_ok, requireType_eq_ok] at h ⊢
  obtain ⟨source, hsource, h⟩ := h
  split at h
  · next hconvertible =>
    exact ⟨_, source, htype.trans hsource, by rw [if_pos hconvertible]; rfl⟩
  · simp at h

theorem checkArguments_congr {function function' : Expr} {u : Unit} {args args' : List Expr}
    (hargs : List.Forall₂ (fun a b => b.type = a.type) args args') {params : List Ty}
    (h : checkArguments function params args = .ok u) :
    checkArguments function' params args' = .ok u := by
  induction hargs generalizing params with
  | nil => cases params <;> exact h
  | cons harg _ ih =>
    cases params with
    | nil => exact h
    | cons param params =>
      simp only [checkArguments, Except.bind_eq_ok, requireType_eq_ok] at h ⊢
      obtain ⟨found, hfound, h⟩ := h
      refine ⟨found, harg.trans hfound, ?_⟩
      split at h
      · next hfits =>
        rw [if_pos hfits]
        exact ih h
      · simp at h

theorem exists_apply {function function' : Expr} {args args' : List Expr} {type : Ty}
    (hfunction : function'.type = function.type)
    (hargs : List.Forall₂ (fun a b => b.type = a.type) args args')
    (h : apply function args type = .ok e) : ∃ e', apply function' args' type = .ok e' := by
  unfold apply at h ⊢
  rw [Except.bind_eq_ok] at h
  obtain ⟨found, hfound, h⟩ := h
  have hfound' : function'.requireType = .ok found := by
    rw [requireType_eq_ok] at hfound ⊢
    exact hfunction.trans hfound
  simp only [hfound', Except.ok_bind]
  dsimp only at h
  cases hkind : found.kind with
  | function result params =>
    rw [hkind] at h
    have hlength := hargs.length_eq
    -- the number and the types of the arguments are as before
    by_cases hcount : params.length = args.length
    · have hcount' : params.length = args'.length := hcount.trans hlength
      simp only [hcount, ne_eq, not_true_eq_false, if_false, Except.bind_eq_ok] at h
      obtain ⟨u, hu, h⟩ := h
      refine ⟨ofForm (some type) (.apply function' args'), ?_⟩
      simp only [hcount', ne_eq, not_true_eq_false, if_false, Except.bind_eq_ok]
      refine ⟨u, checkArguments_congr hargs hu, ?_⟩
      cases result with
      | none => rfl
      | some result =>
        by_cases hresult : result = type
        · simp [hresult]
        · simp [hresult] at h
    · simp [hcount] at h
  | _ => simp [hkind] at h

theorem exists_ifElse {condition condition' positive positive' : Expr}
    {negative negative' : Option Expr} (hcondition : condition'.type = condition.type)
    (hpositive : positive'.type = positive.type)
    (hnegative : Option.Rel (fun a b => b.type = a.type) negative negative')
    (h : ifElse condition positive negative = .ok e) :
    ∃ e', ifElse condition' positive' negative' = .ok e' := by
  unfold ifElse at h ⊢
  rw [Except.bind_eq_ok] at h
  obtain ⟨u, hu, h⟩ := h
  rw [expectBool_congr hcondition hu, Except.ok_bind]
  cases hnegative with
  | none => exact ⟨_, rfl⟩
  | @some other other' hother =>
    dsimp only at h ⊢
    split at h
    · next htypes =>
      rw [if_pos (by rw [hpositive, hother, htypes])]
      exact ⟨_, rfl⟩
    · simp at h

theorem checkArms_congr {arms arms' : List Arm} {u : Unit} {subject type : Ty}
    (harms : List.Forall₂ (Arm.Lift fun a b => b.type = a.type) arms arms')
    (h : checkArms subject type arms = .ok u) : checkArms subject type arms' = .ok u := by
  induction harms with
  | nil => exact h
  | cons harm _ ih =>
    cases harm with
    | arm hresult =>
      simp only [checkArms, Except.bind_eq_ok, requireType_eq_ok] at h ⊢
      obtain ⟨v, hv, found, hfound, h⟩ := h
      refine ⟨v, hv, found, hresult.trans hfound, ?_⟩
      split at h
      · next hsame =>
        rw [if_pos hsame]
        exact ih h
      · simp at h

theorem exists_matchOn {subject subject' : Expr} {arms arms' : List Arm} {type : Ty}
    (hsubject : subject'.type = subject.type)
    (harms : List.Forall₂ (Arm.Lift fun a b => b.type = a.type) arms arms')
    (h : matchOn subject arms type = .ok e) : ∃ e', matchOn subject' arms' type = .ok e' := by
  have hempty : arms'.isEmpty = arms.isEmpty := by
    cases harms <;> rfl
  unfold matchOn at h ⊢
  rw [hempty]
  split at h
  · simp at h
  · next hsome =>
    rw [if_neg hsome]
    simp only [Except.bind_eq_ok, requireType_eq_ok] at h ⊢
    obtain ⟨subjectType, htype, u, hu, -⟩ := h
    exact ⟨_, subjectType, hsubject.trans htype, u, checkArms_congr harms hu, rfl⟩

theorem exists_forLoop {pattern : Pattern} {iterated iterated' body body' : Expr}
    (hiterated : iterated'.type = iterated.type) (hbody : body'.isBlock = true)
    (h : forLoop pattern iterated body = .ok e) :
    ∃ e', forLoop pattern iterated' body' = .ok e' := by
  unfold forLoop at h ⊢
  split at h
  · simp at h
  · rw [if_neg (by simp [hbody])]
    simp only [Except.bind_eq_ok, requireType_eq_ok] at h ⊢
    obtain ⟨type, htype, h⟩ := h
    refine ⟨ofForm (some .unit) (.forLoop pattern iterated' body'), type,
      hiterated.trans htype, ?_⟩
    split at h
    · next element hkind =>
      simp only [Except.bind_eq_ok] at h ⊢
      obtain ⟨u, hu, -⟩ := h
      exact ⟨u, hu, rfl⟩
    · simp at h

theorem exists_assign {target target' value value' : Expr}
    (hassignable : target'.isAssignable = true) (htarget : target'.type = target.type)
    (hvalue : value'.type = value.type) (h : assign target value = .ok e) :
    ∃ e', assign target' value' = .ok e' := by
  unfold assign at h ⊢
  split at h
  · simp at h
  · rw [if_neg (by simp [hassignable])]
    simp only [Except.bind_eq_ok, requireType_eq_ok] at h ⊢
    obtain ⟨targetType, ht, valueType, hv, h⟩ := h
    split at h
    · next hsame =>
      refine ⟨ofForm (some .unit) (.assign target' value'), targetType, htarget.trans ht,
        valueType, hvalue.trans hv, ?_⟩
      rw [if_pos hsame]
      rfl
    · simp at h

theorem checkFields_congr {fields fields' : List Expr} {name : String} {u : Unit}
    (hfields : List.Forall₂ (fun a b => b.type = a.type) fields fields')
    {declared : List StructField} (h : checkFields name declared fields = .ok u) :
    checkFields name declared fields' = .ok u := by
  induction hfields generalizing declared with
  | nil => cases declared <;> exact h
  | cons hfield _ ih =>
    cases declared with
    | nil => exact h
    | cons first rest =>
      simp only [checkFields, Except.bind_eq_ok, requireType_eq_ok] at h ⊢
      obtain ⟨found, hfound, h⟩ := h
      refine ⟨found, hfield.trans hfound, ?_⟩
      split at h
      · next hsame =>
        rw [if_pos hsame]
        exact ih h
      · simp at h

theorem exists_struct {fields fields' : List Expr} {type : Ty}
    (hfields : List.Forall₂ (fun a b => b.type = a.type) fields fields')
    (h : struct type fields = .ok e) : ∃ e', struct type fields' = .ok e' := by
  have hlength := hfields.length_eq
  unfold struct at h ⊢
  split at h
  · next name declared hkind =>
    split at h
    · simp at h
    · next hcount =>
      rw [← hlength, if_neg hcount]
      simp only [Except.bind_eq_ok] at h ⊢
      obtain ⟨u, hu, -⟩ := h
      exact ⟨_, u, checkFields_congr hfields hu, rfl⟩
  · simp at h

theorem exists_deref (htype : operand'.type = operand.type) (h : deref operand = .ok e) :
    ∃ e', deref operand' = .ok e' := by
  simp only [deref, Except.bind_eq_ok, requireType_eq_ok] at h ⊢
  obtain ⟨type, hoperand, h⟩ := h
  cases hkind : type.kind with
  | reference inner mutable =>
    exact ⟨ofForm (some inner) (.deref operand'), type, htype.trans hoperand, by simp [hkind]⟩
  | _ => simp [hkind] at h

end

end Expr

/-! ### Building a node again -/

/-- A form that its constructor refuses with an error, whatever the types of its parts. -/
inductive Form.Spoiled : Form → TermError → Prop where
  | target {target value : Expr} : target.isAssignable = false →
    Spoiled (.assign target value) (.notAssignable target)
  | body {pattern : Pattern} {iterated body : Expr} : body.isBlock = false →
    Spoiled (.forLoop pattern iterated body) (.bodyNotBlock pattern iterated)

theorem Form.rebuild_of_spoiled {form : Form} {type : Option Ty} {err : TermError}
    (h : form.Spoiled err) : form.rebuild type = .error err := by
  cases h with
  | target htarget =>
    simp only [rebuild, Expr.assign, htarget]
    rfl
  | body hbody =>
    simp only [rebuild, Expr.forLoop, hbody]
    rfl

/-- The constructors that take the type of the node. -/
theorem Form.exists_typed {type : Option Ty} {form form' : Form} {e : Expr}
    {build build' : Ty → Except TermError Expr}
    (hbuild : ∀ declared, build declared = .ok e → ∃ e', build' declared = .ok e')
    (h : (do build (← (Expr.ofForm type form).requireType)) = .ok e) :
    ∃ e', (do build' (← (Expr.ofForm type form').requireType)) = .ok e' := by
  obtain ⟨declared, rfl, h⟩ := Form.typed_eq_ok h
  exact hbuild declared h

/-- **Parts of the same types.** A node can be built again from parts of the types that the old ones
have, unless it assigns to something else than a variable or a field, or loops over something else
than a block. -/
theorem Form.Lift.exists_rebuild {form form' : Form} {type : Option Ty} {e : Expr}
    (hlift : form.Lift (fun a b => b.type = a.type) form')
    (hsound : ∀ err, ¬form'.Spoiled err) (h : form.rebuild type = .ok e) :
    ∃ e', form'.rebuild type = .ok e' := by
  cases hlift with
  | literal | var | path | zset | steps | block => exact ⟨_, rfl⟩
  -- the constructors that take the declared type
  | binary hleft hright =>
    exact exists_typed (fun _ => Expr.exists_binary hleft hright) h
  | unary hoperand => exact exists_typed (fun _ => Expr.exists_unary hoperand) h
  | cast hoperand => exact exists_typed (fun _ => Expr.exists_cast hoperand) h
  | apply hfunction hargs => exact exists_typed (fun _ => Expr.exists_apply hfunction hargs) h
  | matchOn hsubject harms => exact exists_typed (fun _ => Expr.exists_matchOn hsubject harms) h
  | struct hfields => exact exists_typed (fun _ => Expr.exists_struct hfields) h
  -- those that derive it
  | field hbase => exact Expr.exists_field hbase h
  | @closure params body body' hbody =>
    obtain ⟨u, hu, -⟩ := Except.bind_eq_ok.mp h
    exact ⟨_, Except.bind_eq_ok.mpr ⟨u, hu, rfl⟩⟩
  | when hcondition hpositive =>
    exact Expr.exists_ifElse hcondition hpositive .none h
  | ifElse hcondition hpositive hnegative =>
    exact Expr.exists_ifElse hcondition hpositive (.some hnegative) h
  -- those that look at a part itself
  | @forLoop _ _ _ _ body' hiterated _ =>
    have hbody : body'.isBlock = true := by
      by_contra hnot
      exact hsound _ (.body (Bool.not_eq_true _ ▸ hnot))
    exact Expr.exists_forLoop hiterated hbody h
  | @assign _ target' _ _ htarget hvalue =>
    have hassignable : target'.isAssignable = true := by
      by_contra hnot
      exact hsound _ (.target (Bool.not_eq_true _ ▸ hnot))
    exact Expr.exists_assign hassignable htarget hvalue h
  | tuple hfields | rawTuple hfields =>
    obtain ⟨types, htypes, -⟩ := Except.bind_eq_ok.mp h
    rw [← fieldTypes_eq hfields] at htypes
    exact ⟨_, Except.bind_eq_ok.mpr ⟨types, htypes, rfl⟩⟩
  | qualify hoperand | borrow hoperand =>
    obtain ⟨type, htype, -⟩ := Except.bind_eq_ok.mp h
    rw [Expr.requireType_eq_ok, ← hoperand, ← Expr.requireType_eq_ok] at htype
    exact ⟨_, Except.bind_eq_ok.mpr ⟨type, htype, rfl⟩⟩
  | deref hoperand => exact Expr.exists_deref hoperand h

/-- The step of a walk goes through where a node can be built again. -/
theorem Expr.exists_withForm {e : Expr} {form : Form} (hbuilt : e.IsBuilt)
    (hlift : e.form.Lift (fun a b => b.type = a.type) form) (hsound : ∀ err, ¬form.Spoiled err) :
    ∃ e', e.withForm form = .ok e' := by
  unfold withForm
  by_cases hsame : form.beq e.form = true
  · exact ⟨e, if_pos hsame⟩
  · rw [if_neg hsame]
    have hleaf : e.form.isLeaf = false := by
      rw [← Bool.not_eq_true]
      intro hleaf
      exact hsame ((Form.beq_iff_eq _ _).mpr (hlift.eq_of_isLeaf hleaf))
    exact hlift.exists_rebuild hsound ((isBuilt_iff hleaf).mp hbuilt)

/-- **Where a walk can fail.** With parts of the old types, a node is refused only for what it
assigns to or for the body of a loop. -/
theorem Expr.spoiled_of_withForm {e : Expr} {form : Form} {err : TermError} (hbuilt : e.IsBuilt)
    (hlift : e.form.Lift (fun a b => b.type = a.type) form) (h : e.withForm form = .error err) :
    form.Spoiled err := by
  by_contra hnot
  have hsound : ∀ err', ¬form.Spoiled err' := by
    intro err' hspoiled
    unfold withForm at h
    split at h
    · cases h
    · obtain rfl : err' = err := Except.error.inj ((Form.rebuild_of_spoiled hspoiled).symm.trans h)
      exact hnot hspoiled
  obtain ⟨e', he'⟩ := exists_withForm hbuilt hlift hsound
  cases he'.symm.trans h

end DeltaCircuit
