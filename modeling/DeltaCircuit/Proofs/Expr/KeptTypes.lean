import DeltaCircuit.Proofs.Expr.Simplifiable

/-!
# Transformations that keep types

A transformer whose hooks keep the type of whatever they are given keeps the type of the whole
expression, although a node is built and checked again as soon as one of its parts is another node.
The checks see no more of the parts than their types, except in two places: an assignment goes to a
variable or a field, and the body of a loop is a block.

* `Expr.KeepsType` — an expression that the constructors give, of the type of another one.
* `Expr.ensures_transform` — a walk keeps types if its hooks do, in any monad.
* `Transformer.KeepsTypes` — hooks that change a state, never fail and keep types.
* `Expr.Refused` — the run of a walk up to a node that is refused.
* `Expr.transform_keepsType` — what a walk gives, and how it fails.
-/

namespace DeltaCircuit

namespace Expr

/-- What may replace an expression: an expression that the constructors give, of the same type. -/
structure KeepsType (e e' : Expr) : Prop where
  type : e'.type = e.type
  built : e'.Built

theorem KeepsType.trans {e e' e'' : Expr} (h : e.KeepsType e') (h' : e'.KeepsType e'') :
    e.KeepsType e'' :=
  ⟨h'.type.trans h.type, h'.built⟩

/-- A node with parts of the old types keeps the type. -/
theorem KeepsType.of_lift {e e' : Expr} {form : Form} (hbuilt : e.Built)
    (hlift : e.form.Lift KeepsType form) (h : e.withForm form = .ok e') : e.KeepsType e' := by
  -- all that is checked when a node is built again are the types of its parts
  have htypes := hlift.imp_of_mem fun part _ part' hpart => hpart.type
  obtain ⟨hhere, htype, rfl⟩ := withForm_eq_ok hbuilt.here htypes h
  exact ⟨htype, .node hhere (hlift.everywhere hbuilt.part fun _ _ _ hpart => hpart.built)⟩

/-! ### Walks in any monad -/

section

variable {m : Type → Type} [Monad m] [MonadLiftT (Except TermError) m] {r : Transformer m}

/-- **A walk keeps types** if its hooks do. -/
theorem ensures_transform (g : Assurance m)
    (hlift : ∀ {x : Except TermError Expr} {P : Expr → Prop}, x.Ensures P →
      g.Ensures (liftM x : m Expr) P)
    (hbefore : ∀ e, e.Built → g.Ensures (r.before e) fun replacement =>
      ∀ e', replacement = some e' → e.KeepsType e')
    (hafter : ∀ old rebuilt, old.Built → old.KeepsType rebuilt →
      g.Ensures (r.after old rebuilt) old.KeepsType)
    {e : Expr} (hbuilt : e.Built) : g.Ensures (e.transform r) e.KeepsType := by
  induction e using parts_induction with
  | node e ih =>
    have hparts : g.Ensures (e.form.transformParts r) (e.form.Lift KeepsType) :=
      Form.ensures_transformParts g fun part hpart =>
        ih part (Form.walked_subset_parts hpart) (hbuilt.part part (Form.walked_subset_parts hpart))
    obtain ⟨tag, type, form⟩ := e
    rw [Expr.transform]
    -- either the first hook replaces the node, or its parts are walked
    refine g.bind (hbefore _ hbuilt) fun replacement hreplacement => ?_
    cases replacement with
    | some e' => exact g.pure (hreplacement e' rfl)
    | none =>
      refine g.bind hparts fun form' hform' => ?_
      -- the node is built again, which is checked outside the monad
      have hrebuild : (withForm ⟨tag, type, form⟩ form').Ensures (KeepsType ⟨tag, type, form⟩) :=
        fun rebuilt => KeepsType.of_lift hbuilt hform'
      exact g.bind (hlift hrebuild) fun rebuilt => hafter _ rebuilt hbuilt

end

/-! ### Simplification -/

/-- **Simplification keeps types.** -/
theorem keepsType_of_simplify {e e' : Expr} (hbuilt : e.Built) (h : e.simplify = .ok e') :
    e.KeepsType e' := by
  -- a rule that applies gives an expression of the type of the rebuilt one
  have hafter (old rebuilt : Expr) (hrebuilt : old.KeepsType rebuilt) :
      (simplifier.after old rebuilt).Ensures old.KeepsType := by
    intro e'' hafter
    obtain ⟨result, hresult, hafter⟩ := Except.bind_eq_ok.mp hafter
    obtain rfl : result.getD rebuilt = e'' := Except.ok.inj hafter
    cases result with
    | none => exact hrebuilt
    | some simpler =>
      obtain ⟨type, htype, hrule⟩ := simplerForm?_eq_ok hresult
      exact hrebuilt.trans ⟨hrule.type_eq hrebuilt.built htype, hrule.built hrebuilt.built⟩
  have hbefore (old : Expr) : (simplifier.before old).Ensures fun replacement =>
      ∀ e', replacement = some e' → old.KeepsType e' := Except.ensures_ok nofun
  have hwalk : Assurance.partly.Ensures (e.transform simplifier) e.KeepsType :=
    ensures_transform Assurance.partly (fun h => h) (fun old _ => hbefore old)
      (fun old rebuilt _ => hafter old rebuilt) hbuilt
  exact hwalk e' h

end Expr

/-! ### Transformers with a state -/

/-- **Hooks that keep types.** Whatever the state is, the hooks do not fail on expressions that the
constructors give, and give such expressions of the same types. -/
structure Transformer.KeepsTypes {σ : Type} (r : Transformer (StateT σ (Except TermError))) :
    Prop where
  before : ∀ e s, e.Built → ∃ replacement s', r.before e s = .ok (replacement, s') ∧
    ∀ e', replacement = some e' → e.KeepsType e'
  after : ∀ old rebuilt s, old.Built → old.KeepsType rebuilt →
    ∃ e' s', r.after old rebuilt s = .ok (e', s') ∧ rebuilt.KeepsType e'

section

variable {σ : Type} {r : Transformer (StateT σ (Except TermError))} {e : Expr} {s : σ}

/-- What a computation with a state gives if it succeeds, whatever the state is. -/
def Assurance.anyState : Assurance (StateT σ (Except TermError)) where
  Ensures x P := ∀ s a s', x s = .ok (a, s') → P a
  pure h := by
    rintro s _ _ ⟨⟩
    exact h
  bind hx hf := by
    intro s b s'' h
    obtain ⟨a, s', ha, hb⟩ := StateT.bind_eq_ok.mp h
    exact hf a (hx s a s' ha) s' b s'' hb

/-- What the walk makes of an expression keeps its type. -/
theorem Transformer.KeepsTypes.keepsType (hr : r.KeepsTypes) (hbuilt : e.Built) {e' : Expr} {s' : σ}
    (h : e.transform r s = .ok (e', s')) : e.KeepsType e' := by
  -- the hooks succeed, so what they give is what they are known to give
  have hbefore (e : Expr) (hbuilt : e.Built) : Assurance.anyState.Ensures (r.before e)
      fun replacement => ∀ e', replacement = some e' → e.KeepsType e' := by
    intro s replacement s' hrun
    obtain ⟨_, _, hbefore, hkeeps⟩ := hr.before e s hbuilt
    cases hrun.symm.trans hbefore
    exact hkeeps
  have hafter (old rebuilt : Expr) (hold : old.Built) (hrebuilt : old.KeepsType rebuilt) :
      Assurance.anyState.Ensures (r.after old rebuilt) old.KeepsType := by
    intro s e' s' hrun
    obtain ⟨_, _, hafter, hkeeps⟩ := hr.after old rebuilt s hold hrebuilt
    cases hrun.symm.trans hafter
    exact hrebuilt.trans hkeeps
  refine Expr.ensures_transform Assurance.anyState ?_ hbefore hafter hbuilt s e' s' h
  intro x P hx s a s' hrun
  exact hx a (StateT.liftM_eq_ok.mp hrun).1

theorem Transformer.KeepsTypes.lift (hr : r.KeepsTypes) (hbuilt : e.Built) {form : Form} {s' : σ}
    (h : e.form.transformParts r s = .ok (form, s')) : e.form.Lift Expr.KeepsType form := by
  have hparts : Assurance.anyState.Ensures (e.form.transformParts r)
      (e.form.Lift Expr.KeepsType) := by
    refine Form.ensures_transformParts Assurance.anyState fun part hpart s part' s' hrun => ?_
    exact hr.keepsType (hbuilt.part part (Form.walked_subset_parts hpart)) hrun
  exact hparts s form s' h

/-! ### How a walk fails -/

/-- **A refused node.** The walk of an expression in a state comes to a node that is refused, with
this error: the first hook leaves the node alone, the parts are walked, and what comes out for them
is no node; or the walk comes to such a node in a part, after the parts before it. -/
inductive Expr.Refused (r : Transformer (StateT σ (Except TermError))) :
    Expr → σ → TermError → Prop where
  | here {e : Expr} {s s₁ s₂ : σ} {form : Form} {err : TermError} :
    r.before e s = .ok (none, s₁) → e.form.transformParts r s₁ = .ok (form, s₂) →
    form.Spoiled err → Refused r e s err
  | part {e part : Expr} {s s₁ s₂ : σ} {earlier later walked : List Expr} {err : TermError} :
    r.before e s = .ok (none, s₁) → e.form.walked = earlier ++ part :: later →
    Expr.transformAll r earlier s₁ = .ok (walked, s₂) → Refused r part s₂ err → Refused r e s err

/-- A walk of several expressions fails at one of them, after the ones before it. -/
theorem Expr.error_of_transformAll {parts : List Expr} {err : TermError}
    (h : Expr.transformAll r parts s = .error err) :
    ∃ earlier part later walked s', parts = earlier ++ part :: later ∧
      Expr.transformAll r earlier s = .ok (walked, s') ∧ part.transform r s' = .error err := by
  -- on the parts: the first one fails, or what fails comes later
  induction parts generalizing s with
  | nil => cases h
  | cons part parts ih =>
    rw [Expr.transformAll] at h
    rcases StateT.bind_eq_error.mp h with hpart | ⟨part', s', hpart, h⟩
    · exact ⟨[], part, parts, [], s, rfl, rfl, hpart⟩
    rcases StateT.bind_eq_error.mp h with hparts | ⟨_, _, -, h⟩
    · obtain ⟨earlier, last, later, walked, s'', rfl, hearlier, hlast⟩ := ih hparts
      refine ⟨part :: earlier, last, later, part' :: walked, s'', rfl, ?_, hlast⟩
      rw [Expr.transformAll, StateT.bind_eq_ok]
      refine ⟨part', s', hpart, StateT.bind_eq_ok.mpr ⟨walked, s'', hearlier, rfl⟩⟩
    · cases h

/-- A walk of the parts of a form fails at one of them. -/
theorem Form.error_of_transformParts {form : Form} {err : TermError}
    (h : form.transformParts r s = .error err) : Expr.transformAll r form.walked s = .error err := by
  have hmap : Expr.transformAll r form.walked s = (walked <$> form.transformParts r) s := by
    rw [Form.transformAll_walked]
  rw [hmap, map_eq_pure_bind]
  exact StateT.bind_eq_error.mpr (.inl h)

/-- **A walk with such hooks fails at a refused node only.** -/
theorem Transformer.KeepsTypes.refused (hr : r.KeepsTypes) (hbuilt : e.Built) {err : TermError}
    (h : e.transform r s = .error err) : e.Refused r s err := by
  induction e using Expr.parts_induction generalizing s with
  | node e ih =>
    -- the first hook does not fail, and if it replaces the node, nothing is left to fail
    obtain ⟨replacement, s₁, hbefore, -⟩ := hr.before e s hbuilt
    obtain ⟨tag, type, form⟩ := e
    rw [Expr.transform] at h
    rcases StateT.bind_eq_error.mp h with hfail | ⟨_, _, hbefore', h⟩
    · cases hbefore.symm.trans hfail
    cases hbefore.symm.trans hbefore'
    cases replacement with
    | some replacement => cases h
    | none =>
      rcases StateT.bind_eq_error.mp h with hfail | ⟨form', s₂, hparts, h⟩
      · -- the walk fails in a part
        obtain ⟨earlier, part, later, walked, s₂, hsplit, hearlier, hpart⟩ :=
          Expr.error_of_transformAll (Form.error_of_transformParts hfail)
        have hmem : part ∈ form.parts := Form.walked_subset_parts (hsplit ▸ by simp)
        exact .part hbefore hsplit hearlier (ih part hmem (hbuilt.part part hmem) hpart)
      have hlift : form.Lift Expr.KeepsType form' := hr.lift hbuilt hparts
      rcases StateT.bind_eq_error.mp h with hfail | ⟨rebuilt, s₃, hrebuilt, hfail⟩
      · -- the node itself is refused
        have htypes := hlift.imp_of_mem fun part _ part' hpart => hpart.type
        have hspoiled := Expr.spoiled_of_withForm hbuilt.here htypes (StateT.liftM_eq_error.mp hfail)
        exact .here hbefore hparts hspoiled
      · -- the second hook does not fail
        have hkeeps := Expr.KeepsType.of_lift hbuilt hlift (StateT.liftM_eq_ok.mp hrebuilt).1
        obtain ⟨_, _, hafter, -⟩ := hr.after _ rebuilt s₃ hbuilt hkeeps
        cases hafter.symm.trans hfail

/-- **Walks and types.** Take a transformer whose hooks never fail and keep types, and an expression
that the constructors give. Whatever the walk gives has the type of the expression; and where the
walk fails, it has come to an assignment whose target is no variable or field any more, or to a loop
whose body is no block any more. Simplification too keeps the type, and it succeeds if nothing is
assigned to an expression with a tuple constructor in it. -/
theorem Expr.transform_keepsType (hr : r.KeepsTypes) (hbuilt : e.Built) :
    (∀ s e' s', e.transform r s = .ok (e', s') → e'.type = e.type) ∧
      (∀ s err, e.transform r s = .error err → e.Refused r s err) ∧
      (∀ e', e.simplify = .ok e' → e'.type = e.type) ∧
      (e.PlainTargets → ∃ e', e.simplify = .ok e') := by
  refine ⟨fun s e' s' h => (hr.keepsType hbuilt h).type, fun s err h => hr.refused hbuilt h,
    fun e' h => (keepsType_of_simplify hbuilt h).type, fun hplain => ?_⟩
  obtain ⟨e', he', -⟩ := exists_simplify ⟨hbuilt, hplain⟩
  exact ⟨e', he'⟩

end

/-! ### Variables replaced by a constant -/

/-- The hooks that put 7 in the place of every variable of type `i32`, and count how often. -/
def sevens : Transformer (StateT Nat (Except TermError)) where
  before e := fun count =>
    match e.form with
    | .var _ =>
      if e.type = some .i32 then .ok (some (Expr.i32Literal 7), count + 1) else .ok (none, count)
    | _ => .ok (none, count)
  after _ rebuilt := pure rebuilt

theorem keepsTypes_sevens : sevens.KeepsTypes where
  before e count _ := by
    unfold sevens
    dsimp only
    split
    · -- a variable of the type is replaced, and everything else is left to the walk
      split
      · next htype =>
        refine ⟨_, _, rfl, ?_⟩
        rintro _ ⟨⟩
        exact ⟨htype.symm, .leaf ⟨.i32, rfl⟩ rfl⟩
      · exact ⟨_, _, rfl, nofun⟩
    · exact ⟨_, _, rfl, nofun⟩
  after _ rebuilt count _ hkeeps := ⟨rebuilt, count, rfl, rfl, hkeeps.built⟩

namespace Expr

/-- The sum `x + y`. -/
def sumOfTwo : Expr :=
  ofForm (some .i32) (.binary (.arithmetic .add) (var "x" .i32) (var "y" .i32))

/-- The assignment `x = x + y`. -/
def accumulateSum : Expr := ofForm (some .unit) (.assign (var "x" .i32) sumOfTwo)

theorem built_accumulateSum : accumulateSum.Built := by
  have hvar (name : String) : (var name .i32).Built := .leaf ⟨_, rfl⟩ rfl
  have hsum : sumOfTwo.Built := .of_parts rfl ⟨hvar "x", hvar "y"⟩
  exact .of_parts rfl ⟨hvar "x", hsum⟩

theorem plainTargets_accumulateSum : accumulateSum.PlainTargets := by
  have hvar (name : String) : (var name .i32).PlainTargets := .leaf nofun rfl
  refine .of_parts ?_ ⟨hvar "x", .of_parts nofun ⟨hvar "x", hvar "y"⟩⟩
  rintro _ _ ⟨⟩
  exact .leaf rfl rfl

/-- The sum keeps its type with both variables replaced, and the assignment is refused, since 7 is
nothing to assign to. -/
theorem transform_keepsType_sevens :
    (∃ e', sumOfTwo.transform sevens 0 = .ok (e', 2) ∧ e'.type = sumOfTwo.type) ∧
      accumulateSum.transform sevens 0 = .error (.notAssignable (i32Literal 7)) ∧
      accumulateSum.Refused sevens 0 (.notAssignable (i32Literal 7)) ∧
      ∃ e', accumulateSum.simplify = .ok e' := by
  have hsum : sumOfTwo.Built :=
    built_accumulateSum.part sumOfTwo (by simp [accumulateSum, ofForm, Form.parts])
  obtain ⟨htype, -⟩ := transform_keepsType keepsTypes_sevens hsum
  obtain ⟨-, hrefused, -, hsimplify⟩ := transform_keepsType keepsTypes_sevens built_accumulateSum
  exact ⟨⟨_, rfl, htype 0 _ 2 rfl⟩, rfl, hrefused 0 _ rfl, hsimplify plainTargets_accumulateSum⟩

end Expr

end DeltaCircuit
