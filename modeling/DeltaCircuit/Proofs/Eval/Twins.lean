import DeltaCircuit.Proofs.Eval.Exact
import DeltaCircuit.Proofs.Eval.Steps
import DeltaCircuit.Proofs.Expr.Parts
import Mathlib.Data.Option.Basic

/-!
# Functions do not tell twins apart

An expression without floating point literals and without casts to floating point types only ever
makes exact values out of exact values. Evaluated twice, on variables that are twins, it gives twins
and leaves variables that are twins.

* `Expr.Exact` — no literal and no cast of an expression makes a floating point number.
* `Scopes.Twins`, `Eval.Relates` — two runs side by side: from twin variables to related results and
  twin variables. Every combinator of evaluations has a rule.
* `Expr.Exact.uniform` — the induction over the parts of an expression.
* `Expr.Exact.applyTo` — calls of a closure on twins give twins.
-/

namespace Option.Rel

variable {α β : Type} {R : α → β → Prop} {x x' : Option α} {y y' : Option β}

theorem isSome_eq (h : Option.Rel R x y) : x.isSome = y.isSome := by
  cases h <;> rfl

theorem or (h : Option.Rel R x y) (h' : Option.Rel R x' y') :
    Option.Rel R (x.or x') (y.or y') := by
  cases h with
  | some hab => exact .some hab
  | none => exact h'

end Option.Rel

namespace DeltaCircuit

/-! ### Variables -/

/-- A variable and its twin. -/
def TwinBinding (b b' : String × Value) : Prop := b.1 = b'.1 ∧ b.2.Twins b'.2

/-- Two stacks of scopes with the same names, bound to twins. -/
def Scopes.Twins (s t : Scopes) : Prop := List.Forall₂ (List.Forall₂ TwinBinding) s t

/-- Twins are found under the same names. -/
theorem twins_get? {scope scope' : List (String × Value)}
    (h : List.Forall₂ TwinBinding scope scope') (name : String) :
    Option.Rel Value.Twins (Assoc.get? scope name) (Assoc.get? scope' name) := by
  induction h with
  | nil => exact .none
  | @cons b b' scope scope' hb _ ih =>
    obtain ⟨key, v⟩ := b
    obtain ⟨key', v'⟩ := b'
    obtain ⟨rfl, hv⟩ : key = key' ∧ v.Twins v' := hb
    rw [Assoc.get?, Assoc.get?]
    split
    · exact .some hv
    · exact ih

theorem twins_set {scope scope' : List (String × Value)}
    (h : List.Forall₂ TwinBinding scope scope') {name : String} {v v' : Value}
    (hv : v.Twins v') :
    List.Forall₂ TwinBinding (Assoc.set scope name v) (Assoc.set scope' name v') := by
  induction h with
  | nil => exact .cons ⟨rfl, hv⟩ .nil
  | @cons b b' scope scope' hb hrest ih =>
    obtain ⟨key, w⟩ := b
    obtain ⟨key', w'⟩ := b'
    obtain ⟨rfl, hw⟩ : key = key' ∧ w.Twins w' := hb
    rw [Assoc.set, Assoc.set]
    split
    · exact .cons ⟨rfl, hv⟩ hrest
    · exact .cons ⟨rfl, hw⟩ ih

namespace Scopes.Twins

variable {s t : Scopes} {name : String} {v v' : Value}

theorem find? (h : s.Twins t) (name : String) :
    Option.Rel Value.Twins (s.find? name) (t.find? name) := by
  induction h with
  | nil => exact .none
  | @cons scope scope' outer outer' hscope _ ih =>
    rw [Scopes.find?, Scopes.find?]
    exact (twins_get? hscope name).or ih

theorem bind (h : s.Twins t) (hv : v.Twins v') : (s.bind name v).Twins (t.bind name v') := by
  cases h with
  | nil => exact .nil
  | cons hscope hrest => exact .cons (twins_set hscope hv) hrest

theorem update (h : s.Twins t) (hv : v.Twins v') :
    (s.update name v).Twins (t.update name v') := by
  induction h with
  | nil => exact .nil
  | @cons scope scope' outer outer' hscope hrest ih =>
    rw [Scopes.update, Scopes.update, (twins_get? hscope name).isSome_eq]
    split
    · exact .cons (twins_set hscope hv) hrest
    · exact .cons hscope ih

/-- Assignments go to the same place. -/
theorem assign (h : s.Twins t) {target : Expr} (hv : v.Twins v') :
    (s.assign target v).Follows Scopes.Twins (t.assign target v') := by
  unfold Scopes.assign
  cases target.place? with
  | error e => exact Except.follows_error
  | ok place =>
    obtain ⟨name, path⟩ := place
    rw [Except.ok_bind, Except.ok_bind]
    dsimp only
    -- the variable is found on both sides or on neither
    have hrel := h.find? name
    generalize s.find? name = found at hrel ⊢
    generalize t.find? name = found' at hrel ⊢
    cases hrel with
    | none => exact Except.follows_throw
    | some hold =>
      exact (hold.replaceAt hv).bind fun new new' hnew => Except.follows_pure (h.update hnew)

theorem tail (h : s.Twins t) : Scopes.Twins s.tail t.tail := by
  cases h with
  | nil => exact .nil
  | cons _ hrest => exact hrest

end Scopes.Twins

/-! ### Two evaluations -/

namespace Eval

open ExceptT (gives_bind gives_pure gives_throw)

variable {α β α' β' : Type} {R : α → α' → Prop} {S : β → β' → Prop} {x : Eval α} {y : Eval α'}

/-- **Side by side.** Where the first evaluation gives a result, the second one, on twins of the
variables, gives a related result and leaves twins of the variables. -/
def Relates (R : α → α' → Prop) (x : Eval α) (y : Eval α') : Prop :=
  ∀ s t, Scopes.Twins s t → ∀ a s', x.Gives s a s' →
    ∃ b t', y.Gives t b t' ∧ R a b ∧ Scopes.Twins s' t'

theorem Relates.bind {f : α → Eval β} {g : α' → Eval β'} (hxy : x.Relates R y)
    (hfg : ∀ a b, R a b → (f a).Relates S (g b)) : (x >>= f).Relates S (y >>= g) := by
  intro s t hst c s' hgives
  obtain ⟨a, u, hx, hf⟩ := gives_bind.mp hgives
  obtain ⟨b, u', hy, hab, huu⟩ := hxy s t hst a u hx
  obtain ⟨d, t', hg, hcd, hst'⟩ := hfg a b hab u u' huu c s' hf
  exact ⟨d, t', gives_bind.mpr ⟨b, u', hy, hg⟩, hcd, hst'⟩

theorem relates_pure {a : α} {b : α'} (h : R a b) : (pure a : Eval α).Relates R (pure b) := by
  intro s t hst c s' hgives
  obtain ⟨rfl, rfl⟩ := gives_pure.mp hgives
  exact ⟨b, t, gives_pure.mpr ⟨rfl, rfl⟩, h, hst⟩

theorem relates_throw {e : EvalError} : (throw e : Eval α).Relates R y :=
  fun _ _ _ _ _ hgives => (gives_throw.mp hgives).elim

theorem Relates.map {f : α → β} {g : α' → β'} (hxy : x.Relates R y)
    (hfg : ∀ a b, R a b → S (f a) (g b)) : (f <$> x).Relates S (g <$> y) := by
  rw [← bind_pure_comp, ← bind_pure_comp]
  exact hxy.bind fun a b hab => relates_pure (hfg a b hab)

theorem relates_ofExcept {r : Except EvalError α} {r' : Except EvalError α'}
    (h : r.Follows R r') : (ofExcept r).Relates R (ofExcept r') := by
  intro s t hst a s' hgives
  obtain ⟨ha, rfl⟩ := gives_ofExcept.mp hgives
  obtain ⟨b, hb, hab⟩ := h a ha
  exact ⟨b, t, gives_ofExcept.mpr ⟨hb, rfl⟩, hab, hst⟩

theorem Relates.inScope (hxy : x.Relates R y) : (inScope x).Relates R (inScope y) := by
  intro s t hst a s' hgives
  obtain ⟨u, hx, rfl⟩ := gives_inScope.mp hgives
  obtain ⟨b, u', hy, hab, huu⟩ := hxy _ ([] :: t) (.cons .nil hst) a u hx
  exact ⟨b, u'.tail, gives_inScope.mpr ⟨u', hy, rfl⟩, hab, huu.tail⟩

theorem relates_lookup {name : String} : (lookup name).Relates Value.Twins (lookup name) := by
  intro s t hst a s' hgives
  obtain ⟨hfound, rfl⟩ := gives_lookup.mp hgives
  have hrel := hst.find? name
  rw [hfound] at hrel
  cases hother : t.find? name with
  | none =>
    rw [hother] at hrel
    cases hrel
  | some b =>
    rw [hother] at hrel
    cases hrel with
    | some hab => exact ⟨b, t, gives_lookup.mpr ⟨hother, rfl⟩, hab, hst⟩

theorem relates_bindName {name : String} {v v' : Value} (hv : v.Twins v') :
    (Eval.bind name v).Relates Eq (Eval.bind name v') := by
  intro s t hst a s' hgives
  obtain ⟨-, rfl⟩ := Prod.mk.inj hgives
  exact ⟨(), t.bind name v', rfl, rfl, hst.bind hv⟩

theorem relates_assign {target : Expr} {v v' : Value} (hv : v.Twins v') :
    (Eval.assign target v).Relates Eq (Eval.assign target v') := by
  intro s t hst a s' hgives
  have hassign : (s.assign target v).Follows Scopes.Twins (t.assign target v') := hst.assign hv
  unfold ExceptT.Gives Eval.assign at hgives ⊢
  cases hs : s.assign target v with
  | error e =>
    rw [hs] at hgives
    cases (Prod.mk.inj hgives).1
  | ok u =>
    rw [hs] at hgives
    obtain ⟨-, rfl⟩ := Prod.mk.inj hgives
    obtain ⟨t', ht', htwins⟩ := hassign u hs
    refine ⟨(), t', ?_, rfl, htwins⟩
    rw [ht']

theorem Relates.forEach {action action' : Value → Eval Unit} {items items' : List Value}
    (haction : ∀ v v', Value.Twins v v' → (action v).Relates Eq (action' v'))
    (h : List.Forall₂ Value.Twins items items') :
    (forEach action items).Relates Eq (forEach action' items') := by
  induction h with
  | nil => exact relates_pure rfl
  | cons hitem _ ih => exact (haction _ _ hitem).bind fun _ _ _ => ih

end Eval

/-! ### Expressions -/

/-- A node that makes no floating point number by itself. -/
def Expr.isExactNode (e : Expr) : Bool :=
  match e.form, e.type with
  | .literal (some l), _ => !l.isFloat
  | .cast _, some type => !type.isFloat
  | _, _ => true

/-- **Exact expressions.** No literal in the expression is a floating point number, and no cast goes
to a floating point type. -/
abbrev Expr.Exact (e : Expr) : Prop := e.Everywhere fun node => node.isExactNode = true

/-- Evaluations of the expression on twins give twins. -/
abbrev Expr.Uniform (e : Expr) : Prop := e.eval.Relates Value.Twins e.eval

open Eval in
theorem relates_evalAll {es : List Expr} (h : ∀ e ∈ es, e.Uniform) :
    (Expr.evalAll es).Relates (List.Forall₂ Value.Twins) (Expr.evalAll es) := by
  induction es with
  | nil => exact relates_pure .nil
  | cons e es ih =>
    obtain ⟨he, hes⟩ := List.forall_mem_cons.mp h
    rw [Expr.evalAll]
    exact he.bind fun v v' hv => (ih hes).bind fun vs vs' hvs => relates_pure (.cons hv hvs)

open Eval in
mutual

/-- Twins match the same patterns. -/
theorem relates_patternBind : ∀ (pattern : Pattern) {v v' : Value},
    (∀ e ∈ pattern.constants, e.Uniform) → v.Twins v' →
      (pattern.bind v).Relates Eq (pattern.bind v')
  | .identifier name _, _, _, _, hv => by
    rw [Pattern.bind, Pattern.bind]
    exact (relates_bindName hv).bind fun _ _ _ => relates_pure rfl
  | .wildcard, _, _, _, _ => by
    rw [Pattern.bind, Pattern.bind]
    exact relates_pure rfl
  | .tuple fields, v, v', hconstants, hv => by
    cases v with
    | row vs =>
      obtain ⟨vs', rfl, hvs⟩ := Value.Twins.row_iff.mp hv
      -- a row and its twin have equally many components, so the pattern fits both or neither
      rw [Pattern.bind, Pattern.bind, hvs.length_eq]
      split
      · exact relates_patternBindAll fields hconstants hvs
      · exact relates_pure rfl
    | null =>
      obtain rfl := hv.eq_null
      exact relates_pure rfl
    | vec vs =>
      obtain ⟨vs', rfl, -⟩ := Value.Twins.vec_iff.mp hv
      exact relates_pure rfl
    | scalar l =>
      -- the twin of a scalar is no row
      cases v' with
      | row vs' =>
        obtain ⟨vs, hvs, -⟩ := Value.Twins.row_iff.mp hv.symm
        cases hvs
      | _ => exact relates_pure rfl
  | .literal constant, _, _, hconstants, hv => by
    rw [Pattern.bind, Pattern.bind]
    -- twins compared with twins come out the same
    refine (hconstants constant (List.mem_singleton_self _)).bind fun c c' hc =>
      relates_pure (hc.same_eq hv)

theorem relates_patternBindAll : ∀ (patterns : List Pattern) {vs vs' : List Value},
    (∀ e ∈ Pattern.constantsAll patterns, e.Uniform) → List.Forall₂ Value.Twins vs vs' →
      (Pattern.bindAll patterns vs).Relates Eq (Pattern.bindAll patterns vs')
  | [], _, _, _, _ => by
    rw [Pattern.bindAll, Pattern.bindAll]
    · exact relates_pure rfl
    all_goals nofun
  | pattern :: patterns, _, _, _, .nil => relates_pure rfl
  | pattern :: patterns, _, _, hconstants, .cons hv hvs => by
    rw [Pattern.bindAll, Pattern.bindAll]
    rw [Pattern.constantsAll, List.forall_mem_append] at hconstants
    obtain ⟨hfirst, hrest⟩ := hconstants
    refine (relates_patternBind pattern hfirst hv).bind fun fits fits' hfits => ?_
    subst hfits
    split
    · exact relates_patternBindAll patterns hrest hvs
    · exact relates_pure rfl

end

open Eval in
theorem relates_runAll {statements : List Statement}
    (h : ∀ e ∈ statements.flatMap Statement.parts, e.Uniform) :
    (Statement.runAll statements).Relates Eq (Statement.runAll statements) := by
  induction statements with
  | nil => exact relates_pure rfl
  | cons statement statements ih =>
    rw [List.flatMap_cons, List.forall_mem_append] at h
    obtain ⟨hfirst, hrest⟩ := h
    cases statement with
    | letBind name mutable type init =>
      cases init with
      | none =>
        rw [Statement.runAll]
        exact (relates_bindName Value.twins_null).bind fun _ _ _ => ih hrest
      | some init =>
        rw [Statement.runAll]
        exact (hfirst init (List.mem_singleton_self _)).bind fun v v' hv =>
          (relates_bindName hv).bind fun _ _ _ => ih hrest
    | eval e =>
      rw [Statement.runAll]
      exact (Relates.map (hfirst e (List.mem_singleton_self _)) fun _ _ _ => rfl).bind
        fun _ _ _ => ih hrest

open Eval in
theorem relates_evalFirst {arms : List Arm} (h : ∀ e ∈ arms.flatMap Arm.parts, e.Uniform)
    {v v' : Value} (hv : v.Twins v') :
    (Arm.evalFirst arms v).Relates Value.Twins (Arm.evalFirst arms v') := by
  induction arms with
  | nil => exact relates_throw
  | cons arm arms ih =>
    obtain ⟨pattern, result⟩ := arm
    rw [List.flatMap_cons, List.forall_mem_append] at h
    obtain ⟨hfirst, hrest⟩ := h
    obtain ⟨hconstants, hresult⟩ := List.forall_mem_append.mp hfirst
    rw [Arm.evalFirst, Arm.evalFirst]
    -- the arm is taken on both sides or on neither
    refine Relates.bind (R := Option.Rel Value.Twins) (Relates.inScope
      ((relates_patternBind pattern hconstants hv).bind fun fits fits' hfits => ?_))
      fun outcome outcome' houtcome => ?_
    · subst hfits
      split
      · exact (hresult result (List.mem_singleton_self _)).map fun _ _ hab => .some hab
      · exact relates_pure .none
    · cases houtcome with
      | some hab => exact relates_pure hab
      | none => exact ih hrest

open Eval in
/-- **One node.** A node that makes no floating point number, of parts that give twins on twins,
gives twins on twins. -/
theorem Expr.uniform_of_parts {e : Expr} (hnode : e.isExactNode = true)
    (hparts : ∀ part ∈ e.form.parts, part.Uniform) : e.Uniform := by
  obtain ⟨tag, type, form⟩ := e
  cases form with
  | literal value =>
    cases value with
    | none => exact relates_pure Value.twins_null
    | some l => exact relates_pure (.refl hnode)
  | var name => exact relates_lookup
  | field base index =>
    rw [Expr.Uniform, Expr.eval]
    exact (hparts base (by simp [Form.parts])).bind fun v v' hv => relates_ofExcept hv.field
  | binary op left right =>
    rw [Expr.Uniform, Expr.eval]
    exact (hparts left (by simp [Form.parts])).bind fun v v' hv =>
      (hparts right (by simp [Form.parts])).bind fun w w' hw => relates_ofExcept (hv.binary hw)
  | unary op operand =>
    rw [Expr.Uniform, Expr.eval]
    exact (hparts operand (by simp [Form.parts])).bind fun v v' hv => relates_ofExcept hv.unary
  | cast operand =>
    have hoperand := hparts operand (by simp [Form.parts])
    -- a cast without a type leaves its operand as it is
    cases type with
    | none => exact hoperand
    | some type =>
      have htype : type.isFloat = false := by simpa [Expr.isExactNode] using hnode
      rw [Expr.Uniform, Expr.eval]
      exact hoperand.bind fun v v' hv => relates_ofExcept (hv.convert htype)
  -- none of these forms has a value
  | apply function args => exact relates_throw
  | path segments => exact relates_throw
  | closure params body => exact relates_throw
  | zset literal => exact relates_throw
  | block statements last =>
    have hstatements : ∀ e ∈ statements.flatMap Statement.parts, e.Uniform :=
      fun e he => hparts e (List.mem_append_left _ he)
    cases last with
    | none =>
      rw [Expr.Uniform, Expr.eval]
      exact ((relates_runAll hstatements).bind fun _ _ _ =>
        relates_pure Value.twins_unit).inScope
    | some last =>
      have hlast := hparts last (by simp [Form.parts])
      rw [Expr.Uniform, Expr.eval]
      exact ((relates_runAll hstatements).bind fun _ _ _ => hlast).inScope
  | ifElse condition positive negative =>
    have hcondition := hparts condition (by simp [Form.parts])
    have hpositive := hparts positive (by simp [Form.parts])
    -- twins are the same truth value, so both sides take the same branch
    cases negative with
    | none =>
      rw [Expr.Uniform, Expr.eval]
      refine hcondition.bind fun v v' hv => ?_
      rw [hv.isBool]
      split
      · exact hpositive
      · exact relates_pure Value.twins_unit
    | some negative =>
      rw [Expr.Uniform, Expr.eval]
      refine hcondition.bind fun v v' hv => ?_
      rw [hv.isBool]
      split
      · exact hpositive
      · exact hparts negative (by simp [Form.parts])
  | matchOn subject arms =>
    rw [Expr.Uniform, Expr.eval]
    exact (hparts subject (by simp [Form.parts])).bind fun v v' hv =>
      relates_evalFirst (fun e he => hparts e (List.mem_cons_of_mem _ he)) hv
  | forLoop pattern iterated body =>
    have hiterated := hparts iterated (by simp [Form.parts])
    have hbody := hparts body (by simp [Form.parts])
    have hconstants : ∀ e ∈ pattern.constants, e.Uniform :=
      fun e he => hparts e (List.mem_append_left _ he)
    rw [Expr.Uniform, Expr.eval]
    refine hiterated.bind fun v v' hv => ?_
    refine (relates_ofExcept hv.items).bind fun items items' hitems => ?_
    refine (Relates.forEach (fun item item' hitem => ?_) hitems).bind fun _ _ _ =>
      relates_pure Value.twins_unit
    -- the pattern fits an item iff it fits the twin of the item
    refine ((relates_patternBind pattern hconstants hitem).bind fun fits fits' hfits => ?_).inScope
    subst hfits
    split
    · exact hbody.map fun _ _ _ => rfl
    · exact relates_throw
  | assign target value =>
    rw [Expr.Uniform, Expr.eval]
    exact (hparts value (by simp [Form.parts])).bind fun v v' hv =>
      (relates_assign hv).bind fun _ _ _ => relates_pure Value.twins_unit
  | tuple fields | rawTuple fields | struct fields =>
    rw [Expr.Uniform, Expr.eval]
    exact (relates_evalAll hparts).bind fun vs vs' hvs =>
      relates_pure (Value.Twins.row_iff.mpr ⟨vs', rfl, hvs⟩)
  | qualify operand types | borrow operand mutable | deref operand =>
    exact hparts operand (by simp [Form.parts])

/-- **Evaluation on twins.** An exact expression gives twins on twins. -/
theorem Expr.Exact.uniform {e : Expr} (he : e.Exact) : e.Uniform := by
  induction he with
  | node here _ ih => exact Expr.uniform_of_parts here ih

/-! ### Calls -/

open Eval in
theorem relates_parameterBindAll {params : List Parameter} {args args' : List Value}
    (h : ∀ e ∈ params.flatMap (fun param => param.pattern.constants), e.Uniform)
    (hargs : List.Forall₂ Value.Twins args args') :
    (Parameter.bindAll params args).Relates Eq (Parameter.bindAll params args') := by
  induction params generalizing args args' with
  | nil => exact relates_pure rfl
  | cons param params ih =>
    rw [List.flatMap_cons, List.forall_mem_append] at h
    obtain ⟨hfirst, hrest⟩ := h
    cases hargs with
    | nil => exact relates_pure rfl
    | cons hv hvs =>
      rw [Parameter.bindAll, Parameter.bindAll]
      refine (relates_patternBind param.pattern hfirst hv).bind fun fits fits' hfits => ?_
      subst hfits
      split
      · exact ih hrest hvs
      · exact relates_throw

/-- **Calls on twins.** An exact function gives twins on twins. -/
theorem Expr.Exact.applyTo {f : Expr} (hf : f.Exact) {args args' : List Value}
    (hargs : List.Forall₂ Value.Twins args args') :
    (f.applyTo args).Follows Value.Twins (f.applyTo args') := by
  have hcall : (f.call args).Relates Value.Twins (f.call args') := by
    unfold Expr.call
    split
    · next params body hform =>
      -- there are equally many arguments on both sides
      rw [hargs.length_eq]
      split
      · have hparts : ∀ part ∈ f.form.parts, part.Uniform :=
          fun part hpart => Expr.Exact.uniform (hf.part part hpart)
        rw [hform] at hparts
        refine ((relates_parameterBindAll (fun e he => ?_) hargs).bind fun _ _ _ => ?_).inScope
        · exact hparts e (List.mem_append_left _ he)
        · exact hparts body (by simp [Form.parts])
      · exact Eval.relates_throw
    · exact Eval.relates_throw
  intro v hv
  obtain ⟨v', t', hgives, htwins, -⟩ := hcall [] [] .nil v (f.call args []).2 (by
    unfold ExceptT.Gives
    rw [← hv]
    rfl)
  refine ⟨v', ?_, htwins⟩
  unfold ExceptT.Gives at hgives
  unfold Expr.applyTo
  rw [hgives]

/-- An exact function gives an exact value on exact values. -/
theorem Expr.Exact.applyTo_exact {f : Expr} (hf : f.Exact) {args : List Value}
    (hargs : ∀ arg ∈ args, arg.isExact = true) {v : Value} (h : f.applyTo args = .ok v) :
    v.isExact = true := by
  have htwins : List.Forall₂ Value.Twins args args :=
    List.forall₂_same.mpr fun arg harg => .refl (hargs arg harg)
  obtain ⟨v', -, hv⟩ := hf.applyTo htwins v h
  exact hv.exact

/-- An exact expression has an exact value. -/
theorem Expr.Exact.evaluate_exact {e : Expr} (he : e.Exact) {v : Value}
    (h : e.evaluate = .ok v) : v.isExact = true := by
  obtain ⟨v', t', -, hv, -⟩ := he.uniform [] [] .nil v (e.eval []).2 (by
    unfold ExceptT.Gives
    rw [← h]
    rfl)
  exact hv.exact

end DeltaCircuit
