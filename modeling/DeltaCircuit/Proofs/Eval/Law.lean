import DeltaCircuit.Eval.Interpreter
import DeltaCircuit.Proofs.Eval.Plain
import DeltaCircuit.Proofs.Expr.Places

/-!
# Laws of evaluation

What is said of an evaluation is mostly said of its steps, and holds of the whole because nothing
goes on between them. A law says two things: something of whole evaluations, and something of steps
inside a scope, which may bind names there. It has to be kept by sequences, and closing the scope
has to take the second back to the first. A law then holds of every expression.

The names that are bound at a place in an expression come with the law, so that it may speak of
names: a use of a name has to be bound at its place or known from outside.

* `Eval.Law` — the two statements and what keeps them.
* `Eval.Law.step_pattern`, `Eval.Law.step_runAll`, `Eval.Law.whole_evalFirst` — the lists of an
  expression.
* `Eval.Law.whole_node`, `Eval.Law.whole_eval` — a node, from the places below it, and every
  expression, from its nodes.
* `Eval.Law.holds`, `Eval.Law.whole_call` — every expression and every call of a function, where
  their free names are known.
-/

namespace DeltaCircuit

namespace Eval

/-- **Laws.** A statement about whole evaluations and one about steps inside a scope, at a place
where the names in `bound` are bound. After a step that gives `a`, those in `after a` are. -/
structure Law where
  /-- The names that have a value outside of the expression. -/
  Known : String → Prop
  Whole : {α : Type} → (bound : List String) → Eval α → Prop
  Step : {α : Type} → (bound : List String) → Eval α → (after : α → List String) → Prop
  whole_pure {α : Type} (bound : List String) (a : α) : Whole bound (pure a)
  whole_throw {α : Type} {e : EvalError} (bound : List String) :
    e.isPlain = true → Whole bound (throw e : Eval α)
  whole_bind {α β : Type} {bound : List String} {x : Eval α} {f : α → Eval β} :
    Whole bound x → (∀ a, Whole bound (f a)) → Whole bound (x >>= f)
  whole_lookup {bound : List String} {name : String} :
    name ∈ bound ∨ Known name → Whole bound (lookup name)
  whole_inScope {α : Type} {bound : List String} {x : Eval α} {after : α → List String} :
    Step bound x after → Whole bound (inScope x)
  step_of_whole {α : Type} {bound : List String} {x : Eval α} :
    Whole bound x → Step bound x fun _ => bound
  step_pure {α : Type} {bound : List String} {a : α} {after : α → List String} :
    after a ⊆ bound → Step bound (pure a) after
  step_throw {α : Type} {e : EvalError} (bound : List String) (after : α → List String) :
    e.isPlain = true → Step bound (throw e) after
  step_bind {α β : Type} {bound : List String} {x : Eval α} {f : α → Eval β}
    {middle : α → List String} {after : β → List String} :
    Step bound x middle → (∀ a, Step (middle a) (f a) after) → Step bound (x >>= f) after
  step_name (bound : List String) (name : String) (value : Value) :
    Step bound (Eval.bind name value) fun _ => name :: bound
  step_mono {α : Type} {bound : List String} {x : Eval α} {after after' : α → List String} :
    Step bound x after → (∀ a, after' a ⊆ after a) → Step bound x after'

namespace Law

variable {law : Law} {α β : Type} {bound : List String} {x : Eval α}

/-- The law of the expression at a place. -/
def HoldsAt (law : Law) (place : Place) : Prop := law.Whole place.1 place.2.eval

theorem whole_of_place {e : Expr} (h : ∀ place ∈ [(bound, e)], law.HoldsAt place) :
    law.Whole bound e.eval :=
  h (bound, e) List.mem_cons_self

/-- What the law asks of a single node, where the names in `bound` are bound: that it finds the
variable that it reads, and that it obeys the law when it assigns. -/
structure Admits (law : Law) (bound : List String) (node : Expr) : Prop where
  reads : ∀ name, node.form = .var name → name ∈ bound ∨ law.Known name
  assigns : ∀ target value, node.form = .assign target value → ∀ v,
    law.Whole bound (Eval.assign target v)

/-! ### Steps that read no variable -/

theorem whole_ofExcept {result : Except EvalError α} (h : Plain result) :
    law.Whole bound (ofExcept result) := by
  cases result with
  | ok a => exact law.whole_pure bound a
  | error e => exact law.whole_throw bound (h e rfl)

theorem whole_map {g : α → β} (hx : law.Whole bound x) : law.Whole bound (g <$> x) := by
  rw [← bind_pure_comp]
  exact law.whole_bind hx fun a => law.whole_pure bound (g a)

theorem whole_forEach {action : Value → Eval Unit} (h : ∀ item, law.Whole bound (action item)) :
    ∀ items, law.Whole bound (forEach action items)
  | [] => law.whole_pure bound ()
  | item :: items => law.whole_bind (h item) fun _ => whole_forEach h items

/-- An evaluation as a step, of which nothing is kept. -/
theorem step_forget (hx : law.Whole bound x) : law.Step bound x fun _ => [] :=
  law.step_mono (law.step_of_whole hx) fun _ => List.nil_subset _

/-- A scope of its own around a step, of which nothing is kept. -/
theorem whole_scope (hx : law.Step bound x fun _ => []) : law.Whole bound (inScope x) :=
  law.whole_inScope hx

/-! ### Lists of expressions -/

theorem whole_evalAll : ∀ {es : List Expr}, (∀ e ∈ es, law.Whole bound e.eval) →
    law.Whole bound (Expr.evalAll es)
  | [], _ => law.whole_pure bound []
  | e :: es, h => by
    obtain ⟨hfirst, hrest⟩ := List.forall_mem_cons.mp h
    rw [Expr.evalAll]
    refine law.whole_bind hfirst fun value => ?_
    exact law.whole_bind (whole_evalAll hrest) fun values => law.whole_pure bound _

/-! ### Patterns -/

mutual

/-- A pattern that matches has bound its names. -/
theorem step_pattern : ∀ (pattern : Pattern) (bound : List String),
    (∀ place ∈ pattern.places bound, law.HoldsAt place) → ∀ value,
      law.Step bound (pattern.bind value) fun fits =>
        if fits then pattern.names ++ bound else bound
  | .identifier name mutable, bound, _, value => by
    rw [Pattern.bind]
    refine law.step_bind (law.step_name bound name value) fun _ => law.step_pure ?_
    rw [if_pos rfl, Pattern.names, List.singleton_append]
    exact List.Subset.refl _
  | .wildcard, bound, _, value => by
    rw [Pattern.bind]
    refine law.step_pure ?_
    rw [if_pos rfl, Pattern.names, List.nil_append]
    exact List.Subset.refl _
  | .literal constant, bound, h, value => by
    rw [Pattern.bind]
    refine law.step_bind (law.step_of_whole (whole_of_place h)) fun _ => law.step_pure ?_
    rw [Pattern.names, List.nil_append, ite_self]
    exact List.Subset.refl _
  | .tuple fields, bound, h, value => by
    -- a value that is no row of the right length does not match, and binds nothing
    have hmiss : law.Step bound (pure false) fun fits =>
        if fits then (Pattern.tuple fields).names ++ bound else bound :=
      law.step_pure (List.Subset.refl _)
    cases value with
    | row values =>
      rw [Pattern.bind]
      split
      · next hlength => exact step_patterns fields values bound hlength.symm h
      · exact hmiss
    | _ => exact hmiss

/-- Patterns that all match have bound their names. -/
theorem step_patterns : ∀ (patterns : List Pattern) (values : List Value) (bound : List String),
    patterns.length = values.length →
    (∀ place ∈ Pattern.placesAll patterns bound, law.HoldsAt place) →
      law.Step bound (Pattern.bindAll patterns values) fun fits =>
        if fits then Pattern.namesAll patterns ++ bound else bound
  | [], [], bound, _, _ => by
    rw [Pattern.bindAll]
    · refine law.step_pure ?_
      rw [if_pos rfl, Pattern.namesAll, List.nil_append]
      exact List.Subset.refl _
    · simp
  | pattern :: patterns, value :: values, bound, hlength, h => by
    obtain ⟨hfirst, hrest⟩ := List.forall_mem_append.mp h
    rw [Pattern.bindAll]
    refine law.step_bind (step_pattern pattern bound hfirst value) fun fits => ?_
    cases fits with
    | false => exact law.step_pure (List.Subset.refl _)
    | true =>
      -- the patterns that are left see the names that the first one has bound
      have hpatterns := step_patterns patterns values (pattern.names ++ bound)
        (Nat.succ.inj hlength) hrest
      refine law.step_mono hpatterns fun fits => ?_
      split
      · rw [Pattern.namesAll, List.append_assoc]
        intro name hname
        simp only [List.mem_append] at hname ⊢
        tauto
      · exact List.subset_append_right _ _

end

/-! ### Statements and arms -/

/-- Statements bind their names for what follows them. -/
theorem step_runAll : ∀ {statements : List Statement} {bound : List String},
    (∀ place ∈ Statement.placesAll statements bound, law.HoldsAt place) →
      law.Step bound (Statement.runAll statements) fun _ =>
        Statement.namesAll statements ++ bound
  | [], bound, _ => by
    rw [Statement.runAll]
    exact law.step_of_whole (law.whole_pure bound ())
  | .letBind name mutable type init :: statements, bound, h => by
    obtain ⟨hinit, hrest⟩ := List.forall_mem_append.mp h
    -- a name that is bound here is bound for the statements that are left
    have hbind (value : Value) : law.Step bound (do
        Eval.bind name value
        Statement.runAll statements) fun _ =>
          Statement.namesAll (.letBind name mutable type init :: statements) ++ bound := by
      refine law.step_bind (law.step_name bound name value) fun _ => ?_
      refine law.step_mono (step_runAll hrest) fun _ => ?_
      intro other hother
      simp only [Statement.namesAll, List.mem_append, List.mem_cons] at hother ⊢
      tauto
    cases init with
    | none =>
      rw [Statement.runAll]
      exact hbind .null
    | some init =>
      rw [Statement.runAll]
      exact law.step_bind (law.step_of_whole (whole_of_place hinit)) hbind
  | .eval e :: statements, bound, h => by
    obtain ⟨hvalue, hrest⟩ := List.forall_mem_cons.mp h
    rw [Statement.runAll]
    exact law.step_bind (law.step_of_whole (whole_map hvalue)) fun _ => step_runAll hrest

theorem whole_evalFirst : ∀ {arms : List Arm},
    (∀ place ∈ arms.flatMap (Arm.places · bound), law.HoldsAt place) → ∀ subject,
      law.Whole bound (Arm.evalFirst arms subject)
  | [], _, subject => by
    rw [Arm.evalFirst]
    exact law.whole_throw bound rfl
  | ⟨pattern, result⟩ :: arms, h, subject => by
    rw [List.flatMap_cons] at h
    obtain ⟨harm, hrest⟩ := List.forall_mem_append.mp h
    obtain ⟨hpattern, hresult⟩ := List.forall_mem_append.mp harm
    have hscope : law.Step bound (do
        let fits ← pattern.bind subject
        if fits then some <$> result.eval else return none) fun _ => [] := by
      refine law.step_bind (step_pattern pattern bound hpattern subject) fun fits => ?_
      cases fits with
      | false => exact law.step_pure (List.nil_subset _)
      | true => exact step_forget (whole_map (whole_of_place hresult))
    rw [Arm.evalFirst]
    refine law.whole_bind (whole_scope hscope) fun outcome => ?_
    split
    · exact law.whole_pure bound _
    · exact whole_evalFirst hrest subject

/-! ### Nodes -/

/-- A node that the law admits obeys it if everything right below does. -/
theorem whole_node {e : Expr} (hadmits : law.Admits bound e)
    (h : ∀ place ∈ e.form.places bound, law.HoldsAt place) : law.Whole bound e.eval := by
  obtain ⟨tag, type, form⟩ := e
  cases form with
  | literal value => cases value <;> exact law.whole_pure bound _
  | var name => exact law.whole_lookup (hadmits.reads name rfl)
  | path segments => exact law.whole_throw bound rfl
  | zset z => exact law.whole_throw bound rfl
  | apply function args => exact law.whole_throw bound rfl
  | closure params body => exact law.whole_throw bound rfl
  | field base index =>
    have hbase : law.Whole bound base.eval := whole_of_place h
    rw [Expr.eval]
    exact law.whole_bind hbase fun value => whole_ofExcept (Value.plain_field index value)
  | binary op left right =>
    obtain ⟨hleft, hright⟩ := List.forall_mem_cons.mp h
    rw [Expr.eval]
    refine law.whole_bind hleft fun l => law.whole_bind (whole_of_place hright) fun r => ?_
    exact whole_ofExcept (Value.plain_binary op l r)
  | unary op operand =>
    have hoperand : law.Whole bound operand.eval := whole_of_place h
    rw [Expr.eval]
    exact law.whole_bind hoperand fun value => whole_ofExcept (Value.plain_unary op value)
  | cast operand =>
    have hoperand : law.Whole bound operand.eval := whole_of_place h
    cases type with
    | none => exact hoperand
    | some type =>
      rw [Expr.eval]
      exact law.whole_bind hoperand fun value => whole_ofExcept (Value.plain_convert value type)
  | block statements last =>
    obtain ⟨hstatements, hlast⟩ := List.forall_mem_append.mp h
    cases last with
    | none =>
      rw [Expr.eval]
      refine whole_scope (law.step_bind (step_runAll hstatements) fun _ => ?_)
      exact step_forget (law.whole_pure _ _)
    | some last =>
      rw [Expr.eval]
      refine whole_scope (law.step_bind (step_runAll hstatements) fun _ => ?_)
      exact step_forget (whole_of_place hlast)
  | ifElse condition positive negative =>
    obtain ⟨hcondition, h⟩ := List.forall_mem_cons.mp h
    obtain ⟨hpositive, hnegative⟩ := List.forall_mem_cons.mp h
    cases negative with
    | none =>
      rw [Expr.eval]
      refine law.whole_bind hcondition fun _ => ?_
      split
      · exact hpositive
      · exact law.whole_pure bound _
    | some negative =>
      rw [Expr.eval]
      refine law.whole_bind hcondition fun _ => ?_
      split
      · exact hpositive
      · exact whole_of_place hnegative
  | matchOn subject arms =>
    obtain ⟨hsubject, harms⟩ := List.forall_mem_cons.mp h
    rw [Expr.eval]
    exact law.whole_bind hsubject (whole_evalFirst harms)
  | forLoop pattern iterated body =>
    obtain ⟨hiterated, h⟩ := List.forall_mem_cons.mp h
    obtain ⟨hpattern, hbody⟩ := List.forall_mem_append.mp h
    -- a round has a scope of its own, and there the pattern binds
    have hround (item : Value) : law.Whole bound (Eval.inScope do
        let fits ← pattern.bind item
        if fits then discard body.eval else throw (.itemMismatch item pattern)) := by
      refine whole_scope (law.step_bind (step_pattern pattern bound hpattern item) fun fits => ?_)
      cases fits with
      | false => exact law.step_throw bound _ rfl
      | true => exact step_forget (whole_map (whole_of_place hbody))
    rw [Expr.eval]
    refine law.whole_bind hiterated fun value => ?_
    refine law.whole_bind (whole_ofExcept (Value.plain_items value)) fun items => ?_
    exact law.whole_bind (whole_forEach hround items) fun _ => law.whole_pure bound _
  | assign target value =>
    obtain ⟨-, hvalue⟩ := List.forall_mem_cons.mp h
    rw [Expr.eval]
    refine law.whole_bind (whole_of_place hvalue) fun v => ?_
    exact law.whole_bind (hadmits.assigns target value rfl v) fun _ => law.whole_pure bound _
  | tuple fields | rawTuple fields | struct fields =>
    have hfields : ∀ e ∈ fields, law.Whole bound e.eval := fun e he =>
      h (bound, e) (List.mem_map_of_mem he)
    rw [Expr.eval]
    exact law.whole_bind (whole_evalAll hfields) fun _ => law.whole_pure bound _
  | qualify operand types | borrow operand mutable | deref operand =>
    have hoperand : law.Whole bound operand.eval := whole_of_place h
    exact hoperand

/-- **Expressions.** The law holds of an expression if it admits every node that stands in it. -/
theorem whole_eval {e : Expr}
    (h : ∀ node inner, node.StandsIn inner e bound → law.Admits inner node) :
    law.Whole bound e.eval := by
  induction e using Expr.parts_induction generalizing bound with
  | node e ih =>
    refine whole_node (h e bound .here) fun place hplace => ?_
    exact ih place.2 (Form.mem_parts_of_mem_places hplace)
      fun node inner hstands => h node inner (.deeper hplace hstands)

/-! ### Known names -/

/-- The names used outside of `bound` are known. -/
def Covers (law : Law) (uses : List String) : Prop := ∀ name ∈ uses, law.Known name

/-- The law holds of an expression wherever its names are covered. -/
def Holds (law : Law) (e : Expr) : Prop :=
  ∀ bound, law.Covers (e.freeUses bound) → law.Whole bound e.eval

/-- The law holds of the assignments in an expression. -/
def Assigns (law : Law) (e : Expr) : Prop :=
  ∀ target value, e.form = .assign target value → ∀ bound v,
    law.Covers (target.freeUses bound) → law.Whole bound (Eval.assign target v)

theorem covers_append {uses uses' : List String} :
    law.Covers (uses ++ uses') ↔ law.Covers uses ∧ law.Covers uses' :=
  List.forall_mem_append

/-- A node is admitted where its names are covered, if the law holds of its assignments. -/
theorem Assigns.admits {e : Expr} (hassigns : law.Assigns e)
    (hcovers : law.Covers (e.freeUses bound)) : law.Admits bound e := by
  rw [e.freeUses_eq] at hcovers
  refine ⟨fun name hform => ?_, fun target value hform v => ?_⟩
  · rw [hform, Form.freeUses, freeUse] at hcovers
    by_cases hbound : bound.contains name = true
    · exact .inl (List.contains_iff_mem.mp hbound)
    · rw [if_neg hbound] at hcovers
      exact .inr (hcovers name List.mem_cons_self)
  · rw [hform, Form.freeUses, covers_append] at hcovers
    exact hassigns target value hform bound v hcovers.1

/-- The law holds of an expression if it holds of the assignments in it. -/
theorem holds {e : Expr} (h : e.Everywhere law.Assigns) : law.Holds e := by
  intro bound hcovers
  refine whole_eval fun node inner hstands => ?_
  refine (hstands.of_everywhere h).admits fun name hname => ?_
  exact hcovers name (hstands.freeUses_subset hname)

/-! ### Calls -/

theorem step_parameters : ∀ (params : List Parameter) (args : List Value) (bound : List String),
    params.length = args.length →
    (∀ place ∈ Parameter.placesAll params bound, law.HoldsAt place) →
      law.Step bound (Parameter.bindAll params args) fun _ =>
        Parameter.namesAll params ++ bound
  | [], [], bound, _, _ => by
    rw [Parameter.bindAll]
    · exact law.step_of_whole (law.whole_pure bound ())
    · simp
  | ⟨pattern, type⟩ :: params, arg :: args, bound, hlength, h => by
    obtain ⟨hfirst, hrest⟩ := List.forall_mem_append.mp h
    rw [Parameter.bindAll]
    refine law.step_bind (step_pattern pattern bound hfirst arg) fun fits => ?_
    cases fits with
    | false => exact law.step_throw bound _ rfl
    | true =>
      have hparams := step_parameters params args _ (Nat.succ.inj hlength) hrest
      refine law.step_mono hparams fun _ name hname => ?_
      simp only [Parameter.namesAll, List.mem_append] at hname ⊢
      tauto

/-- **Calls.** A law of all assignments holds of the calls of a function. -/
theorem whole_call (hassigns : ∀ e : Expr, law.Assigns e) {function : Expr}
    (hcovers : law.Covers (function.freeUses bound)) (args : List Value) :
    law.Whole bound (function.call args) := by
  have hplaces : ∀ place ∈ function.form.places bound, law.HoldsAt place := by
    intro place hplace
    refine holds (.of_all hassigns place.2) place.1 fun name hname => hcovers name ?_
    rw [function.freeUses_eq]
    exact Form.freeUses_subset_of_mem_places hplace hname
  unfold Expr.call
  split
  · next params body hform =>
    rw [hform] at hplaces
    obtain ⟨hparams, hbody⟩ := List.forall_mem_append.mp hplaces
    split
    · next hlength =>
      refine whole_scope (law.step_bind (step_parameters params args bound hlength hparams) ?_)
      exact fun _ => step_forget (whole_of_place hbody)
    · exact law.whole_throw bound rfl
  · exact law.whole_throw bound rfl

end Law
end Eval
end DeltaCircuit
