import DeltaCircuit.Expr.Transform
import DeltaCircuit.Proofs.Expr.Parts
import DeltaCircuit.Proofs.Outcome

/-!
# Walks over expressions

A walk relates a node to the node that it gives, and the relation of two nodes is built from the
relation of their parts. This file says so without the monad of the walk.

* `Form.Lift` — two forms of one shape whose corresponding parts are related. Patterns and Z-set
  literals, which no walk enters, are the same in both.
* `Form.Lift.imp_of_walked`, `Form.Lift.walked`, `Form.Lift.of_walked` — a lifted relation is one of
  the walked parts.
* `Form.Lift.mem_parts` — it gives nothing but what the old form or the relation gives.
* `Assurance`, `Form.ensures_transformParts` — the parts of a walked form are the walked parts, in
  whatever monad the walk runs and whatever is said of its outcome.
* `Form.transformAll_walked` — the parts are walked from left to right.
* `Expr.transform_eq_ok` — a successful walk, taken apart into its hooks.
-/

namespace List

variable {α β : Type} {R S : α → β → Prop}

/-- A relation of lists is one of their items. -/
theorem Forall₂.imp_of_mem {as : List α} {bs : List β} (h : Forall₂ R as bs)
    (himp : ∀ a ∈ as, ∀ b, R a b → S a b) : Forall₂ S as bs := by
  have hmem : Forall₂ (fun a b => a ∈ as ∧ R a b) as bs := by
    rw [forall₂_and_left]
    exact ⟨fun a ha => ha, h⟩
  refine hmem.imp ?_
  rintro a b ⟨ha, hab⟩
  exact himp a ha b hab

end List

namespace DeltaCircuit

/-! ### Relations of forms -/

/-- Statements of one shape whose expressions are related. -/
inductive Statement.Lift (R : Expr → Expr → Prop) : Statement → Statement → Prop where
  | declare {name : String} {mutable : Bool} {type : Option Ty} :
    Lift R (.letBind name mutable type none) (.letBind name mutable type none)
  | letBind {name : String} {mutable : Bool} {type : Option Ty} {init init' : Expr} :
    R init init' →
    Lift R (.letBind name mutable type (some init)) (.letBind name mutable type (some init'))
  | eval {e e' : Expr} : R e e' → Lift R (.eval e) (.eval e')

/-- Arms of one pattern whose results are related. -/
inductive Arm.Lift (R : Expr → Expr → Prop) : Arm → Arm → Prop where
  | arm {pattern : Pattern} {result result' : Expr} :
    R result result' → Lift R ⟨pattern, result⟩ ⟨pattern, result'⟩

/-- Forms of one shape whose parts are related. -/
inductive Form.Lift (R : Expr → Expr → Prop) : Form → Form → Prop where
  | literal {value : Option Literal} : Lift R (.literal value) (.literal value)
  | var {name : String} : Lift R (.var name) (.var name)
  | path {segments : List String} : Lift R (.path segments) (.path segments)
  | zset {z : ZSetLiteral} : Lift R (.zset z) (.zset z)
  | field {base base' : Expr} {index : Nat} : R base base' →
    Lift R (.field base index) (.field base' index)
  | binary {op : BinaryOp} {left left' right right' : Expr} : R left left' → R right right' →
    Lift R (.binary op left right) (.binary op left' right')
  | unary {op : UnaryOp} {operand operand' : Expr} : R operand operand' →
    Lift R (.unary op operand) (.unary op operand')
  | cast {operand operand' : Expr} : R operand operand' → Lift R (.cast operand) (.cast operand')
  | apply {function function' : Expr} {args args' : List Expr} : R function function' →
    List.Forall₂ R args args' → Lift R (.apply function args) (.apply function' args')
  | closure {params : List Parameter} {body body' : Expr} : R body body' →
    Lift R (.closure params body) (.closure params body')
  | steps {statements statements' : List Statement} :
    List.Forall₂ (Statement.Lift R) statements statements' →
    Lift R (.block statements none) (.block statements' none)
  | block {statements statements' : List Statement} {last last' : Expr} :
    List.Forall₂ (Statement.Lift R) statements statements' → R last last' →
    Lift R (.block statements (some last)) (.block statements' (some last'))
  | when {condition condition' positive positive' : Expr} : R condition condition' →
    R positive positive' →
    Lift R (.ifElse condition positive none) (.ifElse condition' positive' none)
  | ifElse {condition condition' positive positive' negative negative' : Expr} :
    R condition condition' → R positive positive' → R negative negative' →
    Lift R (.ifElse condition positive (some negative))
      (.ifElse condition' positive' (some negative'))
  | matchOn {subject subject' : Expr} {arms arms' : List Arm} : R subject subject' →
    List.Forall₂ (Arm.Lift R) arms arms' → Lift R (.matchOn subject arms) (.matchOn subject' arms')
  | forLoop {pattern : Pattern} {iterated iterated' body body' : Expr} : R iterated iterated' →
    R body body' → Lift R (.forLoop pattern iterated body) (.forLoop pattern iterated' body')
  | assign {target target' value value' : Expr} : R target target' → R value value' →
    Lift R (.assign target value) (.assign target' value')
  | tuple {fields fields' : List Expr} : List.Forall₂ R fields fields' →
    Lift R (.tuple fields) (.tuple fields')
  | rawTuple {fields fields' : List Expr} : List.Forall₂ R fields fields' →
    Lift R (.rawTuple fields) (.rawTuple fields')
  | struct {fields fields' : List Expr} : List.Forall₂ R fields fields' →
    Lift R (.struct fields) (.struct fields')
  | qualify {operand operand' : Expr} {types : List Ty} : R operand operand' →
    Lift R (.qualify operand types) (.qualify operand' types)
  | borrow {operand operand' : Expr} {mutable : Bool} : R operand operand' →
    Lift R (.borrow operand mutable) (.borrow operand' mutable)
  | deref {operand operand' : Expr} : R operand operand' → Lift R (.deref operand) (.deref operand')

section

variable {R S T : Expr → Expr → Prop}

/-! ### What a lifted relation depends on -/

theorem Statement.Lift.imp_of_mem {statement statement' : Statement}
    (h : statement.Lift R statement') (himp : ∀ e ∈ statement.parts, ∀ e', R e e' → S e e') :
    statement.Lift S statement' := by
  cases h with
  | declare => exact .declare
  | letBind h => exact .letBind (himp _ (by simp [Statement.parts]) _ h)
  | eval h => exact .eval (himp _ (by simp [Statement.parts]) _ h)

theorem Arm.Lift.imp {arm arm' : Arm} (h : arm.Lift R arm')
    (himp : ∀ result', R arm.result result' → S arm.result result') : arm.Lift S arm' := by
  cases h with
  | arm h => exact .arm (himp _ h)

/-- **What a lifted relation depends on.** It may be weakened at the parts that a walk enters. -/
theorem Form.Lift.imp_of_walked {form form' : Form} (h : form.Lift R form')
    (himp : ∀ e ∈ form.walked, ∀ e', R e e' → S e e') : form.Lift S form' := by
  cases h with
  | literal => exact .literal
  | var => exact .var
  | path => exact .path
  | zset => exact .zset
  | field h => exact .field (himp _ (by simp [walked]) _ h)
  | binary hl hr =>
    exact .binary (himp _ (by simp [walked]) _ hl) (himp _ (by simp [walked]) _ hr)
  | unary h => exact .unary (himp _ (by simp [walked]) _ h)
  | cast h => exact .cast (himp _ (by simp [walked]) _ h)
  | apply hf has =>
    refine .apply (himp _ (by simp [walked]) _ hf) (has.imp_of_mem fun e he => himp e ?_)
    simp [walked, he]
  | closure h => exact .closure (himp _ (by simp [walked]) _ h)
  | steps hss =>
    refine .steps (hss.imp_of_mem fun s hs s' h => h.imp_of_mem fun e he => himp e ?_)
    simpa [walked] using ⟨s, hs, he⟩
  | block hss hl =>
    refine .block (hss.imp_of_mem fun s hs s' h => h.imp_of_mem fun e he => himp e ?_)
      (himp _ (by simp [walked]) _ hl)
    simpa [walked] using .inl ⟨s, hs, he⟩
  | when hc hp => exact .when (himp _ (by simp [walked]) _ hc) (himp _ (by simp [walked]) _ hp)
  | ifElse hc hp hn =>
    exact .ifElse (himp _ (by simp [walked]) _ hc) (himp _ (by simp [walked]) _ hp)
      (himp _ (by simp [walked]) _ hn)
  | matchOn hs has =>
    refine .matchOn (himp _ (by simp [walked]) _ hs)
      (has.imp_of_mem fun arm harm arm' h => h.imp fun result' => himp arm.result ?_ result')
    simpa [walked] using .inr ⟨arm, harm, rfl⟩
  | forLoop hi hb =>
    exact .forLoop (himp _ (by simp [walked]) _ hi) (himp _ (by simp [walked]) _ hb)
  | assign ht hv => exact .assign (himp _ (by simp [walked]) _ ht) (himp _ (by simp [walked]) _ hv)
  | tuple hs => exact .tuple (hs.imp_of_mem himp)
  | rawTuple hs => exact .rawTuple (hs.imp_of_mem himp)
  | struct hs => exact .struct (hs.imp_of_mem himp)
  | qualify h => exact .qualify (himp _ (by simp [walked]) _ h)
  | borrow h => exact .borrow (himp _ (by simp [walked]) _ h)
  | deref h => exact .deref (himp _ (by simp [walked]) _ h)

theorem Form.Lift.imp_of_mem {form form' : Form} (h : form.Lift R form')
    (himp : ∀ e ∈ form.parts, ∀ e', R e e' → S e e') : form.Lift S form' :=
  h.imp_of_walked fun e he => himp e (walked_subset_parts he)

/-! ### Where parts come from -/

theorem Statement.Lift.walked {statements statements' : List Statement}
    (h : List.Forall₂ (Statement.Lift R) statements statements') :
    List.Forall₂ R (statements.flatMap Statement.parts) (statements'.flatMap Statement.parts) := by
  refine List.rel_flatMap h fun statement statement' hlift => ?_
  cases hlift with
  | declare => exact .nil
  | letBind hinit => exact .cons hinit .nil
  | eval he => exact .cons he .nil

/-- The walked parts are related one by one. -/
theorem Form.Lift.walked {form form' : Form} (h : form.Lift R form') :
    List.Forall₂ R form.walked form'.walked := by
  cases h with
  | literal | var | path | zset => exact .nil
  | field h | unary h | cast h | closure h | qualify h | borrow h | deref h => exact .cons h .nil
  | binary hl hr | when hl hr | forLoop hl hr | assign hl hr => exact .cons hl (.cons hr .nil)
  | ifElse hc hp hn => exact .cons hc (.cons hp (.cons hn .nil))
  | apply hf has => exact .cons hf has
  | matchOn hs harms =>
    -- the results of arms are paired like the arms
    refine .cons hs (List.rel_map (fun arm arm' harm => ?_) harms)
    cases harm with
    | arm hresult => exact hresult
  | steps hss => exact List.rel_append (Statement.Lift.walked hss) .nil
  | block hss hl => exact List.rel_append (Statement.Lift.walked hss) (.cons hl .nil)
  | tuple hs | rawTuple hs | struct hs => exact hs

/-- Statements of one shape are related if the expressions in them are. -/
theorem Statement.Lift.of_parts {statements left right : List Statement}
    {restLeft restRight : List Expr} (hleft : List.Forall₂ (Statement.Lift S) statements left)
    (hright : List.Forall₂ (Statement.Lift T) statements right)
    (h : List.Forall₂ R (left.flatMap Statement.parts ++ restLeft)
      (right.flatMap Statement.parts ++ restRight)) :
    List.Forall₂ (Statement.Lift R) left right ∧ List.Forall₂ R restLeft restRight := by
  induction hleft generalizing right with
  | nil =>
    cases hright
    exact ⟨.nil, h⟩
  | cons hfirst _ ih =>
    obtain _ | ⟨hfirst', hright⟩ := hright
    cases hfirst with
    | declare =>
      -- a declaration takes no expression from the lists
      cases hfirst'
      obtain ⟨hrest, hlast⟩ := ih hright h
      exact ⟨.cons .declare hrest, hlast⟩
    | letBind =>
      cases hfirst'
      -- the first expressions of both lists belong to this statement
      obtain _ | ⟨hinit, h⟩ := h
      obtain ⟨hrest, hlast⟩ := ih hright h
      exact ⟨.cons (.letBind hinit) hrest, hlast⟩
    | eval =>
      cases hfirst'
      obtain _ | ⟨he, h⟩ := h
      obtain ⟨hrest, hlast⟩ := ih hright h
      exact ⟨.cons (.eval he) hrest, hlast⟩

theorem Arm.Lift.of_results {arms left right : List Arm}
    (hleft : List.Forall₂ (Arm.Lift S) arms left) (hright : List.Forall₂ (Arm.Lift T) arms right)
    (h : List.Forall₂ R (left.map Arm.result) (right.map Arm.result)) :
    List.Forall₂ (Arm.Lift R) left right := by
  induction hleft generalizing right with
  | nil =>
    cases hright
    exact .nil
  | cons hfirst _ ih =>
    obtain _ | ⟨hfirst', hright⟩ := hright
    cases hfirst
    cases hfirst'
    obtain _ | ⟨hresult, h⟩ := h
    exact .cons (.arm hresult) (ih hright h)

/-- **Two walks of one form.** What two walks make of a form is related if the walked parts are. -/
theorem Form.Lift.of_walked {form left right : Form} (hleft : form.Lift S left)
    (hright : form.Lift T right) (h : List.Forall₂ R left.walked right.walked) :
    left.Lift R right := by
  cases hleft with
  | literal | var | path | zset =>
    -- there is nothing to walk, so both walks have kept the form
    cases hright
    constructor
  | field | unary | cast | closure | qualify | borrow | deref =>
    cases hright
    obtain _ | ⟨hpart, -⟩ := h
    constructor
    exact hpart
  | binary | when | forLoop | assign =>
    cases hright
    obtain _ | ⟨hfirst, _ | ⟨hsecond, -⟩⟩ := h
    constructor
    · exact hfirst
    · exact hsecond
  | ifElse =>
    cases hright
    obtain _ | ⟨hc, _ | ⟨hp, _ | ⟨hn, -⟩⟩⟩ := h
    exact .ifElse hc hp hn
  | tuple | rawTuple | struct =>
    cases hright
    constructor
    exact h
  | apply =>
    cases hright
    obtain _ | ⟨hf, has⟩ := h
    exact .apply hf has
  -- the results of arms and the expressions in statements stand in one list
  | matchOn _ harms =>
    cases hright with
    | matchOn _ harms' =>
      obtain _ | ⟨hs, hresults⟩ := h
      exact .matchOn hs (Arm.Lift.of_results harms harms' hresults)
  | steps hss =>
    cases hright with
    | steps hss' => exact .steps (Statement.Lift.of_parts hss hss' h).1
  | block hss =>
    cases hright with
    | block hss' =>
      obtain ⟨hss, hlast⟩ := Statement.Lift.of_parts hss hss' h
      obtain _ | ⟨hl, -⟩ := hlast
      exact .block hss hl

theorem Statement.Lift.eq_of_eq {statement statement' : Statement}
    (h : statement.Lift Eq statement') : statement = statement' := by
  cases h with
  | declare => rfl
  | letBind hinit => rw [hinit]
  | eval he => rw [he]

theorem Arm.Lift.eq_of_eq {arm arm' : Arm} (h : arm.Lift Eq arm') : arm = arm' := by
  cases h with
  | arm hresult => rw [hresult]

/-- Forms of one shape with the same parts are the same. -/
theorem Form.Lift.eq_of_eq {form form' : Form} (h : form.Lift Eq form') : form = form' := by
  cases h with
  | literal | var | path | zset => rfl
  | field h | unary h | cast h | closure h | qualify h | borrow h | deref h => rw [h]
  | binary hl hr | when hl hr | forLoop hl hr | assign hl hr => rw [hl, hr]
  | ifElse hc hp hn => rw [hc, hp, hn]
  | apply hf has =>
    rw [List.forall₂_eq_eq_eq] at has
    rw [hf, has]
  | tuple hs | rawTuple hs | struct hs =>
    rw [List.forall₂_eq_eq_eq] at hs
    rw [hs]
  -- statements and arms of the same parts are the same first
  | matchOn hs harms =>
    have harms := harms.imp fun _ _ => Arm.Lift.eq_of_eq
    rw [List.forall₂_eq_eq_eq] at harms
    rw [hs, harms]
  | steps hss =>
    have hss := hss.imp fun _ _ => Statement.Lift.eq_of_eq
    rw [List.forall₂_eq_eq_eq] at hss
    rw [hss]
  | block hss hl =>
    have hss := hss.imp fun _ _ => Statement.Lift.eq_of_eq
    rw [List.forall₂_eq_eq_eq] at hss
    rw [hl, hss]

theorem Form.Lift.skipped_eq {form form' : Form} (h : form.Lift R form') :
    form'.skipped = form.skipped := by
  cases h with
  | @matchOn _ _ arms arms' _ harms =>
    show arms'.flatMap (fun arm => arm.pattern.constants) =
      arms.flatMap fun arm => arm.pattern.constants
    -- the arms have their old patterns
    induction harms with
    | nil => rfl
    | cons harm _ ih =>
      cases harm
      rw [List.flatMap_cons, List.flatMap_cons, ih]
  | _ => rfl

/-- **No new parts.** A part of the second form is one of the first, where the walk does not go, or
related to one. -/
theorem Form.Lift.mem_parts {form form' : Form} (h : form.Lift R form') {e' : Expr}
    (he' : e' ∈ form'.parts) : e' ∈ form.parts ∨ ∃ e ∈ form.parts, R e e' := by
  -- what is skipped is as before, and what is walked is paired
  rcases mem_parts_iff.mp he' with hskipped | hwalked
  · rw [h.skipped_eq] at hskipped
    exact .inl (mem_parts_iff.mpr (.inl hskipped))
  · obtain ⟨e, he, hR⟩ := h.walked.exists_of_mem_right hwalked
    exact .inr ⟨e, walked_subset_parts he, hR⟩

end

/-! ### Walks of parts -/

/-- A way of saying what a computation gives. It holds of what is given outright, and it goes through
sequences. -/
structure Assurance (m : Type → Type) [Monad m] where
  Ensures {α : Type} : m α → (α → Prop) → Prop
  pure {α : Type} {P : α → Prop} {a : α} : P a → Ensures (pure a) P
  bind {α β : Type} {x : m α} {f : α → m β} {P : α → Prop} {Q : β → Prop} :
    Ensures x P → (∀ a, P a → Ensures (f a) Q) → Ensures (x >>= f) Q

section

variable {m : Type → Type} [Monad m] [MonadLiftT (Except TermError) m] {r : Transformer m}
  {R : Expr → Expr → Prop} (g : Assurance m)

theorem Expr.ensures_transformAll :
    ∀ {es : List Expr}, (∀ e ∈ es, g.Ensures (e.transform r) (R e)) →
      g.Ensures (Expr.transformAll r es) (List.Forall₂ R es)
  | [], _ => by
    rw [Expr.transformAll]
    exact g.pure .nil
  | e :: es, h => by
    have hrest := ensures_transformAll fun e he => h e (List.mem_cons_of_mem _ he)
    rw [Expr.transformAll]
    exact g.bind (h e List.mem_cons_self) fun e' he =>
      g.bind hrest fun es' hes => g.pure (.cons he hes)

theorem Statement.ensures_transformAll :
    ∀ {statements : List Statement},
      (∀ e ∈ statements.flatMap Statement.parts, g.Ensures (e.transform r) (R e)) →
      g.Ensures (Statement.transformAll r statements)
        (List.Forall₂ (Statement.Lift R) statements)
  | [], _ => by
    rw [Statement.transformAll]
    exact g.pure .nil
  | statement :: statements, h => by
    have hfirst : ∀ e ∈ statement.parts, g.Ensures (e.transform r) (R e) := fun e he =>
      h e (List.mem_append_left _ he)
    have hrest := ensures_transformAll fun e he => h e (List.mem_append_right _ he)
    -- a declaration has nothing to walk
    rcases statement with ⟨name, mutable, type, - | init⟩ | e
    · rw [Statement.transformAll]
      exact g.bind hrest fun _ hss => g.pure (.cons .declare hss)
    · rw [Statement.transformAll]
      exact g.bind (hfirst init (by simp [Statement.parts])) fun _ hinit =>
        g.bind hrest fun _ hss => g.pure (.cons (.letBind hinit) hss)
    · rw [Statement.transformAll]
      exact g.bind (hfirst e (by simp [Statement.parts])) fun _ he =>
        g.bind hrest fun _ hss => g.pure (.cons (.eval he) hss)

theorem Arm.ensures_transformAll :
    ∀ {arms : List Arm}, (∀ e ∈ arms.map Arm.result, g.Ensures (e.transform r) (R e)) →
      g.Ensures (Arm.transformAll r arms) (List.Forall₂ (Arm.Lift R) arms)
  | [], _ => by
    rw [Arm.transformAll]
    exact g.pure .nil
  | ⟨pattern, result⟩ :: arms, h => by
    have hrest := ensures_transformAll fun e he => h e (List.mem_cons_of_mem _ he)
    rw [Arm.transformAll]
    exact g.bind (h result List.mem_cons_self) fun _ hresult =>
      g.bind hrest fun _ harms => g.pure (.cons (.arm hresult) harms)

/-- **Parts of a walk.** The parts of a walked form are the walked parts. -/
theorem Form.ensures_transformParts {form : Form}
    (h : ∀ e ∈ form.walked, g.Ensures (e.transform r) (R e)) :
    g.Ensures (form.transformParts r) (form.Lift R) := by
  -- most forms are made of one or two walked parts and of data that stays
  have one {operand : Expr} {f : Expr → Form} (hmem : operand ∈ form.walked)
      (hf : ∀ operand', R operand operand' → form.Lift R (f operand')) :
      g.Ensures (do return f (← operand.transform r)) (form.Lift R) :=
    g.bind (h operand hmem) fun operand' hoperand => g.pure (hf operand' hoperand)
  have two {left right : Expr} {f : Expr → Expr → Form} (hleft : left ∈ form.walked)
      (hright : right ∈ form.walked)
      (hf : ∀ left' right', R left left' → R right right' → form.Lift R (f left' right')) :
      g.Ensures (do
        let left' ← left.transform r
        let right' ← right.transform r
        return f left' right') (form.Lift R) :=
    g.bind (h left hleft) fun left' hl => one hright fun right' hr => hf left' right' hl hr
  cases form with
  | literal value => exact g.pure .literal
  | var name => exact g.pure .var
  | path segments => exact g.pure .path
  | zset z => exact g.pure .zset
  | field base index => exact one (by simp [walked]) fun _ => .field
  | unary op operand => exact one (by simp [walked]) fun _ => .unary
  | cast operand => exact one (by simp [walked]) fun _ => .cast
  | closure params body => exact one (by simp [walked]) fun _ => .closure
  | qualify operand types => exact one (by simp [walked]) fun _ => .qualify
  | borrow operand mutable => exact one (by simp [walked]) fun _ => .borrow
  | deref operand => exact one (by simp [walked]) fun _ => .deref
  | binary op left right =>
    exact two (by simp [walked]) (by simp [walked]) fun _ _ => .binary
  | forLoop pattern iterated body =>
    exact two (by simp [walked]) (by simp [walked]) fun _ _ => .forLoop
  | assign target value =>
    exact two (by simp [walked]) (by simp [walked]) fun _ _ => .assign
  | apply function args =>
    have hargs := Expr.ensures_transformAll g fun e he => h e (List.mem_cons_of_mem function he)
    exact g.bind (h function List.mem_cons_self) fun _ hfunction =>
      g.bind hargs fun _ hargs => g.pure (.apply hfunction hargs)
  | matchOn subject arms =>
    have harms := Arm.ensures_transformAll g fun e he => h e (List.mem_cons_of_mem subject he)
    exact g.bind (h subject List.mem_cons_self) fun _ hsubject =>
      g.bind harms fun _ harms => g.pure (.matchOn hsubject harms)
  -- an absent last expression or alternative stays absent
  | block statements last =>
    have hstatements := Statement.ensures_transformAll g fun e he =>
      h e (List.mem_append_left _ he)
    cases last with
    | none => exact g.bind hstatements fun _ hss => g.pure (.steps hss)
    | some last =>
      exact g.bind hstatements fun _ hss => one (by simp [walked]) fun _ => .block hss
  | ifElse condition positive negative =>
    cases negative with
    | none => exact two (by simp [walked]) (by simp [walked]) fun _ _ => .when
    | some negative =>
      exact g.bind (h condition List.mem_cons_self) fun _ hc =>
        two (by simp [walked]) (by simp [walked]) fun _ _ => .ifElse hc
  | tuple fields =>
    exact g.bind (Expr.ensures_transformAll g h) fun _ hfields => g.pure (.tuple hfields)
  | rawTuple fields =>
    exact g.bind (Expr.ensures_transformAll g h) fun _ hfields => g.pure (.rawTuple hfields)
  | struct fields =>
    exact g.bind (Expr.ensures_transformAll g h) fun _ hfields => g.pure (.struct hfields)

end

/-! ### The order of a walk -/

section

variable {m : Type → Type} [Monad m] [LawfulMonad m] [MonadLiftT (Except TermError) m]
  {r : Transformer m}

theorem Expr.transformAll_append (as bs : List Expr) :
    Expr.transformAll r (as ++ bs) = do
      let as' ← Expr.transformAll r as
      let bs' ← Expr.transformAll r bs
      return as' ++ bs' := by
  induction as with
  | nil => simp [Expr.transformAll]
  | cons a as ih => simp [Expr.transformAll, ih]

theorem Statement.transformAll_parts (statements : List Statement) :
    Expr.transformAll r (statements.flatMap Statement.parts) =
      List.flatMap Statement.parts <$> Statement.transformAll r statements := by
  induction statements with
  | nil => simp [Expr.transformAll, Statement.transformAll]
  | cons statement statements ih =>
    -- a declaration adds no expression, a binding or an evaluation one
    rcases statement with ⟨name, mutable, type, - | init⟩ | e
    · simp [Statement.transformAll, Statement.parts, ih]
    · simp [Statement.transformAll, Expr.transformAll, Statement.parts, ih]
    · simp [Statement.transformAll, Expr.transformAll, Statement.parts, ih]

theorem Arm.transformAll_results (arms : List Arm) :
    Expr.transformAll r (arms.map Arm.result) =
      List.map Arm.result <$> Arm.transformAll r arms := by
  induction arms with
  | nil => simp [Expr.transformAll, Arm.transformAll]
  | cons arm arms ih =>
    obtain ⟨pattern, result⟩ := arm
    simp [Arm.transformAll, Expr.transformAll, ih]

/-- **The order of a walk.** The parts of a form are walked from left to right. -/
theorem Form.transformAll_walked (form : Form) :
    Expr.transformAll r form.walked = walked <$> form.transformParts r := by
  cases form with
  | block statements last =>
    cases last <;>
      simp [walked, Form.transformParts, Expr.transformAll_append, Statement.transformAll_parts,
        Expr.transformAll]
  | ifElse condition positive negative =>
    cases negative <;> simp [walked, Form.transformParts, Expr.transformAll]
  | matchOn subject arms =>
    simp [walked, Form.transformParts, Expr.transformAll, Arm.transformAll_results]
  | _ => simp [walked, Form.transformParts, Expr.transformAll]

end

/-! ### Walks -/

section

variable {r : Transformer (Except TermError)} {e e' : Expr}

/-- What a computation gives if it succeeds. -/
def Assurance.partly : Assurance (Except TermError) where
  Ensures x P := x.Ensures P
  pure := Except.ensures_pure
  bind := Except.Ensures.bind

/-- That a computation succeeds, and what it gives. -/
def Assurance.fully : Assurance (Except TermError) where
  Ensures x P := ∃ a, x = .ok a ∧ P a
  pure h := ⟨_, rfl, h⟩
  bind := by
    rintro _ _ _ _ _ _ ⟨a, rfl, ha⟩ hf
    exact hf a ha

theorem Form.lift_of_transformParts {form form' : Form} (h : form.transformParts r = .ok form') :
    form.Lift (fun e e' => e.transform r = .ok e') form' := by
  -- of each part it is known what its walk gives
  have hparts : Assurance.partly.Ensures (form.transformParts r)
      (form.Lift fun e e' => e.transform r = .ok e') :=
    ensures_transformParts Assurance.partly fun _ _ _ he => he
  exact hparts form' h

/-- The parts of a form can be walked together if each of them can. -/
theorem Form.exists_transformParts {form : Form}
    (h : ∀ e ∈ form.walked, ∃ e', e.transform r = .ok e') :
    ∃ form', form.transformParts r = .ok form' := by
  -- a walk of the whole form that succeeds is all that is asked for
  have hparts : Assurance.fully.Ensures (form.transformParts r) (form.Lift fun _ _ => True) :=
    ensures_transformParts Assurance.fully fun e he => by
      obtain ⟨e', he'⟩ := h e he
      exact ⟨e', he', trivial⟩
  obtain ⟨form', hform', -⟩ := hparts
  exact ⟨form', hform'⟩

/-- A walk that keeps every part of a form keeps the form. -/
theorem Form.transformParts_of_kept {form : Form}
    (h : ∀ e ∈ form.walked, e.transform r = .ok e) : form.transformParts r = .ok form := by
  have hparts : Assurance.fully.Ensures (form.transformParts r) (form.Lift Eq) :=
    ensures_transformParts Assurance.fully fun e he => ⟨e, h e he, rfl⟩
  obtain ⟨form', hform', hlift⟩ := hparts
  rw [hform', ← hlift.eq_of_eq]

/-- **A walk, taken apart.** Either the first hook replaces the node, or the parts are walked and
the second hook gets the node with the new parts. -/
theorem Expr.transform_eq_ok :
    e.transform r = .ok e' ↔
      r.before e = .ok (some e') ∨
        (r.before e = .ok none ∧ ∃ form rebuilt, e.form.transformParts r = .ok form ∧
          e.withForm form = .ok rebuilt ∧ r.after e rebuilt = .ok e') := by
  obtain ⟨tag, type, form⟩ := e
  rw [Expr.transform, Except.bind_eq_ok]
  constructor
  · -- the first hook decides whether the parts are walked
    rintro ⟨replacement, hbefore, h⟩
    cases replacement with
    | some replacement =>
      obtain rfl : replacement = e' := by simpa using h
      exact .inl hbefore
    | none =>
      simp only [Except.bind_eq_ok] at h
      obtain ⟨form', hparts, rebuilt, hrebuilt, hafter⟩ := h
      exact .inr ⟨hbefore, form', rebuilt, hparts, hrebuilt, hafter⟩
  · rintro (hbefore | ⟨hbefore, form', rebuilt, hparts, hrebuilt, hafter⟩)
    · exact ⟨_, hbefore, rfl⟩
    · refine ⟨_, hbefore, ?_⟩
      simp only [Except.bind_eq_ok]
      exact ⟨form', hparts, rebuilt, hrebuilt, hafter⟩

end

end DeltaCircuit
