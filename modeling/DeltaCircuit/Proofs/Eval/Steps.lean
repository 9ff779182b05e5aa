import DeltaCircuit.Eval.Interpreter
import DeltaCircuit.Proofs.Outcome

/-!
# Steps of evaluations

An evaluation takes variables to a result and variables. This file takes a successful evaluation
apart into its steps, so that no proof opens the monad, and says of each step what it may change.

* `Eval.gives_then`, `Eval.gives_inScope` — the steps that are no steps of every computation.
* `Expr.gives_binary`, `Expr.gives_evalAll`, … — nodes, by what their parts give.
* `Statement.gives_runAll_binding`, `Statement.gives_runAll_eval` — statements, one after another.
* `Eval.Keeps` — an evaluation that changes no variable.
* `Eval.Frames` — an evaluation that changes at most the innermost scope, which is what a pattern
  or a statement does; in a scope of its own it changes nothing.
* `Eval.Refines` — an evaluation that gives whatever another one gives.
-/

namespace DeltaCircuit

namespace Eval

open ExceptT (bind_run_ok bind_run_error gives_iff gives_bind gives_pure gives_throw)

variable {α β : Type} {x y : Eval α} {f g : α → Eval β} {s s' : Scopes} {a : α} {b : β}

/-! ### Runs of composites -/

theorem inScope_run {result : Except EvalError α} {t : Scopes}
    (h : x ([] :: s) = (result, t)) : inScope x s = (result, t.tail) := by
  unfold inScope
  rw [h]

/-! ### Successful steps -/

theorem gives_ofExcept {result : Except EvalError α} :
    (ofExcept result).Gives s a s' ↔ result = .ok a ∧ s = s' := gives_iff rfl

/-- An operation on what an evaluation gives, whether it gives something or not. -/
theorem run_then {op : α → Except EvalError β} {result : Except EvalError α}
    (h : x s = (result, s')) : (x >>= fun a => ofExcept (op a)) s = (result >>= op, s') := by
  cases result with
  | error e => exact ExceptT.bind_run_error h
  | ok a => exact ExceptT.bind_run_ok h

/-- A step that is followed by an operation on its result. -/
theorem gives_then {op : α → Except EvalError β} :
    (x >>= fun a => ofExcept (op a)).Gives s b s' ↔ ∃ a, x.Gives s a s' ∧ op a = .ok b := by
  rw [gives_bind]
  constructor
  · rintro ⟨a, t, ha, h⟩
    obtain ⟨hb, rfl⟩ := gives_ofExcept.mp h
    exact ⟨a, ha, hb⟩
  · rintro ⟨a, ha, hb⟩
    exact ⟨a, s', ha, gives_ofExcept.mpr ⟨hb, rfl⟩⟩

theorem gives_lookup {name : String} {v : Value} :
    (lookup name).Gives s v s' ↔ s.find? name = some v ∧ s = s' := by
  cases hfind : s.find? name with
  | none =>
    have hrun : lookup name s = (.error (.unbound name), s) := by
      unfold lookup
      rw [hfind]
    simp [gives_iff hrun]
  | some found =>
    have hrun : lookup name s = (.ok found, s) := by
      unfold lookup
      rw [hfind]
    rw [gives_iff hrun, Except.ok.injEq, Option.some.injEq]

theorem gives_bindName {name : String} {v : Value} {u : Unit} :
    (Eval.bind name v).Gives s u s' ↔ s.bind name v = s' := by
  have hrun : Eval.bind name v s = (.ok (), s.bind name v) := rfl
  rw [gives_iff hrun]
  exact and_iff_right rfl

theorem gives_assign {target : Expr} {v : Value} {u : Unit} :
    (Eval.assign target v).Gives s u s' ↔ s.assign target v = .ok s' := by
  cases hassign : s.assign target v with
  | error e =>
    have hrun : Eval.assign target v s = (.error e, s) := by
      unfold Eval.assign
      rw [hassign]
    simp [gives_iff hrun]
  | ok t =>
    have hrun : Eval.assign target v s = (.ok (), t) := by
      unfold Eval.assign
      rw [hassign]
    simp [gives_iff hrun]

/-- An evaluation in a scope of its own starts in an empty one, which is dropped at the end. -/
theorem gives_inScope : (inScope x).Gives s a s' ↔ ∃ t, x.Gives ([] :: s) a t ∧ t.tail = s' := by
  obtain ⟨result, t, hx⟩ : ∃ result t, x ([] :: s) = (result, t) := ⟨_, _, rfl⟩
  rw [gives_iff (inScope_run hx)]
  simp [gives_iff hx, and_assoc]

/-! ### What an evaluation changes -/

/-- An evaluation that changes no variable, whether it succeeds or not. -/
def Keeps (x : Eval α) : Prop := ∀ s, (x s).2 = s

/-- An evaluation that changes at most the innermost scope. -/
def Frames (x : Eval α) : Prop := ∀ s, (x s).2.tail = s.tail

theorem Keeps.frames (h : x.Keeps) : x.Frames := fun s => by rw [h s]

theorem Keeps.eq_of_gives (h : x.Keeps) (hx : x.Gives s a s') : s' = s := by
  rw [← h s]
  unfold ExceptT.Gives at hx
  rw [hx]

theorem keeps_pure : (pure a : Eval α).Keeps := fun _ => rfl

theorem keeps_throw {e : EvalError} : (throw e : Eval α).Keeps := fun _ => rfl

theorem keeps_ofExcept {result : Except EvalError α} : (ofExcept result).Keeps := fun _ => rfl

theorem keeps_lookup {name : String} : (lookup name).Keeps := by
  intro s
  unfold lookup
  split <;> rfl

theorem Keeps.bind (hx : x.Keeps) (hf : ∀ a, (f a).Keeps) : (x >>= f).Keeps := by
  intro s
  obtain ⟨result, t, hrun⟩ : ∃ result t, x s = (result, t) := ⟨_, _, rfl⟩
  -- the first step changes nothing, so the second one starts where the whole does
  obtain rfl : t = s := by rw [← hx s, hrun]
  cases result with
  | error e => rw [bind_run_error hrun]
  | ok a => rw [bind_run_ok hrun, hf a]

theorem Frames.bind (hx : x.Frames) (hf : ∀ a, (f a).Frames) : (x >>= f).Frames := by
  intro s
  obtain ⟨result, t, hrun⟩ : ∃ result t, x s = (result, t) := ⟨_, _, rfl⟩
  have ht : t.tail = s.tail := by rw [← hx s, hrun]
  cases result with
  | error e => rw [bind_run_error hrun, ht]
  | ok a => rw [bind_run_ok hrun, hf a, ht]

theorem frames_bind {name : String} {value : Value} : (Eval.bind name value).Frames := by
  intro s
  cases s with
  | nil => rfl
  | cons scope outer => rfl

/-- **Scopes close.** What changes only the innermost scope changes nothing from inside a scope of
its own. -/
theorem Frames.inScope (h : x.Frames) : (Eval.inScope x).Keeps := by
  intro s
  obtain ⟨result, t, hrun⟩ : ∃ result t, x ([] :: s) = (result, t) := ⟨_, _, rfl⟩
  have ht := h ([] :: s)
  rw [hrun] at ht
  rw [inScope_run hrun]
  exact ht

/-! ### Refinement -/

/-- **Refinement.** Whenever the first evaluation succeeds, the second one does, with the same
value and the same variables. -/
def Refines (x y : Eval α) : Prop := ∀ s a s', x.Gives s a s' → y.Gives s a s'

theorem Refines.refl : x.Refines x := fun _ _ _ h => h

theorem Refines.trans {z : Eval α} (hxy : x.Refines y) (hyz : y.Refines z) : x.Refines z :=
  fun s a s' h => hyz s a s' (hxy s a s' h)

theorem Refines.bind (hxy : x.Refines y) (hfg : ∀ a, (f a).Refines (g a)) :
    (x >>= f).Refines (y >>= g) := by
  intro s b s' h
  obtain ⟨a, t, hx, hf⟩ := gives_bind.mp h
  exact gives_bind.mpr ⟨a, t, hxy s a t hx, hfg a t b s' hf⟩

theorem Refines.map {h : α → β} (hxy : x.Refines y) : (h <$> x).Refines (h <$> y) := by
  rw [← bind_pure_comp, ← bind_pure_comp]
  exact hxy.bind fun _ => .refl

theorem Refines.inScope (hxy : x.Refines y) : (inScope x).Refines (inScope y) := by
  intro s a s' h
  obtain ⟨t, hx, ht⟩ := gives_inScope.mp h
  exact gives_inScope.mpr ⟨t, hxy _ a t hx, ht⟩

theorem Refines.forEach {action action' : Value → Eval Unit}
    (h : ∀ item, (action item).Refines (action' item)) :
    ∀ items, (forEach action items).Refines (forEach action' items)
  | [] => .refl
  | item :: items => (h item).bind fun _ => Refines.forEach h items

theorem Refines.throw {e : EvalError} : (throw e : Eval α).Refines x :=
  fun _ _ _ h => (gives_throw.mp h).elim

end Eval

/-! ### Nodes -/

namespace Expr

open ExceptT (gives_bind gives_pure)

variable {tag : Tag} {type : Option Ty} {s s' : Scopes} {v : Value}

theorem gives_var {name : String} :
    (eval ⟨tag, type, .var name⟩).Gives s v s' ↔ s.find? name = some v ∧ s = s' :=
  Eval.gives_lookup

theorem gives_field {base : Expr} {index : Nat} :
    (eval ⟨tag, type, .field base index⟩).Gives s v s' ↔
      ∃ u, base.eval.Gives s u s' ∧ u.field index = .ok v := by
  rw [Expr.eval]
  exact Eval.gives_then

theorem gives_cast {operand : Expr} {target : Ty} :
    (eval ⟨tag, some target, .cast operand⟩).Gives s v s' ↔
      ∃ u, operand.eval.Gives s u s' ∧ u.convert target = .ok v := by
  rw [Expr.eval]
  exact Eval.gives_then

theorem gives_unary {op : UnaryOp} {operand : Expr} :
    (eval ⟨tag, type, .unary op operand⟩).Gives s v s' ↔
      ∃ u, operand.eval.Gives s u s' ∧ Value.unary op u = .ok v := by
  rw [Expr.eval]
  exact Eval.gives_then

theorem gives_binary {op : BinaryOp} {left right : Expr} :
    (eval ⟨tag, type, .binary op left right⟩).Gives s v s' ↔
      ∃ l t r, left.eval.Gives s l t ∧ right.eval.Gives t r s' ∧ Value.binary op l r = .ok v := by
  rw [Expr.eval, gives_bind]
  constructor
  · rintro ⟨l, t, hl, h⟩
    obtain ⟨r, hr, hv⟩ := Eval.gives_then.mp h
    exact ⟨l, t, r, hl, hr, hv⟩
  · rintro ⟨l, t, r, hl, hr, hv⟩
    exact ⟨l, t, hl, Eval.gives_then.mpr ⟨r, hr, hv⟩⟩

/-- An assignment evaluates its value before it looks for its target. -/
theorem gives_assign {target value : Expr} :
    (eval ⟨tag, type, .assign target value⟩).Gives s v s' ↔
      v = .unit ∧ ∃ u t, value.eval.Gives s u t ∧ t.assign target u = .ok s' := by
  rw [Expr.eval, gives_bind]
  constructor
  · rintro ⟨u, t, hu, h⟩
    obtain ⟨⟨⟩, t', hassign, h⟩ := gives_bind.mp h
    obtain ⟨rfl, rfl⟩ := gives_pure.mp h
    exact ⟨rfl, u, t, hu, Eval.gives_assign.mp hassign⟩
  · rintro ⟨rfl, u, t, hu, hassign⟩
    exact ⟨u, t, hu, gives_bind.mpr
      ⟨(), s', Eval.gives_assign.mpr hassign, gives_pure.mpr ⟨rfl, rfl⟩⟩⟩

/-- A block runs its statements and gives its last expression in one scope. -/
theorem gives_block {statements : List Statement} {last : Expr} :
    (eval ⟨tag, type, .block statements (some last)⟩).Gives s v s' ↔
      ∃ t t', (Statement.runAll statements).Gives ([] :: s) () t ∧ last.eval.Gives t v t' ∧
        t'.tail = s' := by
  rw [Expr.eval, Eval.gives_inScope]
  constructor
  · rintro ⟨t', h, htail⟩
    obtain ⟨⟨⟩, t, hstatements, hlast⟩ := gives_bind.mp h
    exact ⟨t, t', hstatements, hlast, htail⟩
  · rintro ⟨t, t', hstatements, hlast, htail⟩
    exact ⟨t', gives_bind.mpr ⟨(), t, hstatements, hlast⟩, htail⟩

/-- A block without a last expression is run for its effect. -/
theorem gives_effect {statements : List Statement} :
    (eval ⟨tag, type, .block statements none⟩).Gives s v s' ↔
      v = .unit ∧ ∃ t, (Statement.runAll statements).Gives ([] :: s) () t ∧ t.tail = s' := by
  rw [Expr.eval, Eval.gives_inScope]
  constructor
  · rintro ⟨t, h, htail⟩
    obtain ⟨⟨⟩, t', hstatements, h⟩ := gives_bind.mp h
    obtain ⟨rfl, rfl⟩ := gives_pure.mp h
    exact ⟨rfl, t', hstatements, htail⟩
  · rintro ⟨rfl, t, hstatements, htail⟩
    exact ⟨t, gives_bind.mpr ⟨(), t, hstatements, gives_pure.mpr ⟨rfl, rfl⟩⟩, htail⟩

/-- Expressions that change no variable give their values independently of one another. -/
theorem gives_evalAll {es : List Expr} (hkeeps : ∀ e ∈ es, e.eval.Keeps) {values : List Value} :
    (evalAll es).Gives s values s' ↔
      List.Forall₂ (fun e v => e.eval.Gives s v s) es values ∧ s = s' := by
  induction es generalizing values with
  | nil =>
    rw [evalAll, gives_pure]
    constructor
    · rintro ⟨rfl, rfl⟩
      exact ⟨.nil, rfl⟩
    · rintro ⟨⟨⟩, rfl⟩
      exact ⟨rfl, rfl⟩
  | cons e es ih =>
    have ih := @ih fun e he => hkeeps e (List.mem_cons_of_mem _ he)
    rw [evalAll, gives_bind]
    constructor
    · rintro ⟨v, t, hv, h⟩
      -- the first expression has changed nothing, so the others are run on the same variables
      obtain rfl := (hkeeps e List.mem_cons_self).eq_of_gives hv
      obtain ⟨rest, u, hrest, h⟩ := gives_bind.mp h
      obtain ⟨rfl, rfl⟩ := gives_pure.mp h
      obtain ⟨hvalues, rfl⟩ := ih.mp hrest
      exact ⟨.cons hv hvalues, rfl⟩
    · rintro ⟨h, rfl⟩
      cases h with
      | cons hv hrest =>
        exact ⟨_, s, hv, gives_bind.mpr ⟨_, s, ih.mpr ⟨hrest, rfl⟩, gives_pure.mpr ⟨rfl, rfl⟩⟩⟩

end Expr

/-! ### Statements -/

namespace Statement

open ExceptT (gives_bind gives_pure gives_discard)

variable {statements : List Statement} {s s' : Scopes} {name : String} {mutable : Bool}
  {type : Option Ty} {e : Expr}

/-- A declaration binds its name to the initial value. -/
theorem gives_runAll_binding :
    (runAll (.letBind name mutable type (some e) :: statements)).Gives s () s' ↔
      ∃ v t, e.eval.Gives s v t ∧ (runAll statements).Gives (t.bind name v) () s' := by
  rw [runAll, gives_bind]
  refine exists_congr fun v => exists_congr fun t => and_congr_right fun _ => ?_
  rw [gives_bind]
  constructor
  · rintro ⟨⟨⟩, t', hbind, h⟩
    exact Eval.gives_bindName.mp hbind ▸ h
  · exact fun h => ⟨(), _, Eval.gives_bindName.mpr rfl, h⟩

/-- An expression as a statement is run for its effect. -/
theorem gives_runAll_eval :
    (runAll (.eval e :: statements)).Gives s () s' ↔
      ∃ v t, e.eval.Gives s v t ∧ (runAll statements).Gives t () s' := by
  rw [runAll, gives_bind]
  constructor
  · rintro ⟨⟨⟩, t, he, h⟩
    obtain ⟨v, hv⟩ := gives_discard.mp he
    exact ⟨v, t, hv, h⟩
  · rintro ⟨v, t, hv, h⟩
    exact ⟨(), t, gives_discard.mpr ⟨v, hv⟩, h⟩

theorem gives_runAll_nil : (runAll []).Gives s () s' ↔ s = s' := by
  rw [runAll, gives_pure]
  exact and_iff_right rfl

end Statement

end DeltaCircuit
