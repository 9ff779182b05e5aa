import DeltaCircuit.Eval.Interpreter
import DeltaCircuit.Proofs.Expr.Parts
import DeltaCircuit.Proofs.Outcome

/-!
# Errors of values

Most errors of an evaluation are about the values at hand. Two sorts are not: an operator of a
circuit may be wired wrongly, and a name may have no value. This file shows that no operation on
values raises an error of these two sorts, so that only the places that do have to be looked at.

* `EvalError.isMiswired`, `EvalError.isUnbound` — the two sorts.
* `Plain` — results that end in neither of them.
* `Value.plain_binary`, `Value.plain_convert`, … — the operations on values.
-/

namespace DeltaCircuit

namespace EvalError

/-- Whether an error says that an operator reads a missing input or has no function. -/
def isMiswired : EvalError → Bool
  | .missingInput _ | .missingFunction _ => true
  | _ => false

/-- Whether an error says that a name is not bound. -/
def isUnbound : EvalError → Bool
  | .unbound _ => true
  | _ => false

/-- Whether an error is of neither sort. -/
def isPlain (e : EvalError) : Bool := !e.isMiswired && !e.isUnbound

end EvalError

/-- A result that is an error about values if it is one. -/
abbrev Plain {α : Type} (x : Except EvalError α) : Prop :=
  x.RaisesOnly fun e => e.isPlain = true

section Results

variable {α β : Type}

theorem plain_ok (a : α) : Plain (.ok a) := Except.raisesOnly_ok

theorem plain_error {e : EvalError} (h : e.isPlain = true) :
    Plain (.error e : Except EvalError α) := Except.raisesOnly_error h

end Results

/-! ### Operations on values -/

theorem ArithmeticOp.plain_onInts (op : ArithmeticOp) (l r : Int) : Plain (op.onInts l r) := by
  unfold ArithmeticOp.onInts
  split
  · exact plain_error rfl
  · split
    · exact plain_ok _
    · exact plain_error rfl

namespace Value

theorem plain_arithmetic (op : ArithmeticOp) (left right : Value) :
    Plain (arithmetic op left right) := by
  unfold arithmetic
  split
  · exact (op.plain_onInts _ _).map _
  · exact plain_ok _
  · exact plain_ok _
  · exact plain_ok _
  · exact plain_error rfl

theorem plain_concat (left right : Value) : Plain (left.concat right) := by
  unfold concat
  split
  · exact plain_ok _
  · split <;> exact plain_error rfl

theorem plain_compareWith (left right : Value) : Plain (left.compareWith right) := by
  unfold compareWith
  split
  · exact plain_ok _
  · exact plain_ok _
  · split
    · exact plain_ok _
    · exact plain_error rfl

theorem plain_comparison (op : ComparisonOp) (left right : Value) :
    Plain (comparison op left right) :=
  (plain_compareWith left right).bind fun _ => plain_ok _

theorem plain_extremum (op : ComparisonOp) (left right : Value) :
    Plain (extremum op left right) :=
  (plain_compareWith left right).bind fun _ => plain_ok _

theorem plain_logical (op : LogicalOp) (left right : Value) : Plain (logical op left right) := by
  unfold logical
  split
  · exact plain_ok _
  · split
    · exact plain_ok _
    · split
      · exact plain_ok _
      · exact plain_error rfl

theorem plain_aggregate (op : AggregateOp) (left right : Value) :
    Plain (aggregate op left right) := by
  unfold aggregate
  split
  · exact plain_ok _
  · split
    · exact plain_ok _
    · cases op with
      | plus => exact plain_arithmetic .add left right
      | min => exact plain_extremum .lte left right
      | max => exact plain_extremum .gte left right

theorem plain_binary (op : BinaryOp) (left right : Value) : Plain (binary op left right) := by
  cases op with
  | logical op => exact plain_logical op left right
  | aggregate op => exact plain_aggregate op left right
  | comparison op =>
    rw [binary]
    split
    · exact plain_ok _
    · exact plain_comparison op left right
  | arithmetic op =>
    rw [binary]
    split
    · exact plain_ok _
    · exact plain_arithmetic op left right
  | concat =>
    rw [binary]
    split
    · exact plain_ok _
    · exact plain_concat left right

theorem plain_unary (op : UnaryOp) (operand : Value) : Plain (unary op operand) := by
  unfold unary
  split
  -- the last case is the one of other operands
  case h_10 => exact plain_error rfl
  all_goals exact plain_ok _

theorem plain_ofRead {α : Type} (make : α → Value) (s : String) (type : Ty) (value : Option α) :
    Plain (ofRead make s type value) := by
  cases value with
  | none => exact plain_error rfl
  | some a => exact plain_ok _

theorem plain_convert (value : Value) (type : Ty) : Plain (value.convert type) := by
  unfold convert
  split
  -- texts are read as integers and as floating point numbers, and may be no such numbers
  case h_3 => exact plain_ofRead _ _ _ _
  case h_5 => exact plain_ofRead _ _ _ _
  case h_7 =>
    -- scalars that do not become texts stay as they are
    split
    · split <;> exact plain_ok _
    · exact plain_ok _
  all_goals exact plain_ok _

theorem plain_field (index : Nat) (value : Value) : Plain (value.field index) := by
  unfold field
  split
  · exact plain_ok _
  · split
    · exact plain_ok _
    · exact plain_error rfl
  · exact plain_error rfl

theorem plain_items (value : Value) : Plain value.items := by
  unfold items
  split
  · exact plain_ok _
  · exact plain_error rfl

theorem plain_replaceAt (component : Value) :
    ∀ (path : List Nat) (value : Value), Plain (replaceAt path value component)
  | [], value => by
    unfold replaceAt
    exact plain_ok _
  | index :: path, value => by
    cases value with
    | row fields =>
      rw [replaceAt]
      split
      · exact plain_error rfl
      · exact (plain_replaceAt component path _).bind fun _ => plain_ok _
    | _ => exact plain_error rfl

end Value

/-! ### Assignments -/

theorem Expr.plain_place? (e : Expr) : Plain e.place? := by
  induction e using Expr.parts_induction with
  | node e ih =>
    obtain ⟨tag, type, form⟩ := e
    -- only variables and their fields are places, looked at through references or not
    cases form with
    | var name => exact plain_ok _
    | field base index =>
      rw [Expr.place?]
      exact (ih base (by simp [Form.parts])).bind fun _ => plain_ok _
    | deref operand =>
      rw [Expr.place?]
      exact ih operand (by simp [Form.parts])
    | _ => exact plain_error rfl

/-- The one error of an assignment that is not about values says that its variable is not bound. -/
theorem Scopes.error_of_assign {scopes : Scopes} {target : Expr} {value : Value} {e : EvalError}
    (h : scopes.assign target value = .error e) :
    e.isPlain = true ∨ ∃ name path, e = .unbound name ∧ target.place? = .ok (name, path) ∧
      scopes.find? name = none := by
  unfold Scopes.assign at h
  cases hplace : target.place? with
  | error e' =>
    rw [hplace] at h
    cases h
    exact .inl (target.plain_place? e hplace)
  | ok place =>
    obtain ⟨name, path⟩ := place
    rw [hplace, Except.ok_bind] at h
    dsimp only at h
    split at h
    · next hfind =>
      -- the one place where an assignment looks up a name
      cases h
      exact .inr ⟨name, path, rfl, rfl, hfind⟩
    · next old _ =>
      have hreplace := (Value.plain_replaceAt value path old).bind fun new =>
        plain_ok (scopes.update name new)
      exact .inl (hreplace e h)

end DeltaCircuit
