import DeltaCircuit.Eval.Operation
import DeltaCircuit.Proofs.Double
import Mathlib.Data.List.Forall2

/-!
# Laws of values

What operators and tests on values say, as equations.

* `Value.same_iff`, `Value.same_equivalence` — sameness is equality of representatives.
* `Value.order_eq_iff` — values are the same iff they stand at one place of the order.
* `Value.order_canonical` — the order does not tell values from their representatives.
* `Value.row_same_iff` — rows are compared column by column.
* `Value.isNull_iff`, `Value.isBool_iff` — the tests of a value.
* `Value.logical_decided`, `Value.logical_neutral` — a logical operation with a constant.
* `Value.logical_and_isBool` — when a conjunction is true.
-/

namespace DeltaCircuit

theorem Date.order_eq_iff {a b : Date} : a.order b = .eq ↔ a = b := by
  obtain ⟨year, month, day⟩ := a
  obtain ⟨year', month', day'⟩ := b
  simp [Date.order, Ordering.then_eq_eq, and_assoc]

theorem Timestamp.order_eq_iff {a b : Timestamp} : a.order b = .eq ↔ a = b := by
  obtain ⟨date, hour, minute, second, nanosecond⟩ := a
  obtain ⟨date', hour', minute', second', nanosecond'⟩ := b
  simp [Timestamp.order, Date.order_eq_iff, Ordering.then_eq_eq, and_assoc]

namespace Value

@[simp] theorem same_iff {a b : Value} : a.same b = true ↔ a.canonical = b.canonical := by
  simp [same]

theorem same_equivalence : Equivalence fun a b : Value => a.same b = true where
  refl _ := same_iff.mpr rfl
  symm h := same_iff.mpr (same_iff.mp h).symm
  trans h h' := same_iff.mpr ((same_iff.mp h).trans (same_iff.mp h'))

/-! ### Order -/

theorem literalOrder_eq_iff {a b : Literal} :
    (compare (sortIndex (.scalar a)) (sortIndex (.scalar b))).then (literalOrder a b) = .eq ↔
      a.canonical = b.canonical := by
  -- literals of different sorts differ in the first part, and the second part is the content
  cases a <;> cases b <;>
    simp [sortIndex, literalOrder, Literal.canonical, Double.order_eq_iff, Date.order_eq_iff,
      Timestamp.order_eq_iff, Ordering.then_eq_eq]

mutual

theorem order_eq_iff_canonical : ∀ a b : Value, a.order b = .eq ↔ a.canonical = b.canonical
  | .null, b => by
    cases b with
    | scalar l => cases l <;> simp [order, canonical, sortIndex]
    | _ => simp [order, canonical, sortIndex]
  | .scalar l, b => by
    cases b with
    | scalar l' =>
      rw [order, canonical, canonical, Value.scalar.injEq]
      exact literalOrder_eq_iff
    | _ => cases l <;> simp [order, canonical, sortIndex]
  -- rows and vectors are compared component by component
  | .row as, b => by
    cases b with
    | row bs =>
      rw [order, canonical, canonical, Value.row.injEq]
      exact orderAll_eq_iff_canonical as bs
    | scalar l => cases l <;> simp [order, canonical, sortIndex]
    | _ => simp [order, canonical, sortIndex]
  | .vec as, b => by
    cases b with
    | vec bs =>
      rw [order, canonical, canonical, Value.vec.injEq]
      exact orderAll_eq_iff_canonical as bs
    | scalar l => cases l <;> simp [order, canonical, sortIndex]
    | _ => simp [order, canonical, sortIndex]

theorem orderAll_eq_iff_canonical :
    ∀ as bs : List Value, orderAll as bs = .eq ↔ canonicalAll as = canonicalAll bs
  | [], [] => by simp [orderAll]
  | [], _ :: _ => by simp [orderAll, canonicalAll]
  | _ :: _, [] => by simp [orderAll, canonicalAll]
  | a :: as, b :: bs => by
    rw [orderAll, canonicalAll, canonicalAll, Ordering.then_eq_eq, List.cons.injEq,
      order_eq_iff_canonical a b, orderAll_eq_iff_canonical as bs]

end

/-- **One place.** Two values stand at one place of the order iff they are the same. -/
theorem order_eq_iff {a b : Value} : a.order b = .eq ↔ a.same b = true := by
  rw [order_eq_iff_canonical, same_iff]

theorem sortIndex_canonical (v : Value) : v.canonical.sortIndex = v.sortIndex := by
  cases v with
  | scalar l => cases l <;> rfl
  | _ => rfl

theorem literalOrder_canonical (a b : Literal) :
    literalOrder a.canonical b.canonical = literalOrder a b := by
  cases a <;> cases b <;> simp [Literal.canonical, literalOrder, Double.order_canonical]

mutual

/-- Representatives stand in the order of the values. -/
theorem order_canonical : ∀ a b : Value, a.canonical.order b.canonical = a.order b
  | .null, b => by
    cases b with
    | scalar l => cases l <;> rfl
    | _ => rfl
  | .scalar l, b => by
    cases b with
    | scalar l' =>
      have hleft := sortIndex_canonical (.scalar l)
      have hright := sortIndex_canonical (.scalar l')
      rw [canonical] at hleft hright
      rw [canonical, canonical, order, order, hleft, hright, literalOrder_canonical]
    | _ => cases l <;> rfl
  | .row as, b => by
    cases b with
    | row bs =>
      rw [canonical, canonical, order, order]
      exact orderAll_canonical as bs
    | scalar l => cases l <;> rfl
    | _ => rfl
  | .vec as, b => by
    cases b with
    | vec bs =>
      rw [canonical, canonical, order, order]
      exact orderAll_canonical as bs
    | scalar l => cases l <;> rfl
    | _ => rfl

theorem orderAll_canonical :
    ∀ as bs : List Value, orderAll (canonicalAll as) (canonicalAll bs) = orderAll as bs
  | [], [] => rfl
  | [], _ :: _ => rfl
  | _ :: _, [] => rfl
  | a :: as, b :: bs => by
    rw [canonicalAll, canonicalAll, orderAll, orderAll, order_canonical a b,
      orderAll_canonical as bs]

end

/-- Rows are the same iff they are so column by column. -/
theorem row_same_iff {as bs : List Value} :
    (row as).same (row bs) = true ↔ List.Forall₂ (fun a b => a.same b = true) as bs := by
  simp only [same_iff, canonical, Value.row.injEq]
  induction as generalizing bs with
  | nil => cases bs <;> simp [canonicalAll]
  | cons a as ih => cases bs <;> simp [canonicalAll, ih]

/-- Rows that are put together of two parts each are the same only if the parts are. -/
theorem row_same_of_append {as as' bs bs' : List Value} (hlength : as.length = as'.length)
    (h : (row (as ++ bs)).same (row (as' ++ bs')) = true) :
    (row as).same (row as') = true ∧ (row bs).same (row bs') = true := by
  have hsame := row_same_iff.mp h
  constructor
  · have hleft := List.forall₂_take_append _ as' bs' hsame
    rw [List.take_left' hlength] at hleft
    exact row_same_iff.mpr hleft
  · have hright := List.forall₂_drop_append _ as' bs' hsame
    rw [List.drop_left' hlength] at hright
    exact row_same_iff.mpr hright

/-! ### Tests -/

theorem isNull_iff {v : Value} : v.isNull = true ↔ v = .null := by
  unfold isNull
  split <;> simp_all

theorem isBool_iff {v : Value} {b : Bool} : v.isBool b = true ↔ v = .bool b := by
  unfold isBool
  split
  · rename_i c
    simp [bool, eq_comm]
  · rename_i hother
    simpa using fun h => hother b (by rw [h, bool])

/-! ### Logic -/

/-- An operand that decides a logical operation alone decides it. -/
theorem logical_decided {op : LogicalOp} {l r value : Value}
    (hdecided : l = .bool op.decisive ∨ r = .bool op.decisive)
    (h : logical op l r = .ok value) : value = .bool op.decisive := by
  have hif : (l.isBool op.decisive || r.isBool op.decisive) = true := by
    rw [Bool.or_eq_true, isBool_iff, isBool_iff]
    exact hdecided
  unfold logical at h
  rw [if_pos hif] at h
  exact (Except.ok.inj h).symm

/-- A logical operation with the constant that decides nothing gives the other operand. -/
theorem logical_neutral {op : LogicalOp} {v value : Value}
    (h : logical op (.bool (!op.decisive)) v = .ok value ∨
      logical op v (.bool (!op.decisive)) = .ok value) : value = v := by
  have hneutral : (Value.bool (!op.decisive)).isBool op.decisive = false := by cases op <;> rfl
  have htotal : (Value.bool (!op.decisive)).isNull = false := rfl
  have hself : (Value.bool (!op.decisive)).isBool (!op.decisive) = true := isBool_iff.mpr rfl
  unfold logical at h
  simp only [hneutral, htotal, hself, Bool.false_or, Bool.or_false, Bool.true_and,
    Bool.and_true] at h
  -- what is left of both tests is about the other operand alone
  split at h
  · rename_i hv
    rw [isBool_iff.mp hv]
    exact (Except.ok.inj (or_self_iff.mp h)).symm
  · split at h
    · rename_i hv
      rw [isNull_iff.mp hv]
      exact (Except.ok.inj (or_self_iff.mp h)).symm
    · split at h
      · rename_i hv
        rw [isBool_iff.mp hv]
        exact (Except.ok.inj (or_self_iff.mp h)).symm
      · rcases h with h | h <;> cases h

/-- A conjunction is true iff both operands are. -/
theorem logical_and_isBool {l r value : Value} (h : logical .and l r = .ok value) :
    value.isBool true = true ↔ l.isBool true = true ∧ r.isBool true = true := by
  have hfalse {v : Value} (hv : v.isBool LogicalOp.and.decisive = true) :
      v.isBool true = false := by
    rw [isBool_iff.mp hv]
    rfl
  unfold logical at h
  -- an operand that is false decides, and a NULL keeps the rest from being true
  split at h
  · rename_i hdecided
    obtain rfl := Except.ok.inj h
    rw [hfalse (isBool_iff.mpr rfl)]
    rcases Bool.or_eq_true_iff.mp hdecided with hl | hr
    · simp [hfalse hl]
    · simp [hfalse hr]
  · split at h
    · rename_i hnull
      obtain rfl := Except.ok.inj h
      rcases Bool.or_eq_true_iff.mp hnull with hl | hr
      · simp [isNull_iff.mp hl, isBool]
      · simp [isNull_iff.mp hr, isBool]
    · split at h
      · rename_i hboth
        obtain rfl := Except.ok.inj h
        exact iff_of_true rfl (Bool.and_eq_true_iff.mp hboth)
      · cases h

end Value

end DeltaCircuit
