import DeltaCircuit.Proofs.Plan.FoldRound
import DeltaCircuit.Proofs.Plan.Reckoning

/-!
# Operations that agree with what is meant

Every operation on values, next to the operation on data that it stands for. A datum has the sort
of its static type, whatever the type says about NULL, and is no integer outside; from operands of
that kind an operation comes to the datum that is meant, or to a division by zero on both sides.

An integer outside the ones that a query may meet is a fault of the meaning only. It asks nothing of
the operation, which may overflow, wrap around or get past it.

* `Datum.Fits` — the data at a type.
* `Agrees` — an outcome of an evaluation, next to what is meant; `Agrees.bind` puts steps together.
* `agrees_convert` — conversions; one to a type of the same sort is none (`Agrees.bind_convert`).
* `agrees_comparison`, `agrees_logical`, `agrees_arithmetic`, `agrees_not`, `agrees_neg`,
  `agrees_isNull`, `agrees_isNotNull` — operators.
-/

namespace DeltaCircuit

/-! ### Data at a type -/

/-- A datum at a type, which is of the sort of the type and no integer outside. Every type has NULL
here: an operation may be declared never to be NULL and be NULL all the same. -/
def Datum.Fits (type : Ty) : Datum → Prop
  | null => True
  | bool _ => type.isBool = true
  | int i => type.isInteger = true ∧ leastInt < i ∧ i ≤ greatestInt

/-- What an evaluation comes to, next to what is meant: the same datum, or division by zero on both
sides. Where the meaning meets an integer outside, nothing is asked. -/
inductive Agrees (type : Ty) : Except EvalError Value → Except Fault Datum → Prop
  | datum {d : Datum} (h : d.Fits type) : Agrees type (.ok d.value) (.ok d)
  | divisionByZero : Agrees type (.error .divisionByZero) (.error .divisionByZero)
  | outside {result : Except EvalError Value} {i : Int} :
      Agrees type result (.error (.outside i))

section

variable {type source common : Ty} {d a b : Datum} {v : Value} {x : Except EvalError Value}
  {y : Except Fault Datum}

theorem Datum.Fits.of_isBool (h : d.Fits type) (htype : type.isBool = true) :
    d = .null ∨ ∃ p, d = .bool p := by
  cases d with
  | null => exact .inl rfl
  | bool p => exact .inr ⟨p, rfl⟩
  | int i => exact absurd h.1 (Ty.not_isInteger htype)

theorem Datum.Fits.of_isInteger (h : d.Fits type) (htype : type.isInteger = true) :
    d = .null ∨ ∃ i, d = .int i ∧ leastInt < i ∧ i ≤ greatestInt := by
  cases d with
  | null => exact .inl rfl
  | bool p => exact absurd htype (Ty.not_isInteger h)
  | int i => exact .inr ⟨i, rfl, h.2⟩

theorem Agrees.bind {f : Value → Except EvalError Value} {g : Datum → Except Fault Datum}
    (h : Agrees source x y) (hfg : ∀ d, d.Fits source → Agrees type (f d.value) (g d)) :
    Agrees type (x >>= f) (y >>= g) := by
  cases h with
  | datum hd => exact hfg _ hd
  | divisionByZero => exact .divisionByZero
  | outside => exact .outside

theorem agrees_null : Agrees type (.ok .null) (.ok .null) := .datum (d := .null) trivial

theorem agrees_bool {b : Bool} (h : type.isBool = true) :
    Agrees type (.ok (.bool b)) (.ok (.bool b)) :=
  .datum (d := .bool b) h

theorem agrees_within {i : Int} (h : type.isInteger = true) :
    Agrees type (.ok (.int i)) (Datum.within i) := by
  unfold Datum.within
  split
  · next hinside => exact .datum (d := .int i) ⟨h, hinside⟩
  · exact .outside

/-- A value of the kind of a type, or NULL, is a datum at the type. -/
theorem agrees_ofValue (htype : type.isReckonable = true)
    (hv : v = .null ∨ type.kind.admits v = true) : Agrees type (.ok v) (Datum.ofValue v) := by
  rcases hv with rfl | hv
  · exact agrees_null
  · rcases Ty.isReckonable_iff.mp htype with hbool | hinteger
    · obtain ⟨b, rfl⟩ := Ty.exists_bool_of_admits hbool hv
      exact agrees_bool hbool
    · obtain ⟨i, rfl⟩ := Ty.exists_int_of_admits hinteger hv
      exact agrees_within hinteger

/-! ### Conversions -/

theorem Datum.Fits.of_sameSort (h : d.Fits source) (hsort : source.SameSort type) : d.Fits type := by
  cases d with
  | null => exact trivial
  | bool b =>
    rcases hsort with ⟨-, htype⟩ | ⟨hsource, -⟩
    · exact htype
    · exact absurd hsource (Ty.not_isInteger h)
  | int i =>
    rcases hsort with ⟨hsource, -⟩ | ⟨-, htype⟩
    · exact absurd h.1 (Ty.not_isInteger hsource)
    · exact ⟨htype, h.2⟩

theorem Datum.convert_of_fits (h : d.Fits type) : d.convert type = d := by
  cases d with
  | null => rfl
  | bool b => exact if_neg (Ty.not_isInteger h)
  | int i => exact if_neg fun hbool => Ty.not_isInteger hbool h.1

theorem agrees_convert (hd : d.Fits source) (htype : type.isReckonable = true) :
    Agrees type (d.value.convert type) (.ok (d.convert type)) := by
  have hsorts := Ty.isReckonable_iff.mp htype
  cases d with
  | null =>
    rw [Datum.value, Value.convert_null]
    exact agrees_null
  | bool b =>
    rcases hsorts with hbool | hinteger
    · rw [Datum.value, Value.convert_bool hbool, Datum.convert_of_fits (d := .bool b) hbool]
      exact agrees_bool hbool
    · obtain ⟨width, signed, hkind⟩ := Ty.exists_of_isInteger hinteger
      have hvalue : (Value.bool b).convert type = .ok (.int b.toInt) := by
        unfold Value.convert
        rw [hkind]
        rfl
      rw [Datum.value, hvalue, Datum.convert, if_pos hinteger]
      refine .datum (d := .int b.toInt) ⟨hinteger, ?_⟩
      cases b <;> decide
  | int i =>
    rcases hsorts with hbool | hinteger
    · have hvalue : (Value.int i).convert type = .ok (.bool (i ≠ 0)) := by
        unfold Value.convert
        rw [of_decide_eq_true hbool]
        rfl
      rw [Datum.value, hvalue, Datum.convert, if_pos hbool]
      exact agrees_bool hbool
    · have hfits : (Datum.int i).Fits type := ⟨hinteger, hd.2⟩
      rw [Datum.value, Value.convert_int hinteger, Datum.convert_of_fits hfits]
      exact .datum hfits

/-- A conversion to a type of the same sort is none. -/
theorem Agrees.bind_convert (h : Agrees source x y) (hsort : source.SameSort type) :
    (do return (← y).convert type) = y := by
  cases h with
  | datum hd => exact congrArg Except.ok (Datum.convert_of_fits (hd.of_sameSort hsort))
  | divisionByZero => rfl
  | outside => rfl

/-! ### Operations -/

/-- The exact result of arithmetic, if there is one. -/
def ArithmeticOp.meant (op : ArithmeticOp) : Int → Int → Except Fault Int :=
  match op with
  | .div => Datum.divided Int.tdiv
  | .mod => Datum.divided Int.tmod
  | op => fun i j => .ok (op.exact i j)

theorem Datum.binary_arithmetic {op : CallOp} {arithmetic : ArithmeticOp}
    (hop : op.binary? = some (.arithmetic arithmetic)) :
    Datum.binary op type a b = Datum.computed type arithmetic.meant a b := by
  cases op <;> cases hop <;> rfl

theorem Datum.binary_comparison {op : CallOp} {comparison : ComparisonOp}
    (hop : op.binary? = some (.comparison comparison)) :
    Datum.binary op type a b = Datum.strict (Datum.compared comparison.holds) a b := by
  cases op <;> cases hop <;> rfl

/-- An operation that is NULL as soon as an operand is, on both sides. -/
theorem agrees_strict {op : BinaryOp} {f : Value → Value → Except EvalError Value}
    {g : Datum → Datum → Except Fault Datum}
    (hop : ∀ l r, Value.binary op l r = if l.isNull || r.isNull then .ok .null else f l r)
    (h : a ≠ .null → b ≠ .null → Agrees type (f a.value b.value) (g a b)) :
    Agrees type (Value.binary op a.value b.value) (Datum.strict g a b) := by
  have hnull (d : Datum) : d.value.isNull = true ↔ d = .null := by
    cases d <;> simp [Datum.value, Value.isNull, Value.bool, Value.int]
  have hnulls : (a.value.isNull || b.value.isNull) = true ↔ a = .null ∨ b = .null := by
    rw [Bool.or_eq_true, hnull, hnull]
  rw [hop]
  unfold Datum.strict
  by_cases hab : a = .null ∨ b = .null
  · rw [if_pos hab, if_pos (hnulls.mpr hab)]
    exact agrees_null
  · rw [if_neg hab, if_neg (mt hnulls.mp hab)]
    obtain ⟨ha, hb⟩ := not_or.mp hab
    exact h ha hb

theorem agrees_comparison {comparison : ComparisonOp} (ha : a.Fits source) (hb : b.Fits source)
    (htype : type.isBool = true) :
    Agrees type (Value.binary (.comparison comparison) a.value b.value)
      (Datum.strict (Datum.compared comparison.holds) a b) := by
  refine agrees_strict (f := Value.comparison comparison) (fun _ _ => rfl) fun hna hnb => ?_
  -- values of one sort are compared by what they hold
  cases a with
  | null => exact absurd rfl hna
  | bool p =>
    cases b with
    | null => exact absurd rfl hnb
    | bool q => exact agrees_bool htype
    | int j => exact absurd hb.1 (Ty.not_isInteger ha)
  | int i =>
    cases b with
    | null => exact absurd rfl hnb
    | bool q => exact absurd ha.1 (Ty.not_isInteger hb)
    | int j => exact agrees_bool htype

theorem agrees_logical {op : CallOp} {logical : LogicalOp}
    (hop : op.binary? = some (.logical logical)) (hsource : source.isBool = true)
    (hcommon : common.isBool = true) (ha : a.Fits source) (hb : b.Fits common)
    (htype : type.isBool = true) :
    Agrees type (Value.binary (.logical logical) a.value b.value) (Datum.binary op type a b) := by
  -- three truth values on either side
  rcases ha.of_isBool hsource with rfl | ⟨p, rfl⟩ <;>
    rcases hb.of_isBool hcommon with rfl | ⟨q, rfl⟩ <;> cases op <;> cases hop
  · exact agrees_null
  · exact agrees_null
  · cases q
    · exact agrees_bool htype
    · exact agrees_null
  · cases q
    · exact agrees_null
    · exact agrees_bool htype
  · cases p
    · exact agrees_bool htype
    · exact agrees_null
  · cases p
    · exact agrees_null
    · exact agrees_bool htype
  · cases p <;> cases q <;> exact agrees_bool htype
  · cases p <;> cases q <;> exact agrees_bool htype

/-- An exact result inside is found. A remainder is looked for only where the quotient is
representable, which it is unless the dividend is the least integer. -/
theorem ArithmeticOp.isExact_of_inside {op : ArithmeticOp} {i j : Int}
    (hi : leastInt < i ∧ i ≤ greatestInt)
    (h : leastInt < op.exact i j ∧ op.exact i j ≤ greatestInt) : op.isExact i j = true := by
  have hinside {k : Int} (hk : leastInt < k ∧ k ≤ greatestInt) : isIntValue k = true := by
    unfold isIntValue
    rw [Bool.and_eq_true, decide_eq_true_iff, decide_eq_true_iff]
    exact ⟨le_of_lt hk.1, hk.2⟩
  cases op with
  | mod =>
    refine hinside ?_
    have hquotient : (i.tdiv j).natAbs ≤ i.natAbs := by
      rw [Int.natAbs_tdiv]
      exact Nat.div_le_self _ _
    have hbounds : leastInt = -greatestInt - 1 := by decide
    omega
  | add | sub | mul | div => exact hinside h

theorem agrees_onInts {op : ArithmeticOp} {i j : Int} (hi : leastInt < i ∧ i ≤ greatestInt)
    (htype : type.isInteger = true) :
    Agrees type (Value.arithmetic op (.int i) (.int j))
      (Datum.onInts op.meant (.int i) (.int j)) := by
  change Agrees type ((op.onInts i j).map Value.int) (op.meant i j >>= Datum.within)
  unfold ArithmeticOp.onInts
  -- zero divisors come first, before anything is known about the size of a result
  by_cases hzero : (op = .div ∨ op = .mod) ∧ j = 0
  · have hmeant : op.meant i j = .error .divisionByZero := by
      obtain ⟨rfl | rfl, rfl⟩ := hzero <;> rfl
    rw [if_pos hzero, hmeant]
    exact .divisionByZero
  · have hmeant : op.meant i j = .ok (op.exact i j) := by
      cases op with
      | div | mod =>
        have hj : j ≠ 0 := fun hj => hzero ⟨by simp, hj⟩
        exact if_neg hj
      | add | sub | mul => rfl
    rw [if_neg hzero, hmeant, Except.ok_bind]
    by_cases hinside : leastInt < op.exact i j ∧ op.exact i j ≤ greatestInt
    · rw [if_pos (ArithmeticOp.isExact_of_inside hi hinside)]
      exact agrees_within htype
    · rw [show Datum.within (op.exact i j) = _ from if_neg hinside]
      exact .outside

theorem agrees_arithmetic {op : ArithmeticOp} (ha : a.Fits source) (hb : b.Fits common)
    (hsource : source.isInteger = true) (hcommon : common.isInteger = true)
    (htype : type.isInteger = true) :
    Agrees type (Value.binary (.arithmetic op) a.value b.value)
      (Datum.strict (Datum.onInts op.meant) a b) := by
  refine agrees_strict (f := Value.arithmetic op) (fun _ _ => rfl) fun hna hnb => ?_
  obtain ⟨i, rfl, hi⟩ := (ha.of_isInteger hsource).resolve_left hna
  obtain ⟨j, rfl, -⟩ := (hb.of_isInteger hcommon).resolve_left hnb
  exact agrees_onInts hi htype

theorem agrees_not (ha : a.Fits source) (hsource : source.isBool = true)
    (htype : type.isBool = true) :
    Agrees type (Value.unary .not a.value) (Datum.unary .not a) := by
  rcases ha.of_isBool hsource with rfl | ⟨p, rfl⟩
  · exact agrees_null
  · exact agrees_bool htype

theorem agrees_neg (ha : a.Fits source) (hsource : source.isInteger = true)
    (htype : type.isInteger = true) :
    Agrees type (Value.unary .neg a.value) (Datum.unary .negate a) := by
  rcases ha.of_isInteger hsource with rfl | ⟨i, rfl, hi⟩
  · exact agrees_null
  · -- only the least integer is its own negative, and it is one outside
    have hvalue : Value.unary .neg (.int i) = .ok (.int (-i)) := by
      show Except.ok (Value.int (Value.negative i)) = _
      rw [Value.negative, if_neg (ne_of_gt hi.1)]
    rw [Datum.value, hvalue]
    exact agrees_within htype

theorem agrees_isNull (htype : type.isBool = true) :
    Agrees type (Value.unary .isNull a.value) (Datum.unary .isNull a) := by
  cases a <;> exact agrees_bool htype

theorem agrees_isNotNull (htype : type.isBool = true) :
    Agrees type (Value.unary .isNotNull a.value) (Datum.unary .isNotNull a) := by
  cases a <;> exact agrees_bool htype

end

end DeltaCircuit
