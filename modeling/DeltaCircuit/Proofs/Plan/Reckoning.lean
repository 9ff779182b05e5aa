import DeltaCircuit.Plan.Scalar
import DeltaCircuit.Proofs.Outcome
import DeltaCircuit.Proofs.Plan.AggregateRuns
import DeltaCircuit.Proofs.Ty.Sorts

/-!
# What queries mean by an expression

A reference for expressions over booleans and integers, written down from the rules of queries and
not from what expressions are compiled to. A datum is NULL, a truth value or an integer. Arithmetic
and comparisons are NULL as soon as an operand is; arithmetic is exact and its result is then
converted to the declared type; AND and OR are three-valued and see both operands.

* `Datum`, `Fault` — what an expression comes to, or why it comes to nothing.
* `ScalarExpr.isReckonable` — the expressions over booleans and integers.
* `ScalarExpr.reckon` — the meaning of an expression on a row.
* `ScalarExpr.DividesByZero` — a division or a remainder somewhere meets a zero divisor.
* `ScalarExpr.DividesByZero.reckon_ne_ok`, `ScalarExpr.dividesByZero_of_reckon` — which is just when
  that is the fault.

Integers have to be representable, and the least integer that is has no negative; an expression that
meets one of the others on the way is at fault.
-/

namespace DeltaCircuit

/-! ### Data -/

/-- What an expression over booleans and integers comes to. -/
inductive Datum where
  | null
  | bool (b : Bool)
  | int (i : Int)
deriving DecidableEq

/-- Why an expression comes to nothing. -/
inductive Fault where
  | divisionByZero
  /-- An integer that is not representable, or whose negative is not. -/
  | outside (i : Int)
  /-- An operation on operands of another sort, or a value that is no datum. -/
  | undefined
deriving DecidableEq

namespace Datum

/-- The value that a datum is. -/
def value : Datum → Value
  | null => .null
  | bool b => .bool b
  | int i => .int i

/-- An integer, unless it is one outside. -/
def within (i : Int) : Except Fault Datum :=
  if leastInt < i ∧ i ≤ greatestInt then .ok (int i) else .error (.outside i)

/-- The datum that a value is. -/
def ofValue : Value → Except Fault Datum
  | .null => .ok null
  | .scalar (.bool b) => .ok (bool b)
  | .scalar (.int i) => within i
  | _ => .error .undefined

/-- The same datum at a type: a truth value counts as 0 or 1, and an integer is true unless it is
zero. -/
def convert (type : Ty) : Datum → Datum
  | null => null
  | bool b => if type.isInteger then int b.toInt else bool b
  | int i => if type.isBool then bool (i ≠ 0) else int i

/-! ### Operations -/

/-- An operation that is NULL as soon as an operand is. -/
def strict (f : Datum → Datum → Except Fault Datum) (x y : Datum) : Except Fault Datum :=
  if x = null ∨ y = null then .ok null else f x y

/-- Whether two integers, or two truth values with `false` before `true`, stand in a given order. -/
def compared (holds : Ordering → Bool) : Datum → Datum → Except Fault Datum
  | int i, int j => .ok (bool (holds (compare i j)))
  | bool a, bool b => .ok (bool (holds (compare a b)))
  | _, _ => .error .undefined

/-- An operation on integers. -/
def onInts (f : Int → Int → Except Fault Int) : Datum → Datum → Except Fault Datum
  | int i, int j => do within (← f i j)
  | _, _ => .error .undefined

/-- Arithmetic whose result is then taken to the declared type. -/
def computed (type : Ty) (f : Int → Int → Except Fault Int) (x y : Datum) : Except Fault Datum := do
  return (← strict (onInts f) x y).convert type

/-- An operation that has no result for a zero divisor. -/
def divided (f : Int → Int → Int) (i j : Int) : Except Fault Int :=
  if j = 0 then .error .divisionByZero else .ok (f i j)

/-- Three-valued conjunction. -/
def and : Datum → Datum → Except Fault Datum
  | bool a, bool b => .ok (bool (a && b))
  | bool false, null | null, bool false => .ok (bool false)
  | bool true, null | null, bool true | null, null => .ok null
  | _, _ => .error .undefined

/-- Three-valued disjunction. -/
def or : Datum → Datum → Except Fault Datum
  | bool a, bool b => .ok (bool (a || b))
  | bool true, null | null, bool true => .ok (bool true)
  | bool false, null | null, bool false | null, null => .ok null
  | _, _ => .error .undefined

/-- An operator on two operands. -/
def binary (op : CallOp) (type : Ty) (x y : Datum) : Except Fault Datum :=
  match op with
  | .and => x.and y
  | .or => x.or y
  | .equals => strict (compared Ordering.isEq) x y
  | .notEquals => strict (compared Ordering.isNe) x y
  | .lessThan => strict (compared Ordering.isLT) x y
  | .lessThanOrEqual => strict (compared Ordering.isLE) x y
  | .greaterThan => strict (compared Ordering.isGT) x y
  | .greaterThanOrEqual => strict (compared Ordering.isGE) x y
  | .plus => computed type (fun i j => .ok (i + j)) x y
  | .minus => computed type (fun i j => .ok (i - j)) x y
  | .times => computed type (fun i j => .ok (i * j)) x y
  | .divide => computed type (divided Int.tdiv) x y
  | .mod => computed type (divided Int.tmod) x y
  | .not | .negate | .isNull | .isNotNull | .concat => .error .undefined

/-- An operator on one operand. -/
def unary (op : CallOp) (x : Datum) : Except Fault Datum :=
  match op, x with
  | .isNull, x => .ok (bool (x = null))
  | .isNotNull, x => .ok (bool (x ≠ null))
  | .not, null | .negate, null => .ok null
  | .not, bool b => .ok (bool !b)
  | .negate, int i => within (-i)
  | _, _ => .error .undefined

/-- An operator on its operands. -/
def call (op : CallOp) (type : Ty) : List Datum → Except Fault Datum
  | [x] => unary op x
  | [x, y] => binary op type x y
  | _ => .error .undefined

/-! ### Faults of a single operation -/

variable {type : Ty} {op : CallOp} {x y : Datum} {i : Int}

theorem within_ne_divisionByZero : within i ≠ .error .divisionByZero := by
  unfold within
  split <;> nofun

theorem ofValue_ne_divisionByZero {v : Value} : ofValue v ≠ .error .divisionByZero := by
  unfold ofValue
  split
  · nofun
  · nofun
  · exact within_ne_divisionByZero
  · nofun

theorem strict_eq_error {f : Datum → Datum → Except Fault Datum} {fault : Fault}
    (h : strict f x y = .error fault) : f x y = .error fault := by
  unfold strict at h
  split at h
  · cases h
  · exact h

theorem computed_eq_divisionByZero {f : Int → Int → Except Fault Int}
    (h : computed type f x y = .error .divisionByZero) :
    ∃ i j, x = int i ∧ y = int j ∧ f i j = .error .divisionByZero := by
  -- the conversion at the end takes any datum, so what is at fault comes before it
  obtain h | ⟨_, -, hpure⟩ := Except.bind_eq_error.mp h
  · have h := strict_eq_error h
    unfold onInts at h
    split at h
    · obtain h | ⟨k, -, hk⟩ := Except.bind_eq_error.mp h
      · exact ⟨_, _, rfl, rfl, h⟩
      · exact absurd hk within_ne_divisionByZero
    · cases h
  · cases hpure

theorem divided_eq_divisionByZero {f : Int → Int → Int} {j : Int} :
    divided f i j = .error .divisionByZero ↔ j = 0 := by
  unfold divided
  split
  · next hzero => simp [hzero]
  · next hzero => simp [hzero]

/-- Division by zero is the fault of a division or a remainder of an integer whose divisor is
zero. -/
theorem binary_eq_divisionByZero :
    binary op type x y = .error .divisionByZero ↔
      (op = .divide ∨ op = .mod) ∧ y = int 0 ∧ ∃ i, x = int i := by
  constructor
  · intro h
    cases op with
    | divide | mod =>
      obtain ⟨i, j, rfl, rfl, hzero⟩ := computed_eq_divisionByZero h
      obtain rfl := divided_eq_divisionByZero.mp hzero
      exact ⟨by simp, rfl, i, rfl⟩
    | plus | minus | times =>
      -- exact sums, differences and products have no fault of their own
      obtain ⟨i, j, -, -, hsum⟩ := computed_eq_divisionByZero h
      cases hsum
    | and =>
      change x.and y = _ at h
      unfold Datum.and at h
      split at h <;> cases h
    | or =>
      change x.or y = _ at h
      unfold Datum.or at h
      split at h <;> cases h
    | not | negate | isNull | isNotNull | concat => cases h
    | _ =>
      -- a comparison is at fault for its operands only if they are of different sorts
      have h := strict_eq_error h
      unfold compared at h
      split at h <;> cases h
  · rintro ⟨rfl | rfl, rfl, i, rfl⟩ <;> rfl

theorem unary_ne_divisionByZero : unary op x ≠ .error .divisionByZero := by
  unfold unary
  split <;> first | exact within_ne_divisionByZero | nofun

end Datum

/-! ### Expressions -/

namespace ScalarExpr

mutual

/-- Whether all types in an expression are those of data, and every negation is declared to be an
integer. -/
def isReckonable : ScalarExpr → Bool
  | .column _ type => type.isReckonable
  | .literal _ type => type.isReckonable
  | .cast operand type => type.isReckonable && operand.isReckonable
  | .call op operands type =>
    type.isReckonable && (op ≠ .negate || type.isInteger) && allReckonable operands
termination_by structural x => x

def allReckonable : List ScalarExpr → Bool
  | [] => true
  | e :: es => e.isReckonable && allReckonable es
termination_by structural x => x

end

mutual

/-- **The meaning of an expression** on a row. -/
def reckon (row : Value) : ScalarExpr → Except Fault Datum
  | .column index _ => Datum.ofValue (row.column index)
  | .literal none _ => .ok .null
  | .literal (some l) _ => Datum.ofValue (.scalar l)
  | .cast operand type => do return (← operand.reckon row).convert type
  | .call op operands type => do Datum.call op type (← reckonAll row operands)
termination_by structural x => x

/-- The operands of a call, from left to right and all of them. -/
def reckonAll (row : Value) : List ScalarExpr → Except Fault (List Datum)
  | [] => return []
  | e :: es => do
    let d ← e.reckon row
    let ds ← reckonAll row es
    return d :: ds
termination_by structural x => x

end

/-- Somewhere in the expression, a division or a remainder of an integer meets a zero divisor. -/
inductive DividesByZero (row : Value) : ScalarExpr → Prop
  | here {op : CallOp} {x y : ScalarExpr} {type : Ty} {i : Int} (hop : op = .divide ∨ op = .mod)
      (hx : x.reckon row = .ok (.int i)) (hy : y.reckon row = .ok (.int 0)) :
      DividesByZero row (.call op [x, y] type)
  | operand {op : CallOp} {operands : List ScalarExpr} {type : Ty} {e : ScalarExpr}
      (hmem : e ∈ operands) (h : DividesByZero row e) : DividesByZero row (.call op operands type)
  | cast {operand : ScalarExpr} {type : Ty} (h : DividesByZero row operand) :
      DividesByZero row (.cast operand type)

variable {row : Value} {e x y : ScalarExpr} {es : List ScalarExpr} {op : CallOp} {type : Ty}

theorem reckonAll_eq_ok {ds : List Datum} :
    reckonAll row es = .ok ds ↔ List.Forall₂ (fun e d => e.reckon row = .ok d) es ds := by
  induction es generalizing ds with
  | nil =>
    rw [reckonAll, Except.pure_eq_ok]
    cases ds <;> simp
  | cons e es ih =>
    rw [reckonAll]
    simp only [Except.bind_eq_ok, Except.pure_eq_ok, ih]
    constructor
    · rintro ⟨d, hd, ds, hds, rfl⟩
      exact .cons hd hds
    · rintro (_ | ⟨hd, hds⟩)
      exact ⟨_, hd, _, hds, rfl⟩

theorem reckon_call_one :
    (call op [x] type).reckon row = (do Datum.unary op (← x.reckon row)) := by
  rw [reckon, reckonAll, reckonAll]
  cases x.reckon row <;> rfl

theorem reckon_call_two :
    (call op [x, y] type).reckon row =
      (do Datum.binary op type (← x.reckon row) (← y.reckon row)) := by
  rw [reckon, reckonAll, reckonAll, reckonAll]
  cases x.reckon row with
  | error _ => rfl
  | ok _ => cases y.reckon row <;> rfl

/-! ### Zero divisors -/

/-- An expression that divides by zero comes to nothing. -/
theorem DividesByZero.reckon_ne_ok (h : DividesByZero row e) (d : Datum) : e.reckon row ≠ .ok d := by
  intro hd
  induction h generalizing d with
  | @here op x y type i hop hx hy =>
    -- both operands are there, and the operation has no result for them
    rw [reckon_call_two, hx, hy] at hd
    cases hd.symm.trans (Datum.binary_eq_divisionByZero.mpr ⟨hop, rfl, i, rfl⟩)
  | operand hmem _ ih =>
    -- a call needs all of its operands, so this one would have come to a datum
    rw [reckon, Except.bind_eq_ok] at hd
    obtain ⟨ds, hds, -⟩ := hd
    obtain ⟨n, hn⟩ := List.mem_iff_getElem?.mp hmem
    rcases (reckonAll_eq_ok.mp hds).getElem? n with ⟨hnone, -⟩ | ⟨e, d, he, -, hed⟩
    · cases hnone.symm.trans hn
    · obtain rfl := Option.some.inj (he.symm.trans hn)
      exact ih d hed
  | cast _ ih =>
    rw [reckon, Except.bind_eq_ok] at hd
    obtain ⟨d, hd, -⟩ := hd
    exact ih d hd

mutual

/-- An expression at fault for a division by zero contains one. -/
theorem dividesByZero_of_reckon :
    ∀ {e : ScalarExpr}, e.reckon row = .error .divisionByZero → DividesByZero row e
  | .column _ _, h => absurd h Datum.ofValue_ne_divisionByZero
  | .literal none _, h => nomatch h
  | .literal (some _) _, h => absurd h Datum.ofValue_ne_divisionByZero
  | .cast operand type, h => by
    rw [reckon, Except.bind_eq_error] at h
    obtain h | ⟨_, -, hpure⟩ := h
    · exact .cast (dividesByZero_of_reckon h)
    · cases hpure
  | .call op operands type, h => by
    rw [reckon, Except.bind_eq_error] at h
    obtain h | ⟨ds, hds, h⟩ := h
    · obtain ⟨e, hmem, he⟩ := exists_dividesByZero h
      exact .operand hmem he
    · -- the operands are there, so it is this call that divides
      unfold Datum.call at h
      split at h
      · exact absurd h Datum.unary_ne_divisionByZero
      · obtain ⟨hop, rfl, i, rfl⟩ := Datum.binary_eq_divisionByZero.mp h
        obtain _ | ⟨hx, _ | ⟨hy, ⟨⟩⟩⟩ := reckonAll_eq_ok.mp hds
        exact .here hop hx hy
      · cases h

/-- Operands at fault for a division by zero have one among them that contains it. -/
theorem exists_dividesByZero :
    ∀ {es : List ScalarExpr}, reckonAll row es = .error .divisionByZero →
      ∃ e ∈ es, DividesByZero row e
  | e :: es, h => by
    rw [reckonAll, Except.bind_eq_error] at h
    rcases h with h | ⟨d, -, h⟩
    · exact ⟨e, List.mem_cons_self, dividesByZero_of_reckon h⟩
    · obtain h | ⟨ds, -, hpure⟩ := Except.bind_eq_error.mp h
      · obtain ⟨e', hmem, he'⟩ := exists_dividesByZero h
        exact ⟨e', List.mem_cons_of_mem _ hmem, he'⟩
      · cases hpure

end

end ScalarExpr

end DeltaCircuit
