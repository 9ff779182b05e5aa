import DeltaCircuit.Proofs.Plan.FoldLoop
import Mathlib.Algebra.BigOperators.Group.List.Basic

/-!
# Aggregates of a group

What the aggregates of a group of weighted rows are, and the three runs over a group that they are
made of: one that adds up weights, one that adds up weighted values and starts from NULL, and one
that keeps the least or the greatest value.

* `AggregateCall.Gives` — the value of an aggregate.
* `AggregateCall.Fails` — when a number on the way to it is no integer value, or a divisor is zero.
* `run_count_eq_ok`, `run_sum_eq_ok` — counts and sums, which fail iff an intermediate number does.
* `exists_run_extremum` — the least and the greatest value of a column.
-/

namespace DeltaCircuit

/-! ### Columns of a group -/

namespace Value

/-- The value of a column of a row. A row that is NULL has NULL in every column. -/
def column (index : Nat) (row : Value) : Value :=
  match row with
  | .row fields => fields[index]?.getD .null
  | _ => .null

/-- The number that an integer value is; NULL counts as zero. -/
def toInt : Value → Int
  | .scalar (.int i) => i
  | _ => 0

end Value

section

/-- The entries of a group in which a column is not NULL. -/
def present (column : Nat) (group : List (Value × Int)) : List (Value × Int) :=
  group.filter fun entry => !(entry.1.column column).isNull

/-- The entries that a count counts: all of them, or those in which its column is not NULL. -/
def counted (argument : Option Nat) (group : List (Value × Int)) : List (Value × Int) :=
  match argument with
  | some column => present column group
  | none => group

/-- The sum of the weights of a group. -/
def totalWeight (group : List (Value × Int)) : Int := (group.map Prod.snd).sum

/-- The value of a column times the weight of its entry. -/
def weighted (column : Nat) (entry : Value × Int) : Int := (entry.1.column column).toInt * entry.2

/-- The sum of the weighted values of a column. -/
def weightedSum (column : Nat) (group : List (Value × Int)) : Int :=
  ((present column group).map (weighted column)).sum

/-- NULL if every value of the column is NULL, and otherwise a value with a given property. -/
def OfPresent (column : Nat) (group : List (Value × Int)) (P : Value → Prop) (u : Value) : Prop :=
  if present column group = [] then u = .null else P u

/-- A value of the column that stands on one side of all values of the column: `lte` for the least
one and `gte` for the greatest one. -/
def IsExtremum (side : ComparisonOp) (column : Nat) (group : List (Value × Int)) (u : Value) :
    Prop :=
  (∃ entry ∈ present column group, entry.1.column column = u) ∧
    ∀ entry ∈ present column group, side.holds (u.order (entry.1.column column)) = true

end

/-! ### The value of an aggregate -/

/-- **Aggregates.** The value of an aggregate of a group. -/
def AggregateCall.Gives (call : AggregateCall) (group : List (Value × Int)) (u : Value) : Prop :=
  match call.function, call.argument with
  | .count, argument => u = .int (totalWeight (counted argument group))
  | .sum, some column => OfPresent column group (· = .int (weightedSum column group)) u
  | .min, some column => OfPresent column group (IsExtremum .lte column group) u
  | .max, some column => OfPresent column group (IsExtremum .gte column group) u
  | .avg, some column => OfPresent column group
      (· = .int ((weightedSum column group).tdiv (totalWeight (present column group)))) u
  | _, none => False

/-- A sum of weights on the way to a count is no integer value. -/
def CountOverflows (argument : Option Nat) (group : List (Value × Int)) : Prop :=
  ∃ n, isIntValue (totalWeight (counted argument (group.take n))) = false

/-- A weighted value, or a sum of them on the way to the whole sum, is no integer value. -/
def SumOverflows (column : Nat) (group : List (Value × Int)) : Prop :=
  (∃ entry ∈ present column group, isIntValue (weighted column entry) = false) ∨
    ∃ n, isIntValue (weightedSum column (group.take n)) = false

/-- The quotient of a sum and a count does not exist, or is no integer value. -/
def AverageFails (column : Nat) (group : List (Value × Int)) : Prop :=
  present column group ≠ [] ∧ (totalWeight (present column group) = 0 ∨
    isIntValue ((weightedSum column group).tdiv (totalWeight (present column group))) = false)

/-- When an aggregate has no value. -/
def AggregateCall.Fails (call : AggregateCall) (group : List (Value × Int)) : Prop :=
  match call.function, call.argument with
  | .count, argument => CountOverflows argument group
  | .sum, some column => SumOverflows column group
  | .avg, some column => SumOverflows column group ∨ CountOverflows (some column) group ∨
      AverageFails column group
  | _, _ => False

/-! ### Groups, entry by entry -/

variable {column : Nat} {argument : Option Nat} {entry : Value × Int}
  {group rest : List (Value × Int)} {a : Int} {u v : Value}

theorem present_cons_of_null (h : entry.1.column column = .null) :
    present column (entry :: rest) = present column rest := by
  simp [present, h, Value.isNull]

theorem present_cons_of_ne_null (h : entry.1.column column ≠ .null) :
    present column (entry :: rest) = entry :: present column rest := by
  have hpresent : (!(entry.1.column column).isNull) = true := by
    rw [Bool.not_eq_true', Bool.eq_false_iff, ne_eq, Value.isNull_iff]
    exact h
  rw [present, List.filter_cons, if_pos hpresent, present]

/-- What an entry adds to a count. -/
def countOf (argument : Option Nat) (entry : Value × Int) : Int :=
  match argument with
  | some column => if (entry.1.column column).isNull then 0 else entry.2
  | none => entry.2

theorem totalWeight_counted : totalWeight (counted argument group) =
    (group.map (countOf argument)).sum := by
  cases argument with
  | none => rfl
  | some column =>
    induction group with
    | nil => rfl
    | cons entry group ih =>
      by_cases hnull : entry.1.column column = .null
      · have hcount : countOf (some column) entry = 0 := if_pos (Value.isNull_iff.mpr hnull)
        rw [List.map_cons, List.sum_cons, hcount, zero_add, ← ih, counted, counted,
          present_cons_of_null hnull]
      · have hcount : countOf (some column) entry = entry.2 :=
          if_neg fun h => hnull (Value.isNull_iff.mp h)
        rw [List.map_cons, List.sum_cons, hcount, ← ih, counted, counted,
          present_cons_of_ne_null hnull]
        rfl

theorem weighted_of_null (h : entry.1.column column = .null) : weighted column entry = 0 := by
  rw [weighted, h]
  exact zero_mul _

theorem weightedSum_eq_sum : weightedSum column group = (group.map (weighted column)).sum := by
  induction group with
  | nil => rfl
  | cons entry group ih =>
    rw [List.map_cons, List.sum_cons, ← ih, weightedSum]
    by_cases hnull : entry.1.column column = .null
    · rw [present_cons_of_null hnull, weighted_of_null hnull, zero_add, weightedSum]
    · rw [present_cons_of_ne_null hnull, List.map_cons, List.sum_cons, weightedSum]

theorem isIntValue_zero : isIntValue 0 = true := by decide

theorem weightedSum_cons :
    weightedSum column (entry :: rest) = weighted column entry + weightedSum column rest := by
  rw [weightedSum_eq_sum, weightedSum_eq_sum, List.map_cons, List.sum_cons]

theorem not_sumOverflows :
    ¬SumOverflows column group ↔
      (∀ entry ∈ group, isIntValue (weighted column entry) = true) ∧
        ∀ n, isIntValue (weightedSum column (group.take n)) = true := by
  simp only [SumOverflows, not_or, not_exists, not_and, Bool.not_eq_false]
  refine and_congr_left fun _ => ?_
  constructor
  · intro h entry hentry
    by_cases hnull : entry.1.column column = .null
    · -- an entry without a value adds zero
      rw [weighted_of_null hnull, isIntValue_zero]
    · refine h entry (List.mem_filter.mpr ⟨hentry, ?_⟩)
      rw [Bool.not_eq_true', Bool.eq_false_iff, ne_eq, Value.isNull_iff]
      exact hnull
  · exact fun h entry hentry => h entry (List.mem_of_mem_filter hentry)

/-! ### Sums -/

section

variable {op : ArithmeticOp}

theorem ArithmeticOp.onInts_eq_ok {l r i : Int} :
    op.onInts l r = .ok i ↔
      ¬((op = .div ∨ op = .mod) ∧ r = 0) ∧ op.isExact l r = true ∧ i = op.exact l r := by
  unfold onInts
  split
  · next hzero => simp [hzero]
  · next hzero =>
    split
    · next hexact => simp [hzero, hexact, eq_comm]
    · next hexact => simp [hexact]

/-- Arithmetic on integers. -/
theorem Value.binary_int {l r : Int} :
    Value.binary (.arithmetic op) (.int l) (.int r) = .ok u ↔
      ¬((op = .div ∨ op = .mod) ∧ r = 0) ∧ op.isExact l r = true ∧ u = .int (op.exact l r) := by
  have hbinary : Value.binary (.arithmetic op) (.int l) (.int r) = (op.onInts l r).map .int := rfl
  rw [hbinary, Except.map_eq_ok]
  constructor
  · rintro ⟨i, hi, rfl⟩
    obtain ⟨hzero, hexact, rfl⟩ := ArithmeticOp.onInts_eq_ok.mp hi
    exact ⟨hzero, hexact, rfl⟩
  · rintro ⟨hzero, hexact, rfl⟩
    exact ⟨_, ArithmeticOp.onInts_eq_ok.mpr ⟨hzero, hexact, rfl⟩, rfl⟩

theorem Value.add_int {l r : Int} :
    Value.binary (.arithmetic .add) (.int l) (.int r) = .ok u ↔
      isIntValue (l + r) = true ∧ u = .int (l + r) := by
  rw [Value.binary_int]
  exact and_iff_right (by simp)

theorem Value.mul_int {l r : Int} :
    Value.binary (.arithmetic .mul) (.int l) (.int r) = .ok u ↔
      isIntValue (l * r) = true ∧ u = .int (l * r) := by
  rw [Value.binary_int]
  exact and_iff_right (by simp)

end

/-- **Checked sums.** A variable that adds a number for every entry ends with the sum, and it fails
iff an entry does or a sum on the way is no integer value. -/
theorem LoopVariable.runFrom_int_eq_ok {x : LoopVariable} {check : Value × Int → Prop}
    {addend : Value × Int → Int} (hstep : ∀ entry ∈ group, ∀ a u, isIntValue a = true →
      (x.step entry (.int a) = .ok u ↔
        check entry ∧ isIntValue (a + addend entry) = true ∧ u = .int (a + addend entry)))
    (ha : isIntValue a = true) :
    x.runFrom (.int a) group = .ok v ↔
      (∀ entry ∈ group, check entry) ∧
        (∀ n, isIntValue (a + ((group.take n).map addend).sum) = true) ∧
        v = .int (a + (group.map addend).sum) := by
  -- on the group, from any integer on: the sum so far is part of what is checked
  induction group generalizing a with
  | nil =>
    have hrun : x.runFrom (.int a) [] = .ok v ↔ v = .int a := by
      rw [eq_comm (a := v)]
      exact Except.pure_eq_ok
    rw [hrun]
    simp [ha]
  | cons entry group ih =>
    have hfirst := hstep entry List.mem_cons_self
    have hrest (b : Int) (hb : isIntValue b = true) :=
      @ih b (fun entry hentry => hstep entry (List.mem_cons_of_mem _ hentry)) hb
    rw [runFrom, List.foldlM_cons, Except.bind_eq_ok]
    -- sums on the way: the one before the entry, and those after it
    have hsums : (∀ n, isIntValue (a + (((entry :: group).take n).map addend).sum) = true) ↔
        ∀ n, isIntValue (a + addend entry + ((group.take n).map addend).sum) = true := by
      rw [← Nat.and_forall_add_one]
      simp [ha, add_assoc]
    have htotal : a + ((entry :: group).map addend).sum =
        a + addend entry + (group.map addend).sum := by
      rw [List.map_cons, List.sum_cons, add_assoc]
    rw [List.forall_mem_cons, hsums, htotal]
    constructor
    · rintro ⟨middle, hmiddle, h⟩
      obtain ⟨hcheck, hint, rfl⟩ := (hfirst a middle ha).mp hmiddle
      obtain ⟨hchecks, hsum, hv⟩ := (hrest _ hint).mp h
      exact ⟨⟨hcheck, hchecks⟩, hsum, hv⟩
    · rintro ⟨⟨hcheck, hchecks⟩, hsum, hv⟩
      have hint : isIntValue (a + addend entry) = true := by simpa using hsum 0
      exact ⟨_, (hfirst a _ ha).mpr ⟨hcheck, hint, rfl⟩, (hrest _ hint).mpr ⟨hchecks, hsum, hv⟩⟩

/-- What an entry makes of a count. -/
def countStep (argument : Option Nat) (entry : Value × Int) (value : Value) :
    Except EvalError Value :=
  Value.binary (.arithmetic .add) value (.int (countOf argument entry))

/-- **Counts.** A run that counts gives the sum of the weights, and it fails iff a sum on the way is
no integer value. -/
theorem run_count_eq_ok {acc : Accumulator} :
    LoopVariable.run ⟨acc, .int 0, countStep argument⟩ group = .ok v ↔
      ¬CountOverflows argument group ∧ v = .int (totalWeight (counted argument group)) := by
  have hstep : ∀ entry ∈ group, ∀ a u, isIntValue a = true →
      (countStep argument entry (.int a) = .ok u ↔
        True ∧ isIntValue (a + countOf argument entry) = true ∧
          u = .int (a + countOf argument entry)) := by
    intro entry _ a u _
    rw [countStep, Value.add_int, true_and]
  have hrun : LoopVariable.run ⟨acc, .int 0, countStep argument⟩ group = .ok v ↔ _ :=
    LoopVariable.runFrom_int_eq_ok hstep isIntValue_zero
  simp only [hrun, CountOverflows, totalWeight_counted, zero_add, not_exists, Bool.not_eq_false,
    implies_true, true_and]

/-- What an entry makes of a sum. -/
def sumStep (column : Nat) (entry : Value × Int) (value : Value) : Except EvalError Value := do
  let product ← Value.binary (.arithmetic .mul) (entry.1.column column) (.int entry.2)
  Value.binary (.aggregate .plus) value product

/-- A column of integers: every value of it is NULL or an integer. -/
def HoldsInts (column : Nat) (group : List (Value × Int)) : Prop :=
  ∀ entry ∈ group, entry.1.column column = .null ∨ ∃ i, entry.1.column column = .int i

theorem sumStep_of_null (h : entry.1.column column = .null) : sumStep column entry v = .ok v := by
  have hproduct : Value.binary (.arithmetic .mul) (entry.1.column column) (.int entry.2) =
      .ok .null := by
    rw [h]
    rfl
  rw [sumStep, hproduct, Except.ok_bind]
  cases v <;> rfl

theorem sumStep_of_int {i : Int} (h : entry.1.column column = .int i) :
    sumStep column entry v = .ok u ↔ isIntValue (weighted column entry) = true ∧
      Value.binary (.aggregate .plus) v (.int (weighted column entry)) = .ok u := by
  have hweighted : weighted column entry = i * entry.2 := by
    rw [weighted, h]
    rfl
  rw [sumStep, h, Except.bind_eq_ok, hweighted]
  simp only [Value.mul_int]
  constructor
  · rintro ⟨_, ⟨hint, rfl⟩, hsum⟩
    exact ⟨hint, hsum⟩
  · rintro ⟨hint, hsum⟩
    exact ⟨_, ⟨hint, rfl⟩, hsum⟩

/-- From an integer on, a sum is a checked sum. -/
theorem runFrom_sum_int_eq_ok {acc : Accumulator} {start : Value} (hints : HoldsInts column group)
    (ha : isIntValue a = true) :
    LoopVariable.runFrom ⟨acc, start, sumStep column⟩ (.int a) group = .ok v ↔
      (∀ entry ∈ group, isIntValue (weighted column entry) = true) ∧
        (∀ n, isIntValue (a + weightedSum column (group.take n)) = true) ∧
        v = .int (a + weightedSum column group) := by
  simp only [weightedSum_eq_sum]
  refine LoopVariable.runFrom_int_eq_ok (fun entry hentry a u ha => ?_) ha
  rcases hints entry hentry with hnull | ⟨i, hi⟩
  · -- an entry without a value adds zero
    show sumStep column entry (.int a) = .ok u ↔ _
    rw [sumStep_of_null hnull, weighted_of_null hnull, add_zero, Except.ok.injEq, eq_comm]
    simp only [isIntValue_zero, ha, true_and]
  · have hsum : Value.binary (.aggregate .plus) (.int a) (.int (weighted column entry)) =
        Value.binary (.arithmetic .add) (.int a) (.int (weighted column entry)) := rfl
    show sumStep column entry (.int a) = .ok u ↔ _
    rw [sumStep_of_int hi, hsum, Value.add_int]

/-- **Sums.** A run that sums up a column gives NULL if all its values are NULL and otherwise the
weighted sum, and it fails iff a weighted value or a sum on the way is no integer value. -/
theorem run_sum_eq_ok {acc : Accumulator} (hints : HoldsInts column group) :
    LoopVariable.run ⟨acc, .null, sumStep column⟩ group = .ok v ↔
      ¬SumOverflows column group ∧
        OfPresent column group (· = .int (weightedSum column group)) v := by
  rw [not_sumOverflows, LoopVariable.run, and_assoc]
  show LoopVariable.runFrom _ .null group = .ok v ↔ _
  -- on the group, as long as the sum is NULL; from the first value on it is a checked sum
  induction group with
  | nil =>
    have hrun : LoopVariable.runFrom ⟨acc, .null, sumStep column⟩ .null [] = .ok v ↔ v = .null := by
      rw [eq_comm (a := v)]
      exact Except.pure_eq_ok
    rw [hrun]
    simp [OfPresent, present, weightedSum, isIntValue_zero]
  | cons entry group ih =>
    have hrest : HoldsInts column group :=
      fun entry hentry => hints entry (List.mem_cons_of_mem _ hentry)
    have hsums : (∀ n, isIntValue (weightedSum column ((entry :: group).take n)) = true) ↔
        ∀ n, isIntValue (weighted column entry + weightedSum column (group.take n)) = true := by
      rw [← Nat.and_forall_add_one]
      simp only [List.take_zero, List.take_succ_cons, weightedSum_cons]
      exact and_iff_right isIntValue_zero
    rw [LoopVariable.runFrom, List.foldlM_cons, Except.bind_eq_ok, List.forall_mem_cons, hsums,
      OfPresent, weightedSum_cons]
    show (∃ middle, sumStep column entry .null = .ok middle ∧
      LoopVariable.runFrom ⟨acc, .null, sumStep column⟩ middle group = .ok v) ↔ _
    rcases hints entry List.mem_cons_self with hnull | ⟨i, hi⟩
    · -- the sum starts later, if at all
      rw [present_cons_of_null hnull, weighted_of_null hnull, sumStep_of_null hnull]
      simp only [zero_add, isIntValue_zero, true_and, Except.ok.injEq, exists_eq_left']
      exact ih hrest
    · have hne : entry.1.column column ≠ .null := by
        intro hnull
        cases hi.symm.trans hnull
      rw [present_cons_of_ne_null hne, if_neg (List.cons_ne_nil _ _)]
      constructor
      · rintro ⟨middle, hmiddle, h⟩
        obtain ⟨hint, hmiddle⟩ := (sumStep_of_int hi).mp hmiddle
        obtain rfl : .int (weighted column entry) = middle := Except.ok.inj hmiddle
        obtain ⟨hentries, hsum, hv⟩ := (runFrom_sum_int_eq_ok hrest hint).mp h
        exact ⟨⟨hint, hentries⟩, hsum, hv⟩
      · rintro ⟨⟨hint, hentries⟩, hsum, hv⟩
        exact ⟨_, (sumStep_of_int hi).mpr ⟨hint, rfl⟩,
          (runFrom_sum_int_eq_ok hrest hint).mpr ⟨hentries, hsum, hv⟩⟩

/-- **Averages.** The quotient of the sum and the count of a column. -/
theorem average_eq_ok {sum : Value}
    (hsum : OfPresent column group (· = .int (weightedSum column group)) sum) :
    Value.binary (.arithmetic .div) sum (.int (totalWeight (present column group))) = .ok v ↔
      ¬AverageFails column group ∧ OfPresent column group
        (· = .int ((weightedSum column group).tdiv (totalWeight (present column group)))) v := by
  unfold AverageFails OfPresent at *
  split at hsum
  · next hnone =>
    -- a sum of no values is NULL, and so is its quotient, even by zero
    subst hsum
    have hnull : Value.binary (.arithmetic .div) .null
        (.int (totalWeight (present column group))) = .ok .null := rfl
    rw [hnull, Except.ok.injEq, if_pos hnone, eq_comm]
    simp [hnone]
  · next hsome =>
    subst hsum
    rw [Value.binary_int, if_neg hsome]
    simp [hsome, ArithmeticOp.isExact, ArithmeticOp.exact, and_assoc]

/-! ### The least and the greatest value -/

/-- The place of an integer or a boolean among the values of its sort. -/
def Value.rank : Value → Int
  | .scalar (.int i) => i
  | .scalar (.bool b) => b.toInt
  | _ => 0

/-- The values of a column are compared by their ranks. -/
def HoldsRanked (column : Nat) (group : List (Value × Int)) : Prop :=
  ∀ l ∈ present column group, ∀ r ∈ present column group,
    (l.1.column column).compareWith (r.1.column column) =
        .ok (compare (l.1.column column).rank (r.1.column column).rank) ∧
      (l.1.column column).order (r.1.column column) =
        compare (l.1.column column).rank (r.1.column column).rank

theorem column_of_mem_present (h : entry ∈ present column group) :
    entry ∈ group ∧ entry.1.column column ≠ .null := by
  obtain ⟨hentry, hpresent⟩ := List.mem_filter.mp h
  rw [Bool.not_eq_true', Bool.eq_false_iff, ne_eq, Value.isNull_iff] at hpresent
  exact ⟨hentry, hpresent⟩

theorem HoldsInts.ranked (h : HoldsInts column group) : HoldsRanked column group := by
  intro l hl r hr
  obtain ⟨hl, hlnull⟩ := column_of_mem_present hl
  obtain ⟨hr, hrnull⟩ := column_of_mem_present hr
  obtain ⟨i, hi⟩ := (h l hl).resolve_left hlnull
  obtain ⟨j, hj⟩ := (h r hr).resolve_left hrnull
  rw [hi, hj]
  exact ⟨rfl, rfl⟩

/-- A column of booleans is compared by ranks, where false comes before true. -/
theorem holdsRanked_of_bools
    (h : ∀ entry ∈ group, entry.1.column column = .null ∨ ∃ b, entry.1.column column = .bool b) :
    HoldsRanked column group := by
  intro l hl r hr
  obtain ⟨hl, hlnull⟩ := column_of_mem_present hl
  obtain ⟨hr, hrnull⟩ := column_of_mem_present hr
  obtain ⟨b, hb⟩ := (h l hl).resolve_left hlnull
  obtain ⟨c, hc⟩ := (h r hr).resolve_left hrnull
  rw [hb, hc]
  cases b <;> cases c <;> exact ⟨rfl, rfl⟩

section

variable {op : AggregateOp} {side : ComparisonOp} {x y z : Int} {seen : List (Value × Int)}

/-- An operator keeps the operand on one side of the other one. -/
def AggregateOp.KeepsSide (op : AggregateOp) (side : ComparisonOp) : Prop :=
  (op = .min ∧ side = .lte) ∨ (op = .max ∧ side = .gte)

theorem AggregateOp.KeepsSide.refl (h : op.KeepsSide side) (x : Int) :
    side.holds (compare x x) = true := by
  rcases h with ⟨-, rfl⟩ | ⟨-, rfl⟩ <;> simp [ComparisonOp.holds]

theorem AggregateOp.KeepsSide.trans (h : op.KeepsSide side)
    (hxy : side.holds (compare x y) = true) (hyz : side.holds (compare y z) = true) :
    side.holds (compare x z) = true := by
  rcases h with ⟨-, rfl⟩ | ⟨-, rfl⟩
  · rw [ComparisonOp.holds, Int.isLE_compare] at *
    exact hxy.trans hyz
  · rw [ComparisonOp.holds, Int.isGE_compare] at *
    exact hyz.trans hxy

theorem AggregateOp.KeepsSide.total (h : op.KeepsSide side)
    (hxy : ¬side.holds (compare x y) = true) : side.holds (compare y x) = true := by
  rcases h with ⟨-, rfl⟩ | ⟨-, rfl⟩
  · rw [ComparisonOp.holds, Int.isLE_compare] at *
    exact Int.le_of_lt (Int.not_le.mp hxy)
  · rw [ComparisonOp.holds, Int.isGE_compare] at *
    exact Int.le_of_lt (Int.not_le.mp hxy)

/-- What an entry makes of the least or the greatest value so far. -/
def extremumStep (op : AggregateOp) (column : Nat) (entry : Value × Int) (value : Value) :
    Except EvalError Value :=
  Value.binary (.aggregate op) value (entry.1.column column)

/-- Of two values that are there, the one that stands on the side of the operator is kept. -/
theorem AggregateOp.KeepsSide.binary_eq (h : op.KeepsSide side) {l r : Value} (hl : l ≠ .null)
    (hr : r ≠ .null) {order : Ordering} (horder : l.compareWith r = .ok order) :
    Value.binary (.aggregate op) l r = .ok (if side.holds order then l else r) := by
  have hextremum : Value.extremum side l r = .ok (if side.holds order then l else r) := by
    rw [Value.extremum, horder]
    rfl
  unfold Value.binary Value.aggregate
  dsimp only
  rw [← hextremum, if_neg (mt Value.isNull_iff.mp hl), if_neg (mt Value.isNull_iff.mp hr)]
  rcases h with ⟨rfl, rfl⟩ | ⟨rfl, rfl⟩ <;> rfl

/-- One more entry: what the step keeps is the extremum of the entries so far. -/
theorem AggregateOp.KeepsSide.extremumStep (h : op.KeepsSide side)
    (hranked : HoldsRanked column (seen ++ [entry]))
    (hv : OfPresent column seen (IsExtremum side column seen) v) :
    ∃ v', DeltaCircuit.extremumStep op column entry v = .ok v' ∧
      OfPresent column (seen ++ [entry]) (IsExtremum side column (seen ++ [entry])) v' := by
  have happend : present column (seen ++ [entry]) = present column seen ++ present column [entry] :=
    List.filter_append _ _
  unfold DeltaCircuit.extremumStep OfPresent IsExtremum HoldsRanked at *
  rw [happend] at hranked ⊢
  by_cases hnull : entry.1.column column = .null
  · -- an entry without a value changes nothing
    have hnone : present column [entry] = [] := present_cons_of_null hnull
    rw [hnone, List.append_nil, hnull]
    exact ⟨v, by cases v <;> rfl, hv⟩
  · have hone : present column [entry] = [entry] := present_cons_of_ne_null hnull
    have hlast : entry ∈ present column seen ++ [entry] :=
      List.mem_append_right _ List.mem_cons_self
    rw [hone] at hranked ⊢
    simp only [List.append_ne_nil_of_right_ne_nil _ (List.cons_ne_nil entry []), if_false]
    split at hv
    · next hseen =>
      -- the first value that is there
      subst hv
      refine ⟨entry.1.column column, rfl, ⟨entry, hlast, rfl⟩, fun other hother => ?_⟩
      rw [hseen, List.nil_append, List.mem_singleton] at hother
      rw [hother, (hranked entry hlast entry hlast).2]
      exact h.refl _
    · obtain ⟨⟨best, hbest, rfl⟩, hside⟩ := hv
      have hbest' : best ∈ present column seen ++ [entry] := List.mem_append_left _ hbest
      have hcompare := (hranked best hbest' entry hlast).1
      rw [h.binary_eq (column_of_mem_present hbest).2 hnull hcompare]
      refine ⟨_, rfl, ?_⟩
      split
      · next hholds =>
        -- the old extremum is kept
        refine ⟨⟨best, hbest', rfl⟩, fun other hother => ?_⟩
        rcases List.mem_append.mp hother with hother | hother
        · exact hside other hother
        · rw [List.mem_singleton] at hother
          rw [hother, (hranked best hbest' entry hlast).2]
          exact hholds
      · next hholds =>
        -- the new value is kept
        refine ⟨⟨entry, hlast, rfl⟩, fun other hother => ?_⟩
        rw [(hranked entry hlast other hother).2]
        rcases List.mem_append.mp hother with hseen | hother'
        · -- it stands on its side of the old extremum, and that on the same side of all others
          have hold := hside other hseen
          rw [(hranked best hbest' other hother).2] at hold
          exact h.trans (h.total hholds) hold
        · rw [List.mem_singleton] at hother'
          rw [hother']
          exact h.refl _

/-- From the extremum of some entries on, a run gives the extremum of these and the group. -/
theorem exists_runFrom_extremum {acc : Accumulator} (h : op.KeepsSide side)
    (hranked : HoldsRanked column (seen ++ group))
    (hv : OfPresent column seen (IsExtremum side column seen) v) :
    ∃ u, LoopVariable.runFrom ⟨acc, .null, extremumStep op column⟩ v group = .ok u ∧
      OfPresent column (seen ++ group) (IsExtremum side column (seen ++ group)) u := by
  -- on the group; the invariant is that the value is the extremum of the entries seen
  induction group generalizing seen v with
  | nil =>
    rw [List.append_nil]
    exact ⟨v, rfl, hv⟩
  | cons entry group ih =>
    have hsplit : seen ++ entry :: group = (seen ++ [entry]) ++ group := by
      rw [List.append_assoc, List.singleton_append]
    rw [hsplit] at hranked ⊢
    have hfirst : HoldsRanked column (seen ++ [entry]) := by
      have hmem (other : Value × Int) (hother : other ∈ present column (seen ++ [entry])) :
          other ∈ present column (seen ++ [entry] ++ group) := by
        rw [present, List.filter_append]
        exact List.mem_append_left _ hother
      exact fun l hl r hr => hranked l (hmem l hl) r (hmem r hr)
    obtain ⟨v', hstep, hv'⟩ := h.extremumStep hfirst hv
    obtain ⟨u, hrun, hu⟩ := ih hranked hv'
    refine ⟨u, ?_, hu⟩
    rw [LoopVariable.runFrom, List.foldlM_cons, Except.bind_eq_ok]
    exact ⟨v', hstep, hrun⟩

/-- **Extrema.** A run that keeps the least or the greatest value of a column always succeeds, and
it gives NULL if all its values are NULL. -/
theorem exists_run_extremum {acc : Accumulator} (h : op.KeepsSide side)
    (hranked : HoldsRanked column group) :
    ∃ u, LoopVariable.run ⟨acc, .null, extremumStep op column⟩ group = .ok u ∧
      OfPresent column group (IsExtremum side column group) u := by
  have hnone : OfPresent column [] (IsExtremum side column []) .null := by
    rw [OfPresent, present, List.filter_nil, if_pos rfl]
  exact exists_runFrom_extremum h hranked hnone

end

end DeltaCircuit
