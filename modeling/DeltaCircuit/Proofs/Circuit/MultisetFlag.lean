import DeltaCircuit.Proofs.Circuit.Streams
import DeltaCircuit.Proofs.Circuit.Validity
import DeltaCircuit.Proofs.ZSetGroups
import Mathlib.Algebra.Group.End

/-!
# What the multiset flag says

An operator without the multiset flag is meant to give weights of at most one. Distinct and
aggregate operators do. Filters, integrals, differentials, no-ops and sinks take over the flag of
what they read, and this is right as long as no running sum is taken of it and no difference of
differences: seen over time, the weights of such a stream are the `n`-th differences of weights that
are zero or one, and `n` has to be zero or one.

* `differences` — differences of a sequence of numbers, whose inverse are running sums.
* `Circuit.DifferenceOrder` — how many more differences than sums have been taken.
* `Circuit.KeepsFlag` — where the flag of an operator can be taken over.
* `Circuit.Differs` — the invariant of a whole run: the stream is the `n`-th difference of a set
  that changes over time.
* `Circuit.Built.weight_le_one` — where the flag can be relied on.
* `Circuit.not_truthful_presenceSum` — where it cannot: the running sum of a set.
-/

namespace DeltaCircuit

/-! ### Differences over time -/

/-- Differences of a sequence, which starts from zero. Their inverse are the running sums. -/
def differences : Equiv.Perm (ℕ → ℤ) where
  toFun f k := f k - match k with
    | 0 => 0
    | k + 1 => f k
  invFun f k := ((List.range (k + 1)).map f).sum
  left_inv f := by
    funext k
    induction k with
    | zero => simp
    | succ k ih =>
      dsimp only at ih ⊢
      rw [List.range_succ, List.map_append, List.sum_append, ih]
      simp
  right_inv f := by
    funext k
    cases k with
    | zero => simp
    | succ k =>
      dsimp only
      rw [List.range_succ, List.map_append, List.sum_append]
      simp

/-- The kinds whose flag is that of the operator that they read. -/
def OperatorKind.inheritsFlag (kind : OperatorKind) : Bool :=
  match kind with
  | .filter => true
  | kind => kind.isRelay

namespace Circuit

/-- **Orders of differences.** The operator is reached from one with a flag of its own through
differentials and integrals, the first of which count as `1` and the second as `-1`. If that one
gives sets, this one gives `n`-th differences of sets. A filter makes a set of a set. It makes
something else of a difference, because a row that goes may differ in its floating point numbers
from the row, equal to it, that has come. -/
inductive DifferenceOrder (c : Circuit) : OperatorId → ℤ → Prop
  | set {id : OperatorId} {op : Operator} : c.get? id = some op →
      op.kind.inheritsFlag = false → DifferenceOrder c id 0
  | filter {id input : OperatorId} {op : Operator} : c.get? id = some op → op.kind = .filter →
      op.inputs = [input] → DifferenceOrder c input 0 → DifferenceOrder c id 0
  | pass {id input : OperatorId} {op : Operator} {n : ℤ} : c.get? id = some op →
      op.kind.isNoop = true ∨ op.kind.isSink = true → op.inputs = [input] →
      DifferenceOrder c input n → DifferenceOrder c id n
  | integral {id input : OperatorId} {op : Operator} {n : ℤ} : c.get? id = some op →
      op.kind = .integral → op.inputs = [input] → DifferenceOrder c input n →
      DifferenceOrder c id (-1 + n)
  | differential {id input : OperatorId} {op : Operator} {n : ℤ} : c.get? id = some op →
      op.kind = .differential → op.inputs = [input] → DifferenceOrder c input n →
      DifferenceOrder c id (1 + n)

/-- **Where the flag keeps its meaning.** As many differentials as integrals have been applied, or
one more, and perhaps filters after that. -/
inductive KeepsFlag (c : Circuit) : OperatorId → Prop
  | set {id : OperatorId} : c.DifferenceOrder id 0 → KeepsFlag c id
  | change {id : OperatorId} : c.DifferenceOrder id 1 → KeepsFlag c id
  | part {id input : OperatorId} {op : Operator} : c.get? id = some op →
      op.kind = .filter ∨ op.kind.isNoop = true ∨ op.kind.isSink = true → op.inputs = [input] →
      KeepsFlag c input → KeepsFlag c id

/-- The flag tells the truth about the rows of a run: without it, no weight is above one. -/
def Truthful (c : Circuit) (rows : List Row) : Prop :=
  ∀ (id : Nat) op, c.get? id = some op → op.isMultiset = false →
    ∀ row ∈ rows, ∀ z, row[id]? = some z → ∀ entry ∈ z, entry.2 ≤ 1

variable {c : Circuit} {inputs : List Tables} {rows : List Row} {op : Operator} {id input k : Nat}

/-! ### The flag of a built circuit -/

theorem Derives.kind_of_set {kind : OperatorKind} {ops : List Operator} {function : Option Expr}
    {r : Ty × Bool} (h : c.Derives kind ops function r) (hflag : r.2 = false)
    (hkind : kind.inheritsFlag = false) :
    kind = .distinct ∨ ∃ keyType output, kind = .aggregate keyType output := by
  cases h with
  | distinct => exact .inl rfl
  | aggregate => exact .inr ⟨_, _, rfl⟩
  | filter => cases hkind
  | relay hrelay => cases kind <;> cases hrelay <;> cases hkind
  | _ => cases hflag

theorem Derives.inherits {kind : OperatorKind} {ops : List Operator} {function : Option Expr}
    {r : Ty × Bool} (h : c.Derives kind ops function r) (hkind : kind.inheritsFlag = true) :
    ∃ other, ops = [other] ∧ other.isMultiset = r.2 := by
  cases h with
  | filter | relay => exact ⟨_, rfl, rfl⟩
  | _ => cases hkind

/-- Only distinct and aggregate operators lack the flag by themselves. -/
theorem Built.kind_of_set (hc : c.Built) (hop : c.get? id = some op)
    (hflag : op.isMultiset = false) (hkind : op.kind.inheritsFlag = false) :
    op.kind = .distinct ∨ ∃ keyType output, op.kind = .aggregate keyType output := by
  obtain ⟨-, -, ops, -, hderive⟩ := derive_eq_ok.mp (hc.derive_take hop)
  exact hderive.kind_of_set hflag hkind

/-- A kind that takes over the flag takes it over from the one operator that it reads. -/
theorem Built.inherits (hc : c.Built) (hop : c.get? id = some op)
    (hkind : op.kind.inheritsFlag = true) :
    ∃ (input : Nat) (other : Operator), op.inputs = [input] ∧ input < id ∧
      c.get? input = some other ∧ other.isMultiset = op.isMultiset := by
  obtain ⟨-, -, ops, hops, hderive⟩ := derive_eq_ok.mp (hc.derive_take hop)
  obtain ⟨other, rfl, hflag⟩ := hderive.inherits hkind
  obtain ⟨input, rest, hget, hrest, hinputs⟩ := List.forall₂_cons_right_iff.mp hops
  obtain rfl := List.forall₂_nil_right_iff.mp hrest
  obtain ⟨hlt, hother⟩ := get?_of_get?_take hget
  exact ⟨input, other, hinputs, hlt, hother, hflag⟩

/-! ### One operator over a whole run -/

/-- **The invariant of a run.** The stream is made of maps, and it is the `n`-th difference of a set
that changes from step to step. -/
structure Differs (rows : List Row) (id : OperatorId) (n : ℤ) : Prop where
  distinct : ∀ k, (stream rows id k).Distinct
  difference : ∃ x : Value → ℕ → ℤ, (∀ v k, x v k = 0 ∨ x v k = 1) ∧
    ∀ v k, k < rows.length → streamWeight rows id v k = (differences ^ n) (x v) k

/-- A stream whose entries have weight one, step by step, is a set. -/
theorem differs_zero (h : ∀ k, k < rows.length → (stream rows id k).Distinct ∧
    ∀ entry ∈ stream rows id k, entry.2 = 0 ∨ entry.2 = 1) : Differs rows id 0 where
  distinct k := by
    rcases Nat.lt_or_ge k rows.length with hk | hk
    · exact (h k hk).1
    · rw [stream_of_le hk]
      exact Weighted.distinct_nil
  difference := by
    refine ⟨streamWeight rows id, fun v k => ?_, fun v k _ => rfl⟩
    rw [← weight_stream]
    rcases Nat.lt_or_ge k rows.length with hk | hk
    · rcases @Weighted.weight_cases _ Value.same (stream rows id k) v with
        ⟨entry, hentry, -, hweight⟩ | hzero
      · rw [ZSet.weight, ← hweight]
        exact (h k hk).2 entry hentry
      · exact .inl hzero
    · rw [stream_of_le hk]
      exact .inl rfl

/-- A set has entries of weight zero or one. -/
theorem Differs.entry_of_zero (h : Differs rows id 0) (hk : k < rows.length)
    {entry : Value × Int} (hentry : entry ∈ stream rows id k) :
    entry.2 = 0 ∨ entry.2 = 1 := by
  obtain ⟨x, hx, hdifference⟩ := h.difference
  have hweight : (stream rows id k).weight entry.1 = entry.2 :=
    (h.distinct k).weight_of_mem Value.same_equivalence hentry
  rw [← hweight, weight_stream, hdifference entry.1 k hk, zpow_zero]
  exact hx entry.1 k

/-- A set or the difference of two sets has entries of weight at most one. -/
theorem Differs.entry_le_one {n : ℤ} (h : Differs rows id n) (hn : n = 0 ∨ n = 1)
    (hk : k < rows.length) {entry : Value × Int} (hentry : entry ∈ stream rows id k) :
    entry.2 ≤ 1 := by
  rcases hn with rfl | rfl
  · rcases h.entry_of_zero hk hentry with hzero | hone <;> omega
  · obtain ⟨x, hx, hdifference⟩ := h.difference
    have hweight : (stream rows id k).weight entry.1 = entry.2 :=
      (h.distinct k).weight_of_mem Value.same_equivalence hentry
    rw [← hweight, weight_stream, hdifference entry.1 k hk, zpow_one]
    -- one minus zero is the most that two sets can differ by
    have hnow := hx entry.1 k
    cases k with
    | zero =>
      show x entry.1 0 - 0 ≤ 1
      omega
    | succ k =>
      have hbefore := hx entry.1 k
      show x entry.1 (k + 1) - x entry.1 k ≤ 1
      omega

section Steps

variable (h : c.Traces [] inputs rows) (hop : c.get? id = some op)

include h hop

/-- Distinct and aggregate operators give sets. -/
theorem Traces.differs_set
    (hkind : op.kind = .distinct ∨ ∃ keyType output, op.kind = .aggregate keyType output) :
    Differs rows id 0 := by
  have hstateless : op.kind ≠ .integral ∧ op.kind ≠ .differential := by
    rcases hkind with hkind | ⟨_, _, hkind⟩ <;> simp [hkind]
  refine differs_zero fun k hk => ?_
  obtain ⟨tables, hz⟩ := h.makes hop hstateless.1 hstateless.2 hk
  generalize stream rows id k = out at hz ⊢
  rcases hkind with hkind | ⟨keyType, output, hkind⟩
  · rw [hkind] at hz
    cases hz with
    | @distinct x =>
      exact ⟨ZSet.distinct_distinct x, fun entry hentry => .inr (ZSet.once_distinct entry hentry)⟩
  · rw [hkind] at hz
    cases hz with
    | aggregate _ _ hx =>
      exact ⟨ZSet.distinct_of_aggregate hx,
        fun entry hentry => .inr (ZSet.once_aggregate hx entry hentry)⟩

variable (hinputs : op.inputs = [input])

include hinputs

/-- What a filter gives is a part of what it reads. -/
theorem Traces.mem_stream_filter (hkind : op.kind = .filter)
    (hd : (stream rows input k).Distinct) (hk : k < rows.length) :
    (stream rows id k).Distinct ∧
      ∀ entry ∈ stream rows id k, entry ∈ stream rows input k := by
  obtain ⟨tables, hz⟩ := h.makes hop (by simp [hkind]) (by simp [hkind]) hk
  rw [hkind] at hz
  generalize stream rows id k = out at hz ⊢
  cases hz with
  | filter hx _ hfilter =>
    obtain rfl := slot_eq (by rw [hinputs]; rfl) hk hx
    refine ⟨ZSet.distinct_of_filterBy hfilter, fun entry hentry => ?_⟩
    rw [ZSet.filterBy_eq_ok hd hfilter] at hentry
    exact List.mem_of_mem_filter (ZSet.mem_support.mp hentry).1

theorem Traces.differs_filter (hkind : op.kind = .filter) (hinput : Differs rows input 0) :
    Differs rows id 0 := by
  refine differs_zero fun k hk => ?_
  obtain ⟨hd, hmem⟩ := h.mem_stream_filter hop hinputs hkind (hinput.distinct k) hk
  exact ⟨hd, fun entry hentry => hinput.entry_of_zero hk (hmem entry hentry)⟩

theorem Traces.differs_pass {n : ℤ} (hkind : op.kind.isNoop = true ∨ op.kind.isSink = true)
    (hinput : Differs rows input n) : Differs rows id n := by
  have hsame (k : Nat) : stream rows id k = stream rows input k := by
    rcases Nat.lt_or_ge k rows.length with hk | hk
    · exact h.stream_pass hop (by rw [hinputs]; rfl) hkind hk
    · rw [stream_of_le hk, stream_of_le hk]
  obtain ⟨x, hx, hdifference⟩ := hinput.difference
  refine ⟨fun k => hsame k ▸ hinput.distinct k, x, hx, fun v k hk => ?_⟩
  rw [← weight_stream, hsame k, weight_stream, hdifference v k hk]

theorem Traces.differs_integral {n : ℤ} (hkind : op.kind = .integral)
    (hinput : Differs rows input n) : Differs rows id (-1 + n) := by
  have hread : op.inputs[0]? = some input := by rw [hinputs]; rfl
  obtain ⟨x, hx, hdifference⟩ := hinput.difference
  refine ⟨fun k => ?_, x, hx, fun v k hk => ?_⟩
  · rcases Nat.lt_or_ge k rows.length with hk | hk
    · exact ZSet.distinct_of_accumulate (h.stream_integral hop hread hkind hk)
    · rw [stream_of_le hk]
      exact Weighted.distinct_nil
  · -- a running sum undoes one difference
    rw [h.streamWeight_integral hop hread hkind hk hinput.distinct, zpow_add, zpow_neg_one,
      Equiv.Perm.mul_apply]
    refine congrArg List.sum (List.map_congr_left fun i hi => ?_)
    exact hdifference v i (by have := List.mem_range.mp hi; omega)

theorem Traces.differs_differential {n : ℤ} (hkind : op.kind = .differential)
    (hinput : Differs rows input n) : Differs rows id (1 + n) := by
  have hread : op.inputs[0]? = some input := by rw [hinputs]; rfl
  obtain ⟨x, hx, hdifference⟩ := hinput.difference
  refine ⟨fun k => ?_, x, hx, fun v k hk => ?_⟩
  · rcases Nat.lt_or_ge k rows.length with hk | hk
    · cases k with
      | zero =>
        rw [h.stream_differential_zero hop hread hkind hk]
        exact hinput.distinct 0
      | succ k =>
        exact (hinput.distinct (k + 1)).merge (h.stream_differential_succ hop hread hkind hk)
    · rw [stream_of_le hk]
      exact Weighted.distinct_nil
  · rw [h.streamWeight_differential hop hread hkind hk hinput.distinct, zpow_one_add,
      Equiv.Perm.mul_apply, hdifference v k hk]
    cases k with
    | zero => rfl
    | succ k =>
      rw [streamWeightBefore, hdifference v k (Nat.lt_of_succ_lt hk)]
      rfl

end Steps

/-! ### Whole circuits -/

/-- What takes over its flag has read an operator of the same flag. -/
theorem Built.unflagged_input (hc : c.Built) (hop : c.get? id = some op)
    (hkind : op.kind.inheritsFlag = true) (hinputs : op.inputs = [input])
    (hflag : ∃ op, c.get? id = some op ∧ op.isMultiset = false) :
    ∃ other, c.get? input = some other ∧ other.isMultiset = false := by
  obtain ⟨op', hop', hflag⟩ := hflag
  obtain rfl := Option.some.inj (hop'.symm.trans hop)
  obtain ⟨input', other, hinputs', -, hother, hsame⟩ := hc.inherits hop hkind
  obtain ⟨rfl, -⟩ := List.cons.inj (hinputs.symm.trans hinputs')
  exact ⟨other, hother, hsame.trans hflag⟩

theorem inheritsFlag_of_pass (hkind : op.kind.isNoop = true ∨ op.kind.isSink = true) :
    op.kind.inheritsFlag = true := by
  rcases hkind with hkind | hkind <;> cases hcase : op.kind <;>
    simp_all [OperatorKind.isNoop, OperatorKind.isSink, OperatorKind.inheritsFlag,
      OperatorKind.isRelay]

/-- **Runs keep the invariant.** Without the flag, the order of an operator tells what its stream is
in every run. -/
theorem DifferenceOrder.differs {n : ℤ} (hid : c.DifferenceOrder id n) (hc : c.Built)
    (h : c.Traces [] inputs rows) (hflag : ∃ op, c.get? id = some op ∧ op.isMultiset = false) :
    Differs rows id n := by
  induction hid with
  | set hop hkind =>
    obtain ⟨op', hop', hflag⟩ := hflag
    obtain rfl := Option.some.inj (hop'.symm.trans hop)
    exact h.differs_set hop (hc.kind_of_set hop hflag hkind)
  | filter hop hkind hinputs _ ih =>
    have hinput := hc.unflagged_input hop (by rw [hkind]; rfl) hinputs hflag
    exact h.differs_filter hop hinputs hkind (ih hinput)
  | pass hop hkind hinputs _ ih =>
    have hinput := hc.unflagged_input hop (inheritsFlag_of_pass hkind) hinputs hflag
    exact h.differs_pass hop hinputs hkind (ih hinput)
  | integral hop hkind hinputs _ ih =>
    have hinput := hc.unflagged_input hop (by rw [hkind]; rfl) hinputs hflag
    exact h.differs_integral hop hinputs hkind (ih hinput)
  | differential hop hkind hinputs _ ih =>
    have hinput := hc.unflagged_input hop (by rw [hkind]; rfl) hinputs hflag
    exact h.differs_differential hop hinputs hkind (ih hinput)

/-- Where the flag keeps its meaning, its absence bounds the weights of a run. -/
theorem KeepsFlag.entry_le_one (hid : c.KeepsFlag id) (hc : c.Built)
    (h : c.Traces [] inputs rows) (hk : k < rows.length)
    (hflag : ∃ op, c.get? id = some op ∧ op.isMultiset = false) :
    (stream rows id k).Distinct ∧ ∀ entry ∈ stream rows id k, entry.2 ≤ 1 := by
  induction hid with
  | set hset =>
    have hdiffers := hset.differs hc h hflag
    exact ⟨hdiffers.distinct k, fun entry => hdiffers.entry_le_one (.inl rfl) hk⟩
  | change hchange =>
    have hdiffers := hchange.differs hc h hflag
    exact ⟨hdiffers.distinct k, fun entry => hdiffers.entry_le_one (.inr rfl) hk⟩
  | part hop hkind hinputs _ ih =>
    rcases hkind with hfilter | hpass
    · obtain ⟨hd, hle⟩ := ih (hc.unflagged_input hop (by rw [hfilter]; rfl) hinputs hflag)
      obtain ⟨hd, hmem⟩ := h.mem_stream_filter hop hinputs hfilter hd hk
      exact ⟨hd, fun entry hentry => hle entry (hmem entry hentry)⟩
    · rw [h.stream_pass hop (by rw [hinputs]; rfl) hpass hk]
      exact ih (hc.unflagged_input hop (inheritsFlag_of_pass hpass) hinputs hflag)

/-- Without integrals and differentials, the flag keeps its meaning everywhere. -/
theorem Built.keepsFlag (hc : c.Built)
    (hkinds : ∀ op ∈ c.operators, op.kind ≠ .integral ∧ op.kind ≠ .differential)
    (hop : c.get? id = some op) : c.DifferenceOrder id 0 := by
  induction id using Nat.strong_induction_on generalizing op with
  | h id ih =>
    obtain ⟨hintegral, hdifferential⟩ := hkinds op (List.mem_of_getElem? hop)
    by_cases hkind : op.kind.inheritsFlag = true
    · obtain ⟨input, other, hinputs, hlt, hother, -⟩ := hc.inherits hop hkind
      have hinput := ih input hlt hother
      cases hcase : op.kind with
      | filter => exact .filter hop hcase hinputs hinput
      | noop => exact .pass hop (.inl (by rw [hcase]; rfl)) hinputs hinput
      | sink _ _ _ => exact .pass hop (.inr (by rw [hcase]; rfl)) hinputs hinput
      | integral => exact absurd hcase hintegral
      | differential => exact absurd hcase hdifferential
      | _ =>
        rw [hcase] at hkind
        cases hkind
    · exact .set hop (Bool.eq_false_iff.mpr hkind)

/-- **The flag tells the truth** about an operator on which it keeps its meaning: in a built
circuit, and a run of any length, an operator without the flag never gives a weight above one. -/
theorem Built.weight_le_one (hc : c.Built) (hop : c.get? id = some op)
    (hflag : op.isMultiset = false) (hid : c.KeepsFlag id) (h : c.Traces [] inputs rows) :
    ∀ row ∈ rows, ∀ z, row[id]? = some z → ∀ entry ∈ z, entry.2 ≤ 1 := by
  intro row hrow z hz entry hentry
  obtain ⟨k, hk, rfl⟩ := List.mem_iff_getElem.mp hrow
  obtain rfl := stream_eq hk hz
  exact (hid.entry_le_one hc h hk ⟨op, hop, hflag⟩).2 entry hentry

/-- Which rows of a table come and go, whatever their number. -/
def presenceChange : Circuit :=
  (((empty "presence").push ⟨.source "t" .bool, [], none, .zset .bool, true⟩).push
    ⟨.distinct, [0], none, .zset .bool, false⟩).push
    ⟨.differential, [1], none, .zset .bool, false⟩

/-- A row comes twice, is gone in the next step, and comes again. -/
theorem presenceChange_weight_le_one :
    ∃ rows, presenceChange.Traces [] [[("t", [(.bool true, 2)])], [], [("t", [(.bool true, 1)])]]
      rows ∧ ∀ row ∈ rows, ∀ z, row[2]? = some z → ∀ entry ∈ z, entry.2 ≤ 1 := by
  have hc : presenceChange.Built := .push (.push (.push (.empty _) rfl) rfl) rfl
  have hrun : presenceChange.run [[("t", [(.bool true, 2)])], [], [("t", [(.bool true, 1)])]] =
      .ok [[], [], []] := rfl
  obtain ⟨rows, hrows, -⟩ := (run_eq_ok_iff hc.ordered).mp hrun
  have hset : presenceChange.DifferenceOrder 1 0 := .set rfl rfl
  have hchange : presenceChange.KeepsFlag 2 := .change (.differential rfl rfl rfl hset)
  exact ⟨rows, hrows, hc.weight_le_one rfl rfl hchange hrows⟩

/-- In how many steps every row of a table has been there. -/
def presenceSum : Circuit :=
  ((((empty "presence").push ⟨.source "t" .bool, [], none, .zset .bool, true⟩).push
    ⟨.distinct, [0], none, .zset .bool, false⟩).push
    ⟨.integral, [1], none, .zset .bool, false⟩).push
    ⟨.sink "v" "" none, [2], none, .zset .bool, false⟩

theorem valid_presenceSum : presenceSum.Valid where
  built := .push (.push (.push (.push (.empty _) rfl) rfl) rfl) rfl
  functions op hop f hf := by
    -- no operator of the circuit has a function
    have hnone : ∀ op ∈ presenceSum.operators, op.function = none := by
      simp [presenceSum, Circuit.empty, Circuit.push]
    cases (hnone op hop).symm.trans hf

/-- **The flag of a running sum is wrong.** It is taken over from the set that is summed up, and a
row that is there in two steps has the weight two. -/
theorem not_truthful_presenceSum :
    ¬ ∀ (c : Circuit) (inputs : List Tables) (rows : List Row), c.Valid →
      (∀ tables ∈ inputs, ∀ given ∈ tables, ∀ entry ∈ given.2, entry.2 ≠ 0) →
      c.Traces [] inputs rows → c.Truthful rows := by
  intro htruthful
  have hrun : presenceSum.run [[("t", [(.bool true, 1)])], [("t", [(.bool true, 1)])]] =
      .ok [[("v", [(.bool true, 1)])], [("v", [(.bool true, 2)])]] := rfl
  obtain ⟨rows, hrows, houts⟩ := (run_eq_ok_iff valid_presenceSum.built.ordered).mp hrun
  obtain ⟨first, second, rfl⟩ := List.length_eq_two.mp hrows.length_eq
  have hlength : second.length = 4 := hrows.length_of_mem second (by simp)
  -- the sink shows the weight two in the second step
  have hsink : presenceSum.sinkOutputs second = [("v", (second[3]?).getD [])] :=
    sinkOutputs_eq presenceSum second hlength
  have hshown : (second[3]?).getD [] = [(.bool true, 2)] := by
    simp only [List.map_cons, List.map_nil, hsink, List.cons.injEq, Prod.mk.injEq] at houts
    exact houts.2.1.1.2.symm
  have hz : second[3]? = some [(.bool true, 2)] := by
    rw [← hshown, List.getElem?_eq_getElem (hlength ▸ Nat.lt_succ_self 3), Option.getD_some]
  have hle := htruthful presenceSum _ _ valid_presenceSum (by simp) hrows 3 _ rfl rfl second
    (by simp) _ hz (.bool true, 2) List.mem_cons_self
  exact absurd hle (by decide)

end Circuit
end DeltaCircuit
