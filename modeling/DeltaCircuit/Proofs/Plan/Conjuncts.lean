import DeltaCircuit.Proofs.Plan.JoinCondition
import Mathlib.Data.List.TakeWhile

/-!
# The conjuncts of a join condition

A join condition is read as nested conjunctions of any number of operands, the empty ones included.
Its conjuncts are the leaves of that structure, and the splitting of the condition looks at them
from left to right: those before the first one that is no key become keys, and what is left over is
the outermost conjunction that is not finished when that one is met.

* `ScalarExpr.conjuncts` — the leaves, each with its place in the condition.
* `ScalarExpr.isJoinKey`, `JoinKey.Tests` — the conjuncts that are keys, and the key of each.
* `ScalarExpr.pending`, `ScalarExpr.rest?` — what is left over, read off the condition alone.
* `ScalarExpr.SplitsInto`, `ScalarExpr.splitsInto_of_decompose` — the splitting does just that.
* `ScalarExpr.truth` — the truth of a condition when its conjuncts are true, false or unknown.
* `ScalarExpr.joinCondition_keeps_conjuncts` — no conjunct is lost.
-/

/-- A prefix of items with a property that ends in the first list does not reach the second. -/
theorem List.takeWhile_append_of_mem {α : Type} {p : α → Bool} {as bs : List α} {a : α}
    (ha : a ∈ as) (hp : p a = false) : (as ++ bs).takeWhile p = as.takeWhile p := by
  induction as with
  | nil => cases ha
  | cons b as ih =>
    rw [cons_append, takeWhile_cons, takeWhile_cons]
    split
    · next hb =>
      rcases mem_cons.mp ha with rfl | ha
      · cases hb.symm.trans hp
      · rw [ih ha]
    · rfl

namespace DeltaCircuit

/-! ### Conjuncts and their places -/

namespace ScalarExpr

/-- Where a part of a condition stands: the numbers of the operands that lead to it. -/
abbrev Place := List Nat

mutual

/-- The conjuncts of nested conjunctions from left to right, each with its place. -/
def conjuncts : ScalarExpr → List (Place × ScalarExpr)
  | .call .and operands _ => conjunctsFrom operands 0
  | e => [([], e)]
termination_by structural x => x

/-- The conjuncts of operands, the first of which has the number `n`. -/
def conjunctsFrom : List ScalarExpr → (n : Nat) → List (Place × ScalarExpr)
  | [], _ => []
  | e :: es, n => (e.conjuncts.map fun leaf => (n :: leaf.1, leaf.2)) ++ conjunctsFrom es (n + 1)
termination_by structural x => x

end

/-- Whether an expression is the equality of a column of the one input and one of the other. -/
def isJoinKey (w : JoinWidths) : ScalarExpr → Bool
  | .call .equals [.column i _, .column j _] _ =>
    (i < w.left && w.left ≤ j && j < w.left + w.right) ||
      (j < w.left && w.left ≤ i && i < w.left + w.right)
  | _ => false

/-- The conjuncts before the first one that is no key. -/
def keyConjuncts (w : JoinWidths) (e : ScalarExpr) : List (Place × ScalarExpr) :=
  e.conjuncts.takeWhile fun leaf => leaf.2.isJoinKey w

/-- On the way to a conjunct, the outermost conjunction with further operands after the one that
leads there, and its place. Without such a conjunction it is the conjunct itself. -/
def pending : Place → ScalarExpr → Place × ScalarExpr
  | n :: place, .call .and operands type =>
    match operands[n]? with
    | some operand =>
      if n + 1 < operands.length then ([], .call .and operands type)
      else (n :: (pending place operand).1, (pending place operand).2)
    | none => ([], .call .and operands type)
  | _, e => ([], e)

/-- What the first conjunct that is no key leaves over, and its place. -/
def rest? (w : JoinWidths) (e : ScalarExpr) : Option (Place × ScalarExpr) :=
  (e.conjuncts.find? fun leaf => !leaf.2.isJoinKey w).map fun leaf => pending leaf.1 e

end ScalarExpr

/-- The key that an equality of a left and a right column, in either order, stands for. Its type is
the common type of the two, made not to admit NULL. -/
inductive JoinKey.Tests (w : JoinWidths) : JoinKey → ScalarExpr → Prop where
  | leftRight {i j : Nat} {ti tj type common own : Ty} :
    i < w.left → w.left ≤ j → j < w.left + w.right → ti.unify tj = .ok common →
      common.withNullable false = .ok own →
        Tests w ⟨i, j - w.left, own⟩ (.call .equals [.column i ti, .column j tj] type)
  | rightLeft {i j : Nat} {ti tj type common own : Ty} :
    i < w.left → w.left ≤ j → j < w.left + w.right → ti.unify tj = .ok common →
      common.withNullable false = .ok own →
        Tests w ⟨i, j - w.left, own⟩ (.call .equals [.column j tj, .column i ti] type)

/-- A key compares a column of each input, and its type does not admit NULL. -/
theorem JoinKey.Tests.bounds {w : JoinWidths} {key : JoinKey} {e : ScalarExpr}
    (h : key.Tests w e) :
    key.leftColumn < w.left ∧ key.rightColumn < w.right ∧ key.type.nullable = false := by
  cases h with
  | leftRight hi hj hlt hcommon hown =>
    exact ⟨hi, by dsimp only; omega, Ty.nullable_of_withNullable hown⟩
  | rightLeft hi hj hlt hcommon hown =>
    exact ⟨hi, by dsimp only; omega, Ty.nullable_of_withNullable hown⟩

namespace ScalarExpr

variable {w : JoinWidths} {a b e : ScalarExpr} {es pre : List ScalarExpr} {c : JoinCondition}
  {key : JoinKey} {type : Ty} {n : Nat}

/-! ### The first conjunct that is no key -/

/-- The splitting of a condition, told by its conjuncts. -/
structure SplitsInto (w : JoinWidths) (e : ScalarExpr) (c : JoinCondition) : Prop where
  keys : List.Forall₂ (fun leaf key => JoinKey.Tests w key leaf.2) (e.keyConjuncts w) c.keys
  residual : c.residual = (e.rest? w).map Prod.snd

theorem joinKey_tests {i j : Nat} {ti tj : Ty} (h : joinKey i j ti tj = .ok key) :
    ∃ common own, ti.unify tj = .ok common ∧ common.withNullable false = .ok own ∧
      key = ⟨i, j, own⟩ := by
  unfold joinKey at h
  obtain ⟨common, hcommon, h⟩ := Except.bind_eq_ok.mp h
  obtain ⟨own, hown, h⟩ := Except.bind_eq_ok.mp h
  exact ⟨common, own, ofTerm_eq_ok.mp hcommon, ofTerm_eq_ok.mp hown, (Except.ok.inj h).symm⟩

/-- A side is a column of the input that it names; other expressions have none. -/
theorem side_eq_ok {found : Option (JoinSide × Ty)} (h : e.side w = .ok found) :
    (∃ i t, e = .column i t ∧ i < w.left ∧ found = some (.left i, t)) ∨
    (∃ j t, e = .column j t ∧ w.left ≤ j ∧ j < w.left + w.right ∧
      found = some (.right (j - w.left), t)) ∨
    ((∀ i t, e ≠ .column i t) ∧ found = none) := by
  unfold side at h
  split at h
  · next i t =>
    split at h
    · cases h
    · next hlt =>
      split at h
      · next hleft => exact .inl ⟨i, t, rfl, hleft, (Except.ok.inj h).symm⟩
      · next hright =>
        exact .inr (.inl ⟨i, t, rfl, by omega, by omega, (Except.ok.inj h).symm⟩)
  · next hother => exact .inr (.inr ⟨hother, (Except.ok.inj h).symm⟩)

/-- Other operands than columns make no key. -/
theorem isJoinKey_of_not_column (h : (∀ i t, a ≠ .column i t) ∨ ∀ j t, b ≠ .column j t) :
    isJoinKey w (.call .equals [a, b] type) = false := by
  unfold isJoinKey
  split
  · next heq => simp_all
  · rfl

/-- An equality is a key iff it compares a column of the one input with one of the other. -/
theorem equalityKey_eq_ok {found : Option JoinKey} (h : equalityKey w a b = .ok found)
    (type : Ty) :
    (∃ key, found = some key ∧ key.Tests w (.call .equals [a, b] type) ∧
      isJoinKey w (.call .equals [a, b] type) = true) ∨
    (found = none ∧ isJoinKey w (.call .equals [a, b] type) = false) := by
  unfold equalityKey at h
  obtain ⟨left, hleft, h⟩ := Except.bind_eq_ok.mp h
  obtain ⟨right, hright, h⟩ := Except.bind_eq_ok.mp h
  rcases side_eq_ok hleft with ⟨i, ti, rfl, hi, rfl⟩ | ⟨i, ti, rfl, hi, hi', rfl⟩ | ⟨ha, rfl⟩
  · rcases side_eq_ok hright with ⟨j, tj, rfl, hj, rfl⟩ | ⟨j, tj, rfl, hj, hj', rfl⟩ | ⟨hb, rfl⟩
    · -- two left columns
      refine .inr ⟨(Except.ok.inj h).symm, ?_⟩
      simp [isJoinKey, Nat.not_le.mpr hi, Nat.not_le.mpr hj]
    · -- a left and a right column
      obtain ⟨key, hkey, hfound⟩ := Except.functor_map_eq_ok.mp h
      obtain ⟨common, own, hcommon, hown, rfl⟩ := joinKey_tests hkey
      refine .inl ⟨_, hfound.symm, .leftRight hi hj hj' hcommon hown, ?_⟩
      simp [isJoinKey, hi, hj, hj']
    · exact .inr ⟨(Except.ok.inj h).symm, isJoinKey_of_not_column (.inr hb)⟩
  · rcases side_eq_ok hright with ⟨j, tj, rfl, hj, rfl⟩ | ⟨j, tj, rfl, hj, hj', rfl⟩ | ⟨hb, rfl⟩
    · -- a right and a left column
      obtain ⟨key, hkey, hfound⟩ := Except.functor_map_eq_ok.mp h
      obtain ⟨common, own, hcommon, hown, rfl⟩ := joinKey_tests hkey
      refine .inl ⟨_, hfound.symm, .rightLeft hj hi hi' hcommon hown, ?_⟩
      simp [isJoinKey, hi, hj, hi']
    · -- two right columns
      refine .inr ⟨(Except.ok.inj h).symm, ?_⟩
      simp [isJoinKey, Nat.not_lt.mpr hi, Nat.not_lt.mpr hj]
    · exact .inr ⟨(Except.ok.inj h).symm, isJoinKey_of_not_column (.inr hb)⟩
  · exact .inr ⟨(Except.ok.inj h).symm, isJoinKey_of_not_column (.inl ha)⟩

theorem conjuncts_of_not_and (h : ∀ operands type, e ≠ .call .and operands type) :
    e.conjuncts = [([], e)] := by
  unfold conjuncts
  split
  · exact absurd rfl (h _ _)
  · rfl

/-- A single conjunct is a key, or else it is left over as it is. -/
theorem splitsInto_leaf (hother : ∀ operands type, e ≠ .call .and operands type)
    (h : e.decompose w = .ok c) : e.SplitsInto w c := by
  have hconjuncts := conjuncts_of_not_and hother
  have hrest (hkey : e.isJoinKey w = false) : e.SplitsInto w ⟨[], some e⟩ := by
    constructor
    · simp [keyConjuncts, hconjuncts, hkey]
    · simp [rest?, hconjuncts, hkey, pending]
  unfold decompose at h
  split at h
  · exact absurd rfl (hother _ _)
  · next a b type =>
    obtain ⟨found, hfound, h⟩ := Except.bind_eq_ok.mp h
    rcases equalityKey_eq_ok hfound type with ⟨key, rfl, htests, hkey⟩ | ⟨rfl, hkey⟩
    · obtain rfl := Except.ok.inj h
      constructor
      · simp [keyConjuncts, hconjuncts, hkey, htests]
      · simp [rest?, hconjuncts, hkey]
    · obtain rfl := Except.ok.inj h
      exact hrest hkey
  · next hequals =>
    obtain rfl := Except.ok.inj h
    refine hrest ?_
    unfold isJoinKey
    split
    · exact absurd rfl (hequals _ _ _)
    · rfl

/-- In an operand of a conjunction, the conjunction is left over if other operands follow. -/
theorem pending_operand (place : Place) :
    pending (pre.length :: place) (.call .and (pre ++ e :: es) type) =
      if es = [] then (pre.length :: (pending place e).1, (pending place e).2)
      else ([], .call .and (pre ++ e :: es) type) := by
  cases es with
  | nil => simp [pending]
  | cons a es => simp [pending]

/-- An operand with a conjunct that is no key is where the keys of the conjunction end. -/
theorem conjunctsFrom_stop {leaf : Place × ScalarExpr} (es : List ScalarExpr) (i : Nat)
    (h : (e.conjuncts.find? fun leaf => !leaf.2.isJoinKey w) = some leaf) :
    ((conjunctsFrom (e :: es) i).takeWhile fun leaf => leaf.2.isJoinKey w) =
        (e.conjuncts.takeWhile fun leaf => leaf.2.isJoinKey w).map
          (fun leaf => (i :: leaf.1, leaf.2)) ∧
      ((conjunctsFrom (e :: es) i).find? fun leaf => !leaf.2.isJoinKey w) =
        some (i :: leaf.1, leaf.2) := by
  have hmem : (i :: leaf.1, leaf.2) ∈ e.conjuncts.map fun leaf => (i :: leaf.1, leaf.2) :=
    List.mem_map_of_mem (List.mem_of_find?_eq_some h)
  have hno : leaf.2.isJoinKey w = false := by simpa using List.find?_some h
  rw [conjunctsFrom]
  constructor
  · rw [List.takeWhile_append_of_mem hmem hno, List.takeWhile_map]
    rfl
  · rw [List.find?_append, List.find?_map]
    simp only [Function.comp_def, h, Option.map_some, Option.some_or]

/-- An operand whose conjuncts are all keys is passed. -/
theorem conjunctsFrom_pass (es : List ScalarExpr) (i : Nat)
    (h : (e.conjuncts.find? fun leaf => !leaf.2.isJoinKey w) = none) :
    ((conjunctsFrom (e :: es) i).takeWhile fun leaf => leaf.2.isJoinKey w) =
        e.conjuncts.map (fun leaf => (i :: leaf.1, leaf.2)) ++
          (conjunctsFrom es (i + 1)).takeWhile (fun leaf => leaf.2.isJoinKey w) ∧
      ((conjunctsFrom (e :: es) i).find? fun leaf => !leaf.2.isJoinKey w) =
        (conjunctsFrom es (i + 1)).find? fun leaf => !leaf.2.isJoinKey w := by
  have hall : ∀ leaf ∈ e.conjuncts, leaf.2.isJoinKey w = true := by simpa using h
  have hshifted : ∀ leaf ∈ e.conjuncts.map fun leaf => (i :: leaf.1, leaf.2),
      leaf.2.isJoinKey w = true := List.forall_mem_map.mpr hall
  rw [conjunctsFrom]
  constructor
  · rw [List.takeWhile_append_of_pos hshifted]
  · rw [List.find?_append, List.find?_map]
    simp only [Function.comp_def, h, Option.map_none, Option.none_or]

/-- The conjuncts of operands are split from the first operand on. What is left over in an operand
is left over in the conjunction, unless other operands follow. -/
theorem splitsInto_operands (pre : List ScalarExpr)
    (ih : ∀ e ∈ es, ∀ c, e.decompose w = .ok c → e.SplitsInto w c)
    (h : decomposeAll w (.call .and (pre ++ es) type) es = .ok c) :
    List.Forall₂ (fun leaf key => JoinKey.Tests w key leaf.2)
      ((conjunctsFrom es pre.length).takeWhile fun leaf => leaf.2.isJoinKey w) c.keys ∧
    c.residual = ((conjunctsFrom es pre.length).find? fun leaf => !leaf.2.isJoinKey w).map
      fun leaf => (pending leaf.1 (.call .and (pre ++ es) type)).2 := by
  -- on the operands still to be split; those in front had keys only
  induction es generalizing pre c with
  | nil =>
    obtain rfl := Except.ok.inj h
    exact ⟨.nil, rfl⟩
  | cons e es ihes =>
    rw [decomposeAll, Except.bind_eq_ok] at h
    obtain ⟨first, hfirst, h⟩ := h
    obtain ⟨hkeys, hresidual⟩ := ih e List.mem_cons_self first hfirst
    rw [rest?] at hresidual
    cases hrest : e.conjuncts.find? fun leaf => !leaf.2.isJoinKey w with
    | some leaf =>
      -- the splitting stops in this operand
      obtain ⟨hleading, hfind⟩ := conjunctsFrom_stop es pre.length hrest
      rw [hresidual, hrest] at h
      obtain rfl := Except.ok.inj h
      rw [hleading, hfind, List.forall₂_map_left_iff, Option.map_some, pending_operand]
      refine ⟨hkeys, ?_⟩
      cases es <;> rfl
    | none =>
      -- all conjuncts of this operand are keys, and the next operands are split
      obtain ⟨hleading, hfind⟩ := conjunctsFrom_pass es pre.length hrest
      rw [hresidual, hrest] at h
      obtain ⟨others, hothers, h⟩ := Except.bind_eq_ok.mp h
      obtain rfl := Except.ok.inj h
      have hwhole : pre ++ e :: es = (pre ++ [e]) ++ es := by simp
      rw [hwhole] at hothers ⊢
      obtain ⟨hkeys', hresidual'⟩ := ihes _ (fun x hx => ih x (List.mem_cons_of_mem _ hx)) hothers
      rw [List.length_append, List.length_singleton] at hkeys' hresidual'
      have hall : ∀ leaf ∈ e.conjuncts, leaf.2.isJoinKey w = true := by simpa using hrest
      rw [keyConjuncts, List.takeWhile_eq_self_iff.mpr hall] at hkeys
      rw [hleading, hfind]
      exact ⟨List.rel_append (List.forall₂_map_left_iff.mpr hkeys) hkeys', hresidual'⟩

/-- **Splitting.** The keys are those of the conjuncts before the first one that is no key, and the
rest is what that conjunct leaves over. -/
theorem splitsInto_of_decompose (e : ScalarExpr) :
    ∀ c, e.decompose w = .ok c → e.SplitsInto w c := by
  induction e using conjunction_induction with
  | conjunction operands type ih =>
    intro c h
    rw [decompose] at h
    obtain ⟨hkeys, hresidual⟩ := splitsInto_operands [] ih h
    constructor
    · rw [keyConjuncts, conjuncts]
      exact hkeys
    · rw [rest?, conjuncts, Option.map_map]
      exact hresidual
  | other e hother => exact fun c h => splitsInto_leaf hother h

/-! ### Truth -/

/-- Three-valued conjunction of any number of values, where `none` is unknown. -/
def conjunction (values : List (Option Bool)) : Option Bool :=
  if some false ∈ values then some false else if none ∈ values then none else some true

mutual

/-- The truth of a condition when each conjunct has the value that is given for its place. -/
def truth (valuation : Place → Option Bool) : ScalarExpr → Option Bool
  | .call .and operands _ => conjunction (truths valuation operands 0)
  | _ => valuation []
termination_by structural x => x

/-- The truths of operands, the first of which has the number `n`. -/
def truths (valuation : Place → Option Bool) : List ScalarExpr → (n : Nat) → List (Option Bool)
  | [], _ => []
  | e :: es, n => e.truth (fun place => valuation (n :: place)) :: truths valuation es (n + 1)
termination_by structural x => x

end

/-- A truth value as the value of an expression. -/
def ofTruth : Option Bool → Value
  | some b => .bool b
  | none => .null

/-- The conjunction of two operands is the one that the interpreter computes. -/
theorem logical_and_ofTruth (a b : Option Bool) :
    Value.logical .and (ofTruth a) (ofTruth b) = .ok (ofTruth (conjunction [a, b])) := by
  rcases a with _ | _ | _ <;> rcases b with _ | _ | _ <;> rfl

theorem conjunction_eq_true_iff {values : List (Option Bool)} :
    conjunction values = some true ↔ ∀ value ∈ values, value = some true := by
  unfold conjunction
  constructor
  · intro h value hvalue
    split at h
    · cases h
    · next hfalse =>
      split at h
      · cases h
      · next hnone =>
        match value with
        | some true => rfl
        | some false => exact absurd hvalue hfalse
        | none => exact absurd hvalue hnone
  · intro h
    have hfalse : some false ∉ values := fun hmem => by cases h _ hmem
    have hnone : none ∉ values := fun hmem => by cases h _ hmem
    rw [if_neg hfalse, if_neg hnone]

/-- A condition is true iff all its conjuncts are. -/
theorem truth_eq_true_iff (e : ScalarExpr) : ∀ valuation : Place → Option Bool,
    e.truth valuation = some true ↔ ∀ leaf ∈ e.conjuncts, valuation leaf.1 = some true := by
  induction e using conjunction_induction with
  | conjunction operands type ih =>
    intro valuation
    rw [truth, conjunction_eq_true_iff, conjuncts]
    -- the operands are numbered from any number on
    generalize 0 = n
    induction operands generalizing n with
    | nil => simp [truths, conjunctsFrom]
    | cons e es ihes =>
      rw [truths, conjunctsFrom, List.forall_mem_cons, List.forall_mem_append,
        List.forall_mem_map, ih e List.mem_cons_self,
        ihes (fun x hx => ih x (List.mem_cons_of_mem _ hx))]
  | other e hother =>
    intro valuation
    rw [conjuncts_of_not_and hother]
    unfold truth
    split
    · exact absurd rfl (hother _ _)
    · simp

/-- The first conjunct without a property is the first one of some operand, and the operands before
have only conjuncts with the property. -/
theorem find?_conjunctsFrom {p : ScalarExpr → Bool} {leaf : Place × ScalarExpr}
    (h : (conjunctsFrom es n).find? (fun leaf => !p leaf.2) = some leaf) :
    ∃ pre e post inner, es = pre ++ e :: post ∧ (∀ leaf ∈ conjunctsFrom pre n, p leaf.2 = true) ∧
      e.conjuncts.find? (fun leaf => !p leaf.2) = some inner ∧
      leaf = ((n + pre.length) :: inner.1, inner.2) := by
  induction es generalizing n with
  | nil => cases h
  | cons e es ih =>
    rw [conjunctsFrom, List.find?_append, List.find?_map] at h
    simp only [Function.comp_def] at h
    cases hfind : e.conjuncts.find? (fun leaf => !p leaf.2) with
    | some inner =>
      rw [hfind] at h
      exact ⟨[], e, es, inner, rfl, by simp [conjunctsFrom], hfind, (Option.some.inj h).symm⟩
    | none =>
      rw [hfind] at h
      obtain ⟨pre, e', post, inner, rfl, hpre, hinner, rfl⟩ := ih h
      refine ⟨e :: pre, e', post, inner, rfl, ?_, hinner, ?_⟩
      · rw [conjunctsFrom, List.forall_mem_append, List.forall_mem_map]
        exact ⟨by simpa using hfind, hpre⟩
      · rw [List.length_cons, Nat.add_right_comm, Nat.add_assoc]

theorem conjunctsFrom_append :
    conjunctsFrom (pre ++ es) n = conjunctsFrom pre n ++ conjunctsFrom es (n + pre.length) := by
  induction pre generalizing n with
  | nil => rfl
  | cons e pre ih =>
    rw [List.cons_append, conjunctsFrom, conjunctsFrom, ih, List.append_assoc, List.length_cons,
      Nat.add_right_comm, Nat.add_assoc]

/-- What the first conjunct without a property leaves over has all conjuncts from some place on, and
those before that place have the property. -/
theorem conjuncts_of_find? {p : ScalarExpr → Bool} (e : ScalarExpr) : ∀ leaf,
    e.conjuncts.find? (fun leaf => !p leaf.2) = some leaf →
      ∃ before, (∀ leaf ∈ before, p leaf.2 = true) ∧
        e.conjuncts = before ++ (pending leaf.1 e).2.conjuncts.map
          fun inner => ((pending leaf.1 e).1 ++ inner.1, inner.2) := by
  induction e using conjunction_induction with
  | conjunction operands type ih =>
    intro leaf hleaf
    rw [conjuncts] at hleaf
    obtain ⟨pre, e, post, inner, rfl, hpre, hinner, rfl⟩ := find?_conjunctsFrom hleaf
    rw [Nat.zero_add, pending_operand]
    cases post with
    | nil =>
      -- the last operand: its conjuncts stand at the end
      obtain ⟨before, hbefore, hconjuncts⟩ := ih e (by simp) inner hinner
      refine ⟨conjunctsFrom pre 0 ++ before.map fun leaf => (pre.length :: leaf.1, leaf.2), ?_, ?_⟩
      · rw [List.forall_mem_append, List.forall_mem_map]
        exact ⟨hpre, hbefore⟩
      · rw [if_pos rfl, conjuncts, conjunctsFrom_append, conjunctsFrom, conjunctsFrom,
          List.append_nil, Nat.zero_add, hconjuncts]
        simp
    | cons e' post =>
      -- other operands follow: the whole conjunction is left over
      refine ⟨[], by simp, ?_⟩
      simp
  | other e hother =>
    intro leaf hleaf
    rw [conjuncts_of_not_and hother] at hleaf
    obtain rfl := List.mem_singleton.mp (List.mem_of_find?_eq_some hleaf)
    have hpending : pending [] e = ([], e) := by unfold pending; rfl
    exact ⟨[], by simp, by simp [hpending]⟩

/-- A condition is true iff the conjuncts that are its keys and what is left over are. -/
theorem truth_eq_true_iff_rest? (e : ScalarExpr) (valuation : Place → Option Bool) :
    e.truth valuation = some true ↔
      (∀ leaf ∈ e.keyConjuncts w, valuation leaf.1 = some true) ∧
      ∀ rest, e.rest? w = some rest →
        rest.2.truth (fun place => valuation (rest.1 ++ place)) = some true := by
  rw [truth_eq_true_iff, rest?, keyConjuncts]
  cases hfind : e.conjuncts.find? fun leaf => !leaf.2.isJoinKey w with
  | none =>
    have hall : ∀ leaf ∈ e.conjuncts, leaf.2.isJoinKey w = true := by simpa using hfind
    rw [List.takeWhile_eq_self_iff.mpr hall]
    simp
  | some leaf =>
    obtain ⟨before, hbefore, hconjuncts⟩ := conjuncts_of_find? e leaf hfind
    have hrest : (∀ leaf ∈ e.conjuncts, valuation leaf.1 = some true) ↔
        (∀ leaf ∈ before, valuation leaf.1 = some true) ∧
        (pending leaf.1 e).2.truth (fun place => valuation ((pending leaf.1 e).1 ++ place)) =
          some true := by
      rw [hconjuncts, List.forall_mem_append, List.forall_mem_map, truth_eq_true_iff]
    simp only [Option.map_some, Option.some.injEq, forall_eq']
    constructor
    · -- all conjuncts are true, so the leading ones are
      intro h
      exact ⟨fun key hkey => h key ((List.takeWhile_sublist _).subset hkey), (hrest.mp h).2⟩
    · -- what is not among the leading conjuncts is a conjunct of the rest
      rintro ⟨hkeys, hpending⟩
      refine hrest.mpr ⟨fun key hkey => hkeys key ?_, hpending⟩
      rw [hconjuncts, List.takeWhile_append_of_pos hbefore]
      exact List.mem_append_left _ hkey

/-- **No conjunct is lost.** When a join condition is split, every key is the one of a conjunct that
compares a left and a right column, and the keys are those of all conjuncts before the first one
that is no key. What that conjunct leaves over is the rest. Whatever the truth values of the
conjuncts, the condition is true iff the conjuncts of the keys and the rest are. -/
theorem joinCondition_keeps_conjuncts (e : ScalarExpr) (h : e.joinCondition w = .ok c) :
    (∀ key ∈ c.keys, key.leftColumn < w.left ∧ key.rightColumn < w.right ∧
      key.type.nullable = false) ∧
    List.Forall₂ (fun leaf key => JoinKey.Tests w key leaf.2) (e.keyConjuncts w) c.keys ∧
    c.residual = (e.rest? w).map Prod.snd ∧
    ∀ valuation : Place → Option Bool, e.truth valuation = some true ↔
      (∀ leaf ∈ e.keyConjuncts w, valuation leaf.1 = some true) ∧
      ∀ rest, e.rest? w = some rest →
        rest.2.truth (fun place => valuation (rest.1 ++ place)) = some true := by
  unfold joinCondition at h
  obtain ⟨condition, hsplit, h⟩ := Except.bind_eq_ok.mp h
  obtain rfl : condition = c := by
    split at h
    · cases h
    · exact Except.ok.inj h
  obtain ⟨hkeys, hresidual⟩ := splitsInto_of_decompose e condition hsplit
  refine ⟨?_, hkeys, hresidual, truth_eq_true_iff_rest? e⟩
  intro key hkey
  obtain ⟨leaf, -, htests⟩ := List.Forall₂.exists_of_mem_right hkeys hkey
  exact htests.bounds

/-- Two keys around a conjunct that is none, the first of them in a conjunction of its own. -/
def amountsCondition : ScalarExpr :=
  .call .and
    [.call .and [.call .equals [.column 0 .i32, .column 2 .i32] .bool, .call .and [] .bool] .bool,
      .call .greaterThan [.column 1 .i32, .literal (some (.int 10)) .i32] .bool,
      .call .equals [.column 3 .i64, .column 1 .i32] .bool] .bool

theorem joinCondition_keeps_conjuncts_amounts :
    amountsCondition.joinCondition ⟨2, 2⟩ = .ok ⟨[⟨0, 0, .i32⟩], some amountsCondition⟩ ∧
    ∀ valuation : Place → Option Bool, amountsCondition.truth valuation = some true ↔
      (∀ leaf ∈ amountsCondition.keyConjuncts ⟨2, 2⟩, valuation leaf.1 = some true) ∧
      ∀ rest, amountsCondition.rest? ⟨2, 2⟩ = some rest →
        rest.2.truth (fun place => valuation (rest.1 ++ place)) = some true := by
  have hsplit : amountsCondition.joinCondition ⟨2, 2⟩ =
      .ok ⟨[⟨0, 0, .i32⟩], some amountsCondition⟩ := by rfl
  exact ⟨hsplit, (joinCondition_keeps_conjuncts amountsCondition hsplit).2.2.2⟩

end ScalarExpr
end DeltaCircuit
