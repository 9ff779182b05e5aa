import DeltaCircuit.Proofs.Plan.ComparedColumns
import DeltaCircuit.Proofs.Plan.Conjuncts
import DeltaCircuit.Proofs.Plan.Join

/-!
# How strictly join conditions are checked

A join condition goes two ways. What is left of it after the splitting is compiled as a predicate
over the joined row, like the condition of a filter. What the splitting takes apart, equalities that
become keys and the conjunctions around them, never reaches the compiler: of an equality only the
numbers of the columns and their declared types are read, of a conjunction only the operands. This
file says what a join that is lowered leaves unchecked, and that nothing else is.

* `ScalarExpr.takenApart` — the calls that no compiler sees.
* `ScalarExpr.IsSound` — what the compiler asks of them: a boolean type, two operands, and columns
  that are declared with their own types and are no references.
* `ScalarExpr.IsPredicate` — conditions that the compiler accepts.
* `JoinCondition.Accepted` — what the circuit of a join asks of the split condition instead.
* `ScalarExpr.isSound_of_compiles`, `ScalarExpr.isPredicate_of_isSound` — the difference between the
  two, by induction on nested conjunctions.
* `Plan.lower_join_strict` — the condition of a join that is lowered is a predicate iff all calls
  that have been taken apart are sound.
-/

namespace DeltaCircuit

open ExceptT (gives_bind gives_pure)

variable {s left right : Schema} {i : Nat} {type : Ty} {t t' : Lowering} {id input : OperatorId}

/-! ### What is taken apart -/

namespace ScalarExpr

/-- Whether all conjuncts of a condition are keys. -/
def keysOnly (w : JoinWidths) (e : ScalarExpr) : Bool := (e.rest? w).isNone

mutual

/-- **Calls that no compiler sees.** A conjunction is taken apart unless an operand other than the
last one leaves a rest: then it is checked as a whole. -/
def takenApart (w : JoinWidths) : ScalarExpr → List ScalarExpr
  | .call .and operands type =>
    if operands.dropLast.all (keysOnly w) then
      .call .and operands type :: takenApartAll w operands
    else []
  | e => if e.isJoinKey w then [e] else []
termination_by structural x => x

/-- The calls in operands. -/
def takenApartAll (w : JoinWidths) : List ScalarExpr → List ScalarExpr
  | [] => []
  | e :: es => e.takenApart w ++ takenApartAll w es
termination_by structural x => x

end

/-- **Sound calls.** What the compiler asks of a conjunction or of an equality of columns. -/
def IsSound (s : Schema) : ScalarExpr → Prop
  | .call .and operands type => operands.length = 2 ∧ type.isBool = true
  | .call .equals operands type =>
    type.isBool = true ∧ ∀ i declared, .column i declared ∈ operands → s.Reads i declared
  | _ => True

variable {w : JoinWidths} {e : ScalarExpr} {es : List ScalarExpr}

theorem mem_takenApartAll {call : ScalarExpr} :
    call ∈ takenApartAll w es ↔ ∃ e ∈ es, call ∈ e.takenApart w := by
  induction es with
  | nil => simp [takenApartAll]
  | cons e es ih => simp [takenApartAll, ih]

theorem takenApart_of_not_and (h : ∀ operands type, e ≠ .call .and operands type) :
    e.takenApart w = if e.isJoinKey w then [e] else [] := by
  unfold takenApart
  split
  · exact absurd rfl (h _ _)
  · rfl

theorem isSound_equals {j : Nat} {ti tj : Ty} :
    IsSound s (.call .equals [.column i ti, .column j tj] type) ↔
      type.isBool = true ∧ s.Reads i ti ∧ s.Reads j tj := by
  simp only [IsSound, List.mem_cons, List.not_mem_nil, or_false, column.injEq]
  constructor
  · rintro ⟨hbool, hreads⟩
    exact ⟨hbool, hreads i ti (.inl ⟨rfl, rfl⟩), hreads j tj (.inr ⟨rfl, rfl⟩)⟩
  · rintro ⟨hbool, hreadI, hreadJ⟩
    refine ⟨hbool, fun k declared hk => ?_⟩
    obtain ⟨rfl, rfl⟩ | ⟨rfl, rfl⟩ := hk
    · exact hreadI
    · exact hreadJ

end ScalarExpr

/-! ### Predicates -/

namespace ScalarExpr

variable {e : ScalarExpr} {operands : List ScalarExpr} {compiled : Expr}

/-- A condition that is compiled to a boolean over a row. -/
def IsPredicate (s : Schema) (e : ScalarExpr) : Prop :=
  ∃ compiled type, Compiles (some s.rowVar) e compiled ∧ compiled.type = some type ∧
    type.isBool = true

theorem expectBool_of_isBool {compiled : Expr} (htype : compiled.type = some type)
    (h : type.isBool = true) (site : Site) : expectBool site compiled = .ok () := by
  have hderef : type.deref = type := by
    have hkind : type.kind = .base .bool := of_decide_eq_true h
    unfold Ty.deref
    rw [hkind]
  unfold expectBool
  rw [Expr.requireType_eq_ok.mpr htype, Except.ok_bind, hderef, if_pos h]
  rfl

/-- **Predicates.** The conditions that are compiled to booleans are those that can be compiled as
predicates. -/
theorem exists_compilePredicate :
    (∃ predicate, e.compilePredicate (some s.rowVar) = .ok predicate) ↔ e.IsPredicate s := by
  unfold compilePredicate
  constructor
  · rintro ⟨predicate, h⟩
    obtain ⟨compiled, hcompiled, h⟩ := Except.bind_eq_ok.mp h
    obtain ⟨type, htype, h⟩ := Except.bind_eq_ok.mp h
    rw [ofTerm_eq_ok, Expr.requireType_eq_ok] at htype
    refine ⟨compiled, type, compile_eq_ok.mp hcompiled, htype, ?_⟩
    by_contra hbool
    rw [Bool.not_eq_true] at hbool
    simp [hbool] at h
  · rintro ⟨compiled, type, hcompiles, htype, hbool⟩
    -- a boolean that may be NULL is wrapped, and wrapping cannot fail on a boolean
    have hwrapped : Expr.unary .wrapBool compiled .bool =
        .ok (.ofForm (some .bool) (.unary .wrapBool compiled)) := by
      unfold Expr.unary Expr.checkUnary
      dsimp only
      rw [expectBool_of_isBool htype hbool]
      rfl
    have htyped : ofTerm compiled.requireType = .ok type :=
      ofTerm_eq_ok.mpr (Expr.requireType_eq_ok.mpr htype)
    simp only [hcompiles.compile_eq, Except.ok_bind, htyped, hbool, hwrapped, Bool.not_true,
      Bool.false_eq_true, if_false]
    cases type.nullable with
    | true => exact ⟨_, rfl⟩
    | false => exact ⟨_, rfl⟩

/-- A conjunction that is compiled has two operands, which are compiled too. -/
theorem compiles_and (h : Compiles (some s.rowVar) (.call .and operands type) compiled) :
    IsSound s (.call .and operands type) ∧
      ∀ x ∈ operands, ∃ x', Compiles (some s.rowVar) x x' := by
  cases h with
  | binary hop hx hy h =>
    obtain rfl := Option.some.inj hop
    refine ⟨⟨rfl, isBool_of_binary (.inr ⟨_, rfl⟩) h⟩, ?_⟩
    simp only [List.forall_mem_cons, List.not_mem_nil, false_imp_iff, implies_true, and_true]
    exact ⟨⟨_, hx⟩, ⟨_, hy⟩⟩
  | unary hop => cases hop

/-- A conjunction of two predicates that is declared as a boolean is a predicate. -/
theorem isPredicate_and (hsound : IsSound s (.call .and operands type))
    (h : ∀ x ∈ operands, x.IsPredicate s) : IsPredicate s (.call .and operands type) := by
  obtain ⟨hlength, hbool⟩ := hsound
  obtain ⟨x, y, rfl⟩ := List.length_eq_two.mp hlength
  obtain ⟨x', tx, hx, htx, hboolx⟩ := h x (by simp)
  obtain ⟨y', ty, hy, hty, hbooly⟩ := h y (by simp)
  refine ⟨.ofForm (some type) (.binary (.logical .and) x' y'), type, .binary rfl hx hy ?_, rfl,
    hbool⟩
  -- the operands of a logical operation are taken as they are
  change Expr.binary (.logical .and) x' y' type = _
  unfold Expr.binary Expr.checkBinary
  rw [Expr.requireType_eq_ok.mpr htx, Expr.requireType_eq_ok.mpr hty]
  simp [expectBool_of_isBool htx hboolx, expectBool_of_isBool hty hbooly, expectBoolType, hbool]

end ScalarExpr

/-! ### What the circuit of a join accepts -/

/-- What the circuit of a join asks of a split condition: that the columns of a key can be converted
to its type, and that what is left is a predicate. -/
structure JoinCondition.Accepted (c : JoinCondition) (s : Schema) (w : JoinWidths) : Prop where
  keys : ∀ key ∈ c.keys,
    s.Offers key.leftColumn key.type ∧ s.Offers (w.left + key.rightColumn) key.type
  residual : ∀ rest, c.residual = some rest → rest.IsPredicate s

theorem JoinCondition.Accepted.mono {c c' : JoinCondition} {w : JoinWidths} (h : c.Accepted s w)
    (hkeys : ∀ key ∈ c'.keys, key ∈ c.keys)
    (hresidual : ∀ rest, c'.residual = some rest → c.residual = some rest) : c'.Accepted s w :=
  ⟨fun key hkey => h.keys key (hkeys key hkey),
    fun rest hrest => h.residual rest (hresidual rest hrest)⟩

namespace ScalarExpr

variable {w : JoinWidths} {e whole : ScalarExpr} {es : List ScalarExpr} {c : JoinCondition}
  {key : JoinKey} {compiled : Expr}

/-- In whichever order it names its columns, the equality behind a key compares columns that can be
converted to their common type. -/
theorem equality_of_tests (h : key.Tests w e) (hleft : s.Offers key.leftColumn key.type)
    (hright : s.Offers (w.left + key.rightColumn) key.type) :
    ∃ i j ti tj type common, e = .call .equals [.column i ti, .column j tj] type ∧
      ti.unify tj = .ok common ∧ common.withNullable false = .ok key.type ∧
      s.Offers i key.type ∧ s.Offers j key.type := by
  cases h with
  | leftRight _ hj _ hcommon hown =>
    rw [Nat.add_sub_cancel' hj] at hright
    exact ⟨_, _, _, _, _, _, rfl, hcommon, hown, hleft, hright⟩
  | rightLeft _ hj _ hcommon hown =>
    rw [Nat.add_sub_cancel' hj] at hright
    exact ⟨_, _, _, _, _, _, rfl, Ty.unify_symm hcommon, hown, hright, hleft⟩

/-- The equality behind a key with columns that can be converted is compiled only if it is sound. -/
theorem isSound_of_tests (h : key.Tests w e) (hleft : s.Offers key.leftColumn key.type)
    (hright : s.Offers (w.left + key.rightColumn) key.type)
    (hcompiled : Compiles (some s.rowVar) e compiled) : e.IsSound s := by
  obtain ⟨i, j, ti, tj, type, _, rfl, -, hown, hi, hj⟩ := equality_of_tests h hleft hright
  exact isSound_equals.mpr (reads_of_compiles_equals hown hi hj hcompiled)

/-- The equality behind a key with columns that can be converted is a predicate if it is sound. -/
theorem isPredicate_of_tests (h : key.Tests w e) (hleft : s.Offers key.leftColumn key.type)
    (hright : s.Offers (w.left + key.rightColumn) key.type) (hsound : e.IsSound s) :
    e.IsPredicate s := by
  obtain ⟨i, j, ti, tj, type, _, rfl, hcommon, hown, hi, hj⟩ := equality_of_tests h hleft hright
  obtain ⟨hbool, hreadI, hreadJ⟩ := isSound_equals.mp hsound
  obtain ⟨compiled, hcompiled, htype⟩ :=
    exists_compiles_equals hcommon hown hi hj hbool hreadI hreadJ
  exact ⟨compiled, type, hcompiled, htype, hbool⟩

/-! ### Splitting a conjunction -/

theorem keysOnly_iff (h : e.decompose w = .ok c) : e.keysOnly w = true ↔ c.residual = none := by
  rw [keysOnly, (splitsInto_of_decompose e c h).residual, Option.map_eq_none_iff,
    Option.isNone_iff_eq_none]

/-- An operand that others follow either leaves the whole conjunction over, or gives keys only. -/
theorem decomposeAll_cons {next : ScalarExpr} (h : decomposeAll w whole (e :: next :: es) = .ok c) :
    (e.keysOnly w = false ∧ c.residual = some whole) ∨
    e.keysOnly w = true ∧ ∃ first rest, e.decompose w = .ok first ∧ first.residual = none ∧
      decomposeAll w whole (next :: es) = .ok rest ∧
      c = ⟨first.keys ++ rest.keys, rest.residual⟩ := by
  rw [decomposeAll] at h
  obtain ⟨first, hfirst, h⟩ := Except.bind_eq_ok.mp h
  have hkeys := keysOnly_iff hfirst
  cases hresidual : first.residual with
  | some residual =>
    rw [hresidual] at h hkeys
    obtain rfl := Except.ok.inj h
    exact .inl ⟨by simpa using hkeys, rfl⟩
  | none =>
    rw [hresidual] at h
    obtain ⟨rest, hrest, h⟩ := Except.bind_eq_ok.mp h
    obtain rfl := Except.ok.inj h
    exact .inr ⟨hkeys.mpr hresidual, first, rest, hfirst, hresidual, hrest, rfl⟩

/-- The operands of a conjunction that is taken apart are split themselves. Their keys are keys of
the conjunction, and what the last one leaves over is left over. -/
theorem exists_decompose_operand (hall : es.dropLast.all (keysOnly w) = true)
    (h : decomposeAll w whole es = .ok c) : ∀ x ∈ es, ∃ c', x.decompose w = .ok c' ∧
      (∀ key ∈ c'.keys, key ∈ c.keys) ∧
      ∀ rest, c'.residual = some rest → c.residual = some rest := by
  -- on the operands: the last one is split to the end, each one before it gives keys only
  induction es generalizing c with
  | nil => simp
  | cons e es ih =>
    cases es with
    | nil =>
      rw [decomposeAll_singleton] at h
      simpa using ⟨c, h, fun key hkey => hkey, fun rest hrest => hrest⟩
    | cons next es =>
      rw [List.dropLast_cons_cons, List.all_cons, Bool.and_eq_true] at hall
      obtain ⟨hkeys, -⟩ | ⟨-, first, rest, hfirst, hnone, hrest, rfl⟩ := decomposeAll_cons h
      · exact absurd hall.1 (by simp [hkeys])
      intro x hx
      rcases List.mem_cons.mp hx with rfl | hx
      · -- the first operand gives keys only
        refine ⟨first, hfirst, fun key hkey => List.mem_append_left _ hkey, ?_⟩
        intro residual hsome
        rw [hnone] at hsome
        cases hsome
      · obtain ⟨c', hc', hkeys', hresidual'⟩ := ih hall.2 hrest x hx
        exact ⟨c', hc', fun key hkey => List.mem_append_right _ (hkeys' key hkey), hresidual'⟩

/-- A conjunction that is not taken apart is left over as a whole. -/
theorem residual_of_not_keysOnly (hall : ¬es.dropLast.all (keysOnly w) = true)
    (h : decomposeAll w whole es = .ok c) : c.residual = some whole := by
  induction es generalizing c with
  | nil => exact absurd rfl hall
  | cons e es ih =>
    cases es with
    | nil => exact absurd rfl hall
    | cons next es =>
      obtain ⟨-, hwhole⟩ | ⟨hkeys, _, rest, -, -, hrest, rfl⟩ := decomposeAll_cons h
      · exact hwhole
      · rw [List.dropLast_cons_cons, List.all_cons, hkeys, Bool.true_and] at hall
        have hwhole := ih hall hrest
        exact hwhole

/-! ### Strictness -/

/-- An expression other than a conjunction is a key or is left over. -/
theorem key_or_residual (hother : ∀ operands type, e ≠ .call .and operands type)
    (h : e.decompose w = .ok c) :
    (e.takenApart w = [e] ∧ ∃ key ∈ c.keys, key.Tests w e) ∨
      e.takenApart w = [] ∧ c.residual = some e := by
  obtain ⟨hkeys, hresidual⟩ := splitsInto_of_decompose e c h
  rw [takenApart_of_not_and hother]
  rw [keyConjuncts, conjuncts_of_not_and hother] at hkeys
  rw [rest?, conjuncts_of_not_and hother] at hresidual
  -- the expression is its own and only conjunct
  cases hkey : e.isJoinKey w with
  | true =>
    rw [List.takeWhile_cons, hkey] at hkeys
    obtain ⟨key, hmem, htests⟩ := hkeys.flip.exists_of_mem_right (List.mem_cons_self)
    exact .inl ⟨rfl, key, hmem, htests⟩
  | false =>
    refine .inr ⟨rfl, ?_⟩
    rw [hresidual]
    simp [hkey, pending]

/-- **What a compiler finds.** In a condition that is compiled, all calls that have been taken apart
are sound. -/
theorem isSound_of_compiles (e : ScalarExpr) : ∀ c compiled, e.decompose w = .ok c →
    c.Accepted s w → Compiles (some s.rowVar) e compiled →
      ∀ call ∈ e.takenApart w, call.IsSound s := by
  induction e using conjunction_induction with
  | conjunction operands type ih =>
    intro c compiled h haccepted hcompiled
    rw [decompose] at h
    rw [takenApart]
    split
    · next hall =>
      obtain ⟨hsound, hoperands⟩ := compiles_and hcompiled
      rw [List.forall_mem_cons]
      refine ⟨hsound, fun call hcall => ?_⟩
      -- the call is in an operand, which is compiled and has been split itself
      obtain ⟨x, hx, hcall⟩ := mem_takenApartAll.mp hcall
      obtain ⟨x', hx'⟩ := hoperands x hx
      obtain ⟨c', hc', hkeys, hresidual⟩ := exists_decompose_operand hall h x hx
      exact ih x hx c' x' hc' (haccepted.mono hkeys hresidual) hx' call hcall
    · simp
  | other e hother =>
    intro c compiled h haccepted hcompiled
    obtain ⟨htaken, key, hkey, htests⟩ | ⟨htaken, -⟩ := key_or_residual hother h
    · obtain ⟨hleft, hright⟩ := haccepted.keys key hkey
      rw [htaken, List.forall_mem_singleton]
      exact isSound_of_tests htests hleft hright hcompiled
    · rw [htaken]
      simp

/-- **What no compiler looks for.** A condition that the circuit of a join accepts is a predicate
if the calls that have been taken apart are sound. -/
theorem isPredicate_of_isSound (e : ScalarExpr) : ∀ c, e.decompose w = .ok c → c.Accepted s w →
    (∀ call ∈ e.takenApart w, call.IsSound s) → e.IsPredicate s := by
  induction e using conjunction_induction with
  | conjunction operands type ih =>
    intro c h haccepted hsound
    rw [decompose] at h
    rw [takenApart] at hsound
    split at hsound
    · next hall =>
      rw [List.forall_mem_cons] at hsound
      refine isPredicate_and hsound.1 fun x hx => ?_
      obtain ⟨c', hc', hkeys, hresidual⟩ := exists_decompose_operand hall h x hx
      refine ih x hx c' hc' (haccepted.mono hkeys hresidual) fun call hcall => ?_
      exact hsound.2 call (mem_takenApartAll.mpr ⟨x, hx, hcall⟩)
    · next hall =>
      -- the conjunction has been checked as a whole
      exact haccepted.residual _ (residual_of_not_keysOnly hall h)
  | other e hother =>
    intro c h haccepted hsound
    obtain ⟨htaken, key, hkey, htests⟩ | ⟨-, hresidual⟩ := key_or_residual hother h
    · obtain ⟨hleft, hright⟩ := haccepted.keys key hkey
      rw [htaken, List.forall_mem_singleton] at hsound
      exact isPredicate_of_tests htests hleft hright hsound
    · exact haccepted.residual e hresidual

end ScalarExpr

/-! ### Lowering -/

namespace Lower

variable {c : JoinCondition} {condition : ScalarExpr} {columns : List Nat} {types : List Ty}
  {schema : Schema}

theorem gives_indexByKey (h : (indexByKey input s columns types).Gives t id t') :
    ∃ f, keyFunction s columns types = .ok f := by
  unfold indexByKey at h
  dsimp only at h
  split at h
  · rw [pure_bind] at h
    obtain ⟨f, hf, -⟩ := gives_ofExcept_bind.mp h
    exact ⟨f, hf⟩
  · obtain ⟨_, -, h⟩ := gives_ofExcept_bind.mp h
    obtain ⟨_, _, -, h⟩ := gives_bind.mp h
    obtain ⟨f, hf, -⟩ := gives_ofExcept_bind.mp h
    exact ⟨f, hf⟩

theorem gives_filter (h : (filter input s condition).Gives t id t') : condition.IsPredicate s := by
  obtain ⟨f, hf, -⟩ := gives_ofExcept_bind.mp h
  obtain ⟨predicate, hpredicate, -⟩ := rowFunction_eq_ok hf
  exact ScalarExpr.exists_compilePredicate.mp ⟨predicate, hpredicate⟩

/-- The circuit of a join accepts the split condition. -/
theorem accepted_of_join {i j : OperatorId} (h : (join i j left right c schema).Gives t id t') :
    c.Accepted (left.append right) ⟨left.width, right.width⟩ := by
  obtain ⟨_, _, _, _, _, _, _, _, _, hleft, hright, -, -, hkept, -⟩ := gives_join h
  obtain ⟨f, hf⟩ := gives_indexByKey hleft
  obtain ⟨g, hg⟩ := gives_indexByKey hright
  constructor
  · -- the index of each input has been built with the columns and the types of all keys
    intro key hkey
    constructor
    · refine (keyFunction_offers hf (key.leftColumn, key.type) ?_).append_left
      rw [List.zip_map']
      exact List.mem_map_of_mem hkey
    · refine (keyFunction_offers hg (key.rightColumn, key.type) ?_).append_right
      rw [List.zip_map']
      exact List.mem_map_of_mem hkey
  · -- the rest has become a filter
    intro rest hrest
    rw [hrest] at hkept
    exact gives_filter hkept

end Lower

/-- **Strictness.** The condition of a join that is lowered can be compiled as a predicate over the
joined row iff all calls that have been taken apart are sound: conjunctions of two operands, and
equalities of columns that are declared with their own types and are no references, all of them
declared as booleans. Whatever else is wrong with a condition has kept the join from being
lowered. -/
theorem Plan.lower_join_strict {left right : Plan} {joinType : JoinType} {condition : ScalarExpr}
    {schema : Schema}
    (h : (Plan.join left right joinType (some condition) schema).lower.Gives t id t') :
    (∃ predicate, condition.compilePredicate (some (left.schema.append right.schema).rowVar) =
      .ok predicate) ↔
    ∀ call ∈ condition.takenApart ⟨left.schema.width, right.schema.width⟩,
      call.IsSound (left.schema.append right.schema) := by
  rw [Plan.lower] at h
  obtain ⟨c, _, hcondition, h⟩ := gives_bind.mp h
  obtain ⟨_, _, -, h⟩ := gives_bind.mp h
  obtain ⟨_, _, -, hjoin⟩ := gives_bind.mp h
  obtain ⟨-, -, -, hsome⟩ := Lower.gives_joinCondition hcondition
  -- the condition has been split before anything is built, and the join was built from its parts
  have hsplit : condition.decompose ⟨left.schema.width, right.schema.width⟩ = .ok c :=
    hsome condition rfl
  have haccepted : c.Accepted (left.schema.append right.schema)
      ⟨left.schema.width, right.schema.width⟩ := Lower.accepted_of_join hjoin
  rw [ScalarExpr.exists_compilePredicate]
  constructor
  · rintro ⟨compiled, _, hcompiled, -, -⟩
    exact ScalarExpr.isSound_of_compiles condition c compiled hsplit haccepted hcompiled
  · exact ScalarExpr.isPredicate_of_isSound condition c hsplit haccepted

namespace Plan

/-- Orders of known customers above an amount: a key whose column may be NULL, and a rest. -/
theorem lower_join_strict_largeOrders :
    largeOrders.lower.Gives shop 7 (largeOrders.lower shop).2 ∧
    ∃ predicate, ScalarExpr.compilePredicate (some (orders.append customers).rowVar)
      (.call .and [
        .equals (.column 0 { Ty.i32 with nullable := true }) (.column 2 .i64),
        .call .greaterThan [.column 1 .i32, .literal (some (.int 10)) .i32] .bool]
        { Ty.bool with nullable := true }) = .ok predicate := by
  have hlower : largeOrders.lower.Gives shop 7 (largeOrders.lower shop).2 := rfl
  refine ⟨hlower, (lower_join_strict hlower).mpr ?_⟩
  -- the conjunction and the key have been taken apart, the comparison is the rest
  change ∀ call ∈ [_, _], _
  rw [List.forall_mem_cons, List.forall_mem_singleton]
  exact ⟨⟨rfl, rfl⟩, ScalarExpr.isSound_equals.mpr ⟨rfl, ⟨rfl, rfl⟩, ⟨rfl, rfl⟩⟩⟩

/-- An equality that declares the amount of an order with another type than it has. -/
def mislabelled : ScalarExpr := .call .equals [.column 1 .i64, .column 2 .i64] .bool

/-- A join is lowered although its condition is none that can be compiled. -/
theorem not_lower_join_strict : ¬ ∀ (left right : Plan) (joinType : JoinType)
    (condition : ScalarExpr) (schema : Schema) (t t' : Lowering) (id : OperatorId),
    (Plan.join left right joinType (some condition) schema).lower.Gives t id t' →
      ∃ predicate, condition.compilePredicate (some (left.schema.append right.schema).rowVar) =
        .ok predicate := by
  intro hstrict
  let plan : Plan := .join (.scan "ORDERS" orders) (.scan "CUSTOMERS" customers) .inner
    (some mislabelled) (orders.append customers)
  have hlower : plan.lower.Gives shop 4 (plan.lower shop).2 := rfl
  obtain ⟨predicate, hpredicate⟩ := hstrict _ _ _ _ _ _ _ _ hlower
  have hrejected : mislabelled.compilePredicate (some (orders.append customers).rowVar) =
      .error (.malformed (.columnType 1 .i64 .i32)) := rfl
  cases hrejected.symm.trans hpredicate

end Plan

end DeltaCircuit
