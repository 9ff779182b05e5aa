import DeltaCircuit.Proofs.Eval.StaticTypes
import DeltaCircuit.Proofs.Plan.AggregateRuns
import DeltaCircuit.Proofs.Ty.Sorts

/-!
# A round of a fold

The updates of the accumulators are expressions over the row of the round, its weight and the
accumulator itself. For rows of the row type, this file reads off what they compute: the values of
the columns, the weight or zero where a column is NULL, and a column times the weight. The
conversions around them keep every value that can occur, so they change nothing.

* `Ty.admits_column` — the columns of a row of a type.
* `InRound.computes_column`, `InRound.computes_countIncrement`, `InRound.computes_weightedColumn` —
  the expressions of a round.
* `tracks_count`, `tracks_sum`, `tracks_extremum` — the accumulators follow the runs over a group.
-/

namespace DeltaCircuit

/-! ### Columns of rows of a type -/

/-- The type of a column of a row type. -/
def Ty.column? (rowType : Ty) (index : Nat) : Option Ty :=
  rowType.tupleFields?.bind fun types => types[index]?

section

variable {rowType type t : Ty} {column : Nat} {row v u : Value} {group : List (Value × Int)}

theorem Ty.column?_eq_some :
    rowType.column? column = some t ↔
      ∃ types, rowType.tupleFields? = some types ∧ types[column]? = some t :=
  Option.bind_eq_some_iff

/-- What is of a tuple type is a row. -/
theorem Ty.exists_row_of_admits {types : List Ty} (htypes : rowType.tupleFields? = some types)
    (h : rowType.kind.admits v = true) : ∃ fields, v = .row fields := by
  unfold Ty.tupleFields? at htypes
  split at htypes
  · next hkind =>
    rw [hkind] at h
    cases v <;> first | exact ⟨_, rfl⟩ | cases h
  · next hkind =>
    rw [hkind] at h
    cases v <;> first | exact ⟨_, rfl⟩ | cases h
  · cases htypes

/-- A column of a row of a type is there, and it is NULL or a value of the kind of the column; it is
NULL only if the row or the column may be NULL. -/
theorem Ty.admits_column (hcolumn : rowType.column? column = some t)
    (hrow : rowType.admits row = true) :
    row.field column = .ok (row.column column) ∧
      ((row.column column = .null ∧ (rowType.nullable || t.nullable) = true) ∨
        t.kind.admits (row.column column) = true) := by
  obtain ⟨types, htypes, ht⟩ := Ty.column?_eq_some.mp hcolumn
  rcases Ty.admits_iff.mp hrow with ⟨rfl, hnullable⟩ | hkind
  · -- every column of a row that is NULL is NULL
    exact ⟨rfl, .inl ⟨rfl, by rw [hnullable, Bool.true_or]⟩⟩
  · obtain ⟨fields, rfl⟩ := Ty.exists_row_of_admits htypes hkind
    rcases ((Ty.admits_row htypes).mp hkind).getElem? column with ⟨hnone, -⟩ | ⟨a, b, ha, hb, hab⟩
    · cases hnone.symm.trans ht
    · obtain rfl := Option.some.inj (ha.symm.trans ht)
      have hvalue : (Value.row fields).column column = b := by
        rw [Value.column, hb, Option.getD_some]
      rw [hvalue, Value.field_row]
      refine ⟨hb, (Ty.admits_iff.mp hab).imp_left fun hnull => ⟨hnull.1, ?_⟩⟩
      rw [hnull.2, Bool.or_true]

/-- The values of an integer type are integers. -/
theorem Ty.exists_int_of_admits (hinteger : type.isInteger = true)
    (h : type.kind.admits v = true) : ∃ i, v = .int i := by
  obtain ⟨width, signed, hkind⟩ := Ty.exists_of_isInteger hinteger
  rw [hkind] at h
  cases v with
  | scalar l => cases l <;> first | exact ⟨_, rfl⟩ | cases h
  | _ => cases h

theorem Ty.exists_bool_of_admits (hbool : type.isBool = true)
    (h : type.kind.admits v = true) : ∃ b, v = .bool b := by
  rw [of_decide_eq_true hbool] at h
  cases v with
  | scalar l => cases l <;> first | exact ⟨_, rfl⟩ | cases h
  | _ => cases h

theorem holdsInts_of_admits (hcolumn : rowType.column? column = some t)
    (hinteger : t.isInteger = true) (hrows : ∀ entry ∈ group, rowType.admits entry.1 = true) :
    HoldsInts column group := fun entry hentry =>
  (Ty.admits_column hcolumn (hrows entry hentry)).2.imp And.left
    (Ty.exists_int_of_admits hinteger)

/-! ### Conversions that keep a value -/

theorem Value.convert_int (hinteger : type.isInteger = true) (i : Int) :
    (Value.int i).convert type = .ok (.int i) := by
  obtain ⟨width, signed, hkind⟩ := Ty.exists_of_isInteger hinteger
  refine Value.convert_of_hasKind ?_
  rw [hkind]
  rfl

theorem Ty.zeroValue_of_isInteger (hinteger : type.isInteger = true) : type.zeroValue = .int 0 := by
  obtain ⟨width, signed, hkind⟩ := Ty.exists_of_isInteger hinteger
  rw [zeroValue, hkind]

theorem Value.convert_bool (hbool : type.isBool = true) (b : Bool) :
    (Value.bool b).convert type = .ok (.bool b) := by
  refine Value.convert_of_hasKind ?_
  rw [of_decide_eq_true hbool]
  rfl

end

/-! ### Expressions of a round -/

section

variable {rowType type t : Ty} {column : Nat} {argument : Option Nat} {entry : Value × Int}
  {scopes : Scopes} {e e' acc : Expr} {u v : Value} {result : Except EvalError Value}

/-- A conversion that keeps what an expression computes is not noticed. -/
theorem Expr.Computes.castIfNeeded (h : e.Computes scopes result)
    (hkeep : ∀ u, result = .ok u → u.convert type = .ok u)
    (hcast : Expr.castIfNeeded e type = .ok e') : e'.Computes scopes result := by
  refine ⟨keeps_castIfNeeded h.keeps hcast, fun v => ?_⟩
  obtain ⟨source, -, ⟨-, rfl⟩ | hcast⟩ := castIfNeeded_eq_ok hcast
  · exact h.gives_iff v
  · -- a conversion that stays runs on the value of the operand, which it keeps
    rw [cast_eq_ok hcast, ofForm, gives_cast]
    constructor
    · rintro ⟨u, hu, hv⟩
      have hu := (h.gives_iff u).mp hu
      rw [hkeep u hu] at hv
      rwa [← Except.ok.inj hv]
    · intro hv
      exact ⟨v, (h.gives_iff v).mpr hv, hkeep v hv⟩

/-- A choice computes what the chosen branch computes. -/
theorem Expr.Computes.ifElse {condition positive negative : Expr} {own : Option Ty} {b : Bool}
    {x y : Except EvalError Value} (hcondition : condition.Computes scopes (.ok (.bool b)))
    (hx : positive.Computes scopes x) (hy : negative.Computes scopes y) :
    (ofForm own (.ifElse condition positive (some negative))).Computes scopes
      (if b then x else y) := by
  constructor
  · rw [ofForm, Expr.eval]
    refine hcondition.keeps.bind fun _ => ?_
    split
    · exact hx.keeps
    · exact hy.keeps
  · intro v
    rw [ofForm, gives_ifElse]
    constructor
    · -- the condition leaves the scopes as they are, so the branch runs in the same ones
      rintro ⟨u, t, hu, h⟩
      obtain rfl := hcondition.keeps.eq_of_gives hu
      obtain rfl := Except.ok.inj ((hcondition.gives_iff u).mp hu)
      cases b
      · exact (hy.gives_iff v).mp h
      · exact (hx.gives_iff v).mp h
    · intro h
      refine ⟨.bool b, scopes, (hcondition.gives_iff _).mpr rfl, ?_⟩
      cases b
      · exact (hy.gives_iff v).mpr h
      · exact (hx.gives_iff v).mpr h

/-- A column of the row of the round. -/
theorem InRound.computes_column (hround : InRound rowType scopes entry)
    (h : Expr.field (groupRow rowType) column = .ok e) :
    ∃ t, rowType.column? column = some t ∧ e.Computes scopes (.ok (entry.1.column column)) ∧
      ∃ own, e.type = some own ∧ own.nullable = (rowType.nullable || t.nullable) := by
  obtain ⟨found, types, t, hfound, htypes, ht, own, he, -, hnullable⟩ := Expr.field_checked h
  obtain rfl : Ty.byRef rowType = found := Option.some.inj hfound
  have hcolumn : rowType.column? column = some t := Ty.column?_eq_some.mpr ⟨types, htypes, ht⟩
  have hrow : (groupRow rowType).Computes scopes (.ok entry.1) := Expr.computes_var hround.row
  have hcomputes := hrow.field h
  rw [Except.ok_bind, (Ty.admits_column hcolumn hround.admits).1] at hcomputes
  exact ⟨t, hcolumn, hcomputes, own, congrArg Expr.type he, hnullable⟩

/-- The weight of the round, in an integer type. -/
theorem InRound.computes_weight (hround : InRound rowType scopes entry)
    (hinteger : type.isInteger = true) (h : weightAs type = .ok e) :
    e.Computes scopes (.ok (.int entry.2)) := by
  obtain ⟨weight, hderef, hcast⟩ := Except.bind_eq_ok.mp h
  obtain ⟨_, inner, _, -, -, rfl⟩ := Expr.deref_eq_ok hderef
  refine (Expr.computes_var hround.weight).deref.castIfNeeded (fun u hu => ?_) hcast
  obtain rfl := Except.ok.inj hu
  exact Value.convert_int hinteger _

/-- The weight, or zero where the column is NULL. -/
theorem InRound.computes_weightIfPresent (hround : InRound rowType scopes entry)
    (hinteger : type.isInteger = true)
    (h : weightIfPresent (groupRow rowType) column type = .ok e) :
    e.Computes scopes (.ok (.int (countOf (some column) entry))) := by
  obtain ⟨weight, hweight, h⟩ := Except.bind_eq_ok.mp h
  obtain ⟨value, hvalue, h⟩ := Except.bind_eq_ok.mp h
  obtain ⟨own, hown, h⟩ := Except.bind_eq_ok.mp h
  have hweight := hround.computes_weight hinteger hweight
  obtain ⟨t, hcolumn, hcomputes, own', hown', hnullable⟩ := hround.computes_column hvalue
  obtain rfl := Option.some.inj (hown'.symm.trans (Expr.requireType_eq_ok.mp hown))
  have hcolumn := (Ty.admits_column hcolumn hround.admits).2
  rw [← hnullable] at hcolumn
  split at h
  · next htotal =>
    -- the column is never NULL, and so is not tested
    obtain rfl := Except.ok.inj h
    rw [Bool.not_eq_true'] at htotal
    rw [htotal] at hcolumn
    have hpresent : ¬(entry.1.column column).isNull = true := by
      rw [Value.isNull_iff]
      rcases hcolumn with ⟨-, hfalse⟩ | hadmits
      · cases hfalse
      · exact Kind.ne_null_of_admits hadmits
    rwa [countOf, if_neg hpresent]
  · -- otherwise a test for NULL chooses between zero and the weight
    obtain ⟨isNull, hisNull, h⟩ := Except.bind_eq_ok.mp h
    obtain ⟨zero, hzero, h⟩ := Except.bind_eq_ok.mp h
    rw [Expr.unary_eq_ok hisNull] at h
    rw [Expr.ifElse_eq_ok h]
    have htest : (Expr.ofForm (some .bool) (.unary .isNull value)).Computes scopes
        (.ok (.bool (entry.1.column column).isNull)) := hcomputes.unary
    have hresult : (if (entry.1.column column).isNull = true then
        .ok type.zeroValue else .ok (.int entry.2) : Except EvalError Value) =
        .ok (.int (countOf (some column) entry)) := by
      rw [Ty.zeroValue_of_isInteger hinteger, countOf]
      split <;> rfl
    rw [← hresult]
    exact htest.ifElse (Ty.computes_zero hzero) hweight

theorem InRound.computes_countIncrement (hround : InRound rowType scopes entry)
    (hinteger : type.isInteger = true)
    (h : countIncrement (groupRow rowType) argument type = .ok e) :
    e.Computes scopes (.ok (.int (countOf argument entry))) := by
  cases argument with
  | some column => exact hround.computes_weightIfPresent hinteger h
  | none => exact hround.computes_weight hinteger h

/-- A column times the weight, in an integer type. -/
theorem InRound.computes_weightedColumn (hround : InRound rowType scopes entry)
    (hinteger : type.isInteger = true) (hcolumn : rowType.column? column = some t)
    (hcolumnInteger : t.isInteger = true)
    (h : weightedColumn (groupRow rowType) column type = .ok e) :
    e.Computes scopes
      (Value.binary (.arithmetic .mul) (entry.1.column column) (.int entry.2)) := by
  obtain ⟨field, hfield, h⟩ := Except.bind_eq_ok.mp h
  obtain ⟨value, hvalue, h⟩ := Except.bind_eq_ok.mp h
  obtain ⟨weight, hweight, h⟩ := Except.bind_eq_ok.mp h
  obtain ⟨_, -, hcomputes, -⟩ := hround.computes_column hfield
  -- a column of an integer type holds NULL or an integer, and the conversion keeps both
  have hkeep (u : Value) (hu : Except.ok (ε := EvalError) (entry.1.column column) = .ok u) :
      u.convert type = .ok u := by
    obtain rfl := Except.ok.inj hu
    rcases (Ty.admits_column hcolumn hround.admits).2 with ⟨hnull, -⟩ | hadmits
    · rw [hnull, Value.convert_null]
    · obtain ⟨i, hi⟩ := Ty.exists_int_of_admits hcolumnInteger hadmits
      rw [hi, Value.convert_int hinteger]
  rw [Expr.binary_eq_ok h]
  exact (hcomputes.castIfNeeded hkeep hvalue).binary (hround.computes_weight hinteger hweight)

theorem Expr.Computes.addTo (hacc : acc.Computes scopes (.ok v)) (h : e.Computes scopes (.ok u))
    (hadd : addTo acc e = .ok e') :
    e'.Computes scopes (Value.binary (.arithmetic .add) v u) := by
  obtain ⟨type, -, hadd⟩ := Except.bind_eq_ok.mp hadd
  rw [binary_eq_ok hadd]
  exact hacc.binary h

theorem Expr.Computes.combineWith {op : AggregateOp} {own : Ty} (hacc : acc.Computes scopes (.ok v))
    (hown : acc.type = some own) (h : e.Computes scopes result)
    (hkeep : ∀ u, result = .ok u → u.convert own = .ok u)
    (hcombine : combineWith op acc e = .ok e') :
    e'.Computes scopes (do Value.binary (.aggregate op) v (← result)) := by
  obtain ⟨type, htype, hcombine⟩ := Except.bind_eq_ok.mp hcombine
  obtain rfl := Option.some.inj (hown.symm.trans (requireType_eq_ok.mp htype))
  obtain ⟨value, hvalue, hcombine⟩ := Except.bind_eq_ok.mp hcombine
  rw [binary_eq_ok hcombine]
  exact hacc.binary (h.castIfNeeded hkeep hvalue)

end

/-! ### Accumulators -/

section

variable {rowType type t : Ty} {column : Nat} {argument : Option Nat} {name : String} {init : Expr}
  {acc : Accumulator} {op : AggregateOp}

/-- An accumulator that is made from its own variable: its update computes a step if it does so
wherever the variable has a value. -/
theorem Accumulator.tracks_of_make {update : Expr → Except TermError Expr} {start : Value}
    {step : Value × Int → Value → Except EvalError Value}
    (h : Accumulator.make name init update = .ok acc)
    (hinit : ∀ scopes, init.Computes scopes (.ok start))
    (hupdate : ∀ type updated, init.type = some type →
      update (Expr.var name type) = .ok updated → ∀ scopes entry value,
        InRound rowType scopes entry → (Expr.var name type).Computes scopes (.ok value) →
        updated.Computes scopes (step entry value)) :
    acc.name = name ∧ LoopVariable.Tracks ⟨acc, start, step⟩ rowType := by
  obtain ⟨type, htype, h⟩ := Except.bind_eq_ok.mp h
  obtain ⟨updated, hupdated, h⟩ := Except.bind_eq_ok.mp h
  obtain rfl := Except.ok.inj h
  -- the update reads the variable of the accumulator, so its value there is the one of the round
  refine ⟨rfl, hinit, fun scopes entry value hround hfind => ?_⟩
  exact hupdate type updated (Expr.requireType_eq_ok.mp htype) hupdated scopes entry value hround
    (Expr.computes_var hfind)

/-- The accumulator of a count. -/
theorem tracks_count (hinteger : type.isInteger = true) (hzero : type.zero = .ok init)
    (h : Accumulator.make name init (fun acc => do
      addTo acc (← countIncrement (groupRow rowType) argument type)) = .ok acc) :
    acc.name = name ∧ LoopVariable.Tracks ⟨acc, .int 0, countStep argument⟩ rowType := by
  refine Accumulator.tracks_of_make h (fun scopes => ?_) ?_
  · rw [← Ty.zeroValue_of_isInteger hinteger]
    exact Ty.computes_zero hzero
  · intro own updated _ hupdated scopes entry value hround hacc
    obtain ⟨increment, hincrement, hadd⟩ := Except.bind_eq_ok.mp hupdated
    exact hacc.addTo (hround.computes_countIncrement hinteger hincrement) hadd

/-- A NULL of a type has the kind of the type. -/
theorem Expr.null_eq_ok (h : Expr.null type = .ok init) :
    ∃ own : Ty, own.kind = type.kind ∧ init = ofForm (some own) (.literal none) := by
  obtain ⟨own, hown, h⟩ := Except.bind_eq_ok.mp h
  exact ⟨own, Ty.kind_of_withNullable hown, literal_eq_ok h⟩

/-- The accumulator of a sum. -/
theorem tracks_sum (hinteger : type.isInteger = true) (hcolumn : rowType.column? column = some t)
    (hcolumnInteger : t.isInteger = true)
    (h : sumAccumulator name (groupRow rowType) column type = .ok acc) :
    acc.name = name ∧ LoopVariable.Tracks ⟨acc, .null, sumStep column⟩ rowType := by
  obtain ⟨init, hnull, h⟩ := Except.bind_eq_ok.mp h
  obtain ⟨own, hkind, rfl⟩ := Expr.null_eq_ok hnull
  refine Accumulator.tracks_of_make h (fun scopes => Expr.computes_literal) ?_
  intro own' updated hown hupdated scopes entry value hround hacc
  obtain rfl : own = own' := Option.some.inj hown
  obtain ⟨product, hproduct, hcombine⟩ := Except.bind_eq_ok.mp hupdated
  refine hacc.combineWith rfl
    (hround.computes_weightedColumn hinteger hcolumn hcolumnInteger hproduct) (fun u hu => ?_)
    hcombine
  -- a product is NULL or an integer, and the accumulator has an integer type
  rcases (Ty.admits_column hcolumn hround.admits).2 with ⟨hnull, -⟩ | hadmits
  · rw [hnull] at hu
    obtain rfl : .null = u := Except.ok.inj hu
    exact Value.convert_null own
  · obtain ⟨i, hi⟩ := Ty.exists_int_of_admits hcolumnInteger hadmits
    rw [hi] at hu
    obtain ⟨-, rfl⟩ := Value.mul_int.mp hu
    exact Value.convert_int ((Ty.isInteger_congr hkind).trans hinteger) _

/-- The accumulator of a least or a greatest value. -/
theorem tracks_extremum (hkeep : ∀ row, rowType.admits row = true →
      (row.column column).convert type = .ok (row.column column))
    (hnull : Expr.null type = .ok init)
    (h : Accumulator.make name init (fun acc => do
      combineWith op acc (← Expr.field (groupRow rowType) column)) = .ok acc) :
    acc.name = name ∧ LoopVariable.Tracks ⟨acc, .null, extremumStep op column⟩ rowType := by
  obtain ⟨own, hkind, rfl⟩ := Expr.null_eq_ok hnull
  refine Accumulator.tracks_of_make h (fun scopes => Expr.computes_literal) ?_
  intro own' updated hown hupdated scopes entry value hround hacc
  obtain rfl : own = own' := Option.some.inj hown
  obtain ⟨field, hfield, hcombine⟩ := Except.bind_eq_ok.mp hupdated
  obtain ⟨_, -, hcomputes, -⟩ := hround.computes_column hfield
  refine hacc.combineWith rfl hcomputes (fun u hu => ?_) hcombine
  -- the accumulator differs from the declared type in its nullability only
  obtain rfl := Except.ok.inj hu
  exact Value.convert_congr hkind (hkeep entry.1 hround.admits)

end

end DeltaCircuit
