import DeltaCircuit.Plan.RowFunction
import DeltaCircuit.Proofs.Expr.Simplifiable
import DeltaCircuit.Proofs.Plan.Compiles

/-!
# Compiled functions can be simplified

Every expression that compilation makes is put together by the constructors, and the only
assignments in it go to the variables of a fold. So simplification goes through on every function of
a compiled circuit.

* `Expr.ensures_binary`, … — one constructor each: from simplifiable parts to a simplifiable node.
* `ScalarExpr.ensures_compile` — scalar expressions, by induction on them.
* `ensures_filterFunction`, …, `ensures_foldFunction` — the functions of operators.
-/

namespace DeltaCircuit

/-! ### Constructors -/

namespace Expr

variable {e l r operand : Expr} {type : Ty}

/-- A node that its constructor gives from simplifiable parts is simplifiable, unless it is an
assignment. -/
theorem Simplifiable.node (hbuilt : e.IsBuilt) (hparts : ∀ part ∈ e.form.parts, part.Simplifiable)
    (hplain : ∀ target value, e.form ≠ .assign target value) : e.Simplifiable where
  built := .node hbuilt fun part hpart => (hparts part hpart).built
  plain := .node (fun target value h => absurd h (hplain target value)) fun part hpart =>
    (hparts part hpart).plain

theorem simplifiable_var (name : String) (type : Ty) : (var name type).Simplifiable :=
  .node ⟨type, rfl⟩ nofun nofun

theorem simplifiable_boolLiteral (b : Bool) : (boolLiteral b).Simplifiable :=
  .node ⟨.bool, rfl⟩ nofun nofun

theorem simplifiable_unit : unit.Simplifiable := .node rfl nofun nofun

theorem ensures_literal {value : Option Literal} : (literal value type).Ensures Simplifiable := by
  intro constant h
  obtain rfl := literal_eq_ok h
  exact ⟨.leaf ⟨type, h⟩ rfl, .leaf nofun rfl⟩

theorem ensures_null : (null type).Ensures Simplifiable :=
  (Except.ensures_true _).bind fun _ _ => ensures_literal

theorem ensures_field {index : Nat} (hbase : e.Simplifiable) :
    (field e index).Ensures Simplifiable := by
  intro field h
  obtain ⟨type, rfl⟩ := field_eq_ok h
  exact .node h (by simpa [ofForm, Form.parts] using hbase) nofun

theorem ensures_deref (hoperand : operand.Simplifiable) :
    (deref operand).Ensures Simplifiable := by
  intro e h
  obtain ⟨_, inner, _, -, -, rfl⟩ := deref_eq_ok h
  exact .node h (by simpa [ofForm, Form.parts] using hoperand) nofun

theorem ensures_binary {op : BinaryOp} (hl : l.Simplifiable) (hr : r.Simplifiable) :
    (binary op l r type).Ensures Simplifiable := by
  intro e h
  obtain rfl := binary_eq_ok h
  exact .node h (by simpa [ofForm, Form.parts] using ⟨hl, hr⟩) nofun

theorem ensures_unary {op : UnaryOp} (hoperand : operand.Simplifiable) :
    (unary op operand type).Ensures Simplifiable := by
  intro e h
  obtain rfl := unary_eq_ok h
  exact .node h (by simpa [ofForm, Form.parts] using hoperand) nofun

theorem ensures_and (hl : l.Simplifiable) (hr : r.Simplifiable) :
    (and l r).Ensures Simplifiable :=
  (Except.ensures_true _).bind fun _ _ => (Except.ensures_true _).bind fun _ _ =>
    (Except.ensures_true _).bind fun _ _ => ensures_binary hl hr

theorem ensures_castIfNeeded (hoperand : operand.Simplifiable) :
    (castIfNeeded operand type).Ensures Simplifiable := by
  intro e h
  obtain ⟨source, -, ⟨-, rfl⟩ | h⟩ := castIfNeeded_eq_ok h
  · exact hoperand
  · obtain rfl := cast_eq_ok h
    exact .node h (by simpa [ofForm, Form.parts] using hoperand) nofun

theorem ensures_tuple {fields : List Expr} (hfields : ∀ field ∈ fields, field.Simplifiable) :
    (tuple fields).Ensures Simplifiable := by
  intro e h
  obtain ⟨types, -, rfl⟩ := tuple_eq_ok h
  exact .node h hfields nofun

theorem ensures_rawTuple {fields : List Expr} (hfields : ∀ field ∈ fields, field.Simplifiable) :
    (rawTuple fields).Ensures Simplifiable := by
  intro e h
  obtain ⟨types, -, rfl⟩ := rawTuple_eq_ok h
  exact .node h hfields nofun

theorem ensures_ifElse {condition : Expr} (hcondition : condition.Simplifiable)
    (hl : l.Simplifiable) (hr : r.Simplifiable) :
    (ifElse condition l (some r)).Ensures Simplifiable := by
  intro e h
  obtain rfl := ifElse_eq_ok h
  exact .node h (by simpa [ofForm, Form.parts] using ⟨hcondition, hl, hr⟩) nofun

/-- A closure over parameters with names. -/
theorem ensures_closure {params : List Parameter} {body : Expr}
    (hparams : ∀ param ∈ params, ∃ name type, param = .named name type)
    (hbody : body.Simplifiable) : (closure params body).Ensures Simplifiable := by
  intro e h
  obtain rfl := closure_eq_ok h
  refine .node h (fun part hpart => ?_) nofun
  -- the constants of patterns are parts of a closure as well, but a named parameter has none
  rcases List.mem_append.mp hpart with hconstant | hpart
  · obtain ⟨param, hparam, hconstant⟩ := List.mem_flatMap.mp hconstant
    obtain ⟨name, type, rfl⟩ := hparams param hparam
    cases hconstant
  · obtain rfl := List.mem_singleton.mp hpart
    exact hbody

theorem simplifiable_block {statements : List Statement} {last : Option Expr}
    (hstatements : ∀ statement ∈ statements, ∀ part ∈ statement.parts, part.Simplifiable)
    (hlast : ∀ e ∈ last, e.Simplifiable) : (block statements last).Simplifiable := by
  refine .node rfl (fun part hpart => ?_) nofun
  rcases List.mem_append.mp hpart with hstatement | hpart
  · obtain ⟨statement, hmem, hpart⟩ := List.mem_flatMap.mp hstatement
    exact hstatements statement hmem part hpart
  · exact hlast part (by simpa using hpart)

theorem ensures_forLoop {pattern : Pattern} {iterated body : Expr}
    (hpattern : pattern.constants = []) (hiterated : iterated.Simplifiable)
    (hbody : body.Simplifiable) : (forLoop pattern iterated body).Ensures Simplifiable := by
  intro e h
  obtain rfl := forLoop_eq_ok h
  refine .node h ?_ nofun
  simpa [ofForm, Form.parts, hpattern] using ⟨hiterated, hbody⟩

/-- An assignment to a variable. -/
theorem ensures_assign {name : String} {value : Expr} (hvalue : value.Simplifiable) :
    (assign (var name type) value).Ensures Simplifiable := by
  intro e h
  obtain rfl := assign_eq_ok h
  have hvar := simplifiable_var name type
  have hparts : ∀ part ∈ [var name type, value], part.Simplifiable := by
    simpa using ⟨hvar, hvalue⟩
  -- the rule for the other forms does not apply; the target is a variable, so it stays a place
  refine ⟨.node h fun part hpart => (hparts part hpart).built,
    .node ?_ fun part hpart => (hparts part hpart).plain⟩
  rintro target value' ⟨⟩
  exact .leaf rfl rfl

theorem ensures_promote (he : e.Simplifiable) : (e.promote type).Ensures Simplifiable := by
  intro promoted h
  obtain ⟨target, -, h⟩ := promote_eq_ok h
  exact ensures_castIfNeeded he promoted h

theorem ensures_compileBinary {op : BinaryOp} (hl : l.Simplifiable) (hr : r.Simplifiable) :
    (compileBinary op l r type).Ensures Simplifiable := by
  intro compiled h
  rcases compileBinary_eq_ok h with ⟨_, -, h⟩ | ⟨_, _, common, l', r', -, -, -, hl', hr', h⟩
  · -- AND and OR, whose operands are taken as they are
    exact ensures_binary hl hr compiled h
  · have hleft := ensures_promote hl l' hl'
    have hright := ensures_promote hr r' hr'
    rcases h with ⟨_, -, h⟩ | ⟨-, -, result, hresult, h⟩
    · exact ensures_binary hleft hright compiled h
    · exact ensures_castIfNeeded (ensures_binary hleft hright result hresult) compiled h

end Expr

open DeltaCircuit.Expr (Simplifiable)

/-! ### Scalar expressions -/

theorem ensures_ofTerm {α : Type} {x : Except TermError α} {P : α → Prop} (h : x.Ensures P) :
    (ofTerm x).Ensures P := h.mapError

namespace ScalarExpr

variable {row : Option Expr}

/-- **Scalar expressions.** What is compiled over a simplifiable row is simplifiable. -/
theorem Compiles.simplifiable {e : ScalarExpr} {compiled : Expr}
    (hrow : ∀ r ∈ row, r.Simplifiable) (h : Compiles row e compiled) : compiled.Simplifiable := by
  induction h with
  | column hr h _ => exact Expr.ensures_field (hrow _ hr) _ h
  | literal h => exact Expr.ensures_literal _ h
  | cast _ h ih => exact Expr.ensures_castIfNeeded ih _ h
  | binary _ _ _ h ihx ihy => exact Expr.ensures_compileBinary ihx ihy _ h
  | unary _ _ h ih => exact Expr.ensures_unary ih _ h

theorem ensures_compile (hrow : ∀ r ∈ row, r.Simplifiable) (e : ScalarExpr) :
    (e.compile row).Ensures Simplifiable :=
  fun _ h => (compiles_of_compile h).simplifiable hrow

theorem ensures_compileAll (hrow : ∀ r ∈ row, r.Simplifiable) (es : List ScalarExpr) :
    (compileAll row es).Ensures fun es => ∀ e ∈ es, e.Simplifiable := by
  intro compileds h compiled hmem
  obtain ⟨e, -, he⟩ := (forall₂_compiles h).exists_of_mem_right hmem
  exact he.simplifiable hrow

theorem ensures_compilePredicate (hrow : ∀ r ∈ row, r.Simplifiable) (e : ScalarExpr) :
    (e.compilePredicate row).Ensures Simplifiable := by
  refine (ensures_compile hrow e).bind fun compiled hcompiled => ?_
  refine (Except.ensures_true _).bind fun type _ => ?_
  dsimp only
  split
  · exact Except.ensures_throw
  · split
    · exact ensures_ofTerm (Expr.ensures_unary hcompiled)
    · exact Except.ensures_pure hcompiled

end ScalarExpr

/-! ### Rows -/

/-- A closure over a row, whose body is simplifiable whatever simplifiable row it is made of. -/
theorem ensures_rowFunction {rowType : Ty} {body : Expr → Except CompileError Expr}
    (h : ∀ row : Expr, row.Simplifiable → (body row).Ensures Simplifiable) :
    (rowFunction rowType body).Ensures Simplifiable :=
  (h _ (Expr.simplifiable_var _ _)).bind fun _ hbody =>
    ensures_ofTerm (Expr.ensures_closure (by simp) hbody)

theorem ensures_schemaTuple {fields : List Expr} (h : ∀ e ∈ fields, e.Simplifiable)
    (schema : Schema) : (schemaTuple fields schema).Ensures Simplifiable := by
  have hconverted : ∀ pair ∈ fields.zip schema.types,
      (Expr.castIfNeeded pair.1 pair.2).Ensures Simplifiable := fun pair hpair =>
    Expr.ensures_castIfNeeded (h pair.1 (List.of_mem_zip hpair).1)
  unfold schemaTuple
  dsimp only
  split
  · exact Except.ensures_throw
  · exact ensures_ofTerm ((List.ensures_mapM hconverted).bind fun converted hconverted =>
      Expr.ensures_tuple hconverted)

theorem ensures_rowColumns {row : Expr} (hrow : row.Simplifiable) (count : Nat) :
    (rowColumns row count).Ensures fun fields => ∀ e ∈ fields, e.Simplifiable :=
  ensures_ofTerm (List.ensures_mapM fun _ _ => Expr.ensures_field hrow)

section

variable {input output schema source target left right : Schema} {keyType : Ty}

theorem ensures_filterFunction (condition : ScalarExpr) :
    (filterFunction schema condition).Ensures Simplifiable :=
  ensures_rowFunction fun _ hrow =>
    ScalarExpr.ensures_compilePredicate (by simpa using hrow) condition

theorem ensures_projectFunction (exprs : List ScalarExpr) :
    (projectFunction input exprs output).Ensures Simplifiable :=
  ensures_rowFunction fun _ hrow =>
    (ScalarExpr.ensures_compileAll (by simpa using hrow) exprs).bind fun _ hfields =>
      ensures_schemaTuple hfields output

theorem ensures_conformFunction : (conformFunction source target).Ensures Simplifiable :=
  ensures_rowFunction fun _ hrow =>
    (ensures_rowColumns hrow _).bind fun _ hfields => ensures_schemaTuple hfields target

theorem ensures_presenceFunction (columns : List Nat) :
    (presenceFunction schema columns).Ensures Simplifiable := by
  unfold presenceFunction
  dsimp only
  refine ensures_rowFunction fun row hrow => ensures_ofTerm ?_
  have hcheck : ∀ column : Nat, (do
      Expr.unary .isNotNull (← Expr.field row column) .bool : Except TermError Expr).Ensures
        Simplifiable := fun column =>
    (Expr.ensures_field hrow).bind fun _ hfield => Expr.ensures_unary hfield
  -- the checks are joined from left to right, and no check at all is a constant
  cases columns with
  | nil => exact Except.ensures_pure (Expr.simplifiable_boolLiteral true)
  | cons first rest =>
    refine (hcheck first).bind fun start hstart all hall => ?_
    refine List.foldlM_ok_induction Simplifiable (fun all column next hall hnext => ?_) hstart hall
    exact (hcheck column).bind (fun _ hnotNull => Expr.ensures_and hall hnotNull) next hnext

/-- A pair of a tuple of fields and the row. -/
theorem ensures_keyed {row : Expr} (hrow : row.Simplifiable)
    {key : Except TermError (List Expr)}
    (hkey : key.Ensures fun fields => ∀ e ∈ fields, e.Simplifiable) :
    (do
      let key ← key
      Expr.rawTuple [← Expr.tuple key, ← Expr.deref row] : Except TermError Expr).Ensures
        Simplifiable :=
  hkey.bind fun _ hfields => (Expr.ensures_tuple hfields).bind fun _ htuple =>
    (Expr.ensures_deref hrow).bind fun _ hderef =>
      Expr.ensures_rawTuple (by simpa using ⟨htuple, hderef⟩)

theorem ensures_keyFunction (columns : List Nat) (types : List Ty) :
    (keyFunction schema columns types).Ensures Simplifiable :=
  ensures_rowFunction fun _ hrow => ensures_ofTerm <| ensures_keyed hrow <|
    List.ensures_mapM fun _ _ => (Expr.ensures_field hrow).bind fun _ hfield =>
      Expr.ensures_castIfNeeded hfield

theorem ensures_groupFunction (groupKeys : List Nat) :
    (groupFunction schema groupKeys).Ensures Simplifiable :=
  ensures_rowFunction fun _ hrow => ensures_ofTerm <| ensures_keyed hrow <|
    List.ensures_mapM fun _ _ => Expr.ensures_field hrow

theorem ensures_joinFunction : (joinFunction keyType left right output).Ensures Simplifiable :=
  (ensures_rowColumns (Expr.simplifiable_var _ _) _).bind fun _ hleft =>
    (ensures_rowColumns (Expr.simplifiable_var _ _) _).bind fun _ hright =>
      (ensures_schemaTuple (List.forall_mem_append.mpr ⟨hleft, hright⟩) output).bind fun _ hbody =>
        ensures_ofTerm (Expr.ensures_closure (by simp) hbody)

theorem ensures_flattenFunction (resultType : Ty) (keys aggregates : Nat) :
    (flattenFunction keyType resultType keys aggregates output).Ensures Simplifiable :=
  ensures_rowFunction fun _ hpair =>
    (ensures_ofTerm (Expr.ensures_field hpair)).bind fun _ hkey =>
      (ensures_ofTerm (Expr.ensures_field hpair)).bind fun _ hvalues =>
        (ensures_rowColumns hkey keys).bind fun _ hkeys =>
          (ensures_rowColumns hvalues aggregates).bind fun _ haggregates =>
            ensures_schemaTuple (List.forall_mem_append.mpr ⟨hkeys, haggregates⟩) output

theorem ensures_constantFunction {row : Expr} (hrow : row.Simplifiable) :
    (constantFunction schema row).Ensures Simplifiable :=
  ensures_rowFunction fun _ _ => Except.ensures_ok hrow

theorem ensures_wholeRowFunction : (wholeRowFunction schema).Ensures Simplifiable :=
  ensures_rowFunction fun _ hrow => ensures_ofTerm <| (Expr.ensures_deref hrow).bind fun _ hderef =>
    Expr.ensures_rawTuple (by simpa using ⟨hderef, Expr.simplifiable_unit⟩)

theorem ensures_keyOnlyFunction : (keyOnlyFunction schema).Ensures Simplifiable :=
  ensures_ofTerm <| (Expr.ensures_deref (Expr.simplifiable_var _ _)).bind fun _ hkey =>
    Expr.ensures_closure (by simp) hkey

end

/-! ### Folds -/

theorem Ty.ensures_zero (type : Ty) : type.zero.Ensures Simplifiable := by
  unfold Ty.zero Ty.constant
  split
  · exact Expr.ensures_literal
  · exact Expr.ensures_literal
  · exact Expr.ensures_literal
  · exact Except.ensures_error

section

variable {row : Expr} {column : Nat} {type : Ty}

theorem ensures_weightAs : (weightAs type).Ensures Simplifiable :=
  (Expr.ensures_deref (Expr.simplifiable_var _ _)).bind fun _ hweight =>
    Expr.ensures_castIfNeeded hweight

theorem ensures_weightIfPresent (hrow : row.Simplifiable) :
    (weightIfPresent row column type).Ensures Simplifiable := by
  refine ensures_weightAs.bind fun weight hweight => ?_
  refine (Expr.ensures_field hrow).bind fun value hvalue => ?_
  refine (Except.ensures_true _).bind fun found _ => ?_
  -- only a column that may be NULL is asked whether it is
  split
  · exact Except.ensures_pure hweight
  · exact (Expr.ensures_unary hvalue).bind fun isNull hnull => (Ty.ensures_zero type).bind
      fun zero hzero => Expr.ensures_ifElse hnull hzero hweight

theorem ensures_weightedColumn (hrow : row.Simplifiable) :
    (weightedColumn row column type).Ensures Simplifiable :=
  (Expr.ensures_field hrow).bind fun _ hfield =>
    (Expr.ensures_castIfNeeded hfield).bind fun _ hvalue =>
      ensures_weightAs.bind fun _ hweight => Expr.ensures_binary hvalue hweight

/-! #### Accumulators -/

/-- The initial value and the update of an accumulator are simplifiable. -/
structure Accumulator.Simplifiable (a : Accumulator) : Prop where
  init : a.init.Simplifiable
  update : a.update.Simplifiable

theorem Accumulator.simplifiable_value (a : Accumulator) : a.value.Simplifiable :=
  Expr.simplifiable_var a.name a.type

theorem Accumulator.ensures_make {name : String} {init : Expr}
    {update : Expr → Except TermError Expr} (hinit : init.Simplifiable)
    (hupdate : ∀ acc : Expr, acc.Simplifiable → (update acc).Ensures Expr.Simplifiable) :
    (Accumulator.make name init update).Ensures Accumulator.Simplifiable :=
  (Except.ensures_true _).bind fun _ _ =>
    (hupdate _ (Expr.simplifiable_var _ _)).bind fun _ h => Except.ensures_pure ⟨hinit, h⟩

/-- The assignment of an accumulator goes to its variable. -/
theorem Accumulator.ensures_assignment {a : Accumulator} (ha : a.Simplifiable) :
    a.assignment.Ensures fun statement => ∀ part ∈ statement.parts, part.Simplifiable :=
  (Expr.ensures_assign ha.update).bind fun _ h => Except.ensures_pure (by
    simpa [Statement.parts] using h)

theorem ensures_addTo {sum addend : Expr} (hsum : sum.Simplifiable)
    (haddend : addend.Simplifiable) : (addTo sum addend).Ensures Simplifiable :=
  (Except.ensures_true _).bind fun _ _ => Expr.ensures_binary hsum haddend

theorem ensures_combineWith {op : AggregateOp} {acc value : Expr} (hacc : acc.Simplifiable)
    (hvalue : value.Simplifiable) : (combineWith op acc value).Ensures Simplifiable :=
  (Except.ensures_true _).bind fun _ _ =>
    (Expr.ensures_castIfNeeded hvalue).bind fun _ hconverted => Expr.ensures_binary hacc hconverted

theorem ensures_countIncrement (hrow : row.Simplifiable) (argument : Option Nat) :
    (countIncrement row argument type).Ensures Simplifiable := by
  cases argument with
  | none => exact ensures_weightAs
  | some column => exact ensures_weightIfPresent hrow

/-! #### Aggregates -/

/-- The accumulators and the result of an aggregate are simplifiable. -/
structure AggregatePlan.Simplifiable (p : AggregatePlan) : Prop where
  accumulators : ∀ a ∈ p.accumulators, a.Simplifiable
  result : p.result.Simplifiable

theorem ensures_single {acc : Accumulator} (hacc : acc.Simplifiable) :
    (single type acc).Ensures AggregatePlan.Simplifiable :=
  (Expr.ensures_castIfNeeded acc.simplifiable_value).bind fun _ hresult =>
    Except.ensures_pure ⟨by simpa using hacc, hresult⟩

theorem ensures_planExtremum {op : AggregateOp} {name : String} {nullable : Ty}
    (hrow : row.Simplifiable) :
    (planExtremum op name row column type nullable).Ensures AggregatePlan.Simplifiable := by
  refine Expr.ensures_null.bind fun init hinit => ?_
  refine (Accumulator.ensures_make hinit fun acc hacc => ?_).bind fun acc hacc =>
    ensures_single hacc
  exact (Expr.ensures_field hrow).bind fun _ hfield => ensures_combineWith hacc hfield

theorem ensures_sumAccumulator {name : String} {nullable : Ty} (hrow : row.Simplifiable) :
    (sumAccumulator name row column nullable).Ensures Accumulator.Simplifiable := by
  refine Expr.ensures_null.bind fun init hinit => ?_
  refine Accumulator.ensures_make hinit fun acc hacc => ?_
  exact (ensures_weightedColumn hrow).bind fun _ hvalue => ensures_combineWith hacc hvalue

theorem AggregateCall.ensures_plan (call : AggregateCall) (position : Nat)
    (hrow : row.Simplifiable) : (call.plan position row).Ensures AggregatePlan.Simplifiable := by
  refine (Except.ensures_true _).bind fun nullable _ => ?_
  dsimp only
  split
  · -- a count
    refine ensures_ofTerm <| (Ty.ensures_zero _).bind fun zero hzero => ?_
    refine (Accumulator.ensures_make hzero fun acc hacc => ?_).bind fun acc hacc =>
      Except.ensures_pure ⟨by simpa using hacc, acc.simplifiable_value⟩
    exact (ensures_countIncrement hrow _).bind fun _ hincrement => ensures_addTo hacc hincrement
  · -- a sum
    refine (Except.ensures_true _).bind fun column _ => ensures_ofTerm ?_
    exact (ensures_sumAccumulator hrow).bind fun acc hacc => ensures_single hacc
  · -- a minimum
    exact (Except.ensures_true _).bind fun column _ => ensures_ofTerm (ensures_planExtremum hrow)
  · -- a maximum
    exact (Except.ensures_true _).bind fun column _ => ensures_ofTerm (ensures_planExtremum hrow)
  · -- an average
    refine (Except.ensures_true _).bind fun column _ => ensures_ofTerm ?_
    refine (ensures_sumAccumulator hrow).bind fun sum hsum => ?_
    refine (Ty.ensures_zero _).bind fun zero hzero => ?_
    refine (Accumulator.ensures_make hzero fun acc hacc =>
      (ensures_weightIfPresent hrow).bind fun _ h => ensures_addTo hacc h).bind
        fun count hcount => ?_
    refine (Expr.ensures_castIfNeeded count.simplifiable_value).bind fun divisor hdivisor => ?_
    refine (Expr.ensures_binary sum.simplifiable_value hdivisor).bind fun average haverage => ?_
    exact (Expr.ensures_castIfNeeded haverage).bind fun result hresult =>
      Except.ensures_pure ⟨by simpa using ⟨hsum, hcount⟩, hresult⟩

end

/-- **Folds.** The function of an aggregating operator is simplifiable. -/
theorem ensures_foldFunction (keyType rowType : Ty) (calls : List AggregateCall) :
    (foldFunction keyType rowType calls).Ensures fun (function, _) => function.Simplifiable := by
  have hgroupRow : (groupRow rowType).Simplifiable := Expr.simplifiable_var _ _
  have hplans : (planAll (groupRow rowType) calls).Ensures
      fun plans => ∀ plan ∈ plans, plan.Simplifiable :=
    List.ensures_mapM fun call _ => call.1.ensures_plan call.2 hgroupRow
  refine hplans.bind fun plans hplans => ensures_ofTerm ?_
  have haccumulators : ∀ a ∈ plans.flatMap AggregatePlan.accumulators, a.Simplifiable := by
    intro a ha
    obtain ⟨plan, hplan, ha⟩ := List.mem_flatMap.mp ha
    exact (hplans plan hplan).accumulators a ha
  refine (List.ensures_mapM fun a ha => Accumulator.ensures_assignment (haccumulators a ha)).bind
    fun assignments hassignments => ?_
  have hbody : (Expr.block assignments none).Simplifiable :=
    Expr.simplifiable_block hassignments nofun
  refine (Expr.ensures_forLoop rfl (Expr.simplifiable_var _ _) hbody).bind fun loop hloop => ?_
  have hresults : ∀ e ∈ plans.map AggregatePlan.result, e.Simplifiable := by
    intro e he
    obtain ⟨plan, hplan, rfl⟩ := List.mem_map.mp he
    exact (hplans plan hplan).result
  refine (Expr.ensures_tuple hresults).bind fun result hresult => ?_
  refine (Except.ensures_true _).bind fun resultType _ => ?_
  refine (Expr.ensures_closure (by simp) (Expr.simplifiable_block ?_ (by simpa using hresult))).bind
    fun function hfunction => Except.ensures_pure hfunction
  -- declarations of the accumulators, and the loop
  intro statement hstatement part hpart
  rcases List.mem_append.mp hstatement with hdeclaration | heval
  · obtain ⟨a, ha, rfl⟩ := List.mem_map.mp hdeclaration
    obtain rfl : part = a.init := by simpa [Accumulator.declaration, Statement.binding,
      Statement.parts, eq_comm] using hpart
    exact (haccumulators a ha).init
  · obtain rfl := List.mem_singleton.mp heval
    obtain rfl : part = loop := by simpa [Statement.parts] using hpart
    exact hloop

theorem ensures_emptyGroupRow (calls : List AggregateCall) :
    (emptyGroupRow calls).Ensures Simplifiable := by
  have hvalue : ∀ call ∈ calls, call.emptyValue.Ensures Simplifiable := by
    intro call _
    -- a count of no rows is zero; the other aggregates are NULL, unless their type excludes it
    unfold AggregateCall.emptyValue
    split
    · exact ensures_ofTerm (Ty.ensures_zero _)
    · split
      · exact ensures_ofTerm Expr.ensures_null
      · exact Except.ensures_error
  exact (List.ensures_mapM hvalue).bind fun _ hvalues => ensures_ofTerm (Expr.ensures_tuple hvalues)

end DeltaCircuit
