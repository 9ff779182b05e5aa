import DeltaCircuit.Plan.Fold
import DeltaCircuit.Proofs.Plan.Denotation

/-!
# Functions that fold groups

The function of an aggregating operator is a block: it declares accumulators, runs a loop over the
group and ends in a tuple with one component for each aggregate. Whatever the loop does, the tuple
has the declared types of the aggregates and one value for each of them.

* `AggregateCall.ensures_plan_type` — the result of an aggregate has the declared type.
* `foldFunction_eq_ok` — the type of a fold, and what its function gives is a row of that width.
* `AggregateCall.emptyResult`, `emptyGroupRow_eq_ok` — the aggregates of no rows.
-/

namespace DeltaCircuit

open ExceptT (gives_bind gives_pure)
open Except (ensures_true ensures_pure ensures_error)

variable {calls : List AggregateCall} {e f row : Expr} {type nullable : Ty} {scopes : Scopes}
  {v : Value}

/-! ### Types of aggregates -/

/-- A conversion has the type that it converts to, whether it is left out or not. -/
theorem Expr.ensures_castIfNeeded_type :
    (castIfNeeded e type).Ensures fun e => e.type = some type := by
  intro converted h
  obtain ⟨source, hsource, ⟨rfl, rfl⟩ | h⟩ := castIfNeeded_eq_ok h
  · exact hsource
  · exact congrArg Expr.type (cast_eq_ok h)

/-- A numeric constant is a literal of its type. -/
theorem Ty.ensures_constant {ofInt : Int × Int → Int} {ofFloat : FloatWidth → Double}
    {decimal : Option String} : (type.constant ofInt ofFloat decimal).Ensures
      fun e => ∃ l, e = Expr.ofForm (some type) (.literal (some l)) := by
  unfold Ty.constant
  split
  · exact fun e h => ⟨_, Expr.literal_eq_ok h⟩
  · exact fun e h => ⟨_, Expr.literal_eq_ok h⟩
  · exact fun e h => ⟨_, Expr.literal_eq_ok h⟩
  · exact ensures_error

/-- An accumulator has the type of its initial value. -/
theorem Accumulator.ensures_make_type {name : String} {init : Expr}
    {update : Expr → Except TermError Expr} :
    (Accumulator.make name init update).Ensures fun acc => init.type = some acc.type := by
  intro acc h
  obtain ⟨type, htype, h⟩ := Except.bind_eq_ok.mp h
  obtain ⟨updated, -, h⟩ := Except.bind_eq_ok.mp h
  obtain rfl := Except.ok.inj h
  exact Expr.requireType_eq_ok.mp htype

theorem ensures_single_type {acc : Accumulator} :
    (single type acc).Ensures fun plan => plan.result.type = some type :=
  Expr.ensures_castIfNeeded_type.bind fun _ htype => ensures_pure htype

theorem ensures_planExtremum_type {op : AggregateOp} {name : String} {column : Nat} :
    (planExtremum op name row column type nullable).Ensures
      fun plan => plan.result.type = some type :=
  (ensures_true _).bind fun _ _ => (ensures_true _).bind fun _ _ => ensures_single_type

/-- The result of an aggregate has the type that the call declares. -/
theorem AggregateCall.ensures_plan_type (call : AggregateCall) (position : Nat) (row : Expr) :
    (call.plan position row).Ensures fun plan => plan.result.type = some call.type := by
  refine (ensures_true _).bind fun nullable _ => ?_
  dsimp only
  split
  · -- a count starts from the zero of its type
    refine Except.Ensures.mapError (Ty.ensures_constant.bind fun zero hzero => ?_)
    obtain ⟨l, rfl⟩ := hzero
    exact Accumulator.ensures_make_type.bind fun acc hacc => ensures_pure hacc.symm
  · -- a sum
    refine (ensures_true _).bind fun column _ => Except.Ensures.mapError ?_
    exact (ensures_true _).bind fun acc _ => ensures_single_type
  · -- a minimum
    exact (ensures_true _).bind fun column _ => ensures_planExtremum_type.mapError
  · -- a maximum
    exact (ensures_true _).bind fun column _ => ensures_planExtremum_type.mapError
  · -- an average is the quotient of two accumulators, converted at the end
    refine (ensures_true _).bind fun column _ => Except.Ensures.mapError ?_
    refine (ensures_true _).bind fun sum _ => (ensures_true _).bind fun zero _ => ?_
    refine (ensures_true _).bind fun count _ => (ensures_true _).bind fun divisor _ => ?_
    exact (ensures_true _).bind fun average _ =>
      Expr.ensures_castIfNeeded_type.bind fun _ htype => ensures_pure htype

theorem planAll_types {plans : List AggregatePlan} (h : planAll row calls = .ok plans) :
    plans.map (fun plan => plan.result.type) = calls.map fun call => some call.type := by
  have hplans : List.Forall₂ (fun (call : AggregateCall × Nat) plan =>
      some call.1.type = plan.result.type) calls.zipIdx plans :=
    (List.mapM_eq_ok.mp h).imp fun call plan hplan =>
      (call.1.ensures_plan_type call.2 row plan hplan).symm
  -- the calls are numbered for the names of their accumulators only
  have htypes : calls.zipIdx.map (fun call => some call.1.type) =
      plans.map fun plan => plan.result.type := by
    rw [← List.forall₂_eq_eq_eq, List.forall₂_map_left_iff, List.forall₂_map_right_iff]
    exact hplans
  calc plans.map (fun plan => plan.result.type)
      = (calls.zipIdx.map Prod.fst).map (fun call => some call.type) := by
        rw [List.map_map, ← htypes]
        rfl
    _ = calls.map fun call => some call.type := by rw [List.zipIdx_map_fst]

theorem Expr.fieldTypes_eq_ok {raw : Bool} {fields : List Expr} {types : List Ty}
    (h : fieldTypes raw fields = .ok types) : fields.map Expr.type = types.map some := by
  rw [← List.forall₂_eq_eq_eq, List.forall₂_map_left_iff, List.forall₂_map_right_iff]
  refine (List.mapM_eq_ok.mp h).imp fun field type hfield => ?_
  split at hfield
  · next found hfound => rw [hfound, Except.ok.inj hfield]
  · cases hfield

/-! ### The fold -/

/-- Evaluation of a list of expressions gives a value for each of them. -/
theorem Expr.length_of_evalAll {es : List Expr} {values : List Value} {s s' : Scopes}
    (h : (evalAll es).Gives s values s') : values.length = es.length := by
  induction es generalizing values s s' with
  | nil =>
    rw [evalAll] at h
    obtain ⟨rfl, -⟩ := gives_pure.mp h
    rfl
  | cons e es ih =>
    rw [evalAll] at h
    obtain ⟨first, t, -, h⟩ := gives_bind.mp h
    obtain ⟨rest, t', hrest, h⟩ := gives_bind.mp h
    obtain ⟨rfl, -⟩ := gives_pure.mp h
    rw [List.length_cons, List.length_cons, ih hrest]

/-- What a call of a closure gives is a value of its body. -/
theorem Expr.exists_gives_of_applyTo {params : List Parameter} {body : Expr} {type : Option Ty}
    {args : List Value} (h : (ofForm type (.closure params body)).applyTo args = .ok v) :
    ∃ s s', body.eval.Gives s v s' := by
  have hcall : ((ofForm type (.closure params body)).call args).Gives []  v _ := Prod.ext h rfl
  unfold call ofForm at hcall
  dsimp only at hcall
  split at hcall
  · obtain ⟨t, hscope, -⟩ := Eval.gives_inScope.mp hcall
    obtain ⟨⟨⟩, s, -, hbody⟩ := gives_bind.mp hscope
    exact ⟨s, t, hbody⟩
  · exact (ExceptT.gives_throw.mp hcall).elim

/-- **Folds.** A fold has the tuple type of its aggregates, and its function gives rows of one value
for each of them. -/
theorem foldFunction_eq_ok {keyType rowType resultType : Ty}
    (h : foldFunction keyType rowType calls = .ok (f, resultType)) :
    -- only the first case of a call has a result, the one of as many arguments as parameters
    resultType = .tuple (calls.map AggregateCall.type) ∧
      ∀ args v, f.applyTo args = .ok v →
        ∃ values, v = .row values ∧ values.length = calls.length := by
  obtain ⟨plans, hplans, h⟩ := Except.bind_eq_ok.mp h
  dsimp only at h
  rw [ofTerm_eq_ok] at h
  obtain ⟨assignments, -, h⟩ := Except.bind_eq_ok.mp h
  obtain ⟨loop, -, h⟩ := Except.bind_eq_ok.mp h
  obtain ⟨result, hresult, h⟩ := Except.bind_eq_ok.mp h
  obtain ⟨found, hfound, h⟩ := Except.bind_eq_ok.mp h
  obtain ⟨function, hfunction, hpair⟩ := Except.bind_eq_ok.mp h
  obtain ⟨rfl, rfl⟩ := Prod.mk.inj (Except.ok.inj hpair)
  obtain ⟨types, htypes, rfl⟩ := Expr.tuple_eq_ok hresult
  obtain rfl := Expr.closure_eq_ok hfunction
  have hplanned := planAll_types hplans
  constructor
  · -- the components have the types of the plans, and those are declared
    have hsome : types.map some = (calls.map AggregateCall.type).map some := by
      rw [← Expr.fieldTypes_eq_ok htypes, List.map_map, List.map_map]
      exact hplanned
    obtain rfl := List.map_injective_iff.mpr (fun _ _ => Option.some.inj) hsome
    exact (Option.some.inj (Expr.requireType_eq_ok.mp hfound)).symm
  · -- the body ends in the tuple, whatever the statements before it do
    intro args v hv
    obtain ⟨s, s', hbody⟩ := Expr.exists_gives_of_applyTo hv
    unfold Expr.block Expr.ofForm at hbody
    rw [Expr.eval] at hbody
    obtain ⟨t, hscope, -⟩ := Eval.gives_inScope.mp hbody
    obtain ⟨⟨⟩, middle, -, hlast⟩ := gives_bind.mp hscope
    rw [Expr.eval] at hlast
    obtain ⟨values, last, hvalues, hrow⟩ := gives_bind.mp hlast
    obtain ⟨rfl, -⟩ := gives_pure.mp hrow
    refine ⟨values, rfl, ?_⟩
    have hlength := congrArg List.length hplanned
    rw [List.length_map, List.length_map] at hlength
    rw [Expr.length_of_evalAll hvalues, List.length_map, hlength]

/-! ### No rows -/

/-- Zero, as a value of a numeric type. -/
def Ty.zeroValue (type : Ty) : Value :=
  match type.kind with
  | .base (.float _) => .float (Double.zero false)
  | .base .decimal => .scalar (.decimal "0")
  | _ => .int 0

/-- The value of an aggregate of no rows: zero for a count, and NULL for any other one. -/
def AggregateCall.emptyResult (call : AggregateCall) : Value :=
  match call.function with
  | .count => call.type.zeroValue
  | _ => .null

theorem Ty.computes_zero (h : type.zero = .ok e) : e.Computes scopes (.ok type.zeroValue) := by
  unfold Ty.zero Ty.constant at h
  unfold Ty.zeroValue
  split at h
  · next width signed hkind =>
    rw [Expr.literal_eq_ok h, hkind]
    exact Expr.computes_literal
  · next width hkind =>
    rw [Expr.literal_eq_ok h, hkind]
    exact Expr.computes_literal
  · next hkind hdigits =>
    obtain rfl := Option.some.inj hdigits
    rw [Expr.literal_eq_ok h, hkind]
    exact Expr.computes_literal
  · cases h

/-- An aggregate of no rows has a value that does not depend on any variable. -/
theorem AggregateCall.computes_emptyValue {call : AggregateCall} (h : call.emptyValue = .ok e) :
    e.Computes scopes (.ok call.emptyResult) := by
  unfold AggregateCall.emptyValue at h
  unfold AggregateCall.emptyResult
  cases hfunction : call.function with
  | count =>
    simp only [hfunction] at h ⊢
    exact Ty.computes_zero (ofTerm_eq_ok.mp h)
  | sum | min | max | avg =>
    simp only [hfunction] at h ⊢
    -- the type of such an aggregate has to admit NULL
    split at h
    · obtain ⟨type, -, hliteral⟩ := Except.bind_eq_ok.mp (ofTerm_eq_ok.mp h)
      rw [Expr.literal_eq_ok hliteral]
      exact Expr.computes_literal
    · cases h

/-- **No rows.** The row of no rows is closed, and it holds the aggregates of no rows. -/
theorem emptyGroupRow_eq_ok (h : emptyGroupRow calls = .ok e) :
    e.Computes scopes (.ok (.row (calls.map AggregateCall.emptyResult))) := by
  obtain ⟨values, hvalues, htuple⟩ := Except.bind_eq_ok.mp h
  obtain ⟨_, -, rfl⟩ := Expr.tuple_eq_ok (ofTerm_eq_ok.mp htuple)
  refine Expr.computes_rowOf (.inl rfl) (List.forall₂_map_left_iff.mpr ?_)
  exact (List.mapM_eq_ok.mp hvalues).imp fun call value hvalue =>
    AggregateCall.computes_emptyValue hvalue

end DeltaCircuit
