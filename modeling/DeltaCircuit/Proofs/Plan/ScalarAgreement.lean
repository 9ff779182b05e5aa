import DeltaCircuit.Proofs.Expr.FreeUses
import DeltaCircuit.Proofs.Plan.Agreement
import DeltaCircuit.Proofs.Plan.Predicate

/-!
# Compiled expressions give what queries mean

A compiled expression over booleans and integers comes to the datum that the expression means, and
fails where the meaning is at fault. Operands are taken to their common type and results to the
declared one, and conversions are left out where the types agree; none of this changes a datum of
the sort of the type, and so agreement goes through one form of expression after the other.

* `Expr.Reckons` — an expression whose outcomes agree with a meaning, with one rule for every way in
  which expressions are put together.
* `ScalarExpr.Compiles.typed`, `ScalarExpr.Compiles.usesOnly` — the type and the variables of what
  is compiled.
* `ScalarExpr.reckons_compileBinary`, `ScalarExpr.reckons_unary` — operators.
* `ScalarExpr.compile_reckons` — compiled expressions.
-/

namespace DeltaCircuit

/-! ### Expressions that agree with a meaning -/

namespace Expr

/-- An expression of a type, whose outcome in variables `s` agrees with what is meant, and which
changes no variable. -/
structure Reckons (e : Expr) (s : Scopes) (type : Ty) (meant : Except Fault Datum) : Prop where
  typed : e.type = some type
  agrees : ∃ result, e.eval s = (result, s) ∧ Agrees type result meant

variable {s : Scopes} {e e' l r : Expr} {type source common left right : Ty}
  {x y meant : Except Fault Datum}

/-- A conversion to a type of either sort, whether it is left out or not. -/
theorem Reckons.castIfNeeded (h : e.Reckons s source meant) (hsource : source.isReckonable = true)
    (htype : type.isReckonable = true) (hcast : Expr.castIfNeeded e type = .ok e') :
    e'.Reckons s type (do return (← meant).convert type) := by
  obtain ⟨result, heval, hagrees⟩ := h.agrees
  obtain ⟨own, hown, ⟨rfl, rfl⟩ | hcast⟩ := castIfNeeded_eq_ok hcast
  · -- the conversion that is left out would have changed nothing
    obtain rfl := Option.some.inj (h.typed.symm.trans hown)
    rw [hagrees.bind_convert (Ty.sameSort_self hsource)]
    exact h
  · obtain rfl := cast_eq_ok hcast
    refine ⟨rfl, result >>= fun v => v.convert type, ?_, ?_⟩
    · unfold ofForm
      rw [Expr.eval]
      exact Eval.run_then heval
    · exact hagrees.bind fun d hd => agrees_convert hd htype

/-- An operand that is taken to a common type keeps its datum. -/
theorem Reckons.promote (h : e.Reckons s source meant) (hsource : source.isReckonable = true)
    (hsort : source.SameSort common) (hpromote : Expr.promote e common = .ok e') :
    ∃ type, type.kind = common.kind ∧ e'.Reckons s type meant := by
  obtain ⟨type, hkind, hcast⟩ := promote_eq_ok hpromote
  have hsort : source.SameSort type := hsort.congr hkind
  have hconverted := h.castIfNeeded hsource hsort.isReckonable hcast
  obtain ⟨result, -, hagrees⟩ := h.agrees
  rw [hagrees.bind_convert hsort] at hconverted
  exact ⟨type, hkind, hconverted⟩

theorem Reckons.unary {op : UnaryOp} {g : Datum → Except Fault Datum} (h : e.Reckons s source x)
    (hop : ∀ d, d.Fits source → Agrees type (Value.unary op d.value) (g d)) :
    (ofForm (some type) (.unary op e)).Reckons s type (x >>= g) := by
  obtain ⟨result, heval, hagrees⟩ := h.agrees
  refine ⟨rfl, result >>= Value.unary op, ?_, hagrees.bind hop⟩
  unfold ofForm
  rw [Expr.eval]
  exact Eval.run_then heval

theorem Reckons.binary {op : BinaryOp} {g : Datum → Datum → Except Fault Datum}
    (hl : l.Reckons s left x) (hr : r.Reckons s right y)
    (hop : ∀ a b, a.Fits left → b.Fits right →
      Agrees type (Value.binary op a.value b.value) (g a b)) :
    (ofForm (some type) (.binary op l r)).Reckons s type (do g (← x) (← y)) := by
  obtain ⟨result, heval, hagrees⟩ := hl.agrees
  obtain ⟨result', heval', hagrees'⟩ := hr.agrees
  refine ⟨rfl, (do Value.binary op (← result) (← result')), ?_, ?_⟩
  · unfold ofForm
    rw [Expr.eval]
    cases result with
    | error fault => exact ExceptT.bind_run_error heval
    | ok v => exact (ExceptT.bind_run_ok heval).trans (Eval.run_then heval')
  · exact hagrees.bind fun a ha => hagrees'.bind fun b hb => hop a b ha hb

/-! ### Columns and literals -/

/-- **Columns.** A column of a row of the row type is the datum that stands there. -/
theorem reckons_column {name : String} {varType : Ty} {row : Value} {index : Nat}
    (hfield : field (var name varType) index = .ok e) (htype : e.type = some type)
    (hreckonable : type.isReckonable = true) (hrow : varType.deref.admits row = true)
    (hfind : s.find? name = some row) :
    e.Reckons s type (Datum.ofValue (row.column index)) := by
  obtain ⟨found, types, t, hfound, htypes, ht, own, rfl, hkind, -⟩ := field_checked hfield
  obtain rfl : varType = found := Option.some.inj hfound
  obtain rfl : own = type := Option.some.inj htype
  obtain ⟨hvalue, hadmits⟩ := Ty.admits_column (Ty.column?_eq_some.mpr ⟨types, htypes, ht⟩) hrow
  refine ⟨rfl, .ok (row.column index), ?_, ?_⟩
  · have hvar : (var name varType).eval s = (.ok row, s) := by
      unfold var ofForm
      rw [Expr.eval]
      show Eval.lookup name s = _
      rw [Eval.lookup, hfind]
    unfold ofForm
    rw [Expr.eval, Eval.run_then hvar, Except.ok_bind, hvalue]
  · rw [← hkind] at hadmits
    exact agrees_ofValue hreckonable (hadmits.imp_left And.left)

theorem reckons_literal {value : Option Literal} (hliteral : literal value type = .ok e)
    (hreckonable : type.isReckonable = true) :
    e.Reckons s type (value.elim (.ok .null) fun l => Datum.ofValue (.scalar l)) := by
  obtain rfl := literal_eq_ok hliteral
  cases value with
  | none => exact ⟨rfl, _, rfl, agrees_null⟩
  | some l =>
    obtain ⟨_, hcheck, -⟩ := Except.bind_eq_ok.mp hliteral
    have hkind : type.kind.admits (.scalar l) = true :=
      Kind.admits_of_fits (fits_of_checkLiteral hcheck)
    exact ⟨rfl, _, rfl, agrees_ofValue hreckonable (.inr hkind)⟩

end Expr

/-! ### Types and names of compiled expressions -/

theorem Expr.usesOnly_castIfNeeded {e e' : Expr} {type : Ty}
    (h : castIfNeeded e type = .ok e') : e.UsesOnly e' := by
  intro bound
  obtain ⟨source, -, ⟨-, rfl⟩ | h⟩ := castIfNeeded_eq_ok h
  · exact List.Subset.refl _
  · obtain rfl := cast_eq_ok h
    rw [Expr.freeUses_eq]
    exact List.Subset.refl _

theorem Expr.usesOnly_promote {e e' : Expr} {common : Ty} (h : promote e common = .ok e') :
    e.UsesOnly e' := by
  obtain ⟨type, -, h⟩ := promote_eq_ok h
  exact usesOnly_castIfNeeded h

theorem Expr.usesOnly_binary {row l r e : Expr} {op : BinaryOp} {type : Ty}
    (hl : row.UsesOnly l) (hr : row.UsesOnly r) (h : binary op l r type = .ok e) :
    row.UsesOnly e := by
  intro bound
  obtain rfl := binary_eq_ok h
  rw [Expr.freeUses_eq]
  exact List.append_subset.mpr ⟨hl bound, hr bound⟩

namespace ScalarExpr

variable {e : ScalarExpr} {r compiled : Expr} {name : String} {varType : Ty} {row : Value}
  {s : Scopes}

theorem Compiles.typed {row : Option Expr} (h : Compiles row e compiled) : compiled.type = some e.type := by
  cases h with
  | column _ _ htype => exact htype
  | literal h => exact congrArg Expr.type (Expr.literal_eq_ok h)
  | cast _ h => exact Expr.ensures_castIfNeeded_type _ h
  | binary _ _ _ h =>
    rcases Expr.compileBinary_eq_ok h with ⟨_, -, h⟩ | ⟨_, _, _, _, _, -, -, -, -, -, h⟩
    · exact congrArg Expr.type (Expr.binary_eq_ok h)
    · rcases h with ⟨_, -, h⟩ | ⟨-, -, _, -, h⟩
      · exact congrArg Expr.type (Expr.binary_eq_ok h)
      · exact Expr.ensures_castIfNeeded_type _ h
  | unary _ _ h => exact congrArg Expr.type (Expr.unary_eq_ok h)

theorem Compiles.usesOnly (h : Compiles (some r) e compiled) : r.UsesOnly compiled := by
  induction h with
  | column hrow h _ =>
    intro bound
    obtain rfl := Option.some.inj hrow
    obtain ⟨type, rfl⟩ := Expr.field_eq_ok h
    rw [Expr.freeUses_eq]
    exact List.Subset.refl _
  | literal h =>
    intro bound
    obtain rfl := Expr.literal_eq_ok h
    rw [Expr.freeUses_eq]
    exact List.nil_subset _
  | cast _ h ih => exact ih.trans (Expr.usesOnly_castIfNeeded h)
  | binary _ _ _ h ihx ihy =>
    rcases Expr.compileBinary_eq_ok h with ⟨_, -, h⟩ | ⟨_, _, _, l', r', -, -, -, hl', hr', h⟩
    · exact Expr.usesOnly_binary ihx ihy h
    · have hl' := ihx.trans (Expr.usesOnly_promote hl')
      have hr' := ihy.trans (Expr.usesOnly_promote hr')
      rcases h with ⟨_, -, h⟩ | ⟨-, -, result, hresult, h⟩
      · exact Expr.usesOnly_binary hl' hr' h
      · exact (Expr.usesOnly_binary hl' hr' hresult).trans (Expr.usesOnly_castIfNeeded h)
  | unary _ _ h ih =>
    intro bound
    obtain rfl := Expr.unary_eq_ok h
    rw [Expr.freeUses_eq]
    exact ih bound

/-! ### Compiled expressions -/

theorem isReckonable_type (h : e.isReckonable = true) : e.type.isReckonable = true := by
  cases e with
  | column index type => exact h
  | literal value type => exact h
  | cast operand type =>
    rw [isReckonable, Bool.and_eq_true] at h
    exact h.1
  | call op operands type =>
    rw [isReckonable, Bool.and_eq_true, Bool.and_eq_true] at h
    exact h.1.1

section

variable {op : CallOp} {type left right common : Ty} {l r : Expr} {x y : Except Fault Datum}

theorem reckons_logical {logical : LogicalOp} (hop : op.binary? = some (.logical logical))
    (hleft : left.isReckonable = true) (hright : right.isReckonable = true)
    (hl : l.Reckons s left x) (hr : r.Reckons s right y)
    (h : Expr.binary (.logical logical) l r type = .ok compiled) :
    compiled.Reckons s type (do Datum.binary op type (← x) (← y)) := by
  obtain ⟨own, own', hown, hown', hcheck⟩ := Expr.binary_checked h
  obtain rfl := Option.some.inj (hl.typed.symm.trans hown)
  obtain rfl := Option.some.inj (hr.typed.symm.trans hown')
  -- operands are not converted here: the constructor refuses anything but booleans
  obtain ⟨hlbool, hrbool, hbool⟩ := Expr.isBool_of_checkLogical hl.typed hr.typed hcheck
  rw [Ty.deref_of_isReckonable hleft] at hlbool
  rw [Ty.deref_of_isReckonable hright] at hrbool
  obtain rfl := Expr.binary_eq_ok h
  exact hl.binary hr fun a b ha hb => agrees_logical hop hlbool hrbool ha hb hbool

theorem reckons_comparison {comparison : ComparisonOp}
    (hop : op.binary? = some (.comparison comparison)) (hleft : common.SameSort left)
    (hright : common.SameSort right) (hl : l.Reckons s left x) (hr : r.Reckons s right y)
    (h : Expr.binary (.comparison comparison) l r type = .ok compiled) :
    compiled.Reckons s type (do Datum.binary op type (← x) (← y)) := by
  obtain ⟨_, _, -, -, hcheck⟩ := Expr.binary_checked h
  have hbool : type.isBool = true :=
    decide_eq_true (Expr.kind_of_checkBinary (.inl ⟨comparison, rfl⟩) hcheck)
  obtain rfl := Expr.binary_eq_ok h
  refine hl.binary hr fun a b ha hb => ?_
  -- both operands were taken to the common type, so the data are of its sort
  rw [Datum.binary_comparison hop]
  exact agrees_comparison (ha.of_sameSort hleft.symm) (hb.of_sameSort hright.symm) hbool

/-- An operation of the common type that is neither logical nor a comparison is arithmetic on
integers, since booleans and integers are no texts and booleans no numbers. -/
theorem reckons_computed {binary : BinaryOp} (hop : op.binary? = some binary)
    (hlogical : ∀ o, binary ≠ .logical o) (hcomparison : ∀ o, binary ≠ .comparison o)
    (hleft : common.SameSort left) (hright : common.SameSort right) (hl : l.Reckons s left x)
    (hr : r.Reckons s right y) (htype : type.isReckonable = true) {result : Expr}
    (hresult : Expr.binary binary l r common = .ok result)
    (h : Expr.castIfNeeded result type = .ok compiled) :
    compiled.Reckons s type (do Datum.binary op type (← x) (← y)) := by
  obtain ⟨own, own', hown, -, hcheck⟩ := Expr.binary_checked hresult
  obtain rfl := Option.some.inj (hl.typed.symm.trans hown)
  have hderef := Ty.deref_of_isReckonable hleft.isReckonable
  cases binary with
  | logical o => exact absurd rfl (hlogical o)
  | comparison o => exact absurd rfl (hcomparison o)
  | aggregate o => cases op <;> cases hop
  | concat =>
    obtain ⟨htext, -, -⟩ := Expr.checkBinary_strict (.inr ⟨rfl, rfl⟩) hcheck
    rw [hderef] at htext
    exact absurd htext (Ty.not_isText hleft.isReckonable)
  | arithmetic o =>
    obtain ⟨hnumeric, -, -⟩ := Expr.checkBinary_strict (.inl ⟨o, rfl, rfl⟩) hcheck
    rw [hderef] at hnumeric
    have hinteger : left.isInteger = true :=
      Ty.isInteger_of_isNumeric hleft.isReckonable hnumeric
    have hcommon : common.isInteger = true := hleft.symm.isInteger hinteger
    obtain rfl := Expr.binary_eq_ok hresult
    have hexact : (Expr.ofForm (some common) (.binary (.arithmetic o) l r)).Reckons s common
        (do Datum.strict (Datum.onInts o.meant) (← x) (← y)) :=
      hl.binary hr fun a b ha hb =>
        agrees_arithmetic ha hb hinteger (hright.isInteger hcommon) hcommon
    have hconverted := hexact.castIfNeeded hleft.symm.isReckonable htype h
    -- the reference converts each result on its own
    have hmeant : (do Datum.binary op type (← x) (← y)) =
        (do Datum.strict (Datum.onInts o.meant) (← x) (← y)) >>=
          fun d => pure (d.convert type) := by
      cases x with
      | error _ => rfl
      | ok a =>
        cases y with
        | error _ => rfl
        | ok b => exact Datum.binary_arithmetic hop
    rw [hmeant]
    exact hconverted

/-- A binary operation on operands that agree with what they mean agrees with what it means. -/
theorem reckons_compileBinary {binary : BinaryOp} (hop : op.binary? = some binary)
    (hleft : left.isReckonable = true) (hright : right.isReckonable = true)
    (htype : type.isReckonable = true) (hl : l.Reckons s left x) (hr : r.Reckons s right y)
    (h : Expr.compileBinary binary l r type = .ok compiled) :
    compiled.Reckons s type (do Datum.binary op type (← x) (← y)) := by
  rcases Expr.compileBinary_eq_ok h with
    ⟨o, rfl, h⟩ | ⟨own, own', common, l', r', hown, hown', hcommon, hl', hr', h⟩
  · exact reckons_logical hop hleft hright hl hr h
  · obtain rfl := Option.some.inj (hl.typed.symm.trans hown)
    obtain rfl := Option.some.inj (hr.typed.symm.trans hown')
    rw [Ty.deref_of_isReckonable hleft, Ty.deref_of_isReckonable hright] at hcommon
    -- taking the operands to their common type leaves the data alone
    obtain ⟨hlsort, hrsort⟩ := Ty.sameSort_of_unify hleft hright hcommon
    obtain ⟨left', hlkind, hl'⟩ := hl.promote hleft hlsort hl'
    obtain ⟨right', hrkind, hr'⟩ := hr.promote hright hrsort hr'
    have hself : common.SameSort common := Ty.sameSort_self hlsort.isReckonable
    rcases h with ⟨o, rfl, h⟩ | ⟨hlogical, hcomparison, result, hresult, h⟩
    · exact reckons_comparison hop (hself.congr hlkind) (hself.congr hrkind) hl' hr' h
    · exact reckons_computed hop hlogical hcomparison (hself.congr hlkind) (hself.congr hrkind)
        hl' hr' htype hresult h

/-- A unary operation on an operand that agrees with what it means agrees with what it means. -/
theorem reckons_unary {unary : UnaryOp} (hop : op.unary? = some unary)
    (hnegate : op = .negate → type.isInteger = true) (hleft : left.isReckonable = true)
    (hl : l.Reckons s left x) (h : Expr.unary unary l type = .ok compiled) :
    compiled.Reckons s type (x >>= Datum.unary op) := by
  obtain ⟨_, hcheck, -⟩ := Except.bind_eq_ok.mp h
  obtain rfl := Expr.unary_eq_ok h
  refine hl.unary fun d hd => ?_
  -- a sign is the only operator whose declared type nothing checks
  cases op <;> cases hop
  case not =>
    obtain ⟨_, hoperand, hcheck⟩ := Except.bind_eq_ok.mp hcheck
    have hsource := Expr.isBool_of_expectBool hl.typed hoperand
    rw [Ty.deref_of_isReckonable hleft] at hsource
    exact agrees_not hd hsource (decide_eq_true (Expr.kind_of_expectBoolType hcheck))
  case negate =>
    obtain ⟨own, hown, hcheck⟩ := Except.bind_eq_ok.mp hcheck
    rw [Expr.requireType_eq_ok, hl.typed] at hown
    obtain rfl := Option.some.inj hown
    split at hcheck
    · next hnumeric =>
      exact agrees_neg hd (Ty.isInteger_of_isNumeric hleft hnumeric) (hnegate rfl)
    · cases hcheck
  case isNull =>
    exact agrees_isNull (decide_eq_true (Expr.kind_of_expectTotalBoolType hcheck))
  case isNotNull =>
    exact agrees_isNotNull (decide_eq_true (Expr.kind_of_expectTotalBoolType hcheck))

end

/-- **Compiled expressions.** In variables where the row stands for its variable, a compiled
expression comes to what the expression means on the row. -/
theorem Compiles.reckons (h : Compiles (some (.var name varType)) e compiled)
    (he : e.isReckonable = true) (hrow : varType.deref.admits row = true)
    (hfind : s.find? name = some row) : compiled.Reckons s e.type (e.reckon row) := by
  induction h with
  | column hvar h htype =>
    obtain rfl := Option.some.inj hvar
    rw [reckon]
    exact Expr.reckons_column h htype he hrow hfind
  | @literal value type compiled h =>
    have hliteral := Expr.reckons_literal (s := s) h he
    cases value with
    | none => exact hliteral
    | some l => exact hliteral
  | cast hinner h ih =>
    rw [isReckonable, Bool.and_eq_true] at he
    rw [reckon]
    exact (ih he.2).castIfNeeded (isReckonable_type he.2) he.1 h
  | binary hop _ _ h ihx ihy =>
    -- operands are evaluated and reckoned in the same order, so the first fault is the same
    simp only [isReckonable, allReckonable, Bool.and_eq_true, and_true] at he
    obtain ⟨⟨htype, -⟩, hx, hy⟩ := he
    rw [reckon_call_two]
    exact reckons_compileBinary hop (isReckonable_type hx) (isReckonable_type hy) htype (ihx hx)
      (ihy hy) h
  | unary hop _ h ih =>
    simp only [isReckonable, allReckonable, Bool.and_eq_true, and_true] at he
    obtain ⟨⟨-, hnegate⟩, hx⟩ := he
    rw [reckon_call_one]
    refine reckons_unary hop (fun hop => ?_) (isReckonable_type hx) (ih hx) h
    simpa [hop, ScalarExpr.type] using hnegate

/-- **Compiled expressions give what queries mean.** An expression over booleans and integers that
is compiled over a variable for the rows of a type, or for references to them, has its own type and
uses no other variable. On every row of the type it comes to the datum that the expression means,
and fails just where a division or a remainder in it meets a zero divisor, as long as its meaning
meets no integer outside. -/
theorem compile_reckons (he : e.isReckonable = true)
    (hcompile : e.compile (some (.var name varType)) = .ok compiled) :
    compiled.type = some e.type ∧ (∀ x ∈ compiled.freeVariables, x = name) ∧
      ∀ row scopes, varType.deref.admits row = true → scopes.find? name = some row →
        (∀ i, e.reckon row ≠ .error (.outside i)) →
        ((∃ d, e.reckon row = .ok d ∧ compiled.eval scopes = (.ok d.value, scopes)) ∨
          (e.reckon row = .error .divisionByZero ∧
            compiled.eval scopes = (.error .divisionByZero, scopes))) ∧
        ((∃ error, (compiled.eval scopes).1 = .error error) ↔ e.DividesByZero row) := by
  have hcompiles := compiles_of_compile hcompile
  refine ⟨hcompiles.typed, fun x hx => ?_, fun row scopes hrow hfind hinside => ?_⟩
  · -- the variable of the row is the only one in front of the columns
    have hused := hcompiles.usesOnly [] (List.mem_eraseDups.mp hx)
    rw [Expr.freeUses_eq] at hused
    exact List.mem_singleton.mp hused
  · obtain ⟨-, result, heval, hagrees⟩ := hcompiles.reckons he hrow hfind
    generalize hmeant : e.reckon row = meant at hagrees hinside
    rw [heval]
    cases hagrees with
    | @datum d hd =>
      refine ⟨.inl ⟨d, rfl, rfl⟩, ?_, fun hzero => absurd hmeant (hzero.reckon_ne_ok d)⟩
      rintro ⟨error, herror⟩
      cases herror
    | divisionByZero =>
      exact ⟨.inr ⟨rfl, rfl⟩, fun _ => dividesByZero_of_reckon hmeant, fun _ => ⟨_, rfl⟩⟩
    | @outside result i => exact absurd rfl (hinside i)

/-- Whether half of the first column, which may be NULL, is more than the second one, or the second
one divides the first. -/
def halfOrDivisor : ScalarExpr :=
  let int32 : Ty := ⟨.base (.integer .w32 true), true⟩
  let int64 : Ty := ⟨.base (.integer .w64 true), true⟩
  let truth : Ty := ⟨.base .bool, true⟩
  .call .or
    [.call .greaterThan
      [.call .divide [.column 0 int32, .literal (some (.int 2)) .i32] int64, .column 1 .i64] truth,
      .call .equals
        [.call .mod [.column 0 int32, .column 1 .i64] int64, .literal (some (.int 0)) .i32] truth]
    truth

/-- Rows of an integer that may be NULL and one that may not, by reference. -/
def intPairRef : Ty := .byRef (.tuple [⟨.base (.integer .w32 true), true⟩, .i64])

/-- With 8 and 2 the condition is true, with NULL it is NULL although 0 would be the divisor, and
with 8 and 0 there is a division by zero on one side, which the other side does not make up for. -/
theorem compile_reckons_halfOrDivisor :
    ∃ compiled, halfOrDivisor.compile (some (.var "t" intPairRef)) = .ok compiled ∧
      compiled.eval [[("t", .row [.int 8, .int 2])]] =
        (.ok (.bool true), [[("t", .row [.int 8, .int 2])]]) ∧
      compiled.eval [[("t", .row [.null, .int 0])]] =
        (.ok .null, [[("t", .row [.null, .int 0])]]) ∧
      ∃ error, (compiled.eval [[("t", .row [.int 8, .int 0])]]).1 = .error error := by
  obtain ⟨compiled, hcompile⟩ :
      ∃ compiled, halfOrDivisor.compile (some (.var "t" intPairRef)) = .ok compiled := ⟨_, rfl⟩
  obtain ⟨-, -, hrows⟩ := compile_reckons (by decide) hcompile
  have hvalue {row : Value} {d : Datum} (hrow : intPairRef.deref.admits row = true)
      (hd : halfOrDivisor.reckon row = .ok d) :
      compiled.eval [[("t", row)]] = (.ok d.value, [[("t", row)]]) := by
    obtain ⟨⟨d', hd', heval⟩ | ⟨hzero, -⟩, -⟩ :=
      hrows row [[("t", row)]] hrow rfl fun i hi => nomatch hd.symm.trans hi
    · obtain rfl := Except.ok.inj (hd.symm.trans hd')
      exact heval
    · exact nomatch hd.symm.trans hzero
  refine ⟨compiled, hcompile, hvalue (d := .bool true) (by decide) rfl,
    hvalue (d := .null) (by decide) rfl, ?_⟩
  have hfails : halfOrDivisor.reckon (.row [.int 8, .int 0]) = .error .divisionByZero := rfl
  exact (hrows _ _ (by decide) rfl fun i hi => nomatch hfails.symm.trans hi).2.mpr
    (dividesByZero_of_reckon hfails)

end ScalarExpr

end DeltaCircuit
