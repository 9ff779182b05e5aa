import DeltaCircuit.Proofs.Eval.Frame
import DeltaCircuit.Proofs.Plan.Compiles

/-!
# Expressions over the columns of a row

If a row is one of the schema, every column of it has a value of the type of the column, and so what
is computed from columns can be read off the row. Conversions are left out where the types agree
already, which makes no difference for such values.

* `Expr.Computes` — an expression that gives what a computation gives, and changes no variable.
* `Expr.Denotes` — an expression whose value is known and of the static type.
* `Expr.denotes_column` — columns of a row in scope.
* `Expr.Denotes.castIfNeeded`, `Expr.Denotes.promote` — conversions of such an expression.
* `Expr.computes_row` — rows that are put together from expressions.
-/

namespace DeltaCircuit

open ExceptT (gives_bind gives_pure)

theorem Value.field_row {fields : List Value} {index : Nat} {u : Value} :
    (Value.row fields).field index = .ok u ↔ fields[index]? = some u := by
  unfold Value.field
  dsimp only
  cases fields[index]? <;> simp

theorem Value.and_bool (a b : Bool) :
    Value.binary (.logical .and) (.bool a) (.bool b) = .ok (.bool (a && b)) := by
  cases a <;> cases b <;> rfl

namespace Expr

/-- In variables `s` the expression gives just what the computation gives, and it never changes a
variable. -/
structure Computes (e : Expr) (s : Scopes) (result : Except EvalError Value) : Prop where
  keeps : e.eval.Keeps
  gives_iff : ∀ v, e.eval.Gives s v s ↔ result = .ok v

/-- In variables `s` the expression gives the value `u`, which is one of its static type. -/
structure Denotes (e : Expr) (s : Scopes) (u : Value) : Prop where
  computes : e.Computes s (.ok u)
  conforms : ∃ own, e.type = some own ∧ u.conforms own = true

variable {s : Scopes} {e e' : Expr} {u v : Value}

/-! ### Conversions -/

theorem keeps_castIfNeeded {target : Ty} (hkeeps : e.eval.Keeps)
    (h : castIfNeeded e target = .ok e') : e'.eval.Keeps := by
  obtain ⟨source, -, ⟨-, rfl⟩ | h⟩ := castIfNeeded_eq_ok h
  · exact hkeeps
  · rw [cast_eq_ok h]
    unfold ofForm
    rw [Expr.eval]
    exact hkeeps.bind fun _ => Eval.keeps_ofExcept

theorem keeps_promote {common : Ty} (hkeeps : e.eval.Keeps) (h : promote e common = .ok e') :
    e'.eval.Keeps := by
  obtain ⟨target, -, h⟩ := promote_eq_ok h
  exact keeps_castIfNeeded hkeeps h

/-- A conversion gives the converted value, whether it is left out or not. -/
theorem Denotes.castIfNeeded {target : Ty} (hu : e.Denotes s u)
    (h : castIfNeeded e target = .ok e') : e'.Computes s (u.convert target) := by
  refine ⟨keeps_castIfNeeded hu.computes.keeps h, fun v => ?_⟩
  obtain ⟨own, hown, hconforms⟩ := hu.conforms
  obtain ⟨source, hsource, ⟨hsame, rfl⟩ | h⟩ := castIfNeeded_eq_ok h
  · obtain rfl : own = source := Option.some.inj (hown.symm.trans hsource)
    -- the conversion that is left out would have kept the value
    rw [Value.convert_of_conforms hconforms (congrArg Ty.kind hsame)]
    exact hu.computes.gives_iff v
  · obtain rfl := cast_eq_ok h
    unfold ofForm
    rw [gives_cast]
    constructor
    · rintro ⟨u', hu', hv⟩
      obtain rfl := Except.ok.inj ((hu.computes.gives_iff u').mp hu')
      exact hv
    · intro hv
      exact ⟨u, (hu.computes.gives_iff u).mpr rfl, hv⟩

/-- An operand that is taken to a common type is converted to it. -/
theorem Denotes.promote {common : Ty} (hu : e.Denotes s u) (h : promote e common = .ok e') :
    e'.Computes s (u.convert common) := by
  refine ⟨keeps_promote hu.computes.keeps h, fun v => ?_⟩
  obtain ⟨target, hkind, h⟩ := promote_eq_ok h
  rw [(hu.castIfNeeded h).gives_iff]
  -- an operand keeps its own nullability, and a conversion does not look at that
  exact ⟨Value.convert_congr hkind.symm, Value.convert_congr hkind⟩

/-! ### Columns of a row in scope -/

theorem keeps_var {name : String} {type : Ty} : (var name type).eval.Keeps := by
  unfold var ofForm
  rw [Expr.eval]
  exact Eval.keeps_lookup

theorem computes_var {name : String} {type : Ty} (h : s.find? name = some v) :
    (var name type).Computes s (.ok v) := by
  refine ⟨keeps_var, fun u => ?_⟩
  unfold var ofForm
  rw [gives_var, h, Option.some.injEq, Except.ok.injEq]
  exact and_iff_left rfl

theorem Computes.deref {type : Option Ty} {result : Except EvalError Value}
    (h : e.Computes s result) : (ofForm type (.deref e)).Computes s result := by
  have heval : (ofForm type (.deref e)).eval = e.eval := by
    unfold ofForm
    rw [Expr.eval]
  exact ⟨heval ▸ h.keeps, heval ▸ h.gives_iff⟩

theorem keeps_unary {type : Option Ty} {op : UnaryOp} (h : e.eval.Keeps) :
    (ofForm type (.unary op e)).eval.Keeps := by
  unfold ofForm
  rw [Expr.eval]
  exact h.bind fun _ => Eval.keeps_ofExcept

theorem keeps_binary {type : Option Ty} {op : BinaryOp} (h : e.eval.Keeps) (h' : e'.eval.Keeps) :
    (ofForm type (.binary op e e')).eval.Keeps := by
  unfold ofForm
  rw [Expr.eval]
  exact h.bind fun _ => h'.bind fun _ => Eval.keeps_ofExcept

theorem Computes.unary {type : Option Ty} {op : UnaryOp} {result : Except EvalError Value}
    (h : e.Computes s result) :
    (ofForm type (.unary op e)).Computes s (do Value.unary op (← result)) := by
  refine ⟨keeps_unary h.keeps, fun v => ?_⟩
  unfold ofForm
  rw [gives_unary, Except.bind_eq_ok]
  exact exists_congr fun u => and_congr_left fun _ => h.gives_iff u

theorem Computes.binary {type : Option Ty} {op : BinaryOp} {x y : Except EvalError Value}
    (h : e.Computes s x) (h' : e'.Computes s y) :
    (ofForm type (.binary op e e')).Computes s (do Value.binary op (← x) (← y)) := by
  refine ⟨keeps_binary h.keeps h'.keeps, fun v => ?_⟩
  unfold ofForm
  simp only [gives_binary, Except.bind_eq_ok]
  constructor
  · rintro ⟨l, t, r, hl, hr, hv⟩
    -- the first operand leaves the variables as they are, so the second one sees the same
    obtain rfl := h.keeps.eq_of_gives hl
    exact ⟨l, (h.gives_iff l).mp hl, r, (h'.gives_iff r).mp hr, hv⟩
  · rintro ⟨l, hl, r, hr, hv⟩
    exact ⟨l, s, r, (h.gives_iff l).mpr hl, (h'.gives_iff r).mpr hr, hv⟩

/-- An expression that changes no variable computes its own result. -/
theorem computes_self (h : e.eval.Keeps) : e.Computes s (e.eval s).1 := by
  refine ⟨h, fun v => ⟨fun hv => ?_, fun hv => ?_⟩⟩
  · exact congrArg Prod.fst hv
  · exact Prod.ext hv (h s)

/-- A literal computes its value, and NULL if it has none. -/
theorem computes_literal {type : Option Ty} {value : Option Literal} :
    (ofForm type (.literal value)).Computes s (.ok (value.elim .null .scalar)) := by
  have heval : (ofForm type (.literal value)).eval =
      (pure (value.elim .null .scalar) : Eval Value) := by
    unfold ofForm
    cases value <;> rw [Expr.eval] <;> rfl
  constructor
  · rw [heval]
    exact Eval.keeps_pure
  · intro v
    rw [heval, gives_pure, Except.ok.injEq]
    exact and_iff_left rfl

theorem computes_boolLiteral {b : Bool} : (boolLiteral b).Computes s (.ok (.bool b)) :=
  computes_literal

theorem and_eq_ok {l r : Expr} (h : Expr.and l r = .ok e) :
    ∃ type, e = ofForm (some type) (.binary (.logical .and) l r) := by
  unfold Expr.and at h
  obtain ⟨leftType, -, h⟩ := Except.bind_eq_ok.mp h
  obtain ⟨rightType, -, h⟩ := Except.bind_eq_ok.mp h
  obtain ⟨type, -, h⟩ := Except.bind_eq_ok.mp h
  exact ⟨type, binary_eq_ok h⟩

theorem keeps_field {base : Expr} {index : Nat} (hkeeps : base.eval.Keeps)
    (h : field base index = .ok e) : e.eval.Keeps := by
  obtain ⟨type, rfl⟩ := field_eq_ok h
  unfold ofForm
  rw [Expr.eval]
  exact hkeeps.bind fun _ => Eval.keeps_ofExcept

/-- A field computes the field of what its base computes. -/
theorem Computes.field {base : Expr} {index : Nat} {result : Except EvalError Value}
    (hbase : base.Computes s result) (h : field base index = .ok e) :
    e.Computes s (do (← result).field index) := by
  refine ⟨keeps_field hbase.keeps h, fun v => ?_⟩
  obtain ⟨type, rfl⟩ := field_eq_ok h
  unfold ofForm
  rw [gives_field, Except.bind_eq_ok]
  exact exists_congr fun u => and_congr_left fun _ => hbase.gives_iff u

/-- A field of a tuple is there if its type has it, and it has the type of the field. -/
theorem field_tuple_eq_ok {base : Expr} {type : Ty} {types : List Ty} {index : Nat}
    (htype : base.type = some type) (htypes : type.deref.tupleFields? = some types)
    (hnullable : type.deref.nullable = false) (h : field base index = .ok e) :
    ∃ own, types[index]? = some own ∧ e = ofForm (some own) (.field base index) := by
  unfold field at h
  rw [Except.bind_eq_ok] at h
  obtain ⟨found, hfound, h⟩ := h
  rw [requireType_eq_ok, htype] at hfound
  obtain rfl := Option.some.inj hfound
  dsimp only at h
  rw [htypes] at h
  cases hindex : types[index]? with
  | none => simp [hindex] at h
  | some own =>
    simp only [hindex, hnullable] at h
    exact ⟨own, rfl, (Except.ok.inj h).symm⟩

/-- **Columns.** A column of a row in scope has the value that stands in the row. -/
theorem denotes_column {name : String} {types : List Ty} {fields : List Value} {index : Nat}
    (hfind : s.find? name = some (.row fields))
    (hrow : List.Forall₂ (fun v type => v.conforms type = true) fields types)
    (h : field (var name (.byRef (.tuple types))) index = .ok e) :
    ∃ u, (Value.row fields).field index = .ok u ∧ e.Denotes s u := by
  obtain ⟨type, htype, he⟩ := field_tuple_eq_ok rfl rfl rfl h
  rcases hrow.getElem? index with ⟨-, hnone⟩ | ⟨u, type', hu, htype', hconforms⟩
  · cases htype.symm.trans hnone
  · obtain rfl := Option.some.inj (htype.symm.trans htype')
    have hfield := Value.field_row.mpr hu
    have hcomputes := (computes_var hfind).field h
    rw [Except.ok_bind, hfield] at hcomputes
    exact ⟨u, hfield, hcomputes, type, congrArg Expr.type he, hconforms⟩

/-! ### Rows -/

/-- Expressions that compute something of one item each compute it of all items. -/
theorem gives_evalAll_iff {α : Type} {f : α → Except EvalError Value} {as : List α}
    {es : List Expr} (h : List.Forall₂ (fun a e => e.Computes s (f a)) as es)
    {values : List Value} : (evalAll es).Gives s values s ↔ as.mapM f = .ok values := by
  have hkeeps : ∀ e ∈ es, e.eval.Keeps := by
    intro e he
    obtain ⟨a, -, hae⟩ := h.exists_of_mem_right he
    exact hae.keeps
  rw [gives_evalAll hkeeps, List.mapM_eq_ok]
  simp only [and_true]
  -- no expression assigns, so each sees the scopes as they were at the start
  clear hkeeps
  induction h generalizing values with
  | nil => simp
  | cons hae _ ih =>
    cases values with
    | nil => simp
    | cons v values =>
      rw [List.forall₂_cons, List.forall₂_cons, hae.gives_iff]
      exact and_congr_right fun _ => ih

/-- A tuple constructor computes the row of what its components compute. -/
theorem computes_row {α : Type} {f : α → Except EvalError Value} {as : List α} {es : List Expr}
    {type : Option Ty} {form : Form} (hform : form = .tuple es ∨ form = .rawTuple es)
    (h : List.Forall₂ (fun a e => e.Computes s (f a)) as es) :
    (ofForm type form).Computes s (.row <$> as.mapM f) := by
  have heval : (ofForm type form).eval = (do return .row (← evalAll es)) := by
    unfold ofForm
    rcases hform with rfl | rfl <;> rw [Expr.eval]
  constructor
  · rw [heval]
    refine (Eval.keeps_evalAll fun e he => ?_).bind fun _ => Eval.keeps_pure
    obtain ⟨a, -, hae⟩ := h.exists_of_mem_right he
    exact hae.keeps
  · intro v
    rw [heval, gives_bind, Except.functor_map_eq_ok]
    constructor
    · rintro ⟨values, t, hvalues, hv⟩
      obtain ⟨rfl, rfl⟩ := gives_pure.mp hv
      exact ⟨values, (gives_evalAll_iff h).mp hvalues, rfl⟩
    · rintro ⟨values, hvalues, rfl⟩
      exact ⟨values, s, (gives_evalAll_iff h).mpr hvalues, gives_pure.mpr ⟨rfl, rfl⟩⟩

/-- A tuple constructor over expressions with known values computes the row of the values. -/
theorem computes_rowOf {values : List Value} {es : List Expr} {type : Option Ty} {form : Form}
    (hform : form = .tuple es ∨ form = .rawTuple es)
    (h : List.Forall₂ (fun u e => e.Computes s (.ok u)) values es) :
    (ofForm type form).Computes s (.ok (.row values)) := by
  have hvalues : values.mapM Except.ok = .ok (ε := EvalError) values :=
    List.mapM_eq_ok.mpr (List.forall₂_same.mpr fun _ _ => rfl)
  have hrow : (ofForm type form).Computes s (.row <$> values.mapM .ok) := computes_row hform h
  rwa [hvalues] at hrow

/-- A pair computes both of its components. -/
theorem Computes.pair {a b : Expr} {x y : Except EvalError Value} {type : Option Ty}
    (ha : a.Computes s x) (hb : b.Computes s y) :
    (ofForm type (.rawTuple [a, b])).Computes s (do return .row [← x, ← y]) := by
  have hparts : List.Forall₂ (fun result e => e.Computes s (id result)) [x, y] [a, b] :=
    .cons ha (.cons hb .nil)
  have hrow : (do return .row [← x, ← y]) = Value.row <$> [x, y].mapM id := by
    cases x <;> cases y <;> rfl
  rw [hrow]
  exact computes_row (.inr rfl) hparts

end Expr

end DeltaCircuit
