import DeltaCircuit.Proofs.Eval.Admits
import DeltaCircuit.Proofs.Eval.Frame
import DeltaCircuit.Proofs.Expr.Built
import DeltaCircuit.Proofs.Ty.Json

/-!
# Static types of terms

A term is put together from literals, variables, fields, operations, tuples and choices. When the
variables have values of their types, what a term evaluates to is a value of its static type, with
one proviso: the constructors compare the declared type with the operands for arithmetic and
concatenation only, so that any other operation may be declared never to be NULL though its operands
are.

* `Form.isTerm` — the forms of terms.
* `Expr.Declares` — the proviso: a declared type that admits what the operation gives.
* `Expr.TypedIn` — a node that the constructors give, over variables with values of their types.
* `Expr.binary_admits`, `Expr.unary_admits`, `Expr.field_admits`, … — one node.
* `Expr.admits_of_gives` — the value of a term is one of its static type.
-/

namespace DeltaCircuit

/-! ### Terms -/

/-- Literals, variables, fields, operations, tuples and choices. -/
def Form.isTerm : Form → Bool
  | .literal _ | .var _ | .field _ _ | .binary _ _ _ | .unary _ _ | .ifElse _ _ _ | .tuple _
  | .rawTuple _ => true
  | _ => false

/-- Every value of the second kind is one of the first. -/
def Kind.Covers (kind other : Kind) : Prop := ∀ v, other.admits v = true → kind.admits v = true

namespace Expr

/-- Whether the static type of an expression admits NULL. -/
def admitsNull (e : Expr) : Bool := e.type.any Ty.nullable

/-- The declared type of an operation admits what the operation gives, where no constructor sees to
it: it admits NULL if the operands may make the result NULL, and has the values of the kind of the
operands if the result is one of them or of their kind. -/
def Declares (e : Expr) : Prop :=
  ∀ type, e.type = some type →
    match e.form with
    | .binary (.logical _) left right | .binary (.comparison _) left right =>
      left.admitsNull || right.admitsNull → type.nullable
    | .binary (.aggregate _) left right =>
      (∀ t, left.type = some t → type.kind.Covers t.kind) ∧
        (left.admitsNull && right.admitsNull → type.nullable)
    | .unary .not operand => operand.admitsNull → type.nullable
    | .unary .neg operand | .unary .plus operand =>
      (∀ t, operand.type = some t → type.kind.Covers t.kind) ∧
        (operand.admitsNull → type.nullable)
    | _ => True

/-- A node of a term that the constructors give. Its type is one that can be built, and if it is a
variable that is bound, its value is one of its type. -/
structure TypedIn (scopes : Scopes) (e : Expr) : Prop where
  built : e.IsBuilt
  term : e.form.isTerm = true
  valid : ∀ type, e.type = some type → type.Valid
  bound : ∀ name type v, e.form = .var name → e.type = some type → scopes.find? name = some v →
    type.admits v = true

variable {e base left right operand : Expr} {type found leftType rightType : Ty} {v l r u : Value}
  {scopes scopes' : Scopes}

theorem admitsNull_eq (h : e.type = some type) : e.admitsNull = type.nullable := by
  rw [admitsNull, h]
  rfl

/-! ### What the constructors check -/

theorem fits_of_checkLiteral {literal : Literal} (h : checkLiteral literal type = .ok ()) :
    literal.fits type.kind = true := by
  unfold checkLiteral at h
  split at h
  · next hkind =>
    rw [hkind]
    rfl
  · next hother =>
    split at h
    · next hfits => exact hfits
    · cases h

theorem literal_admits {value : Option Literal} (h : literal value type = .ok e) :
    type.admits (value.elim .null .scalar) = true := by
  unfold literal at h
  cases value with
  | none =>
    dsimp only at h
    split at h
    · next hnullable => exact Ty.admits_null.trans hnullable
    · cases h
  | some l =>
    obtain ⟨_, hcheck, -⟩ := Except.bind_eq_ok.mp h
    exact Ty.admits_iff.mpr (.inr (Kind.admits_of_fits (fits_of_checkLiteral hcheck)))

theorem binary_checked {op : BinaryOp} (h : binary op left right type = .ok e) :
    ∃ leftType rightType, left.type = some leftType ∧ right.type = some rightType ∧
      checkBinary op left right leftType rightType type = .ok () := by
  obtain ⟨leftType, hleft, h⟩ := Except.bind_eq_ok.mp h
  obtain ⟨rightType, hright, h⟩ := Except.bind_eq_ok.mp h
  obtain ⟨_, hcheck, -⟩ := Except.bind_eq_ok.mp h
  exact ⟨leftType, rightType, requireType_eq_ok.mp hleft, requireType_eq_ok.mp hright, hcheck⟩

theorem kind_of_expectBoolType {site : Site} (h : expectBoolType site type = .ok ()) :
    type.kind = .base .bool := by
  unfold expectBoolType at h
  split at h
  · next hbool => exact of_decide_eq_true hbool
  · cases h

/-- Operands of one group have a common type, and it is the declared one. -/
theorem checkBinary_strict {op : BinaryOp} {fits : Ty → Bool}
    (hop : (∃ o, op = .arithmetic o ∧ fits = Ty.isNumeric) ∨ (op = .concat ∧ fits = Ty.isText))
    (h : checkBinary op left right leftType rightType type = .ok ()) :
    fits leftType.deref = true ∧ fits rightType.deref = true ∧
      leftType.deref.unify rightType.deref = .ok type := by
  have hsame {expected : String} (h : (if fits leftType.deref && fits rightType.deref then do
        let result ← leftType.deref.unify rightType.deref
        if result = type then pure ()
        else throw (.mismatch (.binary op) (.type result) (.type type))
      else throw (.mismatch (.binary op) (.words expected)
        (.both leftType.deref rightType.deref)) : Except TermError Unit) = .ok ()) :
      fits leftType.deref = true ∧ fits rightType.deref = true ∧
        leftType.deref.unify rightType.deref = .ok type := by
    split at h
    · next hfits =>
      obtain ⟨result, hresult, h⟩ := Except.bind_eq_ok.mp h
      split at h
      · next heq =>
        rw [Bool.and_eq_true] at hfits
        exact ⟨hfits.1, hfits.2, heq ▸ hresult⟩
      · cases h
    · cases h
  rcases hop with ⟨o, rfl, rfl⟩ | ⟨rfl, rfl⟩
  · exact hsame h
  · exact hsame h

/-! ### One node -/

/-- A type of booleans has every boolean, and NULL if it is admitted. -/
theorem boolType_admits (hkind : type.kind = .base .bool)
    (hv : (v = .null ∧ type.nullable = true) ∨ ∃ b, v = .bool b) : type.admits v = true := by
  refine Ty.admits_iff.mpr (hv.imp_right ?_)
  rintro ⟨b, rfl⟩
  rw [hkind]
  rfl

/-- A value other than NULL of a type is one of the kind of what the type refers to. -/
theorem deref_kind_admits (h : type.admits v = true) (hv : v ≠ .null) :
    type.deref.kind.admits v = true := by
  rw [Ty.kind_admits_deref, ← Ty.admits_of_ne_null hv]
  exact h

/-- A type of references has no NULL, so what it refers to is the type itself if it has. -/
theorem deref_nullable (hvalid : type.Valid) (h : type.admits .null = true) :
    type.deref.nullable = true := by
  rw [Ty.admits_null] at h
  unfold Ty.deref
  split
  · next inner mutable hkind =>
    have href : type.isReference = true := by
      unfold Ty.isReference
      rw [hkind]
    exact absurd (h.symm.trans (hvalid.nullsFit.reference href)) nofun
  · exact h

/-- What an operation on operands of one group gives is a value of the common type, if the operation
on values other than NULL gives one of the common kind. -/
theorem strict_admits {result : Except EvalError Value} (hlvalid : leftType.Valid)
    (hrvalid : rightType.Valid) (htype : leftType.deref.unify rightType.deref = .ok type)
    (hl : leftType.admits l = true) (hr : rightType.admits r = true)
    (hresult : leftType.deref.kind.admits l = true → rightType.deref.kind.admits r = true →
      result = .ok v → type.kind.admits v = true)
    (h : (if l.isNull || r.isNull then .ok .null else result) = .ok v) :
    type.admits v = true := by
  rcases Value.eq_ok_of_strict h with ⟨rfl, hnull⟩ | ⟨hlne, hrne, hv⟩
  · -- an operand is NULL, so its type and the common one admit NULL
    rw [Ty.admits_null, Ty.nullable_of_unify htype, Bool.or_eq_true]
    rcases hnull with rfl | rfl
    · exact .inl (deref_nullable hlvalid hl)
    · exact .inr (deref_nullable hrvalid hr)
  · exact Ty.admits_iff.mpr
      (.inr (hresult (deref_kind_admits hl hlne) (deref_kind_admits hr hrne) hv))

/-- Comparisons and logical operations are declared to be booleans. -/
theorem kind_of_checkBinary {op : BinaryOp}
    (hop : (∃ o, op = .comparison o) ∨ ∃ o, op = .logical o)
    (h : checkBinary op left right leftType rightType type = .ok ()) : type.kind = .base .bool := by
  unfold checkBinary at h
  rcases hop with ⟨o, rfl⟩ | ⟨o, rfl⟩ <;> dsimp only at h
  · split at h
    · exact kind_of_expectBoolType h
    · cases h
  · obtain ⟨_, -, h⟩ := Except.bind_eq_ok.mp h
    obtain ⟨_, -, h⟩ := Except.bind_eq_ok.mp h
    exact kind_of_expectBoolType h

/-- What an operator that skips NULL gives is NULL only if both operands are, and otherwise it is of
the kind of the operands. -/
theorem aggregate_admits {op : AggregateOp} (hkinds : leftType.kind = rightType.kind)
    (hcovers : type.kind.Covers leftType.kind)
    (hnulls : leftType.nullable = true → rightType.nullable = true → type.nullable = true)
    (hl : leftType.admits l = true) (hr : rightType.admits r = true)
    (h : Value.aggregate op l r = .ok v) : type.admits v = true := by
  have hkind (hv : leftType.kind.admits v = true) : type.admits v = true :=
    Ty.admits_iff.mpr (.inr (hcovers v hv))
  have hboth (hl : leftType.nullable = true) (hr : rightType.nullable = true) :
      type.admits .null = true := Ty.admits_null.trans (hnulls hl hr)
  -- the left operand is NULL, the right one is, or none is
  rcases Value.aggregate_eq_ok h with ⟨rfl, rfl⟩ | ⟨rfl, rfl⟩ | ⟨hlne, hrne, hv⟩
  · rcases Ty.admits_iff.mp hr with ⟨rfl, hrnull⟩ | hr
    · exact hboth (Ty.admits_null.symm.trans hl) hrnull
    · exact hkind (hkinds ▸ hr)
  · rcases Ty.admits_iff.mp hl with ⟨rfl, hlnull⟩ | hl
    · exact hboth hlnull (Ty.admits_null.symm.trans hr)
    · exact hkind hl
  · rw [Ty.admits_of_ne_null hlne] at hl
    rw [Ty.admits_of_ne_null hrne, ← hkinds] at hr
    rcases hv with rfl | rfl | hsum
    · exact hkind hl
    · exact hkind hr
    · exact hkind (Value.add_admits hl hr hsum)

/-- **Binary operations.** What a binary operation gives on values of the types of its operands is
a value of its declared type. -/
theorem binary_admits {op : BinaryOp} (hbuilt : binary op left right type = .ok e)
    (hdeclares : (ofForm (some type) (.binary op left right)).Declares)
    (hleft : left.type = some leftType) (hright : right.type = some rightType)
    (hlvalid : leftType.Valid) (hrvalid : rightType.Valid) (hl : leftType.admits l = true)
    (hr : rightType.admits r = true) (h : Value.binary op l r = .ok v) :
    type.admits v = true := by
  obtain ⟨leftType', rightType', hleft', hright', hcheck⟩ := binary_checked hbuilt
  obtain rfl := Option.some.inj (hleft.symm.trans hleft')
  obtain rfl := Option.some.inj (hright.symm.trans hright')
  have hdeclares := hdeclares type rfl
  -- NULL only if an operand is, whose type then admits it
  have hnull (hadmits : left.admitsNull || right.admitsNull → type.nullable)
      (hlr : l = .null ∨ r = .null) : type.nullable = true := by
    rw [admitsNull_eq hleft, admitsNull_eq hright, Bool.or_eq_true] at hadmits
    rcases hlr with rfl | rfl
    · exact hadmits (.inl (Ty.admits_null.symm.trans hl))
    · exact hadmits (.inr (Ty.admits_null.symm.trans hr))
  cases op with
  | arithmetic op =>
    obtain ⟨hln, hrn, hunify⟩ := checkBinary_strict (.inl ⟨op, rfl, rfl⟩) hcheck
    exact strict_admits hlvalid hrvalid hunify hl hr
      (Value.arithmetic_admits hln hrn (Ty.unify_eq_ok hunify)) h
  | concat =>
    obtain ⟨hlt, hrt, hunify⟩ := checkBinary_strict (.inr ⟨rfl, rfl⟩) hcheck
    exact strict_admits hlvalid hrvalid hunify hl hr
      (fun _ _ => Value.concat_admits hlt hrt (Ty.unify_eq_ok hunify)) h
  | comparison op =>
    refine boolType_admits (kind_of_checkBinary (.inl ⟨op, rfl⟩) hcheck) ?_
    rcases Value.eq_ok_of_strict h with ⟨rfl, hlr⟩ | ⟨-, -, hv⟩
    · exact .inl ⟨rfl, hnull hdeclares hlr⟩
    · obtain ⟨order, -, hv⟩ := Except.bind_eq_ok.mp hv
      exact .inr ⟨_, (Except.ok.inj hv).symm⟩
  | logical op =>
    refine boolType_admits (kind_of_checkBinary (.inr ⟨op, rfl⟩) hcheck) ?_
    rcases Value.logical_eq_ok h with ⟨rfl, hlr⟩ | hb
    · exact .inl ⟨rfl, hnull hdeclares hlr⟩
    · exact .inr hb
  | aggregate op =>
    have hkinds : leftType.kind = rightType.kind := by
      unfold checkBinary at hcheck
      dsimp only at hcheck
      split at hcheck
      · assumption
      · cases hcheck
    obtain ⟨hcovers, hnulls⟩ := hdeclares
    rw [admitsNull_eq hleft, admitsNull_eq hright, Bool.and_eq_true] at hnulls
    exact aggregate_admits hkinds (hcovers leftType hleft) (fun hl hr => hnulls ⟨hl, hr⟩) hl hr h

theorem kind_of_expectTotalBoolType {site : Site} (h : expectTotalBoolType site type = .ok ()) :
    type.kind = .base .bool := by
  unfold expectTotalBoolType at h
  split at h
  · next hbool => exact of_decide_eq_true (Bool.and_eq_true_iff.mp hbool).1
  · cases h

/-- A sign keeps NULL and the sort of a number. -/
theorem sign_eq_ok {op : UnaryOp} (hop : op = .neg ∨ op = .plus) (h : Value.unary op u = .ok v) :
    (u = .null ∧ v = .null) ∨ (∃ i j, u = .int i ∧ v = .int j) ∨
      ∃ a b, u = .float a ∧ v = .float b := by
  rcases hop with rfl | rfl <;> cases u with
  | null => exact .inl ⟨rfl, (Except.ok.inj h).symm⟩
  | scalar literal =>
    cases literal with
    | int i => exact .inr (.inl ⟨i, _, rfl, (Except.ok.inj h).symm⟩)
    | float d => exact .inr (.inr ⟨d, _, rfl, (Except.ok.inj h).symm⟩)
    | _ => cases h
  | _ => cases h

/-- What is declared for a sign has the values that the sign gives. -/
theorem sign_admits {op : UnaryOp} (hop : op = .neg ∨ op = .plus)
    (hcovers : type.kind.Covers found.kind) (hnulls : found.nullable = true → type.nullable = true)
    (hu : found.admits u = true) (h : Value.unary op u = .ok v) : type.admits v = true := by
  rcases sign_eq_ok hop h with ⟨rfl, rfl⟩ | ⟨i, j, rfl, rfl⟩ | ⟨a, b, rfl, rfl⟩
  · exact Ty.admits_null.trans (hnulls (Ty.admits_null.symm.trans hu))
  · rcases Ty.admits_iff.mp hu with ⟨hnull, -⟩ | hu
    · cases hnull
    · exact Ty.admits_iff.mpr (.inr (hcovers _ ((Kind.admits_int j i _).trans hu)))
  · rcases Ty.admits_iff.mp hu with ⟨hnull, -⟩ | hu
    · cases hnull
    · exact Ty.admits_iff.mpr (.inr (hcovers _ ((Kind.admits_float b a _).trans hu)))

/-- A negation gives a boolean, or NULL for NULL. -/
theorem not_eq_ok (h : Value.unary .not u = .ok v) :
    (u = .null ∧ v = .null) ∨ ∃ b, v = .bool b := by
  cases u with
  | null => exact .inl ⟨rfl, (Except.ok.inj h).symm⟩
  | scalar literal =>
    cases literal with
    | bool b => exact .inr ⟨_, (Except.ok.inj h).symm⟩
    | _ => cases h
  | _ => cases h

theorem exists_type_of_expectBool {site : Site} {_ok : Unit} (h : expectBool site e = .ok _ok) :
    ∃ type, e.type = some type := by
  obtain ⟨type, htype, -⟩ := Except.bind_eq_ok.mp h
  exact ⟨type, requireType_eq_ok.mp htype⟩

theorem isBool_of_expectBool {e : Expr} {site : Site} {type : Ty} {u : Unit}
    (htype : e.type = some type) (h : expectBool site e = .ok u) : type.deref.isBool = true := by
  obtain ⟨own, hown, h⟩ := Except.bind_eq_ok.mp h
  rw [requireType_eq_ok, htype] at hown
  obtain rfl := Option.some.inj hown
  split at h
  · next hbool => exact hbool
  · cases h

theorem isBool_of_checkLogical {l r : Expr} {op : LogicalOp} {left right type : Ty}
    (hl : l.type = some left) (hr : r.type = some right)
    (h : checkBinary (.logical op) l r left right type = .ok ()) :
    left.deref.isBool = true ∧ right.deref.isBool = true ∧ type.isBool = true := by
  obtain ⟨_, hleft, h⟩ := Except.bind_eq_ok.mp h
  obtain ⟨_, hright, h⟩ := Except.bind_eq_ok.mp h
  exact ⟨isBool_of_expectBool hl hleft, isBool_of_expectBool hr hright,
    decide_eq_true (kind_of_expectBoolType h)⟩

/-- **Unary operations.** What a unary operation gives on a value of the type of its operand is a
value of its declared type. -/
theorem unary_admits {op : UnaryOp} (hbuilt : unary op operand type = .ok e)
    (hdeclares : (ofForm (some type) (.unary op operand)).Declares)
    (hu : ∀ found, operand.type = some found → found.admits u = true)
    (h : Value.unary op u = .ok v) : type.admits v = true := by
  obtain ⟨_, hcheck, -⟩ := Except.bind_eq_ok.mp hbuilt
  have hdeclares := hdeclares type rfl
  -- tests give booleans for every operand; a negation and a sign give NULL for NULL
  cases op with
  | isNull =>
    exact boolType_admits (kind_of_expectTotalBoolType hcheck) (.inr ⟨_, (Except.ok.inj h).symm⟩)
  | isNotNull =>
    exact boolType_admits (kind_of_expectTotalBoolType hcheck) (.inr ⟨_, (Except.ok.inj h).symm⟩)
  | wrapBool =>
    obtain ⟨_, -, hcheck⟩ := Except.bind_eq_ok.mp hcheck
    exact boolType_admits (kind_of_expectTotalBoolType hcheck) (.inr ⟨_, (Except.ok.inj h).symm⟩)
  | not =>
    obtain ⟨_, hbool, hcheck⟩ := Except.bind_eq_ok.mp hcheck
    obtain ⟨found, hfound⟩ := exists_type_of_expectBool hbool
    refine boolType_admits (kind_of_expectBoolType hcheck) ?_
    rcases not_eq_ok h with ⟨rfl, rfl⟩ | hb
    · have hnull : found.nullable = true := Ty.admits_null.symm.trans (hu found hfound)
      exact .inl ⟨rfl, hdeclares ((admitsNull_eq hfound).trans hnull)⟩
    · exact .inr hb
  | neg =>
    obtain ⟨found, hfound, -⟩ := Except.bind_eq_ok.mp hcheck
    rw [requireType_eq_ok] at hfound
    obtain ⟨hcovers, hnulls⟩ := hdeclares
    rw [admitsNull_eq hfound] at hnulls
    exact sign_admits (.inl rfl) (hcovers found hfound) hnulls (hu found hfound) h
  | plus =>
    obtain ⟨found, hfound, -⟩ := Except.bind_eq_ok.mp hcheck
    rw [requireType_eq_ok] at hfound
    obtain ⟨hcovers, hnulls⟩ := hdeclares
    rw [admitsNull_eq hfound] at hnulls
    exact sign_admits (.inr rfl) (hcovers found hfound) hnulls (hu found hfound) h

theorem field_checked {index : Nat} (h : field base index = .ok e) :
    ∃ found types t, base.type = some found ∧ found.deref.tupleFields? = some types ∧
      types[index]? = some t ∧ ∃ type, e = ofForm (some type) (.field base index) ∧
        type.kind = t.kind ∧ type.nullable = (found.deref.nullable || t.nullable) := by
  unfold field at h
  obtain ⟨found, hfound, h⟩ := Except.bind_eq_ok.mp h
  dsimp only at h
  split at h
  · cases h
  · next types htypes =>
    split at h
    · cases h
    · next t ht =>
      refine ⟨found, types, t, requireType_eq_ok.mp hfound, htypes, ht, ?_⟩
      split at h
      · next hnullable =>
        obtain ⟨type, htype, h⟩ := Except.bind_eq_ok.mp h
        refine ⟨type, (Except.ok.inj h).symm, Ty.kind_of_withNullable htype, ?_⟩
        rw [Ty.nullable_of_withNullable htype, hnullable, Bool.true_or]
      · next hnullable =>
        refine ⟨t, (Except.ok.inj h).symm, rfl, ?_⟩
        rw [Bool.not_eq_true] at hnullable
        rw [hnullable, Bool.false_or]

/-- **Fields.** A field of a value of the type of its base is a value of the type of the field. -/
theorem field_admits {index : Nat} (hbuilt : field base index = .ok e) (htype : e.type = some type)
    (hbase : base.type = some found) (hvalid : found.Valid) (hu : found.admits u = true)
    (h : u.field index = .ok v) : type.admits v = true := by
  obtain ⟨found', types, t, hfound, htypes, ht, type', rfl, hkind, hnullable⟩ :=
    field_checked hbuilt
  obtain rfl := Option.some.inj (hbase.symm.trans hfound)
  obtain rfl : type' = type := Option.some.inj htype
  unfold Value.field at h
  split at h
  · -- NULL has every field, and the type of the field admits NULL then
    obtain rfl := Except.ok.inj h
    rw [Ty.admits_null, hnullable, deref_nullable hvalid hu, Bool.true_or]
  · next fields =>
    split at h
    · next field hfield =>
      obtain rfl := Except.ok.inj h
      have hrow : found.deref.kind.admits (.row fields) = true := deref_kind_admits hu nofun
      rcases ((Ty.admits_row htypes).mp hrow).getElem? index with ⟨hnone, -⟩ | ⟨a, b, ha, hb, hab⟩
      · cases hnone.symm.trans ht
      · obtain rfl := Option.some.inj (ha.symm.trans ht)
        obtain rfl := Option.some.inj (hb.symm.trans hfield)
        rw [Ty.admits_iff, hkind, hnullable, Bool.or_eq_true]
        exact (Ty.admits_iff.mp hab).imp_left fun hnull => ⟨hnull.1, .inr hnull.2⟩
    · cases h
  · cases h

/-! ### Terms -/

/-- A choice with a value has two branches of its type. -/
theorem ifElse_branches {condition positive : Expr} {negative : Option Expr}
    (h : ifElse condition positive negative =
      .ok (ofForm (some type) (.ifElse condition positive negative))) :
    ∃ other, negative = some other ∧ positive.type = some type ∧ other.type = some type := by
  obtain ⟨_, -, h⟩ := Except.bind_eq_ok.mp h
  cases negative with
  | none => cases h
  | some other =>
    dsimp only at h
    split at h
    · next hsame =>
      have hpositive : positive.type = some type := congrArg Expr.type (Except.ok.inj h)
      exact ⟨other, rfl, hpositive, hsame ▸ hpositive⟩
    · cases h

section

open ExceptT (gives_bind gives_pure)

variable {tag : Tag} {own : Option Ty}

theorem gives_constant {value : Option Literal} :
    (eval ⟨tag, own, .literal value⟩).Gives scopes v scopes' ↔
      v = value.elim .null .scalar ∧ scopes = scopes' := by
  cases value with
  | none =>
    rw [Expr.eval, gives_pure, eq_comm]
    rfl
  | some l =>
    rw [Expr.eval, gives_pure, eq_comm]
    rfl

theorem gives_ifElse {condition positive negative : Expr} :
    (eval ⟨tag, own, .ifElse condition positive (some negative)⟩).Gives scopes v scopes' ↔
      ∃ u t, condition.eval.Gives scopes u t ∧
        (if u.isBool true then positive else negative).eval.Gives t v scopes' := by
  rw [Expr.eval, gives_bind]
  refine exists_congr fun u => exists_congr fun t => and_congr_right fun _ => ?_
  split <;> rfl

theorem gives_row {fields : List Expr} (hkeeps : ∀ e ∈ fields, e.eval.Keeps) :
    (do return .row (← evalAll fields) : Eval Value).Gives scopes v scopes' ↔
      ∃ vs, v = .row vs ∧ List.Forall₂ (fun e v => e.eval.Gives scopes v scopes) fields vs ∧
        scopes = scopes' := by
  rw [gives_bind]
  constructor
  · rintro ⟨vs, t, hvs, h⟩
    obtain ⟨rfl, rfl⟩ := gives_pure.mp h
    exact ⟨vs, rfl, (gives_evalAll hkeeps).mp hvs⟩
  · rintro ⟨vs, rfl, hvs⟩
    exact ⟨vs, scopes', (gives_evalAll hkeeps).mpr hvs, gives_pure.mpr ⟨rfl, rfl⟩⟩

end

theorem assignFree_of_term (h : e.Everywhere (TypedIn scopes)) : e.AssignFree := by
  refine h.imp fun node hnode target value hform => ?_
  have hterm := hnode.term
  rw [hform] at hterm
  cases hterm

/-- Fields one by one: their values are of their types. -/
theorem forall₂_admits {raw : Bool} {fields : List Expr} {types : List Ty} {vs : List Value}
    (htypes : fieldTypes raw fields = .ok types)
    (hvs : List.Forall₂ (fun field v => field.eval.Gives scopes v scopes) fields vs)
    (ih : ∀ field ∈ fields, ∀ type v, field.type = some type →
      field.eval.Gives scopes v scopes → type.admits v = true) :
    List.Forall₂ (fun type v => type.admits v = true) types vs := by
  rw [fieldTypes, List.mapM_eq_ok] at htypes
  induction hvs generalizing types with
  | nil =>
    cases htypes
    exact .nil
  | @cons field v fields vs hv _ ihvs =>
    cases htypes with
    | cons htype htypes =>
      refine .cons (ih field List.mem_cons_self _ v ?_ hv)
        (ihvs htypes fun x hx => ih x (List.mem_cons_of_mem _ hx))
      split at htype
      · next t ht => rw [ht, Except.ok.inj htype]
      · cases htype

/-- **Static types.** When the variables of a term have values of their types, and the declared
types of its operations admit what the operations give, the value of the term is one of its static
type. -/
theorem admits_of_gives (h : e.Everywhere (TypedIn scopes)) (hdeclares : e.Everywhere Declares)
    (htype : e.type = some type) (hv : e.eval.Gives scopes v scopes') : type.admits v = true := by
  induction e using parts_induction generalizing type v scopes' with
  | node e ih =>
    -- a term changes no variable, so all its parts see the same scopes
    have hkeeps (part : Expr) (hpart : part ∈ e.form.parts) : part.eval.Keeps :=
      (assignFree_of_term (h.part part hpart)).keeps_eval
    have ih (part : Expr) (hpart : part ∈ e.form.parts) (type : Ty) (v : Value) (t : Scopes)
        (htype : part.type = some type) (hv : part.eval.Gives scopes v t) :
        type.admits v = true :=
      ih part hpart (h.part part hpart) (hdeclares.part part hpart) htype hv
    -- what remains is the node itself, form by form
    obtain ⟨hbuilt, hterm, hvalid, hbound⟩ := h.here
    have hdeclares := hdeclares.here
    obtain ⟨tag, own, form⟩ := e
    obtain rfl : own = some type := htype
    cases form with
    | literal value =>
      obtain ⟨declared, hliteral⟩ := hbuilt
      obtain rfl : type = declared := by
        have hshape := literal_eq_ok hliteral
        exact Option.some.inj (congrArg Expr.type hshape)
      obtain ⟨rfl, -⟩ := gives_constant.mp hv
      exact literal_admits hliteral
    | var name =>
      obtain ⟨hfind, rfl⟩ := gives_var.mp hv
      exact hbound name type v rfl rfl hfind
    | field base index =>
      obtain ⟨u, hu, hfield⟩ := gives_field.mp hv
      obtain ⟨found, _, _, hfound, -⟩ := field_checked hbuilt
      have hbase : base ∈ (Form.field base index).parts := List.mem_cons_self
      exact field_admits hbuilt rfl hfound ((h.part base hbase).here.valid found hfound)
        (ih base hbase found u scopes' hfound hu) hfield
    | binary op left right =>
      obtain ⟨l, t, r, hl, hr, hop⟩ := gives_binary.mp hv
      obtain ⟨declared, hdeclared, hbinary⟩ := Form.typed_eq_ok hbuilt
      obtain rfl := Option.some.inj hdeclared
      obtain ⟨leftType, rightType, hleft, hright, -⟩ := binary_checked hbinary
      have hlmem : left ∈ (Form.binary op left right).parts := by simp [Form.parts]
      have hrmem : right ∈ (Form.binary op left right).parts := by simp [Form.parts]
      obtain rfl := (hkeeps left hlmem).eq_of_gives hl
      exact binary_admits hbinary hdeclares hleft hright
        ((h.part left hlmem).here.valid leftType hleft)
        ((h.part right hrmem).here.valid rightType hright)
        (ih left hlmem leftType l _ hleft hl) (ih right hrmem rightType r _ hright hr) hop
    | unary op operand =>
      obtain ⟨u, hu, hop⟩ := gives_unary.mp hv
      obtain ⟨declared, hdeclared, hunary⟩ := Form.typed_eq_ok hbuilt
      obtain rfl := Option.some.inj hdeclared
      have hmem : operand ∈ (Form.unary op operand).parts := List.mem_cons_self
      exact unary_admits hunary hdeclares
        (fun found hfound => ih operand hmem found u scopes' hfound hu) hop
    | ifElse condition positive negative =>
      obtain ⟨other, rfl, hpositive, hother⟩ := ifElse_branches hbuilt
      obtain ⟨u, t, hu, hbranch⟩ := gives_ifElse.mp hv
      obtain rfl := (hkeeps condition List.mem_cons_self).eq_of_gives hu
      split at hbranch
      · exact ih positive (by simp [Form.parts]) type v scopes' hpositive hbranch
      · exact ih other (by simp [Form.parts]) type v scopes' hother hbranch
    | tuple fields =>
      obtain ⟨types, htypes, hnode⟩ := tuple_eq_ok hbuilt
      obtain rfl : type = .tuple types := Option.some.inj (congrArg Expr.type hnode)
      rw [Expr.eval] at hv
      obtain ⟨vs, rfl, hvs, -⟩ := (gives_row hkeeps).mp hv
      have hrow := forall₂_admits htypes hvs fun x hx t u htype hu => ih x hx t u scopes htype hu
      exact Ty.admits_iff.mpr (.inr ((Ty.admits_row rfl).mpr hrow))
    | rawTuple fields =>
      obtain ⟨types, htypes, hnode⟩ := rawTuple_eq_ok hbuilt
      obtain rfl : type = .rawTuple types := Option.some.inj (congrArg Expr.type hnode)
      rw [Expr.eval] at hv
      obtain ⟨vs, rfl, hvs, -⟩ := (gives_row hkeeps).mp hv
      have hrow := forall₂_admits htypes hvs fun x hx t u htype hu => ih x hx t u scopes htype hu
      exact Ty.admits_iff.mpr (.inr ((Ty.admits_row rfl).mpr hrow))
    | _ => cases hterm

/-! ### A capped sum, and an equality with NULL -/

def integerOrNull : Ty := ⟨.base (.integer .w32 true), true⟩

theorem valid_integerOrNull : integerOrNull.Valid := by
  have hinteger : Ty.i32.Valid := Ty.valid_ofKind nofun
  exact hinteger.withNullable (show Ty.i32.withNullable true = .ok integerOrNull from rfl)

/-- The first field of a row of two numbers. -/
def firstNumber : Expr :=
  ofForm (some .i32) (.field (var "t" (.tuple [.i32, integerOrNull])) 0)

/-- The second field, which may be NULL. -/
def secondNumber : Expr :=
  ofForm (some integerOrNull) (.field (var "t" (.tuple [.i32, integerOrNull])) 1)

def numbersAscend : Expr :=
  ofForm (some ⟨.base .bool, true⟩) (.binary (.comparison .lt) firstNumber secondNumber)

def numbersTotal : Expr :=
  ofForm (some integerOrNull) (.binary (.arithmetic .add) firstNumber secondNumber)

/-- The sum of the two numbers if they ascend, and otherwise the second one. -/
def cappedTotal : Expr :=
  ofForm (some integerOrNull) (.ifElse numbersAscend numbersTotal (some secondNumber))

/-- What holds of the nodes of the capped sum, one by one, holds everywhere in it. -/
theorem everywhere_cappedTotal {P : Expr → Prop}
    (hvar : P (var "t" (.tuple [.i32, integerOrNull]))) (hfirst : P firstNumber)
    (hsecond : P secondNumber) (hascend : P numbersAscend) (htotal : P numbersTotal)
    (hchoice : P cappedTotal) : cappedTotal.Everywhere P := by
  have hvar := Everywhere.leaf hvar rfl
  have hfirst := Everywhere.of_parts hfirst hvar
  have hsecond := Everywhere.of_parts hsecond hvar
  have hascend := Everywhere.of_parts hascend ⟨hfirst, hsecond⟩
  have htotal := Everywhere.of_parts htotal ⟨hfirst, hsecond⟩
  exact .of_parts hchoice ⟨hascend, htotal, hsecond⟩

/-- A row whose second field is NULL. -/
def halfKnown : Scopes := [[("t", .row [.int 5, .null])]]

theorem typedIn_cappedTotal : cappedTotal.Everywhere (TypedIn halfKnown) := by
  have hinteger : Ty.i32.Valid := Ty.valid_ofKind nofun
  have hbool : Ty.bool.Valid := Ty.valid_ofKind nofun
  have hcondition : Ty.Valid ⟨.base .bool, true⟩ :=
    hbool.withNullable (show Ty.bool.withNullable true = .ok ⟨.base .bool, true⟩ from rfl)
  have hrow : (Ty.tuple [.i32, integerOrNull]).Valid := by
    refine Ty.valid_ofKind fun c hc => ?_
    rcases List.mem_pair.mp hc with rfl | rfl
    · exact hinteger
    · exact valid_integerOrNull
  have hvalid {type : Ty} {form : Form} (h : type.Valid) (t : Ty)
      (ht : (ofForm (some type) form).type = some t) : t.Valid := Option.some.inj ht ▸ h
  refine everywhere_cappedTotal ⟨⟨_, rfl⟩, rfl, hvalid hrow, ?_⟩ ⟨rfl, rfl, hvalid hinteger, nofun⟩
    ⟨rfl, rfl, hvalid valid_integerOrNull, nofun⟩ ⟨rfl, rfl, hvalid hcondition, nofun⟩
    ⟨rfl, rfl, hvalid valid_integerOrNull, nofun⟩ ⟨rfl, rfl, hvalid valid_integerOrNull, nofun⟩
  intro name type v hname htype hfind
  obtain rfl := Form.var.inj hname
  obtain rfl := Option.some.inj htype
  obtain rfl := Option.some.inj hfind
  rfl

theorem declares_cappedTotal : cappedTotal.Everywhere Declares := by
  refine everywhere_cappedTotal ?_ ?_ ?_ ?_ ?_ ?_ <;> intro type htype <;>
    obtain rfl := Option.some.inj htype
  -- only the comparison asks for something
  case refine_4 => exact fun _ => rfl
  all_goals trivial

/-- The comparison with NULL is not true, so the capped sum is the second number. -/
theorem admits_of_gives_cappedTotal :
    cappedTotal.eval.Gives halfKnown .null halfKnown ∧ integerOrNull.admits .null = true := by
  have hgives : cappedTotal.eval.Gives halfKnown .null halfKnown := rfl
  exact ⟨hgives, admits_of_gives typedIn_cappedTotal declares_cappedTotal rfl hgives⟩

/-- An equality with NULL that is declared never to be NULL. -/
def nullEquality : Expr :=
  ofForm (some .bool) (.binary (.comparison .eq)
    (ofForm (some integerOrNull) (.literal none)) (i32Literal 1))

/-- The proviso cannot be left out: the constructors accept the equality, and it is NULL. -/
theorem not_admits_nullEquality :
    binary (.comparison .eq) (ofForm (some integerOrNull) (.literal none)) (i32Literal 1) .bool =
      .ok nullEquality ∧
    nullEquality.Everywhere (TypedIn []) ∧ nullEquality.evaluate = .ok .null ∧
    ¬ ∀ (type : Ty) (v : Value) (scopes : Scopes), nullEquality.type = some type →
      nullEquality.eval.Gives [] v scopes → type.admits v = true := by
  have hinteger : Ty.i32.Valid := Ty.valid_ofKind nofun
  have hbool : Ty.bool.Valid := Ty.valid_ofKind nofun
  have hvalid {type : Ty} {form : Form} (h : type.Valid) (t : Ty)
      (ht : (ofForm (some type) form).type = some t) : t.Valid := Option.some.inj ht ▸ h
  have htyped : nullEquality.Everywhere (TypedIn []) := by
    refine .of_parts ⟨rfl, rfl, hvalid hbool, nofun⟩ ⟨.leaf ?_ rfl, .leaf ?_ rfl⟩
    · exact ⟨⟨integerOrNull, rfl⟩, rfl, hvalid valid_integerOrNull, nofun⟩
    · exact ⟨⟨.i32, rfl⟩, rfl, hvalid hinteger, nofun⟩
  refine ⟨rfl, htyped, rfl, fun hsound => ?_⟩
  have hadmits := hsound .bool .null [] rfl rfl
  cases hadmits

end Expr
end DeltaCircuit
