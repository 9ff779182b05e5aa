import DeltaCircuit.Proofs.Eval.StaticTypes
import DeltaCircuit.Proofs.Plan.Fold
import DeltaCircuit.Proofs.Plan.RowFunction
import DeltaCircuit.Proofs.Ty.Unification

/-!
# Comparing columns

An equality of two columns can be checked in two ways. The function of a key takes the columns as
they are in the row and converts them to the type of the key; the types that the equality declares
for them matter only in that they give this type. The compiler of expressions asks for the columns
at the declared types, follows references, and converts what it finds to the common type. This file
says when a compiler accepts what the function of a key has accepted.

* `Schema.Offers`, `keyFunction_offers` — what the function of a key asks of its columns.
* `Schema.Reads` — what the compiler asks of a column that is compared.
* `Expr.exists_castIfNeeded` — when there is a conversion.
* `ScalarExpr.reads_of_compiles_equals`, `ScalarExpr.exists_compiles_equals` — the compiler accepts
  an equality with columns that are offered iff it is a boolean and the columns can be read.
-/

namespace DeltaCircuit

variable {s left right : Schema} {e f : Expr} {i j : Nat} {own target type : Ty}

/-! ### Columns of a row -/

theorem Schema.types_append : (left.append right).types = left.types ++ right.types := by
  simp [Schema.types, Schema.append]

theorem Schema.field_rowVar :
    Expr.field s.rowVar i = .ok e ↔
      ∃ own, s.types[i]? = some own ∧ e = .ofForm (some own) (.field s.rowVar i) := by
  constructor
  · exact Expr.field_tuple_eq_ok rfl rfl rfl
  · rintro ⟨own, hown, rfl⟩
    have htype : s.rowVar.requireType = .ok (.byRef s.rowType) := rfl
    have hfields : (Ty.byRef s.rowType).deref.tupleFields? = some s.types := rfl
    have hnullable : (Ty.byRef s.rowType).deref.nullable = false := rfl
    unfold Expr.field
    rw [htype, Except.ok_bind]
    simp only [hfields, hown, hnullable]
    rfl

/-- A conversion exists between the types that convert into each other. -/
theorem Expr.exists_castIfNeeded (htype : e.type = some own) :
    (∃ converted, castIfNeeded e target = .ok converted) ↔
      own = target ∨ convertible own target = true := by
  unfold castIfNeeded
  rw [requireType_eq_ok.mpr htype, Except.ok_bind]
  by_cases hsame : own = target
  · rw [if_pos hsame]
    exact ⟨fun _ => .inl hsame, fun _ => ⟨e, rfl⟩⟩
  · rw [if_neg hsame, cast, requireType_eq_ok.mpr htype, Except.ok_bind]
    by_cases hconvertible : convertible own target = true
    · rw [if_pos hconvertible]
      exact ⟨fun _ => .inr hconvertible, fun _ => ⟨_, rfl⟩⟩
    · rw [if_neg hconvertible]
      constructor
      · rintro ⟨_, h⟩
        cases h
      · intro h
        exact absurd (h.resolve_left hsame) hconvertible

/-- The compiler compares a column that is declared with its own type, which is no reference. -/
structure Schema.Reads (s : Schema) (i : Nat) (declared : Ty) : Prop where
  type : s.types[i]? = some declared
  not_reference : declared.isReference = false

/-- The function of a key can convert a column to a type. -/
def Schema.Offers (s : Schema) (i : Nat) (target : Ty) : Prop :=
  ∃ own, s.types[i]? = some own ∧ (own = target ∨ Expr.convertible own target = true)

theorem Schema.Offers.append_left (h : left.Offers i target) :
    (left.append right).Offers i target := by
  obtain ⟨own, hown, hconvertible⟩ := h
  obtain ⟨hlt, -⟩ := List.getElem?_eq_some_iff.mp hown
  refine ⟨own, ?_, hconvertible⟩
  rw [types_append, List.getElem?_append_left hlt, hown]

theorem Schema.Offers.append_right (h : right.Offers i target) :
    (left.append right).Offers (left.width + i) target := by
  obtain ⟨own, hown, hconvertible⟩ := h
  have hwidth : left.width = left.types.length := List.length_map _ |>.symm
  refine ⟨own, ?_, hconvertible⟩
  rw [types_append, hwidth, List.getElem?_append_right (Nat.le_add_right _ _),
    Nat.add_sub_cancel_left, hown]

/-- A function of a key converts each column to its type. -/
theorem keyFunction_offers {columns : List Nat} {types : List Ty}
    (h : keyFunction s columns types = .ok f) :
    ∀ pair ∈ columns.zip types, s.Offers pair.1 pair.2 := by
  obtain ⟨body, hbody, -⟩ := rowFunction_eq_ok h
  rw [ofTerm_eq_ok, Except.bind_eq_ok] at hbody
  obtain ⟨converted, hconverted, -⟩ := hbody
  intro pair hpair
  obtain ⟨_, -, hexpr⟩ := (List.mapM_eq_ok.mp hconverted).flip.exists_of_mem_right hpair
  obtain ⟨field, hfield, hcast⟩ := Except.bind_eq_ok.mp hexpr
  obtain ⟨own, hown, rfl⟩ := Schema.field_rowVar.mp hfield
  exact ⟨own, hown, (Expr.exists_castIfNeeded rfl).mp ⟨_, hcast⟩⟩

/-! ### Types of keys -/

theorem Ty.isReference_of_isScalar (h : type.isScalar = true) : type.isReference = false := by
  unfold isScalar at h
  unfold isReference
  split at h <;> simp_all

theorem Ty.deref_of_not_reference (h : type.isReference = false) : type.deref = type := by
  unfold isReference at h
  unfold deref
  split
  · next hkind => simp [hkind] at h
  · rfl

theorem Ty.deref_congr {a b : Ty} (h : a.kind = b.kind) (href : a.isReference = true) :
    a.deref = b.deref := by
  unfold isReference at href
  unfold deref
  rw [← h]
  split at href
  · rfl
  · cases href

/-- No type is the reference to itself. -/
theorem Ty.reference_ne_kind (inner : Ty) (mutable : Bool) :
    .reference inner mutable ≠ inner.kind := by
  obtain ⟨kind, nullable⟩ := inner
  intro h
  -- the reference is larger than what it refers to
  have hsize := congrArg sizeOf h
  simp at hsize
  omega

/-- A conversion to a type without NULL is one between scalars, or only changes the nullability. -/
theorem kind_of_convertible (h : own = target ∨ Expr.convertible own target = true)
    (htarget : target.nullable = false) :
    own.kind = target.kind ∨ own.isScalar = true ∧ target.isScalar = true := by
  rcases h with rfl | h
  · exact .inl rfl
  · simpa [Expr.convertible, htarget] using h

/-- The common type of a key is neither a reference nor the type of NULL, unless a column is. -/
theorem Ty.exists_withNullable_common {a b common : Ty} (hcommon : a.unify b = .ok common)
    (hown : common.withNullable false = .ok own) (href : own.isReference = false)
    (nullable : Bool) : ∃ t, common.withNullable nullable = .ok t := by
  have hnull : common.kind ≠ .base .null := by
    intro hkind
    -- the common type has been NULL's from the start, so it admits NULL, and keeps to it
    unfold unify at hcommon
    split at hcommon
    · next kind _ =>
      obtain rfl : kind = .base .null := (kind_of_withNullable hcommon).symm.trans hkind
      have hnullable : common.nullable = true := by
        cases hand : a.nullable || b.nullable with
        | true => rw [nullable_of_withNullable hcommon, hand]
        | false =>
          rw [hand] at hcommon
          cases hcommon
      simp [withNullable, hnullable, hkind, isReference] at hown
    · cases hcommon
  have href' : common.isReference = false := by
    rw [← isReference_congr (kind_of_withNullable hown), href]
  unfold withNullable
  by_cases hsame : common.nullable = nullable
  · exact ⟨_, if_pos hsame⟩
  · simp [hsame, href', hnull]

/-! ### Equalities -/

theorem Expr.binary_comparison {l r : Expr} {tl tr : Ty} {op : ComparisonOp}
    (hl : l.type = some tl) (hr : r.type = some tr) (hkind : tl.deref.kind = tr.deref.kind)
    (hbool : type.isBool = true) :
    binary (.comparison op) l r type =
      .ok (.ofForm (some type) (.binary (.comparison op) l r)) := by
  unfold binary checkBinary
  rw [requireType_eq_ok.mpr hl, requireType_eq_ok.mpr hr]
  simp [hkind, expectBoolType, hbool]

namespace ScalarExpr

theorem compiles_column_iff {compiled : Expr} :
    Compiles (some s.rowVar) (.column i type) compiled ↔
      s.types[i]? = some type ∧ compiled = .ofForm (some type) (.field s.rowVar i) := by
  constructor
  · rintro ⟨hrow, hfield, htype⟩
    obtain rfl := Option.some.inj hrow
    obtain ⟨own, hown, rfl⟩ := Schema.field_rowVar.mp hfield
    obtain rfl := Option.some.inj htype
    exact ⟨hown, rfl⟩
  · rintro ⟨htype, rfl⟩
    exact .column rfl (Schema.field_rowVar.mpr ⟨type, htype, rfl⟩) rfl

/-- The compiler compares no references: they would have to be converted to what they refer to. -/
theorem not_reference_of_promote {e' : Expr} {common : Ty} (htype : e.type = some type)
    (hcommon : common.kind = type.deref.kind) (h : Expr.promote e common = .ok e') :
    type.isReference = false := by
  obtain ⟨target, htarget, hcast⟩ := Expr.promote_eq_ok h
  rw [hcommon] at htarget
  unfold Ty.isReference
  unfold Ty.deref at htarget
  split
  · next inner mutable hkind =>
    rw [hkind] at htarget
    have hne : type.kind ≠ target.kind := by
      rw [htarget, hkind]
      exact Ty.reference_ne_kind inner mutable
    rcases (Expr.exists_castIfNeeded htype).mp ⟨_, hcast⟩ with rfl | hconvertible
    · exact absurd rfl hne
    · rw [Expr.convertible, decide_eq_false hne] at hconvertible
      simp [Ty.isScalar, hkind] at hconvertible
  · rfl

/-- A column of a key is a reference iff the type of the key is one. -/
theorem isReference_of_offered {common : Ty} (hown : common.withNullable false = .ok target)
    (h : own = target ∨ Expr.convertible own target = true) :
    own.isReference = target.isReference := by
  rcases kind_of_convertible h (Ty.nullable_of_withNullable hown) with hkind | ⟨hscalar, htarget⟩
  · exact Ty.isReference_congr hkind
  · rw [Ty.isReference_of_isScalar hscalar, Ty.isReference_of_isScalar htarget]

/-- A column of a key that is a reference is one of the kind of the key. -/
theorem kind_of_offered {common : Ty} (hown : common.withNullable false = .ok target)
    (h : own = target ∨ Expr.convertible own target = true) (href : target.isReference = true) :
    own.kind = target.kind := by
  refine (kind_of_convertible h (Ty.nullable_of_withNullable hown)).resolve_right ?_
  rintro ⟨-, hscalar⟩
  rw [Ty.isReference_of_isScalar hscalar] at href
  cases href

/-- An operand of a key is taken to the common type. -/
theorem exists_promote {a b common : Ty} (htype : e.type = some type)
    (hcommon : a.unify b = .ok common) (hown : common.withNullable false = .ok own)
    (href : own.isReference = false)
    (hconvertible : type = own ∨ Expr.convertible type own = true) :
    ∃ e' t, Expr.promote e common = .ok e' ∧ e'.type = some t ∧ t.kind = own.kind := by
  obtain ⟨t, ht⟩ := Ty.exists_withNullable_common hcommon hown href type.nullable
  have hkind : own.kind = t.kind :=
    (Ty.kind_of_withNullable hown).trans (Ty.kind_of_withNullable ht).symm
  -- the operand keeps its own nullability, so only the kinds matter
  have hpossible : type = t ∨ Expr.convertible type t = true := by
    refine .inr ?_
    rcases kind_of_convertible hconvertible (Ty.nullable_of_withNullable hown) with
      hsame | ⟨hscalar, hscalar'⟩
    · simp [Expr.convertible, hsame, hkind]
    · have hscalar'' : t.isScalar = true := by
        rw [← hscalar', Ty.isScalar, Ty.isScalar, hkind]
      simp [Expr.convertible, hscalar, hscalar'']
  obtain ⟨e', he'⟩ := (Expr.exists_castIfNeeded htype).mpr hpossible
  refine ⟨e', t, ?_, Expr.ensures_castIfNeeded_type e' he', hkind.symm⟩
  rw [Expr.promote, Expr.requireType_eq_ok.mpr htype, Except.ok_bind, ht]
  exact he'

/-- Comparisons that are built are declared as booleans, and so are logical operations. -/
theorem isBool_of_binary {l r compiled : Expr} {op : BinaryOp}
    (hop : (∃ o, op = .comparison o) ∨ ∃ o, op = .logical o)
    (h : Expr.binary op l r type = .ok compiled) : type.isBool = true := by
  obtain ⟨_, _, -, -, hcheck⟩ := Expr.binary_checked h
  exact decide_eq_true (Expr.kind_of_checkBinary hop hcheck)

section Equalities

variable {ti tj common : Ty} {compiled : Expr}

/-- An equality of columns that could be a key is compiled only with the types of the columns, and
not if they are references. -/
theorem reads_of_compiles_equals (hown : common.withNullable false = .ok own)
    (hi : s.Offers i own) (hj : s.Offers j own)
    (h : Compiles (some s.rowVar) (.call .equals [.column i ti, .column j tj] type) compiled) :
    type.isBool = true ∧ s.Reads i ti ∧ s.Reads j tj := by
  obtain ⟨ownI, hownI, hofferedI⟩ := hi
  obtain ⟨ownJ, hownJ, hofferedJ⟩ := hj
  have hrefI := isReference_of_offered hown hofferedI
  have hrefJ := isReference_of_offered hown hofferedJ
  cases h with
  | binary hop hx hy h =>
    obtain rfl := Option.some.inj hop
    obtain ⟨htypeI, rfl⟩ := compiles_column_iff.mp hx
    obtain ⟨htypeJ, rfl⟩ := compiles_column_iff.mp hy
    obtain rfl := Option.some.inj (hownI.symm.trans htypeI)
    obtain rfl := Option.some.inj (hownJ.symm.trans htypeJ)
    -- both operands have been taken to the common type of what they hold
    obtain ⟨_, _, common', x', y', hleft, hright, hunify, hx', -, hform⟩ :=
      (Expr.compileBinary_eq_ok h).resolve_left fun ⟨_, hop, _⟩ => nomatch hop
    obtain ⟨_, -, hbinary⟩ := hform.resolve_right fun ⟨_, hop, _⟩ => hop _ rfl
    obtain rfl := Option.some.inj hleft
    obtain rfl := Option.some.inj hright
    have href : own.isReference = false := by
      by_contra href
      rw [Bool.not_eq_false] at href
      -- they would be the same references, and the common type what they refer to
      have hkind : ownI.kind = ownJ.kind :=
        (kind_of_offered hown hofferedI href).trans (kind_of_offered hown hofferedJ href).symm
      have hinner := Ty.unify_eq_ok hunify
      rw [← Ty.deref_congr hkind (hrefI.trans href), Kind.unify?_self,
        Option.some.injEq] at hinner
      have hnot := not_reference_of_promote rfl hinner.symm hx'
      rw [hrefI, href] at hnot
      cases hnot
    exact ⟨isBool_of_binary (.inl ⟨_, rfl⟩) hbinary, ⟨hownI, hrefI.trans href⟩,
      ⟨hownJ, hrefJ.trans href⟩⟩

/-- An equality of columns that could be a key is compiled if it is declared as a boolean, with the
types of the columns, and these are no references. -/
theorem exists_compiles_equals (hcommon : ti.unify tj = .ok common)
    (hown : common.withNullable false = .ok own) (hi : s.Offers i own) (hj : s.Offers j own)
    (hbool : type.isBool = true) (hreadI : s.Reads i ti) (hreadJ : s.Reads j tj) :
    ∃ compiled,
      Compiles (some s.rowVar) (.call .equals [.column i ti, .column j tj] type) compiled ∧
        compiled.type = some type := by
  obtain ⟨ownI, hownI, hofferedI⟩ := hi
  obtain ⟨ownJ, hownJ, hofferedJ⟩ := hj
  obtain rfl := Option.some.inj (hownI.symm.trans hreadI.type)
  obtain rfl := Option.some.inj (hownJ.symm.trans hreadJ.type)
  have href : own.isReference = false :=
    (isReference_of_offered hown hofferedI).symm.trans hreadI.not_reference
  let x := Expr.ofForm (some ownI) (.field s.rowVar i)
  let y := Expr.ofForm (some ownJ) (.field s.rowVar j)
  obtain ⟨x', tx, hx', htx, hkindx⟩ := exists_promote (e := x) rfl hcommon hown href hofferedI
  obtain ⟨y', ty, hy', hty, hkindy⟩ := exists_promote (e := y) rfl hcommon hown href hofferedJ
  -- the operands have come to one kind, which is no reference, and can be compared
  have hkinds : tx.deref.kind = ty.deref.kind := by
    have hnotx := (Ty.isReference_congr hkindx).trans href
    have hnoty := (Ty.isReference_congr hkindy).trans href
    rw [Ty.deref_of_not_reference hnotx, Ty.deref_of_not_reference hnoty, hkindx, hkindy]
  have hcompared : Expr.compileBinary (.comparison .eq) x y type =
      Expr.binary (.comparison .eq) x' y' type := by
    have htypex : x.requireType = .ok ownI := rfl
    have htypey : y.requireType = .ok ownJ := rfl
    unfold Expr.compileBinary
    simp only [htypex, htypey, Except.ok_bind, Ty.deref_of_not_reference hreadI.not_reference,
      Ty.deref_of_not_reference hreadJ.not_reference, hcommon, hx', hy']
  have hcompiled := hcompared.trans (Expr.binary_comparison htx hty hkinds hbool)
  exact ⟨_, .binary rfl (compiles_column_iff.mpr ⟨hownI, rfl⟩)
    (compiles_column_iff.mpr ⟨hownJ, rfl⟩) hcompiled, rfl⟩

end Equalities

end ScalarExpr

end DeltaCircuit
