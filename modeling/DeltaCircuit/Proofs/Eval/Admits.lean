import DeltaCircuit.Eval.Interpreter
import DeltaCircuit.Proofs.Plan.Conformance

/-!
# Values of types

A value is one of a type if it is NULL where the type admits NULL, or else has the form of the kind
of the type, with fields and items of the types of the components. A reference has the values of
what it refers to, other than NULL.

* `Ty.admits`, `Kind.admits` — values of a type, and values other than NULL of a kind.
* `Ty.admits_iff` — the two cases of a value of a type.
* `Value.arithmetic_admits`, `Value.concat_admits` — what is computed from values of two types is of
  their common kind.
* `Value.logical_eq_ok`, `Value.aggregate_eq_ok` — when an operation gives NULL.
* `Ty.admits_row` — the fields of a row.
-/

namespace DeltaCircuit

/-! ### Values of a type -/

mutual

/-- Whether a value is one of a type. -/
def Ty.admits : Ty → Value → Bool
  | ⟨_, nullable⟩, .null => nullable
  | ⟨kind, _⟩, v => kind.admits v
termination_by structural x => x

/-- Whether a value other than NULL is one of a kind. Z-sets and functions are no values. -/
def Kind.admits : Kind → Value → Bool
  | .base .any, v => !v.isNull
  | .user _ _, v => !v.isNull
  | .base b, .scalar l => l.fits (.base b)
  | .tuple types, .row fields => Ty.admitsAll types fields
  | .rawTuple types, .row fields => Ty.admitsAll types fields
  | .struct _ declared, .row fields => StructField.admitsAll declared fields
  | .vec element, .vec items => items.all fun item => element.admits item
  | .reference ⟨kind, _⟩ _, v => kind.admits v
  | _, _ => false
termination_by structural x => x

/-- Whether values are of the given types, one by one. -/
def Ty.admitsAll : List Ty → List Value → Bool
  | [], [] => true
  | type :: types, v :: vs => type.admits v && Ty.admitsAll types vs
  | _, _ => false
termination_by structural x => x

def StructField.admitsAll : List StructField → List Value → Bool
  | [], [] => true
  | ⟨_, type⟩ :: declared, v :: vs => type.admits v && StructField.admitsAll declared vs
  | _, _ => false
termination_by structural x => x

end

section

variable {type left right : Ty} {kind : Kind} {v l r : Value}

@[simp] theorem Ty.admits_null : type.admits .null = type.nullable := by
  obtain ⟨kind, nullable⟩ := type
  rfl

theorem Ty.admits_of_ne_null (hv : v ≠ .null) : type.admits v = type.kind.admits v := by
  obtain ⟨kind, nullable⟩ := type
  cases v with
  | null => exact absurd rfl hv
  | _ => rfl

/-- NULL is of no kind. -/
theorem Kind.admits_null : ∀ kind : Kind, kind.admits .null = false
  | .base b => by cases b <;> rfl
  | .reference ⟨kind, _⟩ _ => Kind.admits_null kind
  | .user _ _ => rfl
  | .tuple _ | .rawTuple _ | .struct _ _ | .vec _ => rfl
  | .zset _ _ | .indexedZSet _ _ _ | .function _ _ => rfl

/-- **Values of a type.** A value of a type is NULL where the type admits it, or a value of the
kind. -/
theorem Ty.admits_iff :
    type.admits v = true ↔ (v = .null ∧ type.nullable = true) ∨ type.kind.admits v = true := by
  by_cases hv : v = .null
  · subst hv
    rw [Ty.admits_null, Kind.admits_null]
    simp
  · rw [Ty.admits_of_ne_null hv]
    simp [hv]

theorem Kind.ne_null_of_admits (h : kind.admits v = true) : v ≠ .null := by
  rintro rfl
  rw [Kind.admits_null] at h
  cases h

/-- A kind admits all integers or none. -/
theorem Kind.admits_int (i j : Int) : ∀ kind : Kind, kind.admits (.int i) = kind.admits (.int j)
  | .base b => by cases b <;> rfl
  | .reference ⟨kind, _⟩ _ => Kind.admits_int i j kind
  | .user _ _ => rfl
  | .tuple _ | .rawTuple _ | .struct _ _ | .vec _ => rfl
  | .zset _ _ | .indexedZSet _ _ _ | .function _ _ => rfl

/-- A kind admits all floating point numbers or none. -/
theorem Kind.admits_float (a b : Double) :
    ∀ kind : Kind, kind.admits (.float a) = kind.admits (.float b)
  | .base k => by cases k <;> rfl
  | .reference ⟨kind, _⟩ _ => Kind.admits_float a b kind
  | .user _ _ => rfl
  | .tuple _ | .rawTuple _ | .struct _ _ | .vec _ => rfl
  | .zset _ _ | .indexedZSet _ _ _ | .function _ _ => rfl

/-- A literal that fits a kind is a value of it. -/
theorem Kind.admits_of_fits {literal : Literal} (h : literal.fits kind = true) :
    kind.admits (.scalar literal) = true := by
  unfold Literal.fits at h
  split at h <;> first | rfl | cases h

/-- A reference has the values of what it refers to. -/
theorem Ty.kind_admits_deref : type.deref.kind.admits v = type.kind.admits v := by
  unfold Ty.deref
  split
  · next inner mutable hkind =>
    obtain ⟨kind, nullable⟩ := inner
    rw [hkind, Kind.admits]
  · rfl

/-! ### Numbers and texts -/

/-- Integers are the values of numeric types of integers only. -/
theorem Ty.integer_of_admits {i : Int} (hnumeric : type.isNumeric = true)
    (h : type.kind.admits (.int i) = true) :
    ∃ width signed, type.kind = .base (.integer width signed) := by
  unfold isNumeric at hnumeric
  split at hnumeric
  · next width signed hkind => exact ⟨width, signed, hkind⟩
  · next hkind =>
    -- the values of floating point types and of decimals are no integers
    rw [hkind] at h
    cases h
  · next hkind =>
    rw [hkind] at h
    cases h
  · cases hnumeric

/-- Floating point numbers are the values of numeric types of floating point numbers only. -/
theorem Ty.float_of_admits {d : Double} (hnumeric : type.isNumeric = true)
    (h : type.kind.admits (.float d) = true) : ∃ width, type.kind = .base (.float width) := by
  unfold isNumeric at hnumeric
  split at hnumeric
  · next hkind =>
    -- the values of integer types and of decimals are no floating point numbers
    rw [hkind] at h
    cases h
  · next width hkind => exact ⟨width, hkind⟩
  · next hkind =>
    rw [hkind] at h
    cases h
  · cases hnumeric

/-- Arithmetic on numbers of two types gives a number of the common kind. -/
theorem Value.arithmetic_admits {op : ArithmeticOp} (hleft : left.isNumeric = true)
    (hright : right.isNumeric = true) (hkind : left.kind.unify? right.kind = some kind)
    (hl : left.kind.admits l = true) (hr : right.kind.admits r = true)
    (h : arithmetic op l r = .ok v) : kind.admits v = true := by
  unfold arithmetic at h
  split at h
  · -- two integers
    obtain ⟨w, s, hinteger⟩ := Ty.integer_of_admits hleft hl
    obtain ⟨w', s', hinteger'⟩ := Ty.integer_of_admits hright hr
    obtain ⟨i, -, rfl⟩ := Except.map_eq_ok.mp h
    rw [hinteger, hinteger'] at hkind
    obtain rfl := Option.some.inj hkind
    rfl
  · -- an integer and a floating point number
    obtain ⟨w, s, hinteger⟩ := Ty.integer_of_admits hleft hl
    obtain ⟨w', hfloat⟩ := Ty.float_of_admits hright hr
    obtain rfl := Except.ok.inj h
    rw [hinteger, hfloat] at hkind
    obtain rfl := Option.some.inj hkind
    rfl
  · -- a floating point number and an integer
    obtain ⟨w, hfloat⟩ := Ty.float_of_admits hleft hl
    obtain ⟨w', s', hinteger⟩ := Ty.integer_of_admits hright hr
    obtain rfl := Except.ok.inj h
    rw [hinteger, hfloat] at hkind
    obtain rfl := Option.some.inj hkind
    rfl
  · -- two floating point numbers
    obtain ⟨w, hfloat⟩ := Ty.float_of_admits hleft hl
    obtain ⟨w', hfloat'⟩ := Ty.float_of_admits hright hr
    obtain rfl := Except.ok.inj h
    rw [hfloat, hfloat'] at hkind
    obtain rfl := Option.some.inj hkind
    rfl
  · cases h

/-- Addition within a kind that both operands have. -/
theorem Value.add_admits (hl : kind.admits l = true) (hr : kind.admits r = true)
    (h : arithmetic .add l r = .ok v) : kind.admits v = true := by
  unfold arithmetic at h
  -- the sum is a number of the sort of an operand, and a kind admits all numbers of a sort or none
  split at h
  · obtain ⟨i, -, rfl⟩ := Except.map_eq_ok.mp h
    exact (Kind.admits_int _ _ kind).trans hl
  · obtain rfl := Except.ok.inj h
    exact (Kind.admits_float _ _ kind).trans hr
  · obtain rfl := Except.ok.inj h
    exact (Kind.admits_float _ _ kind).trans hl
  · obtain rfl := Except.ok.inj h
    exact (Kind.admits_float _ _ kind).trans hl
  · cases h

/-- Concatenation gives a text, and the common kind of two texts has all texts. -/
theorem Value.concat_admits (hleft : left.isText = true) (hright : right.isText = true)
    (hkind : left.kind.unify? right.kind = some kind) (h : concat l r = .ok v) :
    kind.admits v = true := by
  obtain ⟨s, rfl⟩ : ∃ s, v = .string s := by
    unfold concat at h
    split at h
    · exact ⟨_, (Except.ok.inj h).symm⟩
    · split at h <;> cases h
  have htext {t : Ty} (ht : t.isText = true) : t.kind = .base .string ∨ t.kind = .base .str := by
    unfold Ty.isText at ht
    split at ht
    · next hstring => exact .inl hstring
    · next hstr => exact .inr hstr
    · cases ht
  -- the two kinds of text have no common kind
  rcases htext hleft with hl | hl <;> rcases htext hright with hr | hr <;> rw [hl, hr] at hkind
  · obtain rfl := Option.some.inj hkind
    rfl
  · cases hkind
  · cases hkind
  · obtain rfl := Option.some.inj hkind
    rfl

/-! ### NULL -/

/-- What an operation gives that is NULL as soon as an operand is. -/
theorem Value.eq_ok_of_strict {result : Except EvalError Value}
    (h : (if l.isNull || r.isNull then .ok .null else result) = .ok v) :
    (v = .null ∧ (l = .null ∨ r = .null)) ∨ (l ≠ .null ∧ r ≠ .null ∧ result = .ok v) := by
  split at h
  · next hnull =>
    rw [Bool.or_eq_true, isNull_iff, isNull_iff] at hnull
    exact .inl ⟨(Except.ok.inj h).symm, hnull⟩
  · next hnull =>
    rw [Bool.or_eq_true, isNull_iff, isNull_iff, not_or] at hnull
    exact .inr ⟨hnull.1, hnull.2, h⟩

/-- A logical operation gives a boolean, or NULL if an operand is NULL. -/
theorem Value.logical_eq_ok {op : LogicalOp} (h : logical op l r = .ok v) :
    (v = .null ∧ (l = .null ∨ r = .null)) ∨ ∃ b, v = .bool b := by
  unfold logical at h
  split at h
  · exact .inr ⟨_, (Except.ok.inj h).symm⟩
  · split at h
    · next hnull =>
      rw [Bool.or_eq_true, isNull_iff, isNull_iff] at hnull
      exact .inl ⟨(Except.ok.inj h).symm, hnull⟩
    · split at h
      · exact .inr ⟨_, (Except.ok.inj h).symm⟩
      · cases h

/-- An operator that skips NULL gives an operand or a sum, and NULL only if both operands are. -/
theorem Value.aggregate_eq_ok {op : AggregateOp} (h : aggregate op l r = .ok v) :
    (l = .null ∧ v = r) ∨ (r = .null ∧ v = l) ∨
      (l ≠ .null ∧ r ≠ .null ∧ (v = l ∨ v = r ∨ arithmetic .add l r = .ok v)) := by
  have hextremum {side : ComparisonOp} (h : extremum side l r = .ok v) : v = l ∨ v = r := by
    obtain ⟨order, -, h⟩ := Except.bind_eq_ok.mp h
    split at h
    · exact .inl (Except.ok.inj h).symm
    · exact .inr (Except.ok.inj h).symm
  unfold aggregate at h
  split at h
  · next hl => exact .inl ⟨isNull_iff.mp hl, (Except.ok.inj h).symm⟩
  · next hl =>
    split at h
    · next hr => exact .inr (.inl ⟨isNull_iff.mp hr, (Except.ok.inj h).symm⟩)
    · next hr =>
      refine .inr (.inr ⟨fun hnull => hl (isNull_iff.mpr hnull),
        fun hnull => hr (isNull_iff.mpr hnull), ?_⟩)
      cases op with
      | plus => exact .inr (.inr h)
      | min => exact (hextremum h).imp_right .inl
      | max => exact (hextremum h).imp_right .inl

/-! ### Rows -/

theorem Ty.admitsAll_iff {types : List Ty} {vs : List Value} :
    Ty.admitsAll types vs = true ↔ List.Forall₂ (fun type v => type.admits v = true) types vs := by
  induction types generalizing vs with
  | nil => cases vs <;> simp [Ty.admitsAll]
  | cons type types ih => cases vs <;> simp [Ty.admitsAll, ih]

/-- A row of a tuple type of either kind has one value for every field. -/
theorem Ty.admits_row {types : List Ty} {fields : List Value}
    (htypes : type.tupleFields? = some types) :
    type.kind.admits (.row fields) = true ↔
      List.Forall₂ (fun type v => type.admits v = true) types fields := by
  unfold Ty.tupleFields? at htypes
  rw [← Ty.admitsAll_iff]
  split at htypes
  · next hkind =>
    obtain rfl := Option.some.inj htypes
    rw [hkind, Kind.admits]
  · next hkind =>
    obtain rfl := Option.some.inj htypes
    rw [hkind, Kind.admits]
  · cases htypes

end

end DeltaCircuit
