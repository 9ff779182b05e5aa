import DeltaCircuit.Plan.Basic
import DeltaCircuit.Proofs.Outcome
import DeltaCircuit.Proofs.Value
import DeltaCircuit.Ty.Unify

/-!
# Values of columns

A column has a type, and a value stands in the column if it is NULL where NULL is admitted, or has
the form that the kind of the type asks for. Conversions leave such values alone as long as the kind
stays, and take two columns that are compared to values of one sort.

* `Value.hasKind`, `Value.Conforms`, `Schema.Conforms` — values, and rows, of a type.
* `Value.convert_congr`, `Value.convert_of_conforms` — a conversion looks at the kind only, and
  keeps what is of that kind already.
* `Kind.unify?_comm` — the common kind does not depend on the order of the operands.
* `Value.compareWith_eq_iff` — values of two columns, converted to the common kind, compare as equal
  iff they are the same.
-/

namespace DeltaCircuit

/-! ### Conformance -/

/-- Whether a value other than NULL has the form of a kind. -/
def Value.hasKind : Value → Kind → Bool
  | .scalar l, kind => l.fits kind
  | .row _, .tuple _ | .row _, .rawTuple _ | .row _, .struct _ _ => true
  | .vec _, .vec _ => true
  | _, _ => false

/-- Whether a value can stand in a column: NULL only where the type admits it, and otherwise a value
of the kind. -/
def Value.conforms (v : Value) (type : Ty) : Bool :=
  if v.isNull then type.nullable else v.hasKind type.kind

/-- A row of a schema has one value for every column. -/
def Schema.Conforms (s : Schema) (row : Value) : Prop :=
  ∃ fields, row = .row fields ∧ List.Forall₂ (fun v type => v.conforms type = true) fields s.types

namespace Value

variable {v u : Value} {type : Ty}

theorem hasKind_of_conforms (h : v.conforms type = true) (hv : v ≠ .null) :
    v.hasKind type.kind = true := by
  unfold conforms at h
  rwa [if_neg (fun hnull => hv (isNull_iff.mp hnull))] at h

theorem nullable_of_conforms (h : null.conforms type = true) : type.nullable = true := h

/-! ### Conversions -/

@[simp] theorem convert_null (type : Ty) : convert null type = .ok null := by
  unfold convert
  split <;> simp_all

theorem ofRead_eq_ok {α : Type} {make : α → Value} {s : String} {found : Option α} :
    ofRead make s type found = .ok u ↔ ∃ a, found = some a ∧ make a = u := by
  unfold ofRead
  cases found <;> simp

/-- A conversion that succeeds looks at nothing of a type but its kind. -/
theorem convert_congr {type' : Ty} (hkind : type'.kind = type.kind)
    (h : v.convert type = .ok u) : v.convert type' = .ok u := by
  obtain ⟨kind, nullable⟩ := type
  obtain ⟨kind', nullable'⟩ := type'
  obtain rfl : kind' = kind := hkind
  unfold convert at h ⊢
  dsimp only at h ⊢
  -- only the error for a text that cannot be read shows the whole type
  split at h <;> first
    | exact h
    | exact ofRead_eq_ok.mpr (ofRead_eq_ok.mp h)

/-- A conversion keeps what is of the kind already. -/
theorem convert_of_hasKind (h : v.hasKind type.kind = true) : v.convert type = .ok v := by
  unfold hasKind at h
  unfold convert
  split at h
  · unfold Literal.fits at h
    split at h <;> simp_all
  · simp_all
  · simp_all
  · simp_all
  · simp_all
  · cases h

/-- A conversion of a value to a type whose kind it has, or of NULL, changes nothing. -/
theorem convert_of_conforms {type' : Ty} (h : v.conforms type' = true)
    (hkind : type'.kind = type.kind) : v.convert type = .ok v := by
  by_cases hv : v = .null
  · rw [hv, convert_null]
  · exact convert_of_hasKind (hkind ▸ hasKind_of_conforms h hv)

/-- Only NULL is converted to NULL. -/
theorem eq_null_of_convert (h : v.convert type = .ok null) : v = .null := by
  unfold convert at h
  split at h
  case h_7 =>
    split at h
    · split at h <;> cases h
    · cases h
  case h_8 => exact Except.ok.inj h
  all_goals first
    | cases h
    | obtain ⟨a, -, ha⟩ := ofRead_eq_ok.mp h; cases ha

/-- What is converted to an integer goes to an integer type, or is one and goes to no other type of
numbers. -/
theorem convert_eq_int {i : Int} (h : v.convert type = .ok (int i)) :
    (∃ width signed, type.kind = .base (.integer width signed)) ∨
      (v = int i ∧ ∀ width, type.kind ≠ .base (.float width)) := by
  obtain ⟨kind, nullable⟩ := type
  by_cases hinteger : ∃ width signed, kind = .base (.integer width signed)
  · exact .inl hinteger
  right
  unfold convert at h
  dsimp only at h
  split at h
  -- the integer types are out
  case h_1 | h_2 | h_3 => exact absurd ⟨_, _, rfl⟩ hinteger
  -- a floating point number or a boolean is no integer
  case h_4 | h_6 => cases h
  case h_5 => obtain ⟨a, -, ha⟩ := ofRead_eq_ok.mp h; cases ha
  case h_7 l _ _ _ hfloat _ _ =>
    split at h
    · split at h
      case h_4 hother _ _ => cases h; exact (hother i rfl).elim
      all_goals cases h
    · obtain rfl : l = .int i := scalar.inj (Except.ok.inj h)
      exact ⟨rfl, fun width hkind => hfloat width i hkind rfl⟩
  case h_8 hscalar _ _ _ _ _ _ =>
    exact (hscalar _ (Except.ok.inj h)).elim

/-- What is converted to a floating point number goes to such a type, or is one and goes to no
integer type. -/
theorem convert_eq_float {d : Double} (h : v.convert type = .ok (float d)) :
    (∃ width, type.kind = .base (.float width)) ∨
      (v = float d ∧ ∀ width signed, type.kind ≠ .base (.integer width signed)) := by
  obtain ⟨kind, nullable⟩ := type
  by_cases hfloat : ∃ width, kind = .base (.float width)
  · exact .inl hfloat
  right
  unfold convert at h
  dsimp only at h
  split at h
  case h_4 | h_5 => exact absurd ⟨_, rfl⟩ hfloat
  case h_1 | h_2 | h_6 => cases h
  case h_3 => obtain ⟨a, -, ha⟩ := ofRead_eq_ok.mp h; cases ha
  case h_7 l hinteger _ _ _ _ _ =>
    split at h
    · split at h
      case h_4 _ hother _ => cases h; exact (hother d rfl).elim
      all_goals cases h
    · obtain rfl : l = .float d := scalar.inj (Except.ok.inj h)
      exact ⟨rfl, fun width signed hkind => hinteger width signed d hkind rfl⟩
  case h_8 hscalar _ _ _ _ _ _ =>
    exact (hscalar _ (Except.ok.inj h)).elim

theorem kind_of_hasKind_int {i : Int} {kind : Kind} (h : (int i).hasKind kind = true) :
    ∃ width signed, kind = .base (.integer width signed) := by
  unfold hasKind int at h
  dsimp only at h
  unfold Literal.fits at h
  split at h
  case h_2 width signed hl => exact ⟨width, signed, rfl⟩
  all_goals simp_all

theorem kind_of_hasKind_float {d : Double} {kind : Kind} (h : (float d).hasKind kind = true) :
    ∃ width, kind = .base (.float width) := by
  unfold hasKind float at h
  dsimp only at h
  unfold Literal.fits at h
  split at h
  case h_3 width hl => exact ⟨width, rfl⟩
  all_goals simp_all

end Value

/-! ### Common kinds -/

theorem IntWidth.max_comm (a b : IntWidth) : a.max b = b.max a := by
  cases a <;> cases b <;> rfl

theorem FloatWidth.max_comm (a b : FloatWidth) : a.max b = b.max a := by
  cases a <;> cases b <;> rfl

theorem Kind.same_comm (k k' : Kind) :
    (if k = k' then some k else none) = if k' = k then some k' else none := by
  by_cases h : k = k'
  · rw [if_pos h, if_pos h.symm, h]
  · rw [if_neg h, if_neg fun h' => h h'.symm]

/-- **Common kinds.** The common kind of two operands does not depend on their order. -/
theorem Kind.unify?_comm (k k' : Kind) : k.unify? k' = k'.unify? k := by
  cases k with
  | base b =>
    cases k' with
    | base b' =>
      -- numbers have a common width; anything else unifies with itself and with NULL
      cases b <;> cases b' <;>
        simp [unify?, IntWidth.max_comm, FloatWidth.max_comm, Bool.or_comm]
      simpa using same_comm (base (.interval _)) (base (.interval _))
    | _ => cases b <;> simp [unify?]
  | _ =>
    cases k' with
    | base b' => cases b' <;> simp [unify?]
    | _ => simp only [unify?, same_comm]

theorem Ty.kind_of_withNullable {type type' : Ty} {nullable : Bool}
    (h : type.withNullable nullable = .ok type') : type'.kind = type.kind := by
  unfold withNullable at h
  split at h
  · rw [Except.ok.inj h]
  · split at h
    · cases h
    · split at h
      · cases h
      · rw [← Except.ok.inj h]

theorem Ty.nullable_of_withNullable {type type' : Ty} {nullable : Bool}
    (h : type.withNullable nullable = .ok type') : type'.nullable = nullable := by
  unfold withNullable at h
  split at h
  · next hsame => rw [← Except.ok.inj h, hsame]
  · split at h
    · cases h
    · split at h
      · cases h
      · rw [← Except.ok.inj h]

theorem Ty.unify_eq_ok {a b type : Ty} (h : a.unify b = .ok type) :
    a.kind.unify? b.kind = some type.kind := by
  unfold unify at h
  split at h
  · rename_i kind hkind
    rw [hkind, kind_of_withNullable h]
    rfl
  · cases h

/-- A common type admits NULL as soon as one of the two does. -/
theorem Ty.nullable_of_unify {a b type : Ty} (h : a.unify b = .ok type) :
    type.nullable = (a.nullable || b.nullable) := by
  unfold unify at h
  split at h
  · exact nullable_of_withNullable h
  · cases h

/-! ### Comparing columns -/

namespace Value

variable {a b a' b' : Value} {ka kb : Kind} {type : Ty}

/-- Numbers of two columns are converted to one sort of number. -/
theorem not_int_and_float {i : Int} {d : Double} (ha : a.hasKind ka = true)
    (hb : b.hasKind kb = true) (hkind : ka.unify? kb = some type.kind)
    (ha' : a.convert type = .ok (int i)) : b.convert type ≠ .ok (float d) := by
  intro hb'
  rcases convert_eq_int ha' with ⟨width, signed, hinteger⟩ | ⟨rfl, hfloat⟩
  · rcases convert_eq_float hb' with ⟨width', hfloat⟩ | ⟨rfl, hother⟩
    · cases hinteger.symm.trans hfloat
    · exact hother width signed hinteger
  · rcases convert_eq_float hb' with ⟨width, hother⟩ | ⟨rfl, -⟩
    · exact hfloat width hother
    · -- an integer column and one of floating point numbers meet at the latter
      obtain ⟨_, _, rfl⟩ := kind_of_hasKind_int ha
      obtain ⟨width, rfl⟩ := kind_of_hasKind_float hb
      exact hfloat width (Option.some.inj hkind).symm

/-- **Comparing columns.** Values of two columns that are converted to the common kind compare as
equal iff they are the same. -/
theorem compareWith_eq_iff (ha : a.hasKind ka = true) (hb : b.hasKind kb = true)
    (hkind : ka.unify? kb = some type.kind) (ha' : a.convert type = .ok a')
    (hb' : b.convert type = .ok b') {result : Ordering}
    (h : a'.compareWith b' = .ok result) : result = .eq ↔ a'.same b' = true := by
  unfold compareWith at h
  split at h
  · exact (not_int_and_float ha hb hkind ha' hb').elim
  · rw [Kind.unify?_comm] at hkind
    exact (not_int_and_float hb ha hkind hb' ha').elim
  · split at h
    · rw [← Except.ok.inj h]
      exact order_eq_iff
    · cases h

/-- The comparison of two columns is true iff both values are there and are the same after the
conversion to the common kind. -/
theorem equals_isBool_iff {ta tb : Ty} (ha : a.conforms ta = true) (hb : b.conforms tb = true)
    (hkind : a ≠ .null → b ≠ .null → ta.kind.unify? tb.kind = some type.kind)
    (ha' : a.convert type = .ok a') (hb' : b.convert type = .ok b') {v : Value}
    (h : binary (.comparison .eq) a' b' = .ok v) :
    v.isBool true = true ↔ a ≠ .null ∧ b ≠ .null ∧ a'.same b' = true := by
  unfold binary at h
  dsimp only at h
  by_cases hnull : a = .null ∨ b = .null
  · have hnull' : (a'.isNull || b'.isNull) = true := by
      rw [Bool.or_eq_true, isNull_iff, isNull_iff]
      rcases hnull with rfl | rfl
      · exact .inl (Except.ok.inj ((convert_null type).symm.trans ha')).symm
      · exact .inr (Except.ok.inj ((convert_null type).symm.trans hb')).symm
    -- a comparison with NULL is NULL, which is not true
    rw [if_pos hnull'] at h
    obtain rfl := Except.ok.inj h
    constructor
    · intro hfalse
      cases hfalse
    · rintro ⟨hna, hnb, -⟩
      exact (hnull.elim hna hnb).elim
  · obtain ⟨hna, hnb⟩ := not_or.mp hnull
    have hsome : ¬(a'.isNull || b'.isNull) = true := by
      rw [Bool.or_eq_true, isNull_iff, isNull_iff]
      rintro (rfl | rfl)
      · exact hna (eq_null_of_convert ha')
      · exact hnb (eq_null_of_convert hb')
    -- of two values of kinds with a common one, the comparison tells whether they are the same
    rw [if_neg hsome] at h
    unfold comparison at h
    obtain ⟨result, hresult, h⟩ := Except.bind_eq_ok.mp h
    obtain rfl := Except.ok.inj h
    have hsame := compareWith_eq_iff (hasKind_of_conforms ha hna) (hasKind_of_conforms hb hnb)
      (hkind hna hnb) ha' hb' hresult
    rw [← hsame]
    cases result <;> simp [ComparisonOp.holds, bool, isBool, hna, hnb]

end Value

end DeltaCircuit
