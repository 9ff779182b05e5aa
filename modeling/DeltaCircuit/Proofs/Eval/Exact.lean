import DeltaCircuit.Eval.Scopes
import DeltaCircuit.Eval.Interpreter
import DeltaCircuit.Proofs.Outcome
import DeltaCircuit.Proofs.Value

/-!
# Values without floating point numbers

Values that are the same may still differ in their floating point numbers, and an operation can get
at the difference: the two zeros are the same number and have different inverses. Without floating
point numbers all that can differ are the coordinates of points, which no operation looks at. So
values that are the same give, by every operation, values that are the same.

* `Value.isExact` — a value without floating point numbers.
* `Value.Twins` — exact values that are the same.
* `Value.Twins.row_iff`, `Value.Twins.eq_scalar`, … — what the twins of a value are.
* `Value.Twins.binary`, `Value.Twins.unary`, `Value.Twins.convert`, `Value.Twins.field`,
  `Value.Twins.replaceAt` — operations on twins give twins.
-/

namespace List

/-- Related lists stay so when related items are put at one place of both. -/
theorem Forall₂.set {α β : Type} {R : α → β → Prop} {as : List α} {bs : List β}
    (h : Forall₂ R as bs) {a : α} {b : β} (hab : R a b) (index : Nat) :
    Forall₂ R (as.set index a) (bs.set index b) := by
  induction h generalizing index with
  | nil => exact .nil
  | cons hfirst hrest ih =>
    cases index with
    | zero => exact .cons hab hrest
    | succ index => exact .cons hfirst (ih index)

end List

namespace DeltaCircuit

/-- Whether a literal is a floating point number. The coordinates of a point do not count. -/
def Literal.isFloat : Literal → Bool
  | .float _ => true
  | _ => false

/-- Whether a type is one of floating point numbers. -/
def Ty.isFloat (type : Ty) : Bool :=
  match type.kind with
  | .base (.float _) => true
  | _ => false

namespace Value

mutual

/-- Whether a value holds no floating point number. -/
def isExact : Value → Bool
  | .null => true
  | .scalar l => !l.isFloat
  | .row vs => isExactAll vs
  | .vec vs => isExactAll vs
termination_by structural x => x

def isExactAll : List Value → Bool
  | [] => true
  | v :: vs => v.isExact && isExactAll vs
termination_by structural x => x

end

/-- **Twins.** Exact values that are the same. -/
structure Twins (v v' : Value) : Prop where
  same : v.canonical = v'.canonical
  exact : v.isExact = true

variable {v v' w w' a : Value}

/-! ### Exact values -/

mutual

theorem isExact_canonical : ∀ v : Value, v.canonical.isExact = v.isExact
  | .null => rfl
  | .scalar l => by cases l <;> rfl
  | .row vs => isExactAll_canonical vs
  | .vec vs => isExactAll_canonical vs

theorem isExactAll_canonical : ∀ vs : List Value, isExactAll (canonicalAll vs) = isExactAll vs
  | [] => rfl
  | v :: vs => by
    rw [canonicalAll, isExactAll, isExactAll, isExact_canonical v, isExactAll_canonical vs]

end

theorem Twins.exact_right (h : v.Twins v') : v'.isExact = true := by
  rw [← isExact_canonical, ← h.same, isExact_canonical]
  exact h.exact

theorem Twins.refl (h : v.isExact = true) : v.Twins v := ⟨rfl, h⟩

theorem Twins.symm (h : v.Twins v') : v'.Twins v := ⟨h.same.symm, h.exact_right⟩

theorem Twins.trans (h : v.Twins v') (h' : v'.Twins w) : v.Twins w :=
  ⟨h.same.trans h'.same, h.exact⟩

theorem twins_iff : v.Twins v' ↔ v.same v' = true ∧ v.isExact = true := by
  rw [same_iff]
  exact ⟨fun h => ⟨h.same, h.exact⟩, fun h => ⟨h.1, h.2⟩⟩

/-- Lists of values are twins item by item. -/
theorem forall₂_twins_iff {vs vs' : List Value} :
    List.Forall₂ Twins vs vs' ↔ canonicalAll vs = canonicalAll vs' ∧ isExactAll vs = true := by
  induction vs generalizing vs' with
  | nil => cases vs' <;> simp [canonicalAll, isExactAll]
  | cons v vs ih =>
    cases vs' with
    | nil => simp [canonicalAll]
    | cons v' vs' =>
      rw [List.forall₂_cons, ih, canonicalAll, canonicalAll, isExactAll, List.cons.injEq,
        Bool.and_eq_true]
      constructor
      · rintro ⟨⟨hsame, hexact⟩, hsames, hexacts⟩
        exact ⟨⟨hsame, hsames⟩, hexact, hexacts⟩
      · rintro ⟨⟨hsame, hsames⟩, hexact, hexacts⟩
        exact ⟨⟨hsame, hexact⟩, hsames, hexacts⟩

theorem Twins.row_iff {vs : List Value} :
    (row vs).Twins v' ↔ ∃ vs', v' = row vs' ∧ List.Forall₂ Twins vs vs' := by
  constructor
  · rintro ⟨hsame, hexact⟩
    cases v' with
    | row vs' => exact ⟨vs', rfl, forall₂_twins_iff.mpr ⟨by simpa [canonical] using hsame, hexact⟩⟩
    | _ => simp [canonical] at hsame
  · rintro ⟨vs', rfl, h⟩
    obtain ⟨hsame, hexact⟩ := forall₂_twins_iff.mp h
    exact ⟨congrArg row hsame, hexact⟩

theorem Twins.vec_iff {vs : List Value} :
    (vec vs).Twins v' ↔ ∃ vs', v' = vec vs' ∧ List.Forall₂ Twins vs vs' := by
  constructor
  · rintro ⟨hsame, hexact⟩
    cases v' with
    | vec vs' => exact ⟨vs', rfl, forall₂_twins_iff.mpr ⟨by simpa [canonical] using hsame, hexact⟩⟩
    | _ => simp [canonical] at hsame
  · rintro ⟨vs', rfl, h⟩
    obtain ⟨hsame, hexact⟩ := forall₂_twins_iff.mp h
    exact ⟨congrArg vec hsame, hexact⟩

/-- A scalar other than a point has no twin but itself. -/
theorem Twins.eq_scalar {l : Literal} (h : (scalar l).Twins v')
    (hpoint : ∀ x y, l ≠ .geoPoint x y) : v' = scalar l := by
  obtain ⟨hsame, hexact⟩ := h
  cases v' with
  | scalar l' =>
    -- only points and floating point numbers differ from their canonical forms
    cases l <;> cases l' <;> simp_all [canonical, Literal.canonical, isExact, Literal.isFloat]
  | _ => simp [canonical] at hsame

theorem Twins.eq_null (h : null.Twins v') : v' = null := by
  obtain ⟨hsame, -⟩ := h
  cases v' <;> simp_all [canonical]

/-- The twin of a point is a point. -/
theorem Twins.eq_point {x y : Double} (h : (scalar (.geoPoint x y)).Twins v') :
    ∃ x' y', v' = scalar (.geoPoint x' y') := by
  obtain ⟨hsame, -⟩ := h
  cases v' with
  | scalar l' => cases l' <;> simp_all [canonical, Literal.canonical]
  | _ => simp [canonical] at hsame

/-! ### Tests -/

theorem Twins.sortIndex (h : v.Twins v') : v.sortIndex = v'.sortIndex := by
  rw [← sortIndex_canonical, h.same, sortIndex_canonical]

theorem Twins.order (h : v.Twins v') (hw : w.Twins w') : v.order w = v'.order w' := by
  rw [← order_canonical, h.same, hw.same, order_canonical]

theorem Twins.same_eq (h : v.Twins v') (hw : w.Twins w') : v.same w = v'.same w' := by
  unfold Value.same
  rw [h.same, hw.same]

theorem Twins.isNull (h : v.Twins v') : v.isNull = v'.isNull := by
  rw [Bool.eq_iff_iff, isNull_iff, isNull_iff]
  constructor
  · rintro rfl
    exact h.eq_null
  · rintro rfl
    exact h.symm.eq_null

theorem Twins.isBool (h : v.Twins v') (b : Bool) : v.isBool b = v'.isBool b := by
  rw [Bool.eq_iff_iff, isBool_iff, isBool_iff]
  constructor
  · rintro rfl
    exact h.eq_scalar nofun
  · rintro rfl
    exact h.symm.eq_scalar nofun

/-! ### Operations -/

theorem twins_bool (b : Bool) : (bool b).Twins (bool b) := .refl rfl

theorem twins_int (i : Int) : (int i).Twins (int i) := .refl rfl

theorem twins_null : null.Twins null := .refl rfl

theorem twins_unit : unit.Twins unit := .refl rfl

/-- Arithmetic on exact values is that of the integers. -/
theorem arithmetic_exact {op : ArithmeticOp} (hv : v.isExact = true) (hw : w.isExact = true)
    (h : arithmetic op v w = .ok a) :
    ∃ i j k : Int, v = int i ∧ w = int j ∧ a = int k := by
  unfold arithmetic at h
  -- of the four cases with a result, three have a floating point operand
  split at h
  · obtain ⟨k, -, rfl⟩ := Except.map_eq_ok.mp h
    exact ⟨_, _, k, rfl, rfl, rfl⟩
  · cases hw
  · cases hv
  · cases hv
  · cases h

theorem Twins.arithmetic {op : ArithmeticOp} (hv : v.Twins v') (hw : w.Twins w') :
    (Value.arithmetic op v w).Follows Twins (Value.arithmetic op v' w') := by
  intro a h
  obtain ⟨i, j, k, rfl, rfl, rfl⟩ := arithmetic_exact hv.exact hw.exact h
  obtain rfl := hv.eq_scalar nofun
  obtain rfl := hw.eq_scalar nofun
  exact ⟨_, h, twins_int k⟩

theorem Twins.concat (hv : v.Twins v') (hw : w.Twins w') :
    (Value.concat v w).Follows Twins (Value.concat v' w') := by
  intro a h
  have hcopy := h
  unfold Value.concat at h
  split at h
  · obtain rfl := hv.eq_scalar nofun
    obtain rfl := hw.eq_scalar nofun
    exact ⟨a, hcopy, Except.ok.inj h ▸ .refl rfl⟩
  · split at h <;> cases h

/-- Exact values are compared by their places in the order. -/
theorem compareWith_exact (hv : v.isExact = true) (hw : w.isExact = true) :
    v.compareWith w =
      if v.sortIndex = w.sortIndex then .ok (v.order w) else .error (.notComparable v w) := by
  unfold compareWith
  -- only an integer and a floating point number are not compared by their places
  split
  · cases hw
  · cases hv
  · rfl

theorem Twins.compareWith (hv : v.Twins v') (hw : w.Twins w') :
    (v.compareWith w).Follows Eq (v'.compareWith w') := by
  rw [compareWith_exact hv.exact hw.exact, compareWith_exact hv.exact_right hw.exact_right,
    ← hv.sortIndex, ← hw.sortIndex, ← hv.order hw]
  split
  · exact Except.follows_ok rfl
  · exact Except.follows_error

theorem Twins.comparison {op : ComparisonOp} (hv : v.Twins v') (hw : w.Twins w') :
    (Value.comparison op v w).Follows Twins (Value.comparison op v' w') := by
  refine (hv.compareWith hw).bind fun o o' ho => Except.follows_pure ?_
  rw [ho]
  exact twins_bool _

theorem Twins.extremum {op : ComparisonOp} (hv : v.Twins v') (hw : w.Twins w') :
    (Value.extremum op v w).Follows Twins (Value.extremum op v' w') := by
  refine (hv.compareWith hw).bind fun o o' ho => Except.follows_pure ?_
  rw [ho]
  split
  · exact hv
  · exact hw

theorem Twins.logical {op : LogicalOp} (hv : v.Twins v') (hw : w.Twins w') :
    (Value.logical op v w).Follows Twins (Value.logical op v' w') := by
  unfold Value.logical
  rw [hv.isBool, hw.isBool, hv.isNull, hw.isNull, hv.isBool, hw.isBool]
  split
  · exact Except.follows_ok (twins_bool _)
  · split
    · exact Except.follows_ok twins_null
    · split
      · exact Except.follows_ok (twins_bool _)
      · exact Except.follows_error

theorem Twins.aggregate {op : AggregateOp} (hv : v.Twins v') (hw : w.Twins w') :
    (Value.aggregate op v w).Follows Twins (Value.aggregate op v' w') := by
  unfold Value.aggregate
  rw [hv.isNull, hw.isNull]
  split
  · exact Except.follows_ok hw
  · split
    · exact Except.follows_ok hv
    · cases op with
      | plus => exact hv.arithmetic hw
      | min => exact hv.extremum hw
      | max => exact hv.extremum hw

/-- **Binary operations** do not tell twins apart. -/
theorem Twins.binary {op : BinaryOp} (hv : v.Twins v') (hw : w.Twins w') :
    (Value.binary op v w).Follows Twins (Value.binary op v' w') := by
  unfold Value.binary
  rw [hv.isNull, hw.isNull]
  cases op with
  | logical op => exact hv.logical hw
  | aggregate op => exact hv.aggregate hw
  | comparison op =>
    dsimp only
    split
    · exact Except.follows_ok twins_null
    · exact hv.comparison hw
  | arithmetic op =>
    dsimp only
    split
    · exact Except.follows_ok twins_null
    · exact hv.arithmetic hw
  | concat =>
    dsimp only
    split
    · exact Except.follows_ok twins_null
    · exact hv.concat hw

/-- Twins differ only if they are made of other values or are points. -/
theorem Twins.eq_or_compound (h : v.Twins v') :
    v' = v ∨ (∃ x y, v = scalar (.geoPoint x y)) ∨ (∃ vs, v = row vs) ∨ ∃ vs, v = vec vs := by
  cases v with
  | null => exact .inl h.eq_null
  | scalar l =>
    cases l with
    | geoPoint x y => exact .inr (.inl ⟨x, y, rfl⟩)
    | _ => exact .inl (h.eq_scalar nofun)
  | row vs => exact .inr (.inr (.inl ⟨vs, rfl⟩))
  | vec vs => exact .inr (.inr (.inr ⟨vs, rfl⟩))

theorem unary_exact {op : UnaryOp} (hv : v.isExact = true) (h : Value.unary op v = .ok a) :
    a.isExact = true := by
  unfold Value.unary at h
  split at h
  -- the cases of floating point operands, and the one without a result
  case h_7 | h_9 => cases hv
  case h_10 => cases h
  all_goals
    obtain rfl := Except.ok.inj h
    rfl

/-- **Unary operations** do not tell twins apart. -/
theorem Twins.unary {op : UnaryOp} (hv : v.Twins v') :
    (Value.unary op v).Follows Twins (Value.unary op v') := by
  intro a h
  rcases hv.eq_or_compound with rfl | hcompound
  · exact ⟨a, h, .refl (unary_exact hv.exact h)⟩
  · -- points, rows and vectors pass the tests only
    cases op with
    | isNull =>
      obtain rfl := Except.ok.inj h
      exact ⟨_, rfl, hv.isNull ▸ twins_bool _⟩
    | isNotNull =>
      obtain rfl := Except.ok.inj h
      exact ⟨_, rfl, hv.isNull ▸ twins_bool _⟩
    | wrapBool =>
      obtain rfl := Except.ok.inj h
      exact ⟨_, rfl, hv.isBool true ▸ twins_bool _⟩
    | not | neg | plus =>
      obtain ⟨x, y, rfl⟩ | ⟨vs, rfl⟩ | ⟨vs, rfl⟩ := hcompound <;> cases h

/-! ### Conversions -/

theorem ofRead_exact {α : Type} {make : α → Value} (hmake : ∀ r, (make r).isExact = true)
    {s : String} {type : Ty} {read : Option α} (h : ofRead make s type read = .ok a) :
    a.isExact = true := by
  unfold ofRead at h
  split at h
  · obtain rfl := Except.ok.inj h
    exact hmake _
  · cases h

/-- A conversion to another type than a floating point type makes no floating point number. -/
theorem convert_exact {type : Ty} (htype : type.isFloat = false) (hv : v.isExact = true)
    (h : v.convert type = .ok a) : a.isExact = true := by
  unfold Ty.isFloat at htype
  unfold convert at h
  split at h
  · cases hv
  · obtain rfl := Except.ok.inj h
    rfl
  · exact ofRead_exact (fun _ => rfl) h
  · next hkind =>
    rw [hkind] at htype
    cases htype
  · next hkind =>
    rw [hkind] at htype
    cases htype
  · obtain rfl := Except.ok.inj h
    rfl
  -- other scalars become texts, or stay as they are
  · split at h
    · split at h <;> obtain rfl := Except.ok.inj h
      · rfl
      · rfl
      · rfl
      · exact hv
    · obtain rfl := Except.ok.inj h
      exact hv
  · obtain rfl := Except.ok.inj h
    exact hv

/-- Values that are made of others, and points, stay as they are. -/
theorem convert_compound {type : Ty}
    (h : (∃ x y, v = scalar (.geoPoint x y)) ∨ (∃ vs, v = row vs) ∨ ∃ vs, v = vec vs) :
    v.convert type = .ok v := by
  unfold convert
  obtain ⟨x, y, rfl⟩ | ⟨vs, rfl⟩ | ⟨vs, rfl⟩ := h
  · split
    case h_7 hscalar _ _ _ _ _ _ =>
      obtain rfl := Value.scalar.inj hscalar
      split <;> rfl
    all_goals simp_all
  · split <;> simp_all
  · split <;> simp_all

/-- **Conversions** to other types than floating point types do not tell twins apart. -/
theorem Twins.convert {type : Ty} (htype : type.isFloat = false) (hv : v.Twins v') :
    (v.convert type).Follows Twins (v'.convert type) := by
  intro a h
  rcases hv.eq_or_compound with rfl | hcompound
  · exact ⟨a, h, .refl (convert_exact htype hv.exact h)⟩
  · rw [convert_compound hcompound] at h
    obtain rfl := Except.ok.inj h
    refine ⟨v', convert_compound ?_, hv⟩
    obtain ⟨x, y, rfl⟩ | ⟨vs, rfl⟩ | ⟨vs, rfl⟩ := hcompound
    · exact .inl hv.eq_point
    · obtain ⟨vs', rfl, -⟩ := row_iff.mp hv
      exact .inr (.inl ⟨vs', rfl⟩)
    · obtain ⟨vs', rfl, -⟩ := vec_iff.mp hv
      exact .inr (.inr ⟨vs', rfl⟩)

/-! ### Components -/

theorem Twins.field {index : Nat} (hv : v.Twins v') :
    (v.field index).Follows Twins (v'.field index) := by
  cases v with
  | null =>
    obtain rfl := hv.eq_null
    exact Except.follows_ok twins_null
  | row vs =>
    obtain ⟨vs', rfl, hvs⟩ := row_iff.mp hv
    unfold Value.field
    rcases hvs.getElem? index with ⟨hnone, -⟩ | ⟨w, w', hw, hw', htwins⟩
    · dsimp only
      rw [hnone]
      exact Except.follows_error
    · dsimp only
      rw [hw, hw']
      exact Except.follows_ok htwins
  | scalar l => exact Except.follows_error
  | vec vs => exact Except.follows_error

theorem Twins.items (hv : v.Twins v') :
    v.items.Follows (List.Forall₂ Twins) v'.items := by
  cases v with
  | vec vs =>
    obtain ⟨vs', rfl, hvs⟩ := vec_iff.mp hv
    exact Except.follows_ok hvs
  | _ => exact Except.follows_error

/-- Twins are put into twins. -/
theorem Twins.replaceAt {path : List Nat} (hv : v.Twins v') (hw : w.Twins w') :
    (v.replaceAt path w).Follows Twins (v'.replaceAt path w') := by
  induction path generalizing v v' with
  | nil => exact Except.follows_ok hw
  | cons index path ih =>
    cases v with
    | row vs =>
      obtain ⟨vs', rfl, hvs⟩ := row_iff.mp hv
      rw [Value.replaceAt, Value.replaceAt]
      rcases hvs.getElem? index with ⟨hnone, -⟩ | ⟨u, u', hu, hu', htwins⟩
      · rw [hnone]
        exact Except.follows_error
      · rw [hu, hu']
        refine (ih htwins).bind fun field field' hfield => Except.follows_pure ?_
        exact row_iff.mpr ⟨_, rfl, hvs.set hfield index⟩
    | _ => exact Except.follows_error

end Value
end DeltaCircuit
