import DeltaCircuit.Proofs.Plan.Conformance
import DeltaCircuit.Proofs.Ty.Json
import Mathlib.Order.Bounds.Basic

/-!
# The common type as a least upper bound

The rules for common kinds are ten overlapping cases, but they all say one thing. Kinds are ordered
by promotion: the kind of the NULL literal is below every other, integers are below wider ones and,
whatever their width, below decimals, which are below floating point numbers; nothing else is
comparable. The common kind of two kinds is their least upper bound, where they have one. With a
type that admits NULL above the one that does not, the same is true of types, as long as a common
type is looked for among the types whose nullability fits their kind: a reference and NULL have no
upper bound there, and this is where the last step of `Ty.unify` fails.

A least upper bound depends on the set of its arguments only, so unification does not depend on the
order of the operands nor on how they are grouped.

* `Kind.Promotes` — the order of the kinds.
* `Kind.unify?_eq_some_iff` — the common kind is the least upper bound.
* `Ty.unify_eq_ok_iff`, `Ty.unify_three_eq_ok_iff` — so is the common type of two, or three, types.
* `Ty.unify_semilattice` — the laws of unification.
-/

namespace DeltaCircuit

/-! ### Promotion -/

/-- The order of the kinds: where values of the first kind may be taken for values of the second. -/
inductive Kind.Promotes : Kind → Kind → Prop where
  | refl (k : Kind) : Promotes k k
  | null (k : Kind) : Promotes (.base .null) k
  | integer {w w' : IntWidth} {s s' : Bool} : w.max w' = w' → (s || s') = s' →
    Promotes (.base (.integer w s)) (.base (.integer w' s'))
  | integerDecimal (w : IntWidth) (s : Bool) :
    Promotes (.base (.integer w s)) (.base .decimal)
  | integerFloat (w : IntWidth) (s : Bool) (w' : FloatWidth) :
    Promotes (.base (.integer w s)) (.base (.float w'))
  | decimalFloat (w : FloatWidth) : Promotes (.base .decimal) (.base (.float w))
  | float {w w' : FloatWidth} : w.max w' = w' → Promotes (.base (.float w)) (.base (.float w'))

theorem IntWidth.max_trans {a b c : IntWidth} (hab : a.max b = b) (hbc : b.max c = c) :
    a.max c = c := by
  cases a <;> cases b <;> cases c <;> simp_all [max, bits]

theorem IntWidth.max_max_self (a b : IntWidth) : a.max (a.max b) = a.max b := by
  cases a <;> cases b <;> rfl

theorem IntWidth.max_max_of_max {a b c : IntWidth} (ha : a.max c = c) (hb : b.max c = c) :
    (a.max b).max c = c := by
  cases a <;> cases b <;> first | exact ha | exact hb

theorem FloatWidth.max_trans {a b c : FloatWidth} (hab : a.max b = b) (hbc : b.max c = c) :
    a.max c = c := by
  cases a <;> cases b <;> simp_all [max]

theorem FloatWidth.max_max_self (a b : FloatWidth) : a.max (a.max b) = a.max b := by
  cases a <;> cases b <;> rfl

theorem FloatWidth.max_max_of_max {a b c : FloatWidth} (ha : a.max c = c) (hb : b.max c = c) :
    (a.max b).max c = c := by
  cases a <;> cases b <;> first | exact ha | exact hb

namespace Kind

variable {k k' u v : Kind}

theorem Promotes.trans (h : k.Promotes k') (h' : k'.Promotes v) : k.Promotes v := by
  cases h with
  | refl => exact h'
  | null => exact .null v
  | integer hw hs =>
    cases h' with
    | refl => exact .integer hw hs
    | integer hw' hs' => exact .integer (IntWidth.max_trans hw hw') (by grind)
    | integerDecimal => exact .integerDecimal _ _
    | integerFloat => exact .integerFloat _ _ _
  | integerDecimal =>
    cases h' with
    | refl => exact .integerDecimal _ _
    | decimalFloat => exact .integerFloat _ _ _
  | integerFloat =>
    cases h' with
    | refl => exact .integerFloat _ _ _
    | float => exact .integerFloat _ _ _
  | decimalFloat =>
    cases h' with
    | refl => exact .decimalFloat _
    | float => exact .decimalFloat _
  | float hw =>
    cases h' with
    | refl => exact .float hw
    | float hw' => exact .float (FloatWidth.max_trans hw hw')

theorem Promotes.antisymm (h : k.Promotes k') (h' : k'.Promotes k) : k = k' := by
  cases h with
  | integer hw hs =>
    cases h' with
    | refl => rfl
    | integer hw' hs' =>
      rw [IntWidth.max_comm] at hw'
      rw [Bool.or_comm] at hs'
      rw [hw.symm.trans hw', hs.symm.trans hs']
  | float hw =>
    cases h' with
    | refl => rfl
    | float hw' =>
      rw [FloatWidth.max_comm] at hw'
      rw [hw.symm.trans hw']
  | _ =>
    cases h'
    all_goals rfl

instance : PartialOrder Kind where
  le := Promotes
  le_refl := .refl
  le_trans _ _ _ := .trans
  le_antisymm _ _ := Promotes.antisymm

/-! ### Common kinds -/

theorem unify?_self (k : Kind) : k.unify? k = some k := by
  cases k with
  | base b =>
    cases b with
    | integer width signed => cases width <;> simp [unify?, IntWidth.max]
    | float width => cases width <;> rfl
    | null => rfl
    | _ => simp [unify?]
  | _ => simp [unify?]

/-- A kind and one above it have the latter in common. -/
theorem unify?_of_le (h : k ≤ k') : k.unify? k' = some k' := by
  cases h with
  | refl => exact unify?_self k
  | integer hw hs => simp only [unify?, hw, hs]
  | float hw => simp only [unify?, hw]
  | _ => rfl

/-- The common kind is above both operands. -/
theorem le_of_unify? (h : k.unify? k' = some u) : k ≤ u := by
  unfold unify? at h
  split at h
  case h_11 =>
    split at h
    · exact Option.some.inj h ▸ .refl k
    · cases h
  all_goals obtain rfl := Option.some.inj h
  case h_1 => exact .null _
  case h_2 => exact .refl _
  case h_3 => exact .integer (IntWidth.max_max_self _ _) (by grind)
  case h_4 => exact .float (FloatWidth.max_max_self _ _)
  case h_5 => exact .integerFloat _ _ _
  case h_6 => exact .refl _
  case h_7 => exact .refl _
  case h_8 => exact .integerDecimal _ _
  case h_9 => exact .decimalFloat _
  case h_10 => exact .refl _

/-- Two kinds below a third have a common kind, and that is below the third as well. -/
theorem exists_unify?_of_le (h : k ≤ v) (h' : k' ≤ v) : ∃ u, k.unify? k' = some u ∧ u ≤ v := by
  cases h with
  | refl => exact ⟨k, by rw [unify?_comm, unify?_of_le h'], .refl k⟩
  | null => exact ⟨k', rfl, h'⟩
  | integer hw hs =>
    cases h' with
    | refl => exact ⟨_, unify?_of_le (.integer hw hs), .refl _⟩
    | null => exact ⟨_, rfl, .integer hw hs⟩
    | integer hw' hs' =>
      exact ⟨_, rfl, .integer (IntWidth.max_max_of_max hw hw') (by grind)⟩
  | integerDecimal =>
    cases h' with
    | refl => exact ⟨_, rfl, .refl _⟩
    | null => exact ⟨_, rfl, .integerDecimal _ _⟩
    | integerDecimal => exact ⟨_, rfl, .integerDecimal _ _⟩
  | integerFloat =>
    cases h' with
    | refl => exact ⟨_, rfl, .refl _⟩
    | null => exact ⟨_, rfl, .integerFloat _ _ _⟩
    | integerFloat => exact ⟨_, rfl, .integerFloat _ _ _⟩
    | decimalFloat => exact ⟨_, rfl, .decimalFloat _⟩
    | float hw => exact ⟨_, rfl, .float hw⟩
  | decimalFloat =>
    cases h' with
    | refl => exact ⟨_, rfl, .refl _⟩
    | null => exact ⟨_, rfl, .decimalFloat _⟩
    | integerFloat => exact ⟨_, rfl, .decimalFloat _⟩
    | decimalFloat => exact ⟨_, unify?_self _, .decimalFloat _⟩
    | float hw => exact ⟨_, rfl, .float hw⟩
  | float hw =>
    cases h' with
    | refl => exact ⟨_, unify?_of_le (.float hw), .refl _⟩
    | null => exact ⟨_, rfl, .float hw⟩
    | integerFloat => exact ⟨_, rfl, .float hw⟩
    | decimalFloat => exact ⟨_, rfl, .float hw⟩
    | float hw' => exact ⟨_, rfl, .float (FloatWidth.max_max_of_max hw hw')⟩

/-- **Common kinds.** The common kind is the least kind above both operands, if there is one. -/
theorem unify?_eq_some_iff : k.unify? k' = some u ↔ IsLeast {v | k ≤ v ∧ k' ≤ v} u := by
  constructor
  · intro h
    refine ⟨⟨le_of_unify? h, le_of_unify? (unify?_comm k k' ▸ h)⟩, fun v hv => ?_⟩
    obtain ⟨u', hu', hle⟩ := exists_unify?_of_le hv.1 hv.2
    obtain rfl : u = u' := Option.some.inj (h.symm.trans hu')
    exact hle
  · intro hleast
    obtain ⟨u', hu', hle⟩ := exists_unify?_of_le hleast.1.1 hleast.1.2
    obtain rfl : u = u' :=
      le_antisymm (hleast.2 ⟨le_of_unify? hu', le_of_unify? (unify?_comm k k' ▸ hu')⟩) hle
    exact hu'

theorem eq_null_of_le (h : k ≤ .base .null) : k = .base .null := by
  cases h <;> rfl

theorem eq_reference_of_le {inner : Ty} {mutable : Bool} (h : .reference inner mutable ≤ k) :
    k = .reference inner mutable := by
  cases h
  rfl

end Kind

/-! ### Common types -/

namespace Ty

variable {a b c t v : Ty}

theorem isReference_congr (h : a.kind = b.kind) : a.isReference = b.isReference := by
  unfold isReference
  rw [h]

instance : PartialOrder Ty where
  le a b := a.kind ≤ b.kind ∧ (a.nullable = true → b.nullable = true)
  le_refl a := ⟨le_refl a.kind, id⟩
  le_trans _ _ _ h h' := ⟨h.1.trans h'.1, h'.2 ∘ h.2⟩
  le_antisymm
    | ⟨kind, nullable⟩, ⟨kind', nullable'⟩, h, h' => by
      obtain rfl : kind = kind' := le_antisymm h.1 h'.1
      obtain rfl : nullable = nullable' := Bool.eq_iff_iff.mpr ⟨h.2, h'.2⟩
      rfl

/-- What unification gives: the common kind, with NULL as soon as one operand admits it, if the two
fit together. -/
theorem unify_eq_ok_iff_kind : a.unify b = .ok t ↔
    a.kind.unify? b.kind = some t.kind ∧ t.nullable = (a.nullable || b.nullable) ∧ t.NullsFit := by
  obtain ⟨tkind, tnullable⟩ := t
  unfold unify
  split
  · next kind hkind =>
    rw [withNullable_eq_ok (nullsFit_ofKind kind), hkind, Option.some_inj]
    constructor
    · rintro ⟨h, hfit⟩
      obtain ⟨rfl, rfl⟩ := Ty.mk.inj h
      exact ⟨rfl, rfl, hfit⟩
    · rintro ⟨rfl, rfl, hfit⟩
      exact ⟨rfl, hfit⟩
  · next hnone => simp [hnone]

/-- Two types below a third have a common type. Of the kinds alone this is known; a reference or the
kind of the NULL literal as the common kind leaves no choice about NULL. -/
theorem exists_unify (ha : a.NullsFit) (hv : v.NullsFit) (hav : a ≤ v) (hbv : b ≤ v) :
    ∃ t, a.unify b = .ok t ∧ t ≤ v := by
  obtain ⟨u, hu, huv⟩ := Kind.exists_unify?_of_le hav.1 hbv.1
  have hnullable : (a.nullable || b.nullable) = true → v.nullable = true := by
    intro h
    exact (Bool.or_eq_true_iff.mp h).elim hav.2 hbv.2
  refine ⟨⟨u, a.nullable || b.nullable⟩, unify_eq_ok_iff_kind.mpr ⟨hu, rfl, ?_, ?_⟩, huv, hnullable⟩
  · intro href
    -- only the reference itself is above a reference, so `v` is one and does not admit NULL
    have hsame : v.kind = u := by
      unfold isReference at href
      dsimp only at href
      split at href
      · exact Kind.eq_reference_of_le huv
      · cases href
    have hvref : v.isReference = true := (isReference_congr hsame).trans href
    exact Bool.eq_false_iff.mpr fun h => Bool.eq_false_iff.mp (hv.reference hvref) (hnullable h)
  · rintro rfl
    -- nothing but NULL is below NULL, and the operand admits it already
    have hnull : a.kind = .base .null := Kind.eq_null_of_le (Kind.le_of_unify? hu)
    exact Bool.or_eq_true_iff.mpr (.inl (ha.null hnull))

/-- **Common types.** The common type is the least type above both operands, among those whose
nullability fits their kind. -/
theorem unify_eq_ok_iff (ha : a.NullsFit) :
    a.unify b = .ok t ↔ IsLeast {v | v.NullsFit ∧ a ≤ v ∧ b ≤ v} t := by
  have bound : ∀ {t : Ty}, a.unify b = .ok t → t.NullsFit ∧ a ≤ t ∧ b ≤ t := by
    intro t h
    obtain ⟨hkind, hnullable, hfit⟩ := unify_eq_ok_iff_kind.mp h
    obtain ⟨hle, hle'⟩ := (Kind.unify?_eq_some_iff.mp hkind).1
    exact ⟨hfit, ⟨hle, by simp +contextual [hnullable]⟩, ⟨hle', by simp +contextual [hnullable]⟩⟩
  constructor
  · intro h
    refine ⟨bound h, fun v hv => ?_⟩
    obtain ⟨t', ht', hle⟩ := exists_unify ha hv.1 hv.2.1 hv.2.2
    obtain rfl : t = t' := Except.ok.inj (h.symm.trans ht')
    exact hle
  · intro hleast
    obtain ⟨t', ht', hle⟩ := exists_unify ha hleast.1.1 hleast.1.2.1 hleast.1.2.2
    obtain rfl : t = t' := le_antisymm (hleast.2 (bound ht')) hle
    exact ht'

/-- A type is above the common type iff it is above both operands. -/
theorem unify_le_iff (ha : a.NullsFit) (h : a.unify b = .ok t) (hv : v.NullsFit) :
    t ≤ v ↔ a ≤ v ∧ b ≤ v := by
  have hleast := (unify_eq_ok_iff ha).mp h
  exact ⟨fun hle => ⟨hleast.1.2.1.trans hle, hleast.1.2.2.trans hle⟩, fun hle => hleast.2 ⟨hv, hle⟩⟩

/-- **Common types of three.** What is unified with the common type of two others is the least type
above all three. -/
theorem unify_three_eq_ok_iff (ha : a.NullsFit) :
    (do (← a.unify b).unify c) = .ok t ↔
      IsLeast {v | v.NullsFit ∧ (a ≤ v ∧ b ≤ v) ∧ c ≤ v} t := by
  have above : ∀ {ab : Ty}, a.unify b = .ok ab →
      {v : Ty | v.NullsFit ∧ ab ≤ v ∧ c ≤ v} = {v | v.NullsFit ∧ (a ≤ v ∧ b ≤ v) ∧ c ≤ v} := by
    intro ab hab
    ext v
    exact and_congr_right fun hv => and_congr_left' (unify_le_iff ha hab hv)
  rw [Except.bind_eq_ok]
  constructor
  · rintro ⟨ab, hab, h⟩
    have hfit := ((unify_eq_ok_iff ha).mp hab).1.1
    exact above hab ▸ (unify_eq_ok_iff hfit).mp h
  · intro hleast
    obtain ⟨hfit, ⟨hat, hbt⟩, -⟩ := hleast.1
    obtain ⟨ab, hab, -⟩ := exists_unify ha hfit hat hbt
    have habfit := ((unify_eq_ok_iff ha).mp hab).1.1
    exact ⟨ab, hab, (unify_eq_ok_iff habfit).mpr ((above hab).symm ▸ hleast)⟩

theorem unify_self (ha : a.NullsFit) : a.unify a = .ok a :=
  unify_eq_ok_iff_kind.mpr ⟨Kind.unify?_self a.kind, (Bool.or_self _).symm, ha⟩

theorem unify_symm (h : a.unify b = .ok t) : b.unify a = .ok t := by
  unfold unify at h ⊢
  rw [Kind.unify?_comm, Bool.or_comm]
  split at h
  · exact h
  · cases h

theorem unify_comm : a.unify b = .ok t ↔ b.unify a = .ok t := ⟨unify_symm, unify_symm⟩

theorem unify_assoc (ha : a.NullsFit) (hb : b.NullsFit) :
    (do (← a.unify b).unify c) = .ok t ↔ (do a.unify (← b.unify c)) = .ok t := by
  have hturn : (do a.unify (← b.unify c)) = .ok t ↔ (do (← b.unify c).unify a) = .ok t := by
    simp only [Except.bind_eq_ok, unify_comm (a := a)]
  rw [hturn, unify_three_eq_ok_iff ha, unify_three_eq_ok_iff hb]
  -- the two sets of upper bounds name the three types in another order
  have hsame : {v : Ty | v.NullsFit ∧ (a ≤ v ∧ b ≤ v) ∧ c ≤ v} =
      {v | v.NullsFit ∧ (b ≤ v ∧ c ≤ v) ∧ a ≤ v} := by
    ext v
    exact and_congr_right fun _ => by rw [and_assoc, and_comm]
  rw [hsame]

/-- **Unification is a partial semilattice.** On valid types, of any nesting, it is idempotent,
commutative and associative: both ways to unify two, or three, types give the same result or fail
both. The result is valid, and admits NULL iff an operand does. -/
theorem unify_semilattice (ha : a.Valid) (hb : b.Valid) :
    a.unify a = .ok a ∧
      (∀ t, a.unify b = .ok t ↔ b.unify a = .ok t) ∧
      (∀ c t, (do (← a.unify b).unify c) = .ok t ↔ (do a.unify (← b.unify c)) = .ok t) ∧
      ∀ t, a.unify b = .ok t →
        t.Valid ∧ (t.nullable = true ↔ a.nullable = true ∨ b.nullable = true) := by
  refine ⟨unify_self ha.nullsFit, fun t => unify_comm,
    fun c t => unify_assoc ha.nullsFit hb.nullsFit, fun t h => ⟨ha.unify hb h, ?_⟩⟩
  rw [nullable_of_unify h, Bool.or_eq_true]

theorem unify_semilattice_handler :
    handler.Valid ∧ null.Valid ∧
      handler.unify null = .ok handler ∧ null.unify handler = .ok handler ∧
      ∀ t, (do (← handler.unify null).unify handler) = .ok t ↔
        (do handler.unify (← null.unify handler)) = .ok t := by
  have hstring : (byRef .string).Valid := valid_ofKind (by
    simp only [Kind.components, List.mem_singleton, forall_eq]
    exact valid_ofKind nofun)
  have hhandler : handler.Valid := .intro ⟨nofun, nofun⟩ (by
    simp only [handler, Kind.components, Option.toList_none, List.nil_append, List.forall_mem_cons]
    exact ⟨.intro ⟨nofun, nofun⟩ nofun, hstring, nofun⟩)
  have hnull : null.Valid := valid_ofKind nofun
  obtain ⟨-, hcomm, hassoc, -⟩ := unify_semilattice hhandler hnull
  have hunify : handler.unify null = .ok handler := by rfl
  exact ⟨hhandler, hnull, hunify, (hcomm handler).mp hunify, hassoc handler⟩

end Ty
end DeltaCircuit
