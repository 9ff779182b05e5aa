import DeltaCircuit.Proofs.Plan.Conformance
import DeltaCircuit.Ty.Unify

/-!
# Types of booleans and of integers

Two sorts of types that conversions go back and forth between, and that nothing else unifies.

* `Ty.isReckonable` — the types of both sorts.
* `Ty.SameSort` — two types of one sort, whatever they say about widths, signs and NULL.
* `Ty.sameSort_of_unify` — types with a common type are of one sort, and so is that type.
-/

namespace DeltaCircuit

/-- The types of booleans, and those of integers. -/
def Ty.isReckonable (type : Ty) : Bool := type.isBool || type.isInteger

/-- Two types of booleans, or two types of integers. -/
def Ty.SameSort (a b : Ty) : Prop :=
  (a.isBool = true ∧ b.isBool = true) ∨ (a.isInteger = true ∧ b.isInteger = true)

section

variable {type a b common : Ty}

theorem Ty.isReckonable_iff :
    type.isReckonable = true ↔ type.isBool = true ∨ type.isInteger = true :=
  Bool.or_eq_true_iff

theorem Ty.sameSort_self (h : type.isReckonable = true) : type.SameSort type := by
  rcases Ty.isReckonable_iff.mp h with h | h
  · exact .inl ⟨h, h⟩
  · exact .inr ⟨h, h⟩

/-- No type is of both sorts. -/
theorem Ty.not_isInteger (h : type.isBool = true) : ¬type.isInteger = true := by
  unfold Ty.isInteger
  rw [of_decide_eq_true h]
  exact Bool.false_ne_true

theorem Ty.exists_of_isInteger (h : type.isInteger = true) :
    ∃ width signed, type.kind = .base (.integer width signed) := by
  unfold Ty.isInteger at h
  split at h
  · next width signed hkind => exact ⟨width, signed, hkind⟩
  · cases h

theorem Ty.deref_of_isReckonable (h : type.isReckonable = true) : type.deref = type := by
  rcases Ty.isReckonable_iff.mp h with h | h
  · unfold Ty.deref
    rw [of_decide_eq_true h]
  · obtain ⟨width, signed, hkind⟩ := Ty.exists_of_isInteger h
    unfold Ty.deref
    rw [hkind]

theorem Ty.isInteger_congr (h : a.kind = b.kind) : a.isInteger = b.isInteger := by
  rw [isInteger, isInteger, h]

theorem Ty.isBool_congr (h : a.kind = b.kind) : a.isBool = b.isBool := by
  unfold Ty.isBool
  rw [h]

theorem Ty.SameSort.congr (h : a.SameSort b) (hkind : common.kind = b.kind) : a.SameSort common := by
  unfold Ty.SameSort
  rw [Ty.isBool_congr hkind, Ty.isInteger_congr hkind]
  exact h

theorem Ty.SameSort.isReckonable (h : a.SameSort b) : b.isReckonable = true :=
  Ty.isReckonable_iff.mpr (h.imp And.right And.right)

theorem Ty.SameSort.isInteger (h : a.SameSort b) (ha : a.isInteger = true) :
    b.isInteger = true := by
  rcases h with ⟨hbool, -⟩ | ⟨-, hb⟩
  · exact absurd ha (Ty.not_isInteger hbool)
  · exact hb

theorem Ty.SameSort.symm (h : a.SameSort b) : b.SameSort a := h.imp And.symm And.symm

/-- Booleans and integers have no common type, so two types with one are of the sort of it. -/
theorem Ty.sameSort_of_unify (ha : a.isReckonable = true) (hb : b.isReckonable = true)
    (h : a.unify b = .ok common) : a.SameSort common ∧ b.SameSort common := by
  have hkind := Ty.unify_eq_ok h
  -- of one sort the common type is of that sort, and of two there is none
  rcases Ty.isReckonable_iff.mp ha with ha | ha <;> rcases Ty.isReckonable_iff.mp hb with hb | hb
  · rw [of_decide_eq_true ha, of_decide_eq_true hb] at hkind
    have hcommon : common.isBool = true := decide_eq_true (Option.some.inj hkind).symm
    exact ⟨.inl ⟨ha, hcommon⟩, .inl ⟨hb, hcommon⟩⟩
  · obtain ⟨width, signed, hb⟩ := Ty.exists_of_isInteger hb
    rw [of_decide_eq_true ha, hb] at hkind
    cases hkind
  · obtain ⟨width, signed, ha⟩ := Ty.exists_of_isInteger ha
    rw [ha, of_decide_eq_true hb] at hkind
    cases hkind
  · obtain ⟨w, s, ha'⟩ := Ty.exists_of_isInteger ha
    obtain ⟨w', s', hb'⟩ := Ty.exists_of_isInteger hb
    rw [ha', hb'] at hkind
    have hcommon : common.isInteger = true := by
      unfold Ty.isInteger
      rw [← Option.some.inj hkind]
    exact ⟨.inr ⟨ha, hcommon⟩, .inr ⟨hb, hcommon⟩⟩

theorem Ty.isInteger_of_isNumeric (h : type.isReckonable = true)
    (hnumeric : type.isNumeric = true) : type.isInteger = true := by
  -- booleans are no numbers
  refine (Ty.isReckonable_iff.mp h).resolve_left fun hbool => ?_
  unfold Ty.isNumeric at hnumeric
  rw [of_decide_eq_true hbool] at hnumeric
  cases hnumeric

theorem Ty.not_isText (h : type.isReckonable = true) : ¬type.isText = true := by
  intro htext
  unfold Ty.isText at htext
  rcases Ty.isReckonable_iff.mp h with h | h
  · rw [of_decide_eq_true h] at htext
    cases htext
  · obtain ⟨width, signed, hkind⟩ := Ty.exists_of_isInteger h
    rw [hkind] at htext
    cases htext

end

end DeltaCircuit
