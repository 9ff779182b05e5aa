import DeltaCircuit.Double.Basic

/-!
# The order of floating point numbers

Two numbers stand at one place of the total order iff one representative stands for both: the two
zeros have one, and so have all undefined numbers.

* `Double.rank_eq_iff`, `Double.order_eq_iff` — the order and the representatives agree.
-/

namespace DeltaCircuit.Double

variable {a b : Double}

theorem magnitude_lt (a : Double) : a.magnitude < Nat.pow 2 63 := Nat.mod_lt _ (by decide)

/-- A number is put together from its sign and its magnitude. -/
theorem bits_eq (a : Double) :
    a.bits.toNat = (if a.isNegative then Nat.pow 2 63 else 0) + a.magnitude := by
  have hbound : a.bits.toNat < Nat.pow 2 63 + Nat.pow 2 63 := a.bits.toNat_lt
  unfold magnitude isNegative
  split
  · rename_i h
    have hle : Nat.pow 2 63 ≤ a.bits.toNat := by simpa using h
    rw [Nat.mod_eq_sub_mod hle, Nat.mod_eq_of_lt (by omega)]
    omega
  · rename_i h
    have hlt : a.bits.toNat < Nat.pow 2 63 := by simpa using h
    rw [Nat.mod_eq_of_lt hlt, Nat.zero_add]

theorem eq_of_parts (hsign : a.isNegative = b.isNegative) (hmagnitude : a.magnitude = b.magnitude) :
    a = b := by
  obtain ⟨bits⟩ := a
  obtain ⟨bits'⟩ := b
  congr 1
  rw [← UInt64.toNat_inj]
  have h := bits_eq ⟨bits⟩
  have h' := bits_eq ⟨bits'⟩
  rw [hsign, hmagnitude, ← h'] at h
  exact h

theorem rank_lt_of_not_isNaN (h : a.isNaN = false) : a.rank < Nat.pow 2 63 := by
  have hlt := a.magnitude_lt
  unfold rank
  rw [if_neg (by simp [h])]
  split <;> omega

theorem rank_of_isNaN (h : a.isNaN = true) : a.rank = Nat.pow 2 63 := by
  unfold rank
  rw [if_pos h]

theorem rank_of_not_isNaN (h : a.isNaN = false) :
    a.rank = if a.isNegative then -(a.magnitude : Int) else a.magnitude := by
  unfold rank
  rw [if_neg (by simp [h])]

/-- The undefined number stands above all others. -/
theorem isNaN_eq (h : a.rank = b.rank) : a.isNaN = b.isNaN := by
  cases ha : a.isNaN <;> cases hb : b.isNaN
  · rfl
  · have hlt := rank_lt_of_not_isNaN ha
    rw [h, rank_of_isNaN hb] at hlt
    exact absurd hlt (Int.lt_irrefl _)
  · have hlt := rank_lt_of_not_isNaN hb
    rw [← h, rank_of_isNaN ha] at hlt
    exact absurd hlt (Int.lt_irrefl _)
  · rfl

/-- A representative stands where the number stands. -/
theorem rank_canonical (a : Double) : a.canonical.rank = a.rank := by
  unfold canonical
  split
  · rename_i hnan
    rw [rank_of_isNaN hnan]
    decide
  · rename_i hnan
    split
    · rename_i hzero
      have hmagnitude : a.magnitude = 0 := by simpa [isZero] using hzero
      have hrank : (zero false).rank = 0 := by decide
      have hna : a.isNaN = false := by simpa using hnan
      rw [hrank, rank_of_not_isNaN hna, hmagnitude]
      split <;> rfl
    · rfl

theorem rank_eq_iff : a.rank = b.rank ↔ a.canonical = b.canonical := by
  constructor
  · intro h
    have hnan := isNaN_eq h
    unfold canonical
    rw [← hnan]
    split
    · rfl
    · rename_i hna
      have hna : a.isNaN = false := by simpa using hna
      rw [rank_of_not_isNaN hna, rank_of_not_isNaN (hnan ▸ hna)] at h
      -- the ranks agree up to sign only where the magnitudes do, and at zero there is no sign
      have hmagnitude : a.magnitude = b.magnitude := by
        split at h <;> split at h <;> omega
      have hzero : a.isZero = b.isZero := by
        unfold isZero
        rw [hmagnitude]
      rw [hzero]
      split
      · rfl
      · rename_i hpositive
        have hpositive : b.magnitude ≠ 0 := by simpa [isZero] using hpositive
        refine eq_of_parts ?_ hmagnitude
        -- with different signs, a magnitude would be its own negation
        cases ha : a.isNegative <;> cases hb : b.isNegative <;>
          simp only [ha, hb, hmagnitude, reduceIte, Bool.false_eq_true] at h ⊢ <;> omega
  · intro h
    rw [← rank_canonical a, h, rank_canonical b]

/-- Representatives stand in the order of the numbers. -/
theorem order_canonical (a b : Double) : a.canonical.order b.canonical = a.order b := by
  unfold order
  rw [rank_canonical, rank_canonical]

theorem order_eq_iff : a.order b = .eq ↔ a.canonical = b.canonical := by
  unfold order
  rw [Std.compare_eq_iff_eq, rank_eq_iff]

end DeltaCircuit.Double
