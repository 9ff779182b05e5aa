import DeltaCircuit.Proofs.Outcome
import DeltaCircuit.Proofs.Value
import DeltaCircuit.Proofs.Weighted
import DeltaCircuit.ZSet
import Mathlib.Data.List.Induction
import Mathlib.Tactic.Ring

/-!
# Sums of Z-sets

Z-sets are maps: their values are pairwise different (`ZSet.Distinct`). Adding one value at a time
keeps them so, and a merge that succeeds adds up weight functions.

* `ZSet.weight_of_add`, `ZSet.weight_of_merge` — the weight function of a sum.
* `ZSet.accumulate`, `ZSet.weight_of_accumulate` — the sum of a list of Z-sets, as an integral forms
  it.
* `ZSet.difference`, `ZSet.weight_of_difference` — the difference of two Z-sets.
* `ZSet.total` — the weight that a list of entries gives to a value, if entries may repeat.
-/

namespace DeltaCircuit

namespace ZSet

/-- The values of a Z-set are pairwise different. -/
abbrev Distinct (z : ZSet) : Prop := Weighted.Distinct Value.same z

variable {z out : ZSet} {v : Value} {w : Int}

/-! ### One value -/

theorem add_eq_ok : z.add v w = .ok out ↔ Weighted.add? Value.same z v w = some out := by
  unfold add
  cases Weighted.add? Value.same z v w <;> simp

theorem Distinct.add (hd : z.Distinct) (h : z.add v w = .ok out) : out.Distinct :=
  Weighted.Distinct.add? hd (add_eq_ok.mp h)

theorem weight_of_add (hd : z.Distinct) (h : z.add v w = .ok out) (u : Value) :
    out.weight u = z.weight u + if v.same u then w else 0 :=
  Weighted.weight_of_add? Value.same_equivalence hd (add_eq_ok.mp h) u

/-! ### Lists of entries -/

/-- The weight that entries give to a value together. -/
def total (entries : List (Value × Int)) (v : Value) : Int :=
  (entries.map fun entry => if entry.1.same v then entry.2 else 0).sum

@[simp] theorem total_nil (v : Value) : total [] v = 0 := rfl

@[simp] theorem total_cons (entry : Value × Int) (entries : List (Value × Int)) (v : Value) :
    total (entry :: entries) v = (if entry.1.same v then entry.2 else 0) + total entries v := by
  simp [total]

/-- In a map at most one entry counts. -/
theorem Distinct.total_eq_weight (hd : z.Distinct) (v : Value) : total z v = z.weight v := by
  induction z with
  | nil => rfl
  | cons entry z ih =>
    obtain ⟨hfresh, hrest⟩ := Weighted.distinct_cons.mp hd
    -- no later entry has the value of the first one
    rw [total_cons, ih hrest, weight, weight, Weighted.weight_cons]
    by_cases hv : entry.1.same v
    · rw [if_pos hv, if_pos hv,
        Weighted.weight_eq_zero_of_fresh Value.same_equivalence hv hfresh, Int.add_zero]
    · rw [if_neg hv, if_neg hv, Int.zero_add]

/-! ### Merging -/

theorem merge_eq_ok {other : ZSet} {sign : Int} :
    z.merge other sign = .ok out ↔ z.mergeFrom sign other = (.ok (), out) := by
  unfold merge
  rcases z.mergeFrom sign other with ⟨_ | ⟨⟩, sum⟩ <;> simp

/-- What merging has reached after a first entry. -/
theorem mergeFrom_cons_eq_ok {sign : Int} {entries : List (Value × Int)} :
    z.mergeFrom sign ((v, w) :: entries) = (.ok (), out) ↔
      ∃ next, z.add v (w * sign) = .ok next ∧ next.mergeFrom sign entries = (.ok (), out) ∧
        Weighted.isWeight (w * sign) = true := by
  rw [mergeFrom]
  split
  · next hw => cases z.add v (w * sign) <;> simp [hw]
  · next hw => simp [hw]

theorem Distinct.mergeFrom (hd : z.Distinct) {sign : Int} {entries : List (Value × Int)}
    (h : z.mergeFrom sign entries = (.ok (), out)) : out.Distinct := by
  induction entries generalizing z with
  | nil =>
    obtain rfl : z = out := by simpa [ZSet.mergeFrom] using h
    exact hd
  | cons entry entries ih =>
    obtain ⟨next, hadd, hrest, -⟩ := mergeFrom_cons_eq_ok.mp h
    exact ih (hd.add hadd) hrest

theorem Distinct.merge (hd : z.Distinct) {other : ZSet} {sign : Int}
    (h : z.merge other sign = .ok out) : out.Distinct :=
  hd.mergeFrom (merge_eq_ok.mp h)

theorem weight_of_mergeFrom (hd : z.Distinct) {sign : Int} {entries : List (Value × Int)}
    (h : z.mergeFrom sign entries = (.ok (), out)) (u : Value) :
    out.weight u = z.weight u + sign * total entries u := by
  induction entries generalizing z with
  | nil =>
    obtain rfl : z = out := by simpa [mergeFrom] using h
    simp
  | cons entry entries ih =>
    obtain ⟨next, hadd, hrest, -⟩ := mergeFrom_cons_eq_ok.mp h
    -- the first entry counts or not; the rest is by induction
    rw [ih (hd.add hadd) hrest, weight_of_add hd hadd, total_cons]
    split <;> ring

/-- **Merging adds weight functions.** -/
theorem weight_of_merge (hd : z.Distinct) {other : ZSet} (ho : other.Distinct) {sign : Int}
    (h : z.merge other sign = .ok out) (u : Value) :
    out.weight u = z.weight u + sign * other.weight u := by
  rw [weight_of_mergeFrom hd (merge_eq_ok.mp h), ho.total_eq_weight]

/-! ### Running sums -/

/-- The sum of Z-sets in order, merged one after another into the empty one. -/
def accumulate (zs : List ZSet) : Except EvalError ZSet :=
  zs.foldlM (fun sum z => sum.merge z 1) []

@[simp] theorem accumulate_nil : accumulate [] = .ok [] := rfl

theorem accumulate_concat (zs : List ZSet) (z : ZSet) :
    accumulate (zs ++ [z]) = accumulate zs >>= fun sum => sum.merge z 1 := by
  simp [accumulate, List.foldlM_append]

theorem distinct_of_accumulate {zs : List ZSet} (h : accumulate zs = .ok out) : out.Distinct :=
  List.foldlM_ok_induction Distinct (fun _ _ _ hd hmerge => hd.merge hmerge)
    Weighted.distinct_nil h

/-- A sum of Z-sets adds up their weight functions. -/
theorem weight_of_accumulate {zs : List ZSet} (hds : ∀ z ∈ zs, z.Distinct)
    (h : accumulate zs = .ok out) (v : Value) :
    out.weight v = (zs.map fun z => z.weight v).sum := by
  -- from the end, as the last Z-set is the last one to be merged
  induction zs using List.reverseRecOn generalizing out with
  | nil =>
    obtain rfl := Except.ok.inj h
    rfl
  | append_singleton zs z ih =>
    rw [accumulate_concat, Except.bind_eq_ok] at h
    obtain ⟨sum, hsum, hmerge⟩ := h
    obtain ⟨hds, hz⟩ := List.forall_mem_append.mp hds
    rw [weight_of_merge (distinct_of_accumulate hsum) (hz z List.mem_cons_self) hmerge,
      ih hds hsum, Int.one_mul, List.map_append, List.sum_append]
    simp

/-! ### Differences -/

/-- The difference of two Z-sets: a copy of the one from which the other one is taken away. -/
def difference (z other : ZSet) : Except EvalError ZSet := do
  (← ZSet.merge [] z 1).merge other (-1)

theorem distinct_of_difference {other : ZSet} (h : z.difference other = .ok out) :
    out.Distinct := by
  obtain ⟨copy, hcopy, hmerge⟩ := Except.bind_eq_ok.mp h
  exact (Distinct.merge Weighted.distinct_nil hcopy).merge hmerge

/-- A difference of Z-sets subtracts their weight functions. -/
theorem weight_of_difference {other : ZSet} (hz : z.Distinct) (ho : other.Distinct)
    (h : z.difference other = .ok out) (v : Value) :
    out.weight v = z.weight v - other.weight v := by
  obtain ⟨copy, hcopy, hmerge⟩ := Except.bind_eq_ok.mp h
  -- the copy starts from nothing
  have hcopied : copy.weight v = 0 + 1 * z.weight v :=
    weight_of_merge Weighted.distinct_nil hz hcopy v
  rw [weight_of_merge (Distinct.merge Weighted.distinct_nil hcopy) ho hmerge, hcopied]
  ring

end ZSet
end DeltaCircuit
