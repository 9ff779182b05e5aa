import DeltaCircuit.Proofs.ZSetGroups

/-!
# Z-sets of positive weights

A Z-set without weights of zero and below is a multiset. Sums, maps, filters, indexes and joins of
multisets are multisets, since weights are only ever added and multiplied. A difference of multisets
need not be one; but the row of no rows, minus one copy of it for each row that an aggregate has
given, is missing exactly where the aggregate has given none.

* `ZSet.Positive` — all weights are positive.
* `ZSet.Positive.add`, `ZSet.Positive.merge`, `ZSet.Positive.map`, `ZSet.Positive.join` — what keeps
  weights positive.
* `ZSet.AtMostOneRow`, `ZSet.atMostOneRow_aggregate` — an aggregate of a single group.
* `ZSet.AtMostOneRow.orDefault` — with a row of its own where there is none, there is one row.
-/

namespace DeltaCircuit

namespace ZSet

/-- All weights are positive. -/
def Positive (z : ZSet) : Prop := ∀ entry ∈ z, 0 < entry.2

variable {z x left right out : ZSet} {v : Value} {w : Int} {f : Expr}

theorem positive_nil : Positive [] := nofun

/-- What is there once each is there a positive number of times. -/
theorem positive_of_once (h : ∀ entry ∈ z, entry.2 = 1) : z.Positive := by
  intro entry hentry
  rw [h entry hentry]
  decide

/-! ### Sums -/

theorem Positive.weight_nonneg (hz : z.Positive) (v : Value) : 0 ≤ z.weight v := by
  rcases @Weighted.weight_cases _ Value.same z v with ⟨entry, hentry, -, hweight⟩ | hzero
  · rw [weight, ← hweight]
    exact Int.le_of_lt (hz entry hentry)
  · exact Int.le_of_eq hzero.symm

/-- A value that is added leaves the weights of the others, and gets a greater one itself. -/
theorem Positive.add (hz : z.Positive) (hw : 0 < w) (h : z.add v w = .ok out) : out.Positive := by
  have htotal : 0 < Weighted.weight Value.same z v + w :=
    Int.add_pos_of_nonneg_of_pos (hz.weight_nonneg v) hw
  rcases Weighted.add?_cases (add_eq_ok.mp h) with ⟨hzero, -⟩ | ⟨-, hzero, -⟩ | ⟨-, -, -, rfl⟩
  · exact absurd hzero (Int.ne_of_gt hw)
  · -- the sum is not zero, so the value is not taken out
    exact absurd hzero (Int.ne_of_gt htotal)
  · intro entry hentry
    rcases Weighted.mem_or_eq_of_mem_put hentry with hold | hnew
    · exact hz entry hold
    · rwa [hnew]

theorem Positive.mergeFrom (hz : z.Positive) (hx : x.Positive)
    (h : z.mergeFrom 1 x = (.ok (), out)) : out.Positive := by
  induction x generalizing z with
  | nil =>
    obtain rfl : z = out := by simpa [ZSet.mergeFrom] using h
    exact hz
  | cons entry entries ih =>
    obtain ⟨hentry, hentries⟩ := List.forall_mem_cons.mp hx
    obtain ⟨next, hadd, hrest, -⟩ := mergeFrom_cons_eq_ok.mp h
    rw [Int.mul_one] at hadd
    exact ih (hz.add hentry hadd) hentries hrest

theorem Positive.merge (hz : z.Positive) (hx : x.Positive) (h : z.merge x 1 = .ok out) :
    out.Positive :=
  hz.mergeFrom hx (merge_eq_ok.mp h)

/-! ### Functions of rows -/

/-- A map gives every value the weights of the rows that it is the value of. -/
theorem Positive.map (hz : z.Positive) (h : z.map f = .ok out) : out.Positive := by
  refine List.foldlM_ok_induction_of_mem Positive (fun entry hentry sum next hsum hnext => ?_)
    positive_nil h
  obtain ⟨value, -, hadd⟩ := Except.bind_eq_ok.mp hnext
  exact hsum.add (hz entry hentry) hadd

theorem Positive.filterBy (hz : z.Positive) (h : z.filterBy f = .ok out) : out.Positive := by
  refine List.foldlM_ok_induction_of_mem Positive (fun entry hentry sum next hsum hnext => ?_)
    positive_nil h
  obtain ⟨keep, -, hnext⟩ := Except.bind_eq_ok.mp hnext
  split at hnext
  · exact hsum.add (hz entry hentry) hnext
  · exact Except.pure_eq_ok.mp hnext ▸ hsum

theorem Positive.index (hz : z.Positive) (h : z.index f = .ok out) : out.Positive := by
  refine List.foldlM_ok_induction_of_mem Positive (fun entry hentry sum next hsum hnext => ?_)
    positive_nil h
  obtain ⟨value, -, hnext⟩ := Except.bind_eq_ok.mp hnext
  obtain ⟨pair, -, hadd⟩ := Except.bind_eq_ok.mp hnext
  exact hsum.add (hz entry hentry) hadd

theorem Positive.joinOne {key member : Value} (hz : z.Positive) (hw : 0 < w)
    (hright : right.Positive) (h : joinOne f key member w right z = .ok out) : out.Positive := by
  refine List.foldlM_ok_induction_of_mem Positive (fun entry hentry sum next hsum hnext => ?_) hz h
  obtain ⟨pair, -, hnext⟩ := Except.bind_eq_ok.mp hnext
  dsimp only at hnext
  split at hnext
  · obtain ⟨joined, -, hnext⟩ := Except.bind_eq_ok.mp hnext
    split at hnext
    · exact hsum.add (Int.mul_pos hw (hright entry hentry)) hnext
    · cases hnext
  · exact Except.pure_eq_ok.mp hnext ▸ hsum

/-- A join multiplies weights. -/
theorem Positive.join (hleft : left.Positive) (hright : right.Positive)
    (h : left.join right f = .ok out) : out.Positive := by
  refine List.foldlM_ok_induction_of_mem Positive (fun entry hentry sum next hsum hnext => ?_)
    positive_nil h
  obtain ⟨pair, -, hone⟩ := Except.bind_eq_ok.mp hnext
  exact hsum.joinOne (hleft entry hentry) hright hone

/-! ### A single group -/

/-- No row, or a single one that is there once. -/
def AtMostOneRow (z : ZSet) : Prop := z = [] ∨ ∃ v, z = [(v, 1)]

/-- Rows that are indexed under one key. -/
theorem key_of_index {k : Value} (hf : ∀ row v, f.applyTo [row] = .ok v → ∃ u, v = .row [k, u])
    (h : z.index f = .ok out) : ∀ entry ∈ out, ∃ u, entry.1 = .row [k, u] := by
  refine List.foldlM_ok_induction (fun sum : ZSet => ∀ entry ∈ sum, ∃ u, entry.1 = .row [k, u])
    (fun sum entry next hsum hnext => ?_) (List.forall_mem_nil _) h
  obtain ⟨value, hvalue, hnext⟩ := Except.bind_eq_ok.mp hnext
  obtain ⟨u, rfl⟩ := hf _ _ hvalue
  have hadd : sum.add (.row [k, u]) entry.2 = .ok next := hnext
  intro other hother
  rcases Weighted.eq_or_exists_of_mem_add? (add_eq_ok.mp hadd) hother with heq | ⟨old, hold, heq⟩
  · exact ⟨u, heq⟩
  · exact heq ▸ hsum old hold

/-- Under one key there is one group at most. -/
theorem groups_of_key {k : Value} {found : List (Value × List Value)}
    (hkey : ∀ entry ∈ z, ∃ u, entry.1 = .row [k, u]) (h : z.groups = .ok found) :
    found = [] ∨ ∃ members, found = [(k, members)] := by
  refine List.foldlM_ok_induction_of_mem
    (fun found : List (Value × List Value) => found = [] ∨ ∃ members, found = [(k, members)])
    (fun entry hentry groups next hgroups hnext => ?_) (.inl rfl) h
  obtain ⟨u, hu⟩ := hkey entry hentry
  obtain ⟨v, w⟩ := entry
  obtain rfl : v = .row [k, u] := hu
  obtain rfl : addToGroup groups k (.row [u, .int w]) = next := Except.ok.inj hnext
  -- the first row opens the group, and every other one joins it
  rcases hgroups with rfl | ⟨members, rfl⟩
  · exact .inr ⟨_, rfl⟩
  · have hsame : k.same k = true := Value.same_equivalence.refl k
    rw [addToGroup, if_pos hsame]
    exact .inr ⟨_, rfl⟩

theorem atMostOneRow_aggregate {k : Value} (hkey : ∀ entry ∈ z, ∃ u, entry.1 = .row [k, u])
    (h : z.aggregate f = .ok out) : out.AtMostOneRow := by
  obtain ⟨found, hfound, h⟩ := Except.bind_eq_ok.mp h
  rcases groups_of_key hkey hfound with rfl | ⟨members, rfl⟩
  · exact .inl (Except.ok.inj h).symm
  · rw [List.foldlM_cons] at h
    obtain ⟨sum, hsum, hrest⟩ := Except.bind_eq_ok.mp h
    obtain ⟨result, -, hadd⟩ := Except.bind_eq_ok.mp hsum
    obtain rfl := Except.ok.inj hadd
    exact .inr ⟨_, (Except.ok.inj hrest).symm⟩

theorem AtMostOneRow.map (hz : z.AtMostOneRow) (h : z.map f = .ok out) : out.AtMostOneRow := by
  rcases hz with rfl | ⟨v, rfl⟩
  · exact .inl (Except.ok.inj h).symm
  · have hmap : f.applyTo [v] >>= (fun u => ZSet.add [] u 1) = .ok out := by
      unfold ZSet.map at h
      rw [List.foldlM_cons] at h
      simpa only [List.foldlM_nil, bind_pure] using h
    obtain ⟨u, -, hadd⟩ := Except.bind_eq_ok.mp hmap
    exact .inr ⟨u, (Except.ok.inj hadd).symm⟩

/-- Where there is no row, the missing one comes in, and where there is one, nothing is missing. -/
theorem AtMostOneRow.orDefault {p m : ZSet} {d : Value} (hz : z.AtMostOneRow)
    (hf : ∀ row, f.applyTo [row] = .ok d) (hcopies : z.map f = .ok p)
    (hdifference : difference [(d, 1)] p = .ok m) (hsum : accumulate [z, m] = .ok out) :
    out.Positive := by
  obtain ⟨hnone, hone⟩ := ZSet.orDefault hcopies hdifference hsum
  refine positive_of_once fun entry hentry => ?_
  rcases hz with hempty | ⟨v, hv⟩
  · rw [hnone hempty, List.mem_singleton] at hentry
    rw [hentry]
  · rw [hone v hv (hf v), List.mem_singleton] at hentry
    rw [hentry]

end ZSet
end DeltaCircuit
