import DeltaCircuit.Circuit.Graph
import DeltaCircuit.Proofs.Circuit.Construction

/-!
# What operators need

`Circuit.needed` meets everything that the roots read in one sweep from the last operator to the
first. The sweep has passed an operator when it adds something in front of it, so what is met behind
that place is complete (`Circuit.sweep_closed`).

* `Circuit.mem_ancestors_of_root` — existing roots are among their ancestors.
* `Circuit.mem_ancestors_of_input` — ancestors are closed under inputs.
* `Circuit.ancestors_induction` — there are no others.
-/

namespace DeltaCircuit.Circuit

variable {c : Circuit} {roots : List OperatorId} {op : Operator} {id input : Nat}

/-- What the sweep has met when it has come down to an operator. -/
def sweep (c : Circuit) (roots : List OperatorId) (n : Nat) : List OperatorId :=
  (c.numbered.drop n).foldr
    (fun (id, op) found => if found.contains id then op.inputs ++ found else found)
    (roots.filter (· < c.size))

theorem sweep_size (c : Circuit) (roots : List OperatorId) :
    c.sweep roots c.size = roots.filter (· < c.size) := by
  rw [sweep, drop_numbered_size, List.foldr_nil]

/-- One operator more. -/
theorem sweep_eq {n : Nat} (hop : c.get? n = some op) :
    c.sweep roots n = if n ∈ c.sweep roots (n + 1) then op.inputs ++ c.sweep roots (n + 1)
      else c.sweep roots (n + 1) := by
  rw [sweep, drop_numbered hop, List.foldr_cons, ← sweep]
  simp only [List.contains_iff_mem]

theorem sweep_subset {n : Nat} (hop : c.get? n = some op) :
    c.sweep roots (n + 1) ⊆ c.sweep roots n := by
  intro other hother
  rw [sweep_eq hop]
  split
  · exact List.mem_append_right _ hother
  · exact hother

/-- The roots are met from the start. -/
theorem mem_sweep_of_root {n : Nat} (hn : n ≤ c.size) (hroot : id ∈ roots) (hid : id < c.size) :
    id ∈ c.sweep roots n := by
  -- on how many operators the sweep has passed; it starts behind the last one
  induction hk : c.size - n generalizing n with
  | zero =>
    obtain rfl : n = c.size := by omega
    rw [sweep_size]
    exact List.mem_filter.mpr ⟨hroot, by simpa using hid⟩
  | succ k ih =>
    obtain ⟨op, hop⟩ := exists_get?_of_lt (c := c) (n := n) (by omega)
    exact sweep_subset hop (ih (by omega) (by omega))

/-- **The invariant of the sweep.** Where it has passed, it has met the inputs of everything it has
met. -/
theorem sweep_closed (hc : c.Ordered) {n : Nat} (hle : n ≤ id) (hop : c.get? id = some op)
    (hid : id ∈ c.sweep roots n) (hinput : input ∈ op.inputs) : input ∈ c.sweep roots n := by
  induction hk : id - n generalizing n with
  | zero =>
    obtain rfl : n = id := by omega
    -- the sweep is right at the operator, and adds its inputs if it has met it
    rw [sweep_eq hop] at hid ⊢
    split at hid
    · next hmet =>
      rw [if_pos hmet]
      exact List.mem_append_left _ hinput
    · next hmet => exact absurd hid hmet
  | succ k ih =>
    obtain ⟨other, hother⟩ := exists_get?_of_lt (c := c) (n := n) (by
      have hlt := lt_size_of_get? hop
      omega)
    -- what is added for the operator at `n` stands in front of `n`
    have hbefore : id ∈ c.sweep roots (n + 1) := by
      rw [sweep_eq hother] at hid
      split at hid
      · rcases List.mem_append.mp hid with hnew | hold
        · have hlt : id < n := hc n other hother id hnew
          omega
        · exact hold
      · exact hid
    exact sweep_subset hother (ih (by omega) hbefore (by omega))

/-! ### Ancestors -/

theorem mem_ancestors : id ∈ c.ancestors roots ↔ id < c.size ∧ id ∈ c.sweep roots 0 := by
  unfold ancestors
  rw [List.mem_filter, List.mem_range, List.contains_iff_mem]
  rfl

theorem mem_ancestors_of_root (hroot : id ∈ roots) (hid : id < c.size) :
    id ∈ c.ancestors roots :=
  mem_ancestors.mpr ⟨hid, mem_sweep_of_root (Nat.zero_le _) hroot hid⟩

theorem mem_ancestors_of_input (hc : c.Ordered) (hop : c.get? id = some op)
    (hid : id ∈ c.ancestors roots) (hinput : input ∈ op.inputs) : input ∈ c.ancestors roots := by
  obtain ⟨hlt, hmet⟩ := mem_ancestors.mp hid
  have hbefore : input < id := hc id op hop input hinput
  exact mem_ancestors.mpr ⟨by omega, sweep_closed hc (Nat.zero_le _) hop hmet hinput⟩

/-- What holds of the roots and passes on to inputs holds of everything that the sweep meets. -/
theorem sweep_induction {P : Nat → Prop} (hroot : ∀ id : Nat, id ∈ roots → id < c.size → P id)
    (hinput : ∀ (id : Nat) op, c.get? id = some op → P id → ∀ input ∈ op.inputs, P input)
    {n : Nat} (hn : n ≤ c.size) : ∀ id ∈ c.sweep roots n, P id := by
  -- again on how many operators the sweep has passed
  induction hk : c.size - n generalizing n with
  | zero =>
    obtain rfl : n = c.size := by omega
    intro id hid
    rw [sweep_size] at hid
    obtain ⟨hmem, hlt⟩ := List.mem_filter.mp hid
    exact hroot id hmem (by simpa using hlt)
  | succ k ih =>
    obtain ⟨op, hop⟩ := exists_get?_of_lt (c := c) (n := n) (by omega)
    have hbefore := ih (n := n + 1) (by omega) (by omega)
    intro id hid
    rw [sweep_eq hop] at hid
    split at hid
    · next hmet =>
      -- met now as an input of the operator at `n`, or met before
      rcases List.mem_append.mp hid with hnew | hold
      · exact hinput n op hop (hbefore n hmet) id hnew
      · exact hbefore id hold
    · exact hbefore id hid

/-- **Ancestors are few.** What holds of the roots and passes on to inputs holds of all
ancestors. -/
theorem ancestors_induction {P : Nat → Prop}
    (hroot : ∀ id : Nat, id ∈ roots → id < c.size → P id)
    (hinput : ∀ (id : Nat) op, c.get? id = some op → P id → ∀ input ∈ op.inputs, P input)
    (hid : id ∈ c.ancestors roots) : P id :=
  sweep_induction hroot hinput (Nat.zero_le _) id (mem_ancestors.mp hid).2

end DeltaCircuit.Circuit
