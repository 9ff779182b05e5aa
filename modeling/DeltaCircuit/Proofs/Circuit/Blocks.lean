import DeltaCircuit.Proofs.Circuit.EmbeddingPasses
import DeltaCircuit.Proofs.Circuit.Incremented
import DeltaCircuit.Proofs.Circuit.RemoveOperators
import Mathlib.Data.List.GetD

/-!
# The incremental circuit in blocks

The operators of an incremental circuit come in blocks, one for each old operator: two operators for
a source or a sink, one for anything else. The last operator of a block stands for the old one.

* `Circuit.block` — what becomes of one operator, from the place where its block starts and the
  places that stand for what it reads.
* `Circuit.blockStart` — where a block starts.
* `Circuit.get?_block`, `Circuit.exists_block` — the incremental circuit consists of its blocks.
* `Circuit.mem_ancestors_block` — the sinks of the incremental circuit need the whole of a block or
  nothing of it, according to whether the old sinks need the old operator.
-/

namespace DeltaCircuit

/-- How many operators an operator of a kind becomes. -/
def OperatorKind.width (kind : OperatorKind) : Nat :=
  if kind.isSource || kind.isSink then 2 else 1

theorem OperatorKind.width_pos (kind : OperatorKind) : 0 < kind.width := by
  unfold width
  split <;> omega

theorem OperatorKind.isNoop_of_isSource {kind : OperatorKind} (h : kind.isSource = true) :
    kind.isNoop = false := by
  cases kind with
  | source _ _ => rfl
  | _ => cases h

theorem OperatorKind.isNoop_of_isSink {kind : OperatorKind} (h : kind.isSink = true) :
    kind.isNoop = false := by
  cases kind with
  | sink _ _ _ => rfl
  | _ => cases h

namespace Circuit

variable {c : Circuit} {op new : Operator} {start n i d q : Nat} {place place' : Nat → Nat}

/-- The operators that an operator becomes. -/
def block (start : Nat) (place : Nat → Nat) (op : Operator) : List Operator :=
  if op.kind.isSource then [op, relay .integral start op]
  else if op.kind.isSink then
    [⟨.differential, op.inputs.map place, none, op.outputType, op.isMultiset⟩,
      op.withInputs [start]]
  else [op.withInputs (op.inputs.map place)]

theorem block_of_source (hsource : op.kind.isSource = true) :
    block start place op = [op, relay .integral start op] :=
  if_pos hsource

theorem block_of_sink (hsink : op.kind.isSink = true) :
    block start place op =
      [⟨.differential, op.inputs.map place, none, op.outputType, op.isMultiset⟩,
        op.withInputs [start]] := by
  unfold block
  rw [if_neg (by simp [OperatorKind.isSource_of_isSink hsink]), if_pos hsink]

theorem block_of_copy (hsource : op.kind.isSource = false) (hsink : op.kind.isSink = false) :
    block start place op = [op.withInputs (op.inputs.map place)] := by
  unfold block
  rw [if_neg (by simp [hsource]), if_neg (by simp [hsink])]

@[simp] theorem length_block : (block start place op).length = op.kind.width := by
  unfold block OperatorKind.width
  split
  · simp [*]
  · split <;> simp [*]

theorem block_congr (h : ∀ input ∈ op.inputs, place input = place' input) :
    block start place op = block start place' op := by
  unfold block
  rw [List.map_congr_left h]

/-- An operator of a block reads the start of the block, or what stands for an old input. -/
theorem input_of_mem_block (hsource : op.kind.isSource = true → op.inputs = [])
    (hnew : new ∈ block start place op) {y : Nat} (hy : y ∈ new.inputs) :
    y = start ∨ ∃ input ∈ op.inputs, place input = y := by
  unfold block at hnew
  split at hnew
  · next h =>
    -- a source reads nothing, and its integral reads the source
    rcases List.mem_pair.mp hnew with rfl | rfl
    · rw [hsource h] at hy
      cases hy
    · exact .inl (List.mem_singleton.mp hy)
  · split at hnew
    · -- the differential reads what the sink has read, and the sink reads the differential
      rcases List.mem_pair.mp hnew with rfl | rfl
      · exact .inr (List.mem_map.mp hy)
      · exact .inl (List.mem_singleton.mp hy)
    · obtain rfl := List.mem_singleton.mp hnew
      exact .inr (List.mem_map.mp hy)

/-- Only sinks become sinks. -/
theorem isSink_of_mem_block (hnew : new ∈ block start place op)
    (hsink : new.kind.isSink = true) : op.kind.isSink = true := by
  unfold block at hnew
  split at hnew
  · rcases List.mem_pair.mp hnew with rfl | rfl
    · exact hsink
    · cases hsink
  · split at hnew
    · next h => exact h
    · obtain rfl := List.mem_singleton.mp hnew
      exact hsink

/-- A no-op becomes a no-op, and nothing else does. -/
theorem isNoop_of_mem_block (hnew : new ∈ block start place op) :
    new.kind.isNoop = op.kind.isNoop := by
  unfold block at hnew
  split at hnew
  · next hsource =>
    rw [OperatorKind.isNoop_of_isSource hsource]
    rcases List.mem_pair.mp hnew with rfl | rfl
    · exact OperatorKind.isNoop_of_isSource hsource
    · rfl
  · split at hnew
    · next hsink =>
      rw [OperatorKind.isNoop_of_isSink hsink]
      rcases List.mem_pair.mp hnew with rfl | rfl
      · rfl
      · exact OperatorKind.isNoop_of_isSink hsink
    · obtain rfl := List.mem_singleton.mp hnew
      rfl

/-! ### Blocks one after the other -/

theorem Incremented.operators_next (s : Incremented) (op : Operator) :
    (s.next op).circuit.operators =
      s.circuit.operators ++ block s.circuit.size s.place op := by
  unfold next block
  split
  · simp [push]
  · split
    · simp [push, difference]
    · rfl

theorem Incremented.places_next (s : Incremented) (op : Operator) :
    (s.next op).places = s.places ++ [s.circuit.size + op.kind.width - 1] := by
  unfold next OperatorKind.width
  split
  · simp [*]
  · split <;> simp [*]

theorem Incremented.place_next_length (s : Incremented) (op : Operator) :
    (s.next op).place s.places.length = s.circuit.size + op.kind.width - 1 := by
  unfold place
  rw [places_next, List.getD_append_right _ _ _ _ le_rfl, Nat.sub_self]
  rfl

/-- The incremental circuit of a front is a front. -/
theorem prefix_incremented (c : Circuit) (n : Nat) :
    (c.take n).incremented.circuit.operators <+: c.incremented.circuit.operators ∧
      (c.take n).incremented.places <+: c.incremented.places := by
  have hfold : ∀ (ops : List Operator) (s : Incremented),
      s.circuit.operators <+: (ops.foldl Incremented.next s).circuit.operators ∧
        s.places <+: (ops.foldl Incremented.next s).places := by
    intro ops
    induction ops with
    | nil => exact fun s => ⟨List.prefix_rfl, List.prefix_rfl⟩
    | cons op ops ih =>
      intro s
      obtain ⟨hoperators, hplaces⟩ := ih (s.next op)
      rw [Incremented.operators_next] at hoperators
      rw [Incremented.places_next] at hplaces
      exact ⟨(List.prefix_append _ _).trans hoperators, (List.prefix_append _ _).trans hplaces⟩
  -- the whole arises from the front by the operators behind it
  have hall : c.incremented =
      (c.operators.drop n).foldl Incremented.next (c.take n).incremented := by
    unfold incremented take
    rw [← List.foldl_append, List.take_append_drop]
  rw [hall]
  exact hfold _ _

/-- Where the block of an operator starts. -/
def blockStart (c : Circuit) (n : Nat) : Nat := (c.take n).incremented.circuit.size

@[simp] theorem blockStart_zero (c : Circuit) : c.blockStart 0 = 0 := rfl

@[simp] theorem blockStart_size (c : Circuit) :
    c.blockStart c.size = c.incremented.circuit.size := by
  rw [blockStart, take_size]

theorem blockStart_succ (hop : c.get? n = some op) :
    c.blockStart (n + 1) = c.blockStart n + op.kind.width := by
  unfold blockStart
  rw [take_succ hop, incremented_push, size, Incremented.operators_next, List.length_append,
    length_block]
  rfl

theorem blockStart_le {m : Nat} (h : n ≤ m) (hm : m ≤ c.size) :
    c.blockStart n ≤ c.blockStart m := by
  induction m, h using Nat.le_induction with
  | base => exact le_rfl
  | succ m hnm ih =>
    obtain ⟨op, hop⟩ := exists_get?_of_lt hm
    rw [blockStart_succ hop]
    exact (ih (Nat.le_of_lt hm)).trans (Nat.le_add_right _ _)

/-- What stands for an operator in front of a place stands for it in the whole circuit. -/
theorem place_take (hi : i < n) (hn : n ≤ c.size) :
    (c.take n).incremented.place i = c.incremented.place i := by
  obtain ⟨rest, hrest⟩ := (prefix_incremented c n).2
  have hlt : i < (c.take n).incremented.places.length := by
    rw [length_places, size_take hn]
    exact hi
  unfold Incremented.place
  rw [← hrest, List.getD_append _ _ _ _ hlt]

/-- The last operator of a block stands for the old one. -/
theorem place_eq (hop : c.get? n = some op) :
    c.incremented.place n = c.blockStart n + (op.kind.width - 1) := by
  have hlt := lt_size_of_get? hop
  have hlength : (c.take n).incremented.places.length = n := by
    rw [length_places, size_take (Nat.le_of_lt hlt)]
  have hlast := Incremented.place_next_length (c.take n).incremented op
  rw [hlength] at hlast
  rw [← place_take (Nat.lt_succ_self n) hlt, take_succ hop, incremented_push, hlast]
  exact Nat.add_sub_assoc op.kind.width_pos _

/-- **The operators of a block.** -/
theorem get?_block (hc : c.Ordered) (hop : c.get? n = some op) (hd : d < op.kind.width) :
    c.incremented.circuit.get? (c.blockStart n + d) =
      (block (c.blockStart n) c.incremented.place op)[d]? := by
  obtain ⟨rest, hrest⟩ := (prefix_incremented c (n + 1)).1
  -- inputs are earlier operators, so what stands for them is settled when the block is made
  have hinputs : ∀ input ∈ op.inputs,
      (c.take n).incremented.place input = c.incremented.place input := fun input hinput =>
    place_take (hc n op hop input hinput) (Nat.le_of_lt (lt_size_of_get? hop))
  rw [take_succ hop, incremented_push, Incremented.operators_next, block_congr hinputs] at hrest
  rw [get?, ← hrest, List.append_assoc]
  have hfront : (c.take n).incremented.circuit.operators.length = c.blockStart n := rfl
  rw [List.getElem?_append_right (by omega), hfront, Nat.add_sub_cancel_left,
    List.getElem?_append_left (by rwa [length_block])]
  rfl

theorem exists_mem_block (hc : c.Ordered) (hop : c.get? n = some op) (hd : d < op.kind.width) :
    ∃ new, c.incremented.circuit.get? (c.blockStart n + d) = some new ∧
      new ∈ block (c.blockStart n) c.incremented.place op := by
  have hlt : d < (block (c.blockStart n) c.incremented.place op).length := by
    rwa [length_block]
  exact ⟨_, (get?_block hc hop hd).trans (List.getElem?_eq_getElem hlt), List.getElem_mem hlt⟩

/-- **Every operator is in a block.** -/
theorem exists_block (hq : q < c.incremented.circuit.size) :
    ∃ n op d, c.get? n = some op ∧ d < op.kind.width ∧ q = c.blockStart n + d := by
  have hfront : ∀ n ≤ c.size, q < c.blockStart n →
      ∃ n op d, c.get? n = some op ∧ d < op.kind.width ∧ q = c.blockStart n + d := by
    intro n
    induction n with
    | zero => exact fun _ h => absurd h (Nat.not_lt_zero q)
    | succ n ih =>
      intro hn hlt
      obtain ⟨op, hop⟩ := exists_get?_of_lt hn
      rcases Nat.lt_or_ge q (c.blockStart n) with hbefore | hin
      · exact ih (Nat.le_of_lt hn) hbefore
      · rw [blockStart_succ hop] at hlt
        exact ⟨n, op, q - c.blockStart n, hop, by omega, by omega⟩
  exact hfront c.size le_rfl (by rwa [blockStart_size])

/-- Blocks do not overlap. -/
theorem block_unique {m e : Nat} {other : Operator} (hop : c.get? n = some op)
    (hd : d < op.kind.width) (hother : c.get? m = some other) (he : e < other.kind.width)
    (h : c.blockStart n + d = c.blockStart m + e) : n = m := by
  have hn := blockStart_succ hop
  have hm := blockStart_succ hother
  -- the block that comes first has ended when the other one starts
  rcases Nat.lt_trichotomy n m with hlt | rfl | hlt
  · have hle := blockStart_le (c := c) (n := n + 1) hlt (Nat.le_of_lt (lt_size_of_get? hother))
    omega
  · rfl
  · have hle := blockStart_le (c := c) (n := m + 1) hlt (Nat.le_of_lt (lt_size_of_get? hop))
    omega

/-- What stands for a no-op hands on what stands for its input. -/
theorem resolves_incremented (hc : c.Ordered) {i j : Nat} (h : c.Resolves i j) :
    c.incremented.circuit.Resolves (c.incremented.place i) (c.incremented.place j) := by
  induction h with
  | @here id op hop hnoop =>
    have hpos := op.kind.width_pos
    obtain ⟨new, hnew, hmem⟩ := exists_mem_block hc hop (d := op.kind.width - 1) (by omega)
    rw [← place_eq hop] at hnew
    exact .here hnew ((isNoop_of_mem_block hmem).trans hnoop)
  | @noop id input target op hop hnoop hinputs _ ih =>
    -- a no-op is neither a source nor a sink, so its block is a single copy
    have hsource : op.kind.isSource = false := by
      by_contra h
      rw [OperatorKind.isNoop_of_isSource (Bool.eq_true_of_not_eq_false h)] at hnoop
      cases hnoop
    have hsink : op.kind.isSink = false := by
      by_contra h
      rw [OperatorKind.isNoop_of_isSink (Bool.eq_true_of_not_eq_false h)] at hnoop
      cases hnoop
    have hwidth : op.kind.width = 1 := by simp [OperatorKind.width, hsource, hsink]
    have hnew := get?_block hc hop (d := 0) (by omega)
    rw [block_of_copy hsource hsink, hinputs] at hnew
    rw [place_eq hop, hwidth]
    exact .noop hnew hnoop rfl ih

/-! ### What the sinks need -/

/-- What stands for an operator needs the start of its block, and what stands for its inputs. -/
theorem mem_ancestors_of_place {roots : List OperatorId} (hc : c.Built) (hop : c.get? n = some op)
    (hplace : c.incremented.place n ∈ c.incremented.circuit.ancestors roots) :
    c.blockStart n ∈ c.incremented.circuit.ancestors roots ∧
      ∀ input ∈ op.inputs, c.incremented.place input ∈ c.incremented.circuit.ancestors roots := by
  have hordered := hc.incrementalize_eq.2.ordered
  have hnew := fun d => get?_block hc.ordered hop (d := d)
  rw [place_eq hop] at hplace
  by_cases hsource : op.kind.isSource = true
  · -- behind a source stands its integral, which reads the start of the block
    have hwidth : op.kind.width = 2 := by simp [OperatorKind.width, hsource]
    rw [hwidth] at hplace hnew
    rw [block_of_source hsource] at hnew
    refine ⟨mem_ancestors_of_input hordered (hnew 1 (by omega)) hplace List.mem_cons_self, ?_⟩
    intro input hinput
    rw [hc.source_inputs hop hsource] at hinput
    cases hinput
  · by_cases hsink : op.kind.isSink = true
    · -- in front of a sink stands its differential, which reads for it
      have hwidth : op.kind.width = 2 := by simp [OperatorKind.width, hsink]
      rw [hwidth] at hplace hnew
      rw [block_of_sink hsink] at hnew
      have hstart := mem_ancestors_of_input hordered (hnew 1 (by omega)) hplace List.mem_cons_self
      exact ⟨hstart, fun input hinput => mem_ancestors_of_input hordered (hnew 0 (by omega)) hstart
        (List.mem_map_of_mem hinput)⟩
    · rw [Bool.not_eq_true] at hsource hsink
      have hwidth : op.kind.width = 1 := by simp [OperatorKind.width, hsource, hsink]
      rw [hwidth] at hplace hnew
      rw [block_of_copy hsource hsink] at hnew
      exact ⟨hplace, fun input hinput => mem_ancestors_of_input hordered (hnew 0 (by omega)) hplace
        (List.mem_map_of_mem hinput)⟩

/-- What the old sinks need, the new ones need. -/
theorem place_mem_ancestors (hc : c.Built) (hn : n ∈ c.ancestors c.sinks) :
    c.incremented.place n ∈ c.incremented.circuit.ancestors c.incremented.circuit.sinks := by
  refine ancestors_induction (P := fun n => c.incremented.place n ∈
    c.incremented.circuit.ancestors c.incremented.circuit.sinks) ?_ ?_ hn
  · intro n hroot hlt
    obtain ⟨op, hop, hsink⟩ := exists_of_mem_sinks hroot
    have hwidth : op.kind.width = 2 := by simp [OperatorKind.width, hsink]
    have hnew := get?_block hc.ordered hop (d := 1) (by omega)
    rw [block_of_sink hsink] at hnew
    rw [place_eq hop, hwidth]
    exact mem_ancestors_of_root (mem_sinks hnew hsink) (lt_size_of_get? hnew)
  · intro n op hop hmem input hinput
    exact (mem_ancestors_of_place hc hop hmem).2 input hinput

/-- What the new sinks need is in a block of something that the old ones need. -/
theorem exists_block_of_mem_ancestors (hc : c.Built)
    (hq : q ∈ c.incremented.circuit.ancestors c.incremented.circuit.sinks) :
    ∃ n op d, c.get? n = some op ∧ d < op.kind.width ∧ q = c.blockStart n + d ∧
      n ∈ c.ancestors c.sinks := by
  refine ancestors_induction (P := fun q => ∃ n op d, c.get? n = some op ∧ d < op.kind.width ∧
    q = c.blockStart n + d ∧ n ∈ c.ancestors c.sinks) ?_ ?_ hq
  · -- only an old sink has a sink in its block
    intro q hroot hlt
    obtain ⟨n, op, d, hop, hd, rfl⟩ := exists_block hlt
    obtain ⟨sink, hget, hsink⟩ := exists_of_mem_sinks hroot
    obtain ⟨new, hnew, hmem⟩ := exists_mem_block hc.ordered hop hd
    obtain rfl := Option.some.inj (hget.symm.trans hnew)
    exact ⟨n, op, d, hop, hd, rfl, mem_ancestors_of_root
      (mem_sinks hop (isSink_of_mem_block hmem hsink)) (lt_size_of_get? hop)⟩
  · -- what is read is the start of the same block, or stands for an input
    rintro _ reader hreader ⟨n, op, d, hop, hd, rfl, hn⟩ y hy
    obtain ⟨new, hnew, hmem⟩ := exists_mem_block hc.ordered hop hd
    obtain rfl := Option.some.inj (hreader.symm.trans hnew)
    rcases input_of_mem_block (hc.source_inputs hop) hmem hy with rfl | ⟨input, hinput, rfl⟩
    · exact ⟨n, op, 0, hop, op.kind.width_pos, rfl, hn⟩
    · have hlt : input < c.size := (hc.ordered n op hop input hinput).trans (lt_size_of_get? hop)
      obtain ⟨other, hother⟩ := exists_get?_of_lt hlt
      have hpos := other.kind.width_pos
      exact ⟨input, other, other.kind.width - 1, hother, by omega, place_eq hother,
        mem_ancestors_of_input hc.ordered hop hn hinput⟩

/-- **What the sinks need.** The new sinks need the operators of a block exactly if the old ones
need the old operator. -/
theorem mem_ancestors_block (hc : c.Built) (hop : c.get? n = some op) (hd : d < op.kind.width) :
    c.blockStart n + d ∈ c.incremented.circuit.ancestors c.incremented.circuit.sinks ↔
      n ∈ c.ancestors c.sinks := by
  constructor
  · intro hq
    obtain ⟨m, other, e, hother, he, hsame, hm⟩ := exists_block_of_mem_ancestors hc hq
    exact block_unique hop hd hother he hsame ▸ hm
  · intro hn
    have hplace := place_mem_ancestors hc hn
    have hstart := (mem_ancestors_of_place hc hop hplace).1
    -- a block is its start and what stands for the operator
    have hwidth : op.kind.width = 1 ∨ op.kind.width = 2 := by
      unfold OperatorKind.width
      split <;> omega
    rw [place_eq hop] at hplace
    rcases Nat.eq_zero_or_pos d with rfl | hpos
    · exact hstart
    · have hlast : d = op.kind.width - 1 := by omega
      rw [hlast]
      exact hplace

end Circuit
end DeltaCircuit
