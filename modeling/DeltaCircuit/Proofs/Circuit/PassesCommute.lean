import DeltaCircuit.Proofs.Circuit.Blocks
import DeltaCircuit.Proofs.Circuit.KeptOperators
import DeltaCircuit.Proofs.Circuit.Validity

/-!
# Incrementalization and dead-code removal commute

Whether dead code is removed before or after a circuit is made incremental makes no difference.

Dead-code removal leaves copies of what is kept, and which copies these are is determined
(`Circuit.CopyOf.unique`). So it is enough that the incremental circuit of what is left of a circuit
is made of copies of what is kept of its incremental circuit. What is kept of an incremental circuit
is whole blocks (`Circuit.kept_block`), those of the operators that are kept of the old circuit, in
the same order. The blocks of what is left have the same widths, hence start at the same places
among what is kept (`Circuit.getElem?_kept_block`).

* `Circuit.copyOf_block` — the blocks of a copy are copies of the block of the old operator.
* `Circuit.Built.passes_commute` — the passes commute.
-/

namespace DeltaCircuit.Circuit

variable {c c' : Circuit} {keep origins : List OperatorId} {op copy : Operator} {n m d : Nat}

/-! ### Copies are determined -/

theorem CopyOf.unique {old : Nat} {a b : Operator} (hnodup : origins.Nodup)
    (ha : c.CopyOf origins old a) (hb : c.CopyOf origins old b) : a = b := by
  obtain ⟨op, inputs, hop, rfl, hinputs⟩ := ha
  obtain ⟨op', inputs', hop', rfl, hinputs'⟩ := hb
  obtain rfl := Option.some.inj (hop.symm.trans hop')
  have hunique : Relator.RightUnique fun (input new : Nat) =>
      ∃ i, c.Resolves input i ∧ origins[new]? = some i := by
    rintro input new new' ⟨i, hi, hnew⟩ ⟨j, hj, hnew'⟩
    obtain rfl := hi.unique hj
    exact (List.getElem?_inj (List.getElem?_eq_some_iff.mp hnew).1 hnodup).mp
      (hnew.trans hnew'.symm)
  rw [List.right_unique_forall₂' hunique hinputs hinputs']

/-- Two circuits that are made of copies of the same operators are equal. -/
theorem eq_of_copies {a b : Circuit} (hnodup : origins.Nodup) (hname : a.name = b.name)
    (ha : List.Forall₂ (c.CopyOf origins) origins a.operators)
    (hb : List.Forall₂ (c.CopyOf origins) origins b.operators) : a = b := by
  have hunique : Relator.RightUnique (c.CopyOf origins) := fun _ _ _ => CopyOf.unique hnodup
  have hoperators : a.operators = b.operators := List.right_unique_forall₂' hunique ha hb
  cases a
  cases b
  exact congrArg₂ Circuit.mk hname hoperators

/-! ### What is kept -/

theorem prefix_kept (c : Circuit) (keep : List OperatorId) (h : n ≤ m) :
    c.kept keep n <+: c.kept keep m := by
  obtain ⟨k, rfl⟩ := Nat.exists_eq_add_of_le h
  unfold kept
  rw [List.range_add, List.filter_append]
  exact List.prefix_append _ _

/-- The operators of a circuit that its sinks need and that are no no-ops. -/
def live (c : Circuit) (n : Nat) : List OperatorId := c.kept (c.ancestors c.sinks) n

/-- The place of an operator among what is kept is the number of kept ones in front of it. -/
theorem length_live (hop : c.get? n = some op) (hm : (c.live c.size)[m]? = some n) :
    (c.live n).length = m ∧ c.live (n + 1) = c.live n ++ [n] := by
  have hmem := (mem_kept hop).mp (List.mem_of_getElem? hm)
  -- it is kept itself, so the filter goes on with it
  have hnext : c.live (n + 1) = c.live n ++ [n] := by
    unfold live
    rw [kept_succ hop, if_pos (by simp [hmem.2.1, hmem.2.2])]
  obtain ⟨rest, hrest⟩ := prefix_kept c (c.ancestors c.sinks) (lt_size_of_get? hop)
  -- both the count and the given place point at the operator, and no operator is kept twice
  have hplace : (c.live c.size)[(c.live n).length]? = some n := by
    rw [live, ← hrest, ← live, hnext, List.append_assoc, List.getElem?_append_right le_rfl,
      Nat.sub_self]
    rfl
  exact ⟨(List.getElem?_inj (List.getElem?_eq_some_iff.mp hplace).1 (nodup_kept _ _ _)).mp
    (hplace.trans hm.symm), hnext⟩

/-- **What is kept of an incremental circuit.** The block of an operator is kept as a whole if the
operator is kept, and otherwise nothing of it. -/
theorem kept_block (hc : c.Built) (hop : c.get? n = some op) :
    c.incremented.circuit.live (c.blockStart (n + 1)) =
      c.incremented.circuit.live (c.blockStart n) ++
        if (c.ancestors c.sinks).contains n && !op.kind.isNoop then
          (List.range op.kind.width).map (c.blockStart n + ·)
        else [] := by
  -- the operators of a block are needed together, and none of them is a no-op unless the old one is
  have hfilter : ∀ q ∈ (List.range op.kind.width).map (c.blockStart n + ·),
      ((c.incremented.circuit.ancestors c.incremented.circuit.sinks).contains q &&
        !(c.incremented.circuit.get? q).any (·.kind.isNoop)) =
      ((c.ancestors c.sinks).contains n && !op.kind.isNoop) := by
    intro q hq
    obtain ⟨d, hd, rfl⟩ := List.mem_map.mp hq
    have hlt := List.mem_range.mp hd
    obtain ⟨new, hnew, hmem⟩ := exists_mem_block hc.ordered hop hlt
    have hneeded : (c.incremented.circuit.ancestors c.incremented.circuit.sinks).contains
        (c.blockStart n + d) = (c.ancestors c.sinks).contains n := by
      rw [Bool.eq_iff_iff, List.contains_iff_mem, List.contains_iff_mem]
      exact mem_ancestors_block hc hop hlt
    rw [hneeded, hnew, Option.any_some, isNoop_of_mem_block hmem]
  unfold live kept
  rw [blockStart_succ hop, List.range_add, List.filter_append, List.filter_congr hfilter]
  split
  · next h => simp only [h, List.filter_true]
  · next h => simp only [Bool.not_eq_true _ ▸ h, List.filter_false]

/-! ### What is left -/

section Left

variable (hc : c.Built) (hcopies : List.Forall₂ (c.CopyOf (c.live c.size)) (c.live c.size)
  c'.operators)

include hc hcopies

/-- The blocks of what is left start where the blocks of what is kept do. -/
theorem length_live_blockStart (hn : n ≤ c.size) :
    (c.incremented.circuit.live (c.blockStart n)).length = c'.blockStart (c.live n).length := by
  induction n with
  | zero => rfl
  | succ n ih =>
    obtain ⟨op, hop⟩ := exists_get?_of_lt hn
    replace ih := ih (Nat.le_of_lt hn)
    rw [kept_block hc hop, List.length_append, ih]
    by_cases hkept : ((c.ancestors c.sinks).contains n && !op.kind.isNoop) = true
    · -- kept: one more copy, whose block is as wide
      have hmem : n ∈ c.live c.size := by
        rw [Bool.and_eq_true, Bool.not_eq_true', List.contains_iff_mem] at hkept
        exact (mem_kept hop).mpr ⟨hn, hkept⟩
      obtain ⟨m, hm⟩ := List.mem_iff_getElem?.mp hmem
      obtain ⟨hlength, hnext⟩ := length_live hop hm
      obtain ⟨inputs, hcopy, -⟩ := exists_copy hcopies hm hop
      rw [if_pos hkept, hnext, List.length_append, hlength, List.length_map, List.length_range,
        List.length_singleton, blockStart_succ hcopy]
      rfl
    · -- dropped: neither side gets longer
      have hsame : c.live (n + 1) = c.live n := by
        unfold live
        rw [kept_succ hop, if_neg hkept, List.append_nil]
      rw [if_neg hkept, hsame]
      rfl

/-- **Corresponding places.** Among what is kept of the incremental circuit, the block of an
operator is where the block of its copy is. -/
theorem getElem?_kept_block (hop : c.get? n = some op) (hm : (c.live c.size)[m]? = some n)
    (hd : d < op.kind.width) :
    (c.incremented.circuit.live c.incremented.circuit.size)[c'.blockStart m + d]? =
      some (c.blockStart n + d) := by
  obtain ⟨hlength, -⟩ := length_live hop hm
  have hlt := lt_size_of_get? hop
  have hmem := (mem_kept hop).mp (List.mem_of_getElem? hm)
  have hend : c.blockStart (n + 1) ≤ c.incremented.circuit.size := by
    rw [← blockStart_size]
    exact blockStart_le hlt le_rfl
  -- what is kept up to the end of the block is a prefix of all that is kept
  obtain ⟨rest, hrest⟩ := prefix_kept c.incremented.circuit
    (c.incremented.circuit.ancestors c.incremented.circuit.sinks) hend
  have hstart := length_live_blockStart hc hcopies (Nat.le_of_lt hlt)
  rw [hlength] at hstart
  rw [live, ← hrest, ← live, kept_block hc hop, if_pos (by simp [hmem.2.1, hmem.2.2]), ← hstart,
    List.append_assoc, List.getElem?_append_right (Nat.le_add_right _ _), Nat.add_sub_cancel_left,
    List.getElem?_append_left (by simpa using hd), List.getElem?_map, List.getElem?_range hd]
  rfl

/-- What stands for what an input resolves to is kept, where what stands for the new input is. -/
theorem resolves_place {inputs news : List OperatorId}
    (h : List.Forall₂ (fun input new => ∃ i, c.Resolves input i ∧ (c.live c.size)[new]? = some i)
      inputs news) :
    List.Forall₂ (fun input new => ∃ i, c.incremented.circuit.Resolves input i ∧
        (c.incremented.circuit.live c.incremented.circuit.size)[new]? = some i)
      (inputs.map c.incremented.place) (news.map c'.incremented.place) := by
  rw [List.forall₂_map_left_iff, List.forall₂_map_right_iff]
  -- an input that stands for a block stands for its last operator
  refine h.imp fun input new hnew => ?_
  obtain ⟨i, hi, hplace⟩ := hnew
  obtain ⟨target, htarget, -⟩ := hi.isNoop_eq_false
  obtain ⟨news', hcopy, -⟩ := exists_copy hcopies hplace htarget
  have hpos := target.kind.width_pos
  have hwidth : (target.withInputs news').kind.width = target.kind.width := rfl
  refine ⟨_, resolves_incremented hc.ordered hi, ?_⟩
  rw [place_eq hcopy, place_eq htarget, hwidth]
  exact getElem?_kept_block hc hcopies htarget hplace (by omega)

/-- **Copies of blocks.** What the copy of an operator becomes is a copy of what the operator
becomes. -/
theorem copyOf_block (hop : c.get? n = some op) (hm : (c.live c.size)[m]? = some n)
    (hcopy : c'.get? m = some copy) (hd : d < op.kind.width) {new : Operator}
    (hnew : (block (c'.blockStart m) c'.incremented.place copy)[d]? = some new) :
    c.incremented.circuit.CopyOf (c.incremented.circuit.live c.incremented.circuit.size)
      (c.blockStart n + d) new := by
  obtain ⟨inputs, hcopy', hinputs⟩ := exists_copy hcopies hm hop
  obtain rfl := Option.some.inj (hcopy.symm.trans hcopy')
  have hold := get?_block hc.ordered hop hd
  have hnoop := ((mem_kept hop).mp (List.mem_of_getElem? hm)).2.2
  -- the second operator of a block reads the first
  have hstart : ∃ i, c.incremented.circuit.Resolves (c.blockStart n) i ∧
      (c.incremented.circuit.live c.incremented.circuit.size)[c'.blockStart m]? = some i := by
    obtain ⟨first, hfirst, hmem⟩ := exists_mem_block hc.ordered hop op.kind.width_pos
    exact ⟨_, .here hfirst ((isNoop_of_mem_block hmem).trans hnoop),
      getElem?_kept_block hc hcopies hop hm op.kind.width_pos⟩
  -- a source becomes itself and an integral, a sink a differential and itself, and all else itself
  by_cases hsource : op.kind.isSource = true
  · have hnone := hc.source_inputs hop hsource
    rw [hnone] at hinputs
    cases hinputs
    have hblock : block (c'.blockStart m) c'.incremented.place (op.withInputs []) = _ :=
      block_of_source hsource
    rw [hblock] at hnew
    rw [block_of_source hsource] at hold
    match d, hold, hnew with
    | 0, hold, hnew =>
      obtain rfl := Option.some.inj hnew
      refine ⟨op, [], hold, rfl, ?_⟩
      rw [hnone]
      -- the source reads nothing
      exact .nil
    | 1, hold, hnew =>
      obtain rfl := Option.some.inj hnew
      exact ⟨_, [c'.blockStart m], hold, rfl, .cons hstart .nil⟩
  · by_cases hsink : op.kind.isSink = true
    · have hblock : block (c'.blockStart m) c'.incremented.place (op.withInputs inputs) = _ :=
        block_of_sink hsink
      rw [hblock] at hnew
      rw [block_of_sink hsink] at hold
      match d, hold, hnew with
      | 0, hold, hnew =>
        obtain rfl := Option.some.inj hnew
        -- the differential reads what stands for the input of the sink
        exact ⟨_, inputs.map c'.incremented.place, hold, rfl, resolves_place hc hcopies hinputs⟩
      | 1, hold, hnew =>
        obtain rfl := Option.some.inj hnew
        exact ⟨_, [c'.blockStart m], hold, rfl, .cons hstart .nil⟩
    · rw [Bool.not_eq_true] at hsource hsink
      have hblock : block (c'.blockStart m) c'.incremented.place (op.withInputs inputs) = _ :=
        block_of_copy hsource hsink
      rw [hblock] at hnew
      rw [block_of_copy hsource hsink] at hold
      match d, hold, hnew with
      | 0, hold, hnew =>
        obtain rfl := Option.some.inj hnew
        -- an operator in between reads what stands for its inputs
        exact ⟨_, inputs.map c'.incremented.place, hold, rfl, resolves_place hc hcopies hinputs⟩

/-- The incremental circuit of what is left is made of copies of what is kept of the incremental
circuit. -/
theorem copies_incremented (hc' : c'.Built) :
    List.Forall₂
      (c.incremented.circuit.CopyOf (c.incremented.circuit.live c.incremented.circuit.size))
      (c.incremented.circuit.live c.incremented.circuit.size) c'.incremented.circuit.operators := by
  have hlength : (c.incremented.circuit.live c.incremented.circuit.size).length =
      c'.incremented.circuit.size := by
    have hall := length_live_blockStart hc hcopies (le_refl c.size)
    have hsize : (c.live c.size).length = c'.size := hcopies.length_eq
    rwa [blockStart_size, hsize, blockStart_size] at hall
  refine List.forall₂_iff_get.mpr ⟨hlength, fun q hq hq' => ?_⟩
  obtain ⟨m, copy, d, hcopy, hd, rfl⟩ := exists_block (c := c') hq'
  -- the operator that has been copied
  obtain ⟨n, hm⟩ : ∃ n, (c.live c.size)[m]? = some n := by
    have hlt : m < (c.live c.size).length := hcopies.length_eq ▸ lt_size_of_get? hcopy
    exact ⟨_, List.getElem?_eq_getElem hlt⟩
  obtain ⟨op, hop⟩ := exists_get?_of_lt (lt_of_getElem?_kept hm)
  obtain ⟨inputs, hcopy', -⟩ := exists_copy hcopies hm hop
  have hwidth : copy.kind.width = op.kind.width := by
    rw [Option.some.inj (hcopy.symm.trans hcopy')]
    rfl
  have hplace := getElem?_kept_block hc hcopies hop hm (hwidth ▸ hd)
  have hnew := get?_block hc'.ordered hcopy hd
  rw [get?, List.getElem?_eq_getElem hq'] at hnew
  rw [List.getElem?_eq_getElem hq, Option.some.injEq] at hplace
  rw [List.get_eq_getElem, List.get_eq_getElem, hplace]
  exact copyOf_block hc hcopies hop hm hcopy (hwidth ▸ hd) hnew.symm

end Left

/-! ### The passes -/

/-- **The passes commute.** On every circuit that has been built, whether dead code is removed from
the incremental circuit or the circuit without dead code is made incremental: both go through, and
they give the same circuit. -/
theorem Built.passes_commute (hc : c.Built) :
    ∃ c', (c.incrementalize >>= Circuit.removeDeadCode) = .ok c' ∧
      (c.removeDeadCode >>= Circuit.incrementalize) = .ok c' := by
  obtain ⟨hincrementalize, hinc⟩ := hc.incrementalize_eq
  obtain ⟨left, hremove, hleft, hname, hcopies⟩ :=
    hc.removeOperators (supports_ancestors hc.ordered c.sinks)
  obtain ⟨hincrementalize', -⟩ := hleft.incrementalize_eq
  obtain ⟨left', hremove', -, hname', hcopies'⟩ :=
    hinc.removeOperators (supports_ancestors hinc.ordered c.incremented.circuit.sinks)
  -- both circuits hold copies of the same operators of the incremental circuit, in the same order
  have hsame : left.incremented.circuit = left' := by
    refine eq_of_copies (nodup_kept _ _ _) ?_ (copies_incremented hc hcopies hleft) hcopies'
    rw [name_incremented, hname, hname', name_incremented]
  refine ⟨left', ?_, ?_⟩
  · rw [hincrementalize]
    exact hremove'
  · rw [← hsame]
    exact Except.bind_eq_ok.mpr ⟨left, hremove, hincrementalize'⟩

/-- A table without readers, and a view of another one that is read through no-ops. -/
def watchedView : Circuit :=
  (((((((empty "views").push ⟨.source "t" .bool, [], none, .zset .bool, true⟩).push
    ⟨.noop, [0], none, .zset .bool, true⟩).push
    ⟨.source "u" .bool, [], none, .zset .bool, true⟩).push
    ⟨.sink "v" "" none, [1], none, .zset .bool, true⟩).push
    ⟨.noop, [3], none, .zset .bool, true⟩).push
    ⟨.negate, [4], none, .zset .bool, true⟩).push
    ⟨.sink "w" "" none, [5], none, .zset .bool, true⟩

theorem built_watchedView : watchedView.Built :=
  .push (.push (.push (.push (.push (.push (.push (.empty _) rfl) rfl) rfl) rfl) rfl) rfl) rfl

/-- Both ways the table without readers and the no-ops are gone, and what read the view through a
no-op reads it directly. -/
theorem passes_commute_watchedView :
    ∃ c', (watchedView.incrementalize >>= Circuit.removeDeadCode) = .ok c' ∧
      (watchedView.removeDeadCode >>= Circuit.incrementalize) = .ok c' ∧
      c'.operators.map (·.inputs) = [[], [0], [1], [2], [3], [4], [5]] := by
  obtain ⟨c', hfirst, hsecond⟩ := Built.passes_commute built_watchedView
  refine ⟨c', hfirst, hsecond, ?_⟩
  have hinputs : (watchedView.removeDeadCode >>= Circuit.incrementalize).toOption.map
      (fun c => c.operators.map (·.inputs)) = some [[], [0], [1], [2], [3], [4], [5]] := by
    decide +kernel
  rw [hsecond] at hinputs
  exact Option.some.inj hinputs

end DeltaCircuit.Circuit
