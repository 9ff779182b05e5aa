import DeltaCircuit.Proofs.Circuit.Invariant
import DeltaCircuit.Proofs.Circuit.RemoveOperators

/-!
# Streams without zero weights

A value whose weight is zero is not stored: a sum that comes out as zero takes the value out. As
long as the tables have no zero weights either, there are none on any stream and none in the state,
whatever the steps before have done and wherever one of them has failed. This is what the tests for
emptiness and for equality rest on, which look at the entries and not at the weight function.

* `ZSet.Normal` — Z-sets as they are stored, by `ZSet.invariant_normal` a property that sums keep.
* `Circuit.normal_streams` — the streams and the state of a circuit are such Z-sets, and these are
  equal as maps iff they have the same weights.
-/

namespace DeltaCircuit

/-- A Z-set as it is stored: no value twice, no weight zero, and every weight fits. -/
abbrev ZSet.Normal (z : ZSet) : Prop := Weighted.Normal Value.same z

theorem ZSet.invariant_normal : Invariant Normal where
  nil := ⟨Weighted.distinct_nil, nofun, nofun⟩
  add h hadd := h.add? (add_eq_ok.mp hadd)
  put {z} v h := by
    -- an entry is an old one or has the weight one
    refine ⟨h.distinct.put v 1, fun entry hentry => ?_, fun entry hentry => ?_⟩
    · rcases Weighted.mem_or_eq_of_mem_put hentry with hold | hone
      · exact h.nonzero entry hold
      · rw [hone]
        decide
    · rcases Weighted.mem_or_eq_of_mem_put hentry with hold | hone
      · exact h.fits entry hold
      · rw [hone]
        decide

namespace Circuit

/-- **No zero weight is stored.** After any number of steps on tables without zero weights, failed
ones included, nothing that a circuit keeps has a zero weight. Neither has, in one step more, any
stream up to any operator, be it that the step fails at a later one, nor an output of a sink. Such
Z-sets are equal as maps iff they have the same weight function. -/
theorem normal_streams (c : Circuit) {inputs : List Tables} {tables : Tables}
    (hinputs : ∀ tables ∈ inputs, ∀ given ∈ tables, given.2.Normal)
    (htables : ∀ given ∈ tables, given.2.Normal) :
    (c.stateAfter inputs).All ZSet.Normal ∧
      (∀ n row, (runOperators tables (c.numbered.take n) [] (c.stateAfter inputs)).1 = .ok row →
        ∀ z ∈ row, z.Normal) ∧
      (∀ outs, (c.step tables (c.stateAfter inputs)).1 = .ok outs →
        ∀ out ∈ outs, out.2.Normal) ∧
      ∀ y z : ZSet, y.Normal → z.Normal →
        (Weighted.SameMap Value.same y z ↔ ∀ v, y.weight v = z.weight v) := by
  have hstate := ZSet.invariant_normal.stateAfter c hinputs
  have hstreams (n : Nat) := ZSet.invariant_normal.runOperators htables (c.numbered.take n)
    (List.forall_mem_nil _) hstate
  exact ⟨hstate, fun n => (hstreams n).1, (ZSet.invariant_normal.step c htables hstate).1,
    fun y z hy hz => hy.sameMap_iff Value.same_equivalence hz⟩

/-- Two weights, of which the second can be added to nothing positive. -/
def nearlyFull : ZSet := [(.bool false, 1), (.bool true, 2 ^ 63 - 1)]

/-- A sum that fails at the second value has the first one merged already. -/
theorem normal_streams_nearlyFull : nearlyFull.Normal ∧
    (runningSum.step [("t", nearlyFull)] (runningSum.stateAfter [[("t", nearlyFull)]])).1 =
      .error .weightOverflow ∧
    (runningSum.stateAfter [[("t", nearlyFull)], [("t", nearlyFull)]]).integrals =
      [(3, [(.bool false, 2), (.bool true, 2 ^ 63 - 1)])] ∧
    (runningSum.stateAfter [[("t", nearlyFull)], [("t", nearlyFull)]]).All ZSet.Normal := by
  have hnormal : nearlyFull.Normal :=
    ⟨by unfold nearlyFull Weighted.Distinct; decide, by unfold nearlyFull; decide,
      by unfold nearlyFull; decide⟩
  have hgiven : ∀ given ∈ [("t", nearlyFull)], given.2.Normal :=
    List.forall_mem_singleton.mpr hnormal
  have hinputs : ∀ tables ∈ [[("t", nearlyFull)], [("t", nearlyFull)]],
      ∀ given ∈ tables, given.2.Normal :=
    List.forall_mem_cons.mpr ⟨hgiven, List.forall_mem_singleton.mpr hgiven⟩
  exact ⟨hnormal, rfl, rfl, (normal_streams runningSum hinputs hgiven).1⟩

end Circuit
end DeltaCircuit
