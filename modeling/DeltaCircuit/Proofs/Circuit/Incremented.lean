import DeltaCircuit.Circuit.Pass.Incrementalize
import DeltaCircuit.Proofs.Circuit.Rewiring

/-!
# The incremental circuit

Incrementalization goes through on every circuit that insertions build, sinks that are read
included, and what it gives can be said operator by operator: a source gets its integral behind it,
a sink its differential in front of it, and everything else is copied.

* `Circuit.Incremented` — the new circuit so far, and the places that stand for old operators.
* `Circuit.incremented` — the incremental circuit.
* `Circuit.Built.incrementalize_eq` — it is what the pass gives.
-/

namespace DeltaCircuit

/-! ### Sources and sinks -/

theorem OperatorKind.sinkName?_of_isSource {kind : OperatorKind} (h : kind.isSource = true) :
    kind.sinkName? = none := by
  cases kind with
  | source _ _ => rfl
  | _ => cases h

theorem OperatorKind.table?_of_isSource {kind : OperatorKind} (h : kind.isSource = false) :
    kind.table? = none := by
  cases kind with
  | source _ _ => cases h
  | _ => rfl

theorem OperatorKind.sinkName?_of_isSink {kind : OperatorKind} (h : kind.isSink = false) :
    kind.sinkName? = none := by
  cases kind with
  | sink _ _ _ => cases h
  | _ => rfl

theorem OperatorKind.exists_sinkName?_of_isSink {kind : OperatorKind} (h : kind.isSink = true) :
    ∃ name, kind.sinkName? = some name := by
  cases kind with
  | sink name _ _ => exact ⟨name, rfl⟩
  | _ => cases h

theorem OperatorKind.isSource_of_isSink {kind : OperatorKind} (h : kind.isSink = true) :
    kind.isSource = false := by
  cases kind with
  | sink _ _ _ => rfl
  | _ => cases h

theorem OperatorKind.table?_of_isSink {kind : OperatorKind} (h : kind.isSink = true) :
    kind.table? = none := by
  cases kind with
  | sink _ _ _ => rfl
  | _ => cases h

theorem OperatorKind.isRelay_of_isSink {kind : OperatorKind} (h : kind.isSink = true) :
    kind.isRelay = true := by
  cases kind with
  | sink _ _ _ => rfl
  | _ => cases h

/-! ### The circuit -/

namespace Circuit

/-- A circuit that is being made incremental, with the places of what stands for old operators. -/
structure Incremented where
  circuit : Circuit
  places : List Nat

/-- The place that stands for an old operator. -/
def Incremented.place (s : Incremented) (i : OperatorId) : OperatorId := s.places.getD i 0

/-- The differential in front of a sink, which reads what the sink read. -/
def Incremented.difference (s : Incremented) (op : Operator) : Operator :=
  ⟨.differential, op.inputs.map s.place, none, op.outputType, op.isMultiset⟩

/-- One operator more. -/
def Incremented.next (s : Incremented) (op : Operator) : Incremented :=
  if op.kind.isSource then
    ⟨(s.circuit.push op).push (relay .integral s.circuit.size op),
      s.places ++ [s.circuit.size + 1]⟩
  else if op.kind.isSink then
    ⟨(s.circuit.push (s.difference op)).push (op.withInputs [s.circuit.size]),
      s.places ++ [s.circuit.size + 1]⟩
  else
    ⟨s.circuit.push (op.withInputs (op.inputs.map s.place)), s.places ++ [s.circuit.size]⟩

/-- The incremental circuit of a circuit. -/
def incremented (c : Circuit) : Incremented :=
  c.operators.foldl Incremented.next ⟨.empty c.name, []⟩

variable {c : Circuit} {op : Operator} {s : Incremented}

theorem incremented_push (c : Circuit) (op : Operator) :
    (c.push op).incremented = c.incremented.next op := by
  simp [incremented, push, List.foldl_append]

theorem Incremented.next_of_source (hsource : op.kind.isSource = true) :
    s.next op = ⟨(s.circuit.push op).push (relay .integral s.circuit.size op),
      s.places ++ [s.circuit.size + 1]⟩ :=
  if_pos hsource

theorem Incremented.next_of_sink (hsink : op.kind.isSink = true) :
    s.next op = ⟨(s.circuit.push (s.difference op)).push (op.withInputs [s.circuit.size]),
      s.places ++ [s.circuit.size + 1]⟩ := by
  unfold next
  rw [if_neg (by simp [OperatorKind.isSource_of_isSink hsink]), if_pos hsink]

theorem Incremented.next_of_copy (hsource : op.kind.isSource = false)
    (hsink : op.kind.isSink = false) :
    s.next op = ⟨s.circuit.push (op.withInputs (op.inputs.map s.place)),
      s.places ++ [s.circuit.size]⟩ := by
  unfold next
  rw [if_neg (by simp [hsource]), if_neg (by simp [hsink])]

theorem Incremented.length_places_next (s : Incremented) (op : Operator) :
    (s.next op).places.length = s.places.length + 1 := by
  unfold next
  split
  · simp
  · split <;> simp

theorem length_places (c : Circuit) : c.incremented.places.length = c.size := by
  induction c using pushRec with
  | empty name => rfl
  | push c op ih => rw [incremented_push, Incremented.length_places_next, ih, size_push]

theorem Incremented.getElem?_places {i : Nat} (h : i < s.places.length) :
    s.places[i]? = some (s.place i) := by
  rw [List.getElem?_eq_getElem h, place, List.getD_eq_getElem?_getD, List.getElem?_eq_getElem h,
    Option.getD_some]

end Circuit

/-! ### The pass -/

namespace Rewiring

open Circuit (Incremented)

variable {c : Circuit} {op : Operator} {n : Nat} {r : Rewiring}

/-- **The invariant of the pass.** The output is the incremental circuit of the front of the old
one, and something stands for every old operator. -/
structure Increments (c : Circuit) (n : Nat) (r : Rewiring) : Prop extends Follows c n r where
  output_eq : r.output = (c.take n).incremented.circuit
  mapped : ∀ i : Nat, i < n → r.mapped? i = (c.take n).incremented.places[i]?

namespace Increments

theorem start (c : Circuit) : Increments c 0 (Rewiring.start c.name false) where
  toFollows := .start c
  output_eq := rfl
  mapped i hi := absurd hi (Nat.not_lt_zero i)

/-- The inputs of the next operator, as the incremental circuit has them. -/
theorem mapped_inputs (hr : Increments c n r) (hc : c.Built) (hop : c.get? n = some op) :
    List.Forall₂ (fun input new => r.mapped? input = some new) op.inputs
      (op.inputs.map (c.take n).incremented.place) := by
  rw [List.forall₂_map_right_iff, List.forall₂_same]
  intro input hinput
  have hlt : input < n := hc.ordered n op hop input hinput
  have hlength : (c.take n).incremented.places.length = n := by
    rw [Circuit.length_places, Circuit.size_take (Nat.le_of_lt (Circuit.lt_size_of_get? hop))]
  rw [hr.mapped input hlt, Incremented.getElem?_places (by rw [hlength]; exact hlt)]

/-- The invariant after an operator, for which the last place stands. -/
theorem next (hr : Increments c n r) (hop : c.get? n = some op) {r' : Rewiring} (place : Nat)
    (hfollows : Follows c (n + 1) r')
    (hnext : (c.take n).incremented.next op =
      ⟨r'.output, (c.take n).incremented.places ++ [place]⟩)
    (hmapped : ∀ i : Nat, r'.mapped? i = if n = i then some place else r.mapped? i) :
    Increments c (n + 1) r' := by
  have hlength : (c.take n).incremented.places.length = n := by
    rw [Circuit.length_places, Circuit.size_take (Nat.le_of_lt (Circuit.lt_size_of_get? hop))]
  refine { toFollows := hfollows, output_eq := ?_, mapped := fun i hi => ?_ }
  · rw [Circuit.take_succ hop, Circuit.incremented_push, hnext]
  · rw [Circuit.take_succ hop, Circuit.incremented_push, hnext, hmapped i]
    split
    · next hni =>
      have hlast : ((c.take n).incremented.places ++ [place])[i]? = some place := by
        rw [← hni]
        exact List.getElem?_concat_eq_some.mpr (.inr ⟨hlength.symm, rfl⟩)
      exact hlast.symm
    · next hni =>
      have hlt : i < n := Nat.lt_of_le_of_ne (Nat.le_of_lt_succ hi) fun h => hni h.symm
      rw [List.getElem?_append_left (by rw [hlength]; exact hlt)]
      exact hr.mapped i hlt

/-- A source is kept and gets an integral behind it. -/
theorem source (hr : Increments c n r) (hc : c.Built) (hop : c.get? n = some op)
    (hsource : op.kind.isSource = true) :
    ∃ r', incrementalizeOperator n op r = (.ok (), r') ∧ Increments c (n + 1) r' := by
  have hinputs : op.inputs = [] := hc.source_inputs hop hsource
  have hsame : op.withInputs [] = op := by
    rw [← hinputs]
    rfl
  have hnil : List.Forall₂ (fun input new => r.mapped? input = some new) op.inputs [] := by
    rw [hinputs]
    exact .nil
  obtain ⟨r₁, hkeep, hout₁, hmapping₁, hr₁⟩ := hr.keep hc hop hnil
  rw [hsame] at hout₁
  have hstart : r₁.output.get? r.output.size = some op := by
    rw [hout₁, Circuit.get?_push_size]
  obtain ⟨r₂, hextend, rfl, hr₂⟩ := hr₁.extend .integral rfl hstart
  have hplace := Circuit.get?_push_size r₁.output (Circuit.relay .integral r.output.size op)
  refine ⟨_, ?_, hr.next hop r₁.output.size
    (hr₂.mapOld rfl (Nat.lt_succ_self n) hop hplace ⟨rfl, rfl⟩) ?_ fun i => ?_⟩
  · unfold incrementalizeOperator
    rw [if_pos hsource, bind_eq hkeep, bind_eq hextend, mapTo_eq rfl]
  · rw [Incremented.next_of_source hsource, ← hr.output_eq, hout₁, Circuit.size_push]
    rfl
  · show Assoc.get? (Assoc.set r₁.mapping n r₁.output.size) i = _
    rw [hmapping₁, Assoc.get?_set, Assoc.get?_set]
    split
    · rfl
    · rfl

/-- What is neither a source nor a sink is kept. -/
theorem copy (hr : Increments c n r) (hc : c.Built) (hop : c.get? n = some op)
    (hsource : op.kind.isSource = false) (hsink : op.kind.isSink = false) :
    ∃ r', incrementalizeOperator n op r = (.ok (), r') ∧ Increments c (n + 1) r' := by
  obtain ⟨r₁, hkeep, hout₁, hmapping₁, hr₁⟩ := hr.keep hc hop (hr.mapped_inputs hc hop)
  refine ⟨r₁, ?_, hr.next hop r.output.size hr₁ ?_ fun i => ?_⟩
  · unfold incrementalizeOperator
    rw [if_neg (by simp [hsource]), if_neg (by simp [hsink]), discard_eq hkeep]
  · rw [Incremented.next_of_copy hsource hsink, ← hr.output_eq, hout₁]
  · rw [Rewiring.mapped?, hmapping₁, Assoc.get?_set]
    rfl

/-- A sink reports the differential of what it read. -/
theorem sink (hr : Increments c n r) (hc : c.Built) (hop : c.get? n = some op)
    (hsink : op.kind.isSink = true) :
    ∃ r', incrementalizeOperator n op r = (.ok (), r') ∧ Increments c (n + 1) r' := by
  have hrelay := OperatorKind.isRelay_of_isSink hsink
  obtain ⟨hfunction, input, other, hinputs, hlt, hother, hlike⟩ := hc.relay hop hrelay
  have hmapped := hr.mapped_inputs hc hop
  rw [hinputs] at hmapped
  obtain _ | ⟨hplace, -⟩ := hmapped
  obtain ⟨old, read, hold, hread, hlike'⟩ := hr.stands input _ hplace
  obtain rfl := Option.some.inj (hother.symm.trans hold)
  -- the differential has the type of what it reads, which is that of the sink
  have hdifference : (c.take n).incremented.difference op =
      Circuit.relay .differential ((c.take n).incremented.place input) read := by
    unfold Incremented.difference Circuit.relay
    rw [hinputs, ← hlike.1, ← hlike.2, hlike'.1, hlike'.2]
    rfl
  obtain ⟨r₁, hextend, rfl, hr₁⟩ := hr.extend .differential rfl hread
  -- the sink behind it
  have hderive : (r.output.push (Circuit.relay .differential
      ((c.take n).incremented.place input) read)).derive op.kind [r.output.size] op.function =
      .ok (op.outputType, op.isMultiset) := by
    have hshown := Circuit.derive_relay hrelay (Circuit.get?_push_size r.output
      (Circuit.relay .differential ((c.take n).incremented.place input) read))
    rw [hfunction, ← hlike.1, ← hlike.2, hlike'.1, hlike'.2]
    exact hshown
  obtain ⟨r₂, hreplace, hout₂, hmapping₂, hr₂⟩ :=
    hr₁.replace hop (op.withInputs [r.output.size]) rfl ⟨rfl, rfl⟩ hderive
  refine ⟨r₂, ?_, hr.next hop (r.output.size + 1) hr₂ ?_ fun i => ?_⟩
  · unfold incrementalizeOperator
    rw [if_neg (by simp [OperatorKind.isSource_of_isSink hsink]), if_pos hsink, get_bind, hinputs,
      List.head?_cons, Option.bind_some, hplace]
    exact (bind_eq hextend).trans (discard_eq hreplace)
  · rw [Incremented.next_of_sink hsink, hdifference, ← hr.output_eq, hout₂]
  · rw [Rewiring.mapped?, hmapping₂, Assoc.get?_set, Circuit.size_push]
    rfl

/-- One operator of the pass. -/
theorem step (hr : Increments c n r) (hc : c.Built) (hop : c.get? n = some op) :
    ∃ r', incrementalizeOperator n op r = (.ok (), r') ∧ Increments c (n + 1) r' := by
  cases hsource : op.kind.isSource with
  | true => exact hr.source hc hop hsource
  | false =>
    cases hsink : op.kind.isSink with
    | true => exact hr.sink hc hop hsink
    | false => exact hr.copy hc hop hsource hsink

end Increments
end Rewiring

namespace Circuit

variable {c : Circuit}

/-- **What the pass gives.** On every circuit that insertions build it goes through and gives the
incremental circuit. -/
theorem Built.incrementalize_eq (hc : c.Built) :
    c.incrementalize = .ok c.incremented.circuit ∧ c.incremented.circuit.Built := by
  obtain ⟨r, hr, hrun⟩ := Rewiring.run_induction (Rewiring.Increments c) (.start c)
    fun n op r hop hr => hr.step hc hop
  have houtput : r.output = c.incremented.circuit := by
    rw [hr.output_eq, take_size]
  rw [← houtput]
  refine ⟨?_, hr.built⟩
  rw [← hr.finish_eq]
  exact hrun

end Circuit
end DeltaCircuit
