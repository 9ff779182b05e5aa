import DeltaCircuit.Proofs.Circuit.Changes

/-!
# Streams over time

The trace of a run by columns: the outputs of one operator, step by step. An operator without a
state makes its stream one step at a time. Integrals and differentials are told by equations between
whole streams, in which no state is left.

* `Circuit.stream` — the output of an operator at a step; `Circuit.streamWeight` gives its weights.
* `Circuit.Traces.outputAfter`, `Circuit.slot_eq` — what an operator gives and reads.
* `Circuit.Traces.weightAt_sinkOutputs`, `Circuit.Traces.names_eq` — what a run reports.
* `Circuit.Traces.stream_pass` — no-ops and sinks hand on what they read.
* `Circuit.Traces.streamWeight_integral`, `Circuit.Traces.streamWeight_differential` — running sums
  and differences.
-/

namespace DeltaCircuit

namespace Circuit

/-- The output of an operator at a step. -/
def stream (rows : List Row) (id : OperatorId) (k : Nat) : ZSet :=
  (((rows[k]?).getD [])[id]?).getD []

theorem weight_stream (rows : List Row) (id : OperatorId) (v : Value) (k : Nat) :
    (stream rows id k).weight v = streamWeight rows id v k := rfl

/-- The weight of a value at the step before. Before the first step it is zero. -/
def streamWeightBefore (rows : List Row) (id : OperatorId) (v : Value) : Nat → Int
  | 0 => 0
  | k + 1 => streamWeight rows id v k

theorem stream_eq {rows : List Row} {k : Nat} (hk : k < rows.length) {id : Nat} {z : ZSet}
    (hz : rows[k][id]? = some z) : stream rows id k = z := by
  rw [stream, List.getElem?_eq_getElem hk, Option.getD_some, hz, Option.getD_some]

variable {c : Circuit} {inputs : List Tables} {rows : List Row} {op : Operator} {id input k : Nat}

/-- Beyond the end of a run there is nothing. -/
theorem stream_of_le (hk : rows.length ≤ k) : stream rows id k = [] := by
  rw [stream, List.getElem?_eq_none hk]
  rfl

/-- An operator gives what follows from the rows before. -/
theorem Traces.outputAfter (h : c.Traces [] inputs rows) (hop : c.get? id = some op)
    (hk : k < rows.length) :
    ∃ tables, inputs[k]? = some tables ∧ rows[k][id]? = some (stream rows id k) ∧
      op.outputAfter (rows.take k) ⟨rows[k], tables⟩ id = .ok (stream rows id k) := by
  have hlt : k < inputs.length := h.length_eq ▸ hk
  have hemits := h.emits (List.getElem?_eq_getElem hlt) (List.getElem?_eq_getElem hk)
  obtain ⟨z, hz, hout⟩ := hemits.getElem? hop
  obtain rfl := stream_eq hk hz
  exact ⟨inputs[k], List.getElem?_eq_getElem hlt, hz, hout⟩

/-- The stream of an operator without a state is what the operator makes of the row. -/
theorem Traces.makes (h : c.Traces [] inputs rows) (hop : c.get? id = some op)
    (hintegral : op.kind ≠ .integral) (hdifferential : op.kind ≠ .differential)
    (hk : k < rows.length) :
    ∃ tables, op.Makes ⟨rows[k], tables⟩ op.kind (stream rows id k) := by
  obtain ⟨tables, -, -, hout⟩ := h.outputAfter hop hk
  exact ⟨tables, (Operator.outputAfter_eq_ok hintegral hdifferential).mp hout⟩

/-- What an operator reads is the stream of the operator that it reads. -/
theorem slot_eq {n : Nat} (hinput : op.inputs[n]? = some input) (hk : k < rows.length) {z : ZSet}
    (hz : op.slot rows[k] n = some z) : z = stream rows input k := by
  rw [Operator.slot, hinput, Option.bind_some] at hz
  exact (stream_eq hk hz).symm

/-- What an operator has read first is the beginning of a stream. -/
theorem history_take (hinput : op.inputs[0]? = some input) (hk : k ≤ rows.length) :
    op.history (rows.take k) = (List.range k).map (stream rows input) := by
  induction k with
  | zero => rfl
  | succ k ih =>
    have hlt : k < rows.length := hk
    rw [List.take_succ_eq_append_getElem hlt, Operator.history_concat, ih (Nat.le_of_lt hlt),
      List.range_succ, List.map_append, List.map_singleton, Operator.slot, hinput,
      Option.bind_some, stream, List.getElem?_eq_getElem hlt, Option.getD_some]

/-- **Streams of maps.** If the tables of all steps are maps, so is every stream. -/
theorem Traces.distinct (h : c.Traces [] inputs rows) (hc : c.Ordered)
    (htables : ∀ tables ∈ inputs, ∀ table ∈ c.tables, (tables.contents table).Distinct)
    (id k : Nat) : (stream rows id k).Distinct := by
  unfold stream
  cases hrow : rows[k]? with
  | none => exact Weighted.distinct_nil
  | some row =>
    cases hz : row[id]? with
    | none =>
      rw [Option.getD_some, hz]
      exact Weighted.distinct_nil
    | some z =>
      rw [Option.getD_some, hz, Option.getD_some]
      have hlt : k < inputs.length := h.length_eq ▸ (List.getElem?_eq_some_iff.mp hrow).1
      have hgiven : inputs[k]? = some inputs[k] := List.getElem?_eq_getElem hlt
      refine (h.emits hgiven hrow).distinct hc (fun op hop table htable => ?_) hz
      exact htables _ (List.mem_of_getElem? hgiven) table
        (List.mem_filterMap.mpr ⟨op, hop, htable⟩)

/-! ### Outputs of the sinks -/

/-- The weights of an output are those in the stream of the last sink of its name. -/
theorem Traces.weightAt_sinkOutputs (h : c.Traces [] inputs rows) (name : String) (v : Value)
    (k : Nat) : weightAt (rows.map c.sinkOutputs) name v k =
      match c.reporters.reverse.find? fun reporter => reporter.1 = name with
      | none => 0
      | some reporter => streamWeight rows reporter.2 v k := by
  rw [weightAt_of_items (List.map_id c.reporters).symm h.length_of_mem]
  cases c.reporters.reverse.find? fun reporter => decide (reporter.1 = name) <;> rfl

/-- Runs of the same length report the same names. -/
theorem Traces.names_eq {inputs' : List Tables} {rows' : List Row} (h : c.Traces [] inputs rows)
    (h' : c.Traces [] inputs' rows') (hlength : inputs.length = inputs'.length) :
    (rows.map c.sinkOutputs).map (·.map Prod.fst) =
      (rows'.map c.sinkOutputs).map (·.map Prod.fst) := by
  have hnames {inputs : List Tables} {rows : List Row} (h : c.Traces [] inputs rows) :
      (rows.map c.sinkOutputs).map (·.map Prod.fst) = List.replicate inputs.length (Assoc.setAll
        (c.reporters.map fun reporter => (reporter.1, ([] : ZSet))) |>.map Prod.fst) := by
    rw [← h.length_eq, List.map_map]
    refine List.eq_replicate_iff.mpr ⟨by rw [List.length_map], fun names hmem => ?_⟩
    obtain ⟨row, hrow, rfl⟩ := List.mem_map.mp hmem
    rw [Function.comp_apply,
      sinkOutputs_of_items (List.map_id c.reporters).symm (h.length_of_mem row hrow)]
    exact Assoc.keys_setAll _ _ _ _
  rw [hnames h, hnames h', hlength]

section OneInput

variable (h : c.Traces [] inputs rows) (hop : c.get? id = some op)
  (hinput : op.inputs[0]? = some input)

include h hop hinput

/-- Relays start from the stream that they read. -/
theorem Traces.relay (hkind : op.kind.isRelay = true) (hk : k < rows.length) :
    ∃ tables, op.statelessOutput ⟨rows[k], tables⟩ id = .ok (stream rows input k) ∧
      op.outputAfter (rows.take k) ⟨rows[k], tables⟩ id = .ok (stream rows id k) := by
  obtain ⟨tables, -, -, hout⟩ := h.outputAfter hop hk
  obtain ⟨x, hx, -⟩ := Except.bind_eq_ok.mp hout
  obtain rfl := slot_eq hinput hk (Operator.slot_of_statelessOutput hkind hx)
  exact ⟨tables, hx, hout⟩

/-- **Passing on.** No-ops and sinks give what they read. -/
theorem Traces.stream_pass (hkind : op.kind.isNoop = true ∨ op.kind.isSink = true)
    (hk : k < rows.length) : stream rows id k = stream rows input k := by
  have hstateless : op.kind ≠ .integral ∧ op.kind ≠ .differential := by
    constructor <;> intro hcase <;> simp [hcase, OperatorKind.isNoop, OperatorKind.isSink] at hkind
  obtain ⟨tables, hmade⟩ := h.makes hop hstateless.1 hstateless.2 hk
  generalize op.kind = kind at hmade hkind
  generalize stream rows id k = out at hmade ⊢
  cases hmade with
  | noop hx | sink hx => exact slot_eq hinput hk hx
  | _ => simp [OperatorKind.isNoop, OperatorKind.isSink] at hkind

/-- An integral gives the sum of the stream so far. -/
theorem Traces.stream_integral (hkind : op.kind = .integral) (hk : k < rows.length) :
    ZSet.accumulate ((List.range (k + 1)).map (stream rows input)) = .ok (stream rows id k) := by
  obtain ⟨tables, hx, hout⟩ := h.relay hop hinput (by rw [hkind]; rfl) hk
  unfold Operator.outputAfter at hout
  rw [hx, Except.ok_bind, history_take hinput (Nat.le_of_lt hk)] at hout
  simp only [hkind] at hout
  -- the stream so far is summed up first, and the output of the step is merged into that
  rw [List.range_succ, List.map_append, List.map_singleton, ZSet.accumulate_concat]
  exact hout

/-- A differential first gives what it reads. -/
theorem Traces.stream_differential_zero (hkind : op.kind = .differential) (hk : 0 < rows.length) :
    stream rows id 0 = stream rows input 0 := by
  obtain ⟨tables, hx, hout⟩ := h.relay hop hinput (by rw [hkind]; rfl) hk
  unfold Operator.outputAfter at hout
  rw [hx, Except.ok_bind, history_take hinput (Nat.zero_le _)] at hout
  simp only [hkind] at hout
  exact (Except.pure_eq_ok.mp hout).symm

/-- Later on, a differential gives the difference from the step before. -/
theorem Traces.stream_differential_succ (hkind : op.kind = .differential)
    (hk : k + 1 < rows.length) :
    (stream rows input (k + 1)).merge (stream rows input k) (-1) =
      .ok (stream rows id (k + 1)) := by
  obtain ⟨tables, hx, hout⟩ := h.relay hop hinput (by rw [hkind]; rfl) hk
  unfold Operator.outputAfter at hout
  rw [hx, Except.ok_bind, history_take hinput (Nat.le_of_lt hk)] at hout
  simp only [hkind, List.range_succ, List.map_append, List.map_singleton,
    List.getLast?_concat] at hout
  exact hout

/-- **Running sums.** The weights behind an integral are the sums of those in front of it. -/
theorem Traces.streamWeight_integral (hkind : op.kind = .integral) (hk : k < rows.length)
    (hd : ∀ i, (stream rows input i).Distinct) (v : Value) :
    streamWeight rows id v k = ((List.range (k + 1)).map (streamWeight rows input v)).sum := by
  rw [← weight_stream, ZSet.weight_of_accumulate (fun z hz => ?_)
    (h.stream_integral hop hinput hkind hk) v, List.map_map]
  · rfl
  · obtain ⟨i, -, rfl⟩ := List.mem_map.mp hz
    exact hd i

/-- **Differences.** The weights behind a differential are the differences of those in front of
it. -/
theorem Traces.streamWeight_differential (hkind : op.kind = .differential) (hk : k < rows.length)
    (hd : ∀ i, (stream rows input i).Distinct) (v : Value) :
    streamWeight rows id v k = streamWeight rows input v k - streamWeightBefore rows input v k := by
  cases k with
  | zero =>
    rw [← weight_stream, h.stream_differential_zero hop hinput hkind hk, streamWeightBefore,
      Int.sub_zero, weight_stream]
  | succ k =>
    have hmerge := h.stream_differential_succ hop hinput hkind hk
    rw [← weight_stream, ZSet.weight_of_merge (hd (k + 1)) (hd k) hmerge v, weight_stream,
      weight_stream, streamWeightBefore]
    ring

end OneInput

end Circuit
end DeltaCircuit
