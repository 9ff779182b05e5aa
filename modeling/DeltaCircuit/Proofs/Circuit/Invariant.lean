import DeltaCircuit.Proofs.Circuit.Trace

/-!
# What sums keep

Operators build their outputs in many ways, and all of them come down to two: a weight is added to
that of a value, or, by `distinct`, a value is put in with the weight one. A property that survives
both, and that the empty Z-set has, is therefore one of all streams. It also is one of the state
between steps, even where a step fails: what an integral has merged up to then was added entry by
entry.

* `ZSet.Invariant` — such properties.
* `Invariant.statelessOutput`, `Invariant.outputAfter`, `Invariant.output` — one operator.
* `Invariant.emits` — the rows of a trace.
* `Invariant.runOperators`, `Invariant.step` — a step, whether it succeeds or fails.
* `Circuit.stateAfter`, `Invariant.stateAfter` — any number of steps.
-/

namespace DeltaCircuit

/-- A property of the empty Z-set that is kept where a weight is added or a value is put in once. -/
structure ZSet.Invariant (P : ZSet → Prop) : Prop where
  nil : P []
  add {z out : ZSet} {v : Value} {w : Int} : P z → z.add v w = .ok out → P out
  put {z : ZSet} (v : Value) : P z → P (z.put v 1)

/-- All Z-sets that are kept between steps have a property. -/
structure RunState.All (P : ZSet → Prop) (state : RunState) : Prop where
  integrals : ∀ kept ∈ state.integrals, P kept.2
  previous : ∀ kept ∈ state.previous, P kept.2

theorem RunState.all_start (P : ZSet → Prop) : RunState.start.All P := ⟨nofun, nofun⟩

/-- The state after a number of steps from the start, of which any may have failed. -/
def Circuit.stateAfter (c : Circuit) (inputs : List Tables) : RunState :=
  inputs.foldl (fun state tables => (c.step tables state).2) .start

namespace ZSet.Invariant

variable {P : ZSet → Prop} {z left right other out : ZSet} {f : Expr}

/-! ### Functions of Z-sets -/

theorem map (hP : Invariant P) (h : z.map f = .ok out) : P out := by
  -- a value goes into the sum or stops the loop
  refine List.foldlM_ok_induction P (fun found entry next hfound hnext => ?_) hP.nil h
  obtain ⟨value, -, hadd⟩ := Except.bind_eq_ok.mp hnext
  exact hP.add hfound hadd

theorem filterBy (hP : Invariant P) (h : z.filterBy f = .ok out) : P out := by
  refine List.foldlM_ok_induction P (fun found entry next hfound hnext => ?_) hP.nil h
  obtain ⟨kept, -, hadd⟩ := Except.bind_eq_ok.mp hnext
  -- an entry that is filtered out leaves the sum alone
  split at hadd
  · exact hP.add hfound hadd
  · exact Except.pure_eq_ok.mp hadd ▸ hfound

theorem index (hP : Invariant P) (h : z.index f = .ok out) : P out := by
  refine List.foldlM_ok_induction P (fun found entry next hfound hnext => ?_) hP.nil h
  obtain ⟨value, -, hnext⟩ := Except.bind_eq_ok.mp hnext
  obtain ⟨pair, -, hadd⟩ := Except.bind_eq_ok.mp hnext
  exact hP.add hfound hadd

theorem aggregate (hP : Invariant P) (h : z.aggregate f = .ok out) : P out := by
  obtain ⟨groups, -, h⟩ := Except.bind_eq_ok.mp h
  refine List.foldlM_ok_induction P (fun found group next hfound hnext => ?_) hP.nil h
  obtain ⟨value, -, hadd⟩ := Except.bind_eq_ok.mp hnext
  exact hP.add hfound hadd

theorem joinOne (hP : Invariant P) {key value : Value} {weight : Int} (hz : P z)
    (h : ZSet.joinOne f key value weight right z = .ok out) : P out := by
  refine List.foldlM_ok_induction P (fun found entry next hfound hnext => ?_) hz h
  obtain ⟨⟨rightKey, other⟩, -, hnext⟩ := Except.bind_eq_ok.mp hnext
  dsimp only at hnext
  -- entries of another key leave the sum alone
  split at hnext
  · obtain ⟨joined, -, hadd⟩ := Except.bind_eq_ok.mp hnext
    split at hadd
    · -- a product of weights that does not fit stops the join
      exact hP.add hfound hadd
    · cases hadd
  · exact Except.pure_eq_ok.mp hnext ▸ hfound

theorem join (hP : Invariant P) (h : left.join right f = .ok out) : P out := by
  refine List.foldlM_ok_induction P (fun found entry next hfound hnext => ?_) hP.nil h
  obtain ⟨pair, -, hjoin⟩ := Except.bind_eq_ok.mp hnext
  exact hP.joinOne hfound hjoin

theorem distinct (hP : Invariant P) (z : ZSet) : P z.distinct := by
  -- only rows of positive weight are put in
  refine List.foldlRecOn z _ hP.nil fun found hfound entry _ => ?_
  obtain ⟨row, weight⟩ := entry
  dsimp only
  split
  · exact hP.put row hfound
  · exact hfound

/-- Where a merge stops, be it at the end or at a weight that does not fit, the property holds. -/
theorem mergeFrom (hP : Invariant P) (hz : P z) (sign : Int) (entries : List (Value × Int)) :
    P (z.mergeFrom sign entries).2 := by
  induction entries generalizing z with
  | nil => exact hz
  | cons entry entries ih =>
    obtain ⟨v, w⟩ := entry
    rw [ZSet.mergeFrom]
    split
    · -- the weight is added or stops the merge, which leaves what has been merged so far
      cases hadd : z.add v (w * sign) with
      | ok next => exact ih (hP.add hz hadd)
      | error e => exact hz
    · exact hz

theorem merge (hP : Invariant P) (hz : P z) {sign : Int} (h : z.merge other sign = .ok out) :
    P out := by
  have hmerged := hP.mergeFrom hz sign other
  rwa [merge_eq_ok.mp h] at hmerged

theorem accumulate (hP : Invariant P) {zs : List ZSet} (h : ZSet.accumulate zs = .ok out) :
    P out :=
  List.foldlM_ok_induction P (fun _ _ _ hsum hmerge => hP.merge hsum hmerge) hP.nil h

theorem contents (hP : Invariant P) {literal : ZSetLiteral} (h : literal.contents = .ok out) :
    P out := by
  refine List.foldlM_ok_induction P (fun found entry next hfound hnext => ?_) hP.nil h
  obtain ⟨value, -, hadd⟩ := Except.bind_eq_ok.mp hnext
  exact hP.add hfound hadd

/-! ### One operator -/

variable {op : Operator} {s : Streams} {id : Nat}

/-- What is stored under a key, and the empty Z-set where nothing is. -/
theorem getD_get? {κ : Type} [DecidableEq κ] (hP : Invariant P) {entries : List (κ × ZSet)}
    (h : ∀ entry ∈ entries, P entry.2) (key : κ) : P ((Assoc.get? entries key).getD []) := by
  cases hget : Assoc.get? entries key with
  | none => exact hP.nil
  | some found => exact h (key, found) (Assoc.mem_of_get? hget)

theorem statelessOutput (hP : Invariant P) (hinputs : ∀ n x, op.slot s.outputs n = some x → P x)
    (htable : ∀ table, op.kind.table? = some table →
      P ((Assoc.get? s.tables table).getD []))
    (h : op.statelessOutput s id = .ok z) : P z := by
  rw [Operator.statelessOutput_eq_ok] at h
  generalize hkind : op.kind = kind at h
  cases h with
  | source => exact htable _ (by rw [hkind]; rfl)
  | constant hz => exact hP.contents hz
  | map _ _ hz => exact hP.map hz
  | filter _ _ hz => exact hP.filterBy hz
  | index _ _ hz => exact hP.index hz
  | aggregate _ _ hz => exact hP.aggregate hz
  | join _ _ _ hz => exact hP.join hz
  | sum _ hz => exact hP.accumulate hz
  | subtract _ _ hz =>
    -- the right input is taken away from a copy of the left one
    obtain ⟨copy, hcopy, hz⟩ := Except.bind_eq_ok.mp hz
    exact hP.merge (hP.merge hP.nil hcopy) hz
  | negate _ hz => exact hP.merge hP.nil hz
  | distinct => exact hP.distinct _
  | integral hx | differential hx | noop hx | sink hx => exact hinputs 0 z hx

theorem outputAfter (hP : Invariant P) {past : List Row}
    (hinputs : ∀ n x, op.slot s.outputs n = some x → P x)
    (htable : ∀ table, op.kind.table? = some table →
      P ((Assoc.get? s.tables table).getD []))
    (h : op.outputAfter past s id = .ok z) : P z := by
  obtain ⟨x, hx, h⟩ := Except.bind_eq_ok.mp h
  have hstateless : P x := hP.statelessOutput hinputs htable hx
  split at h
  · -- an integral merges the output into the sum of those before
    obtain ⟨sum, hsum, hmerge⟩ := Except.bind_eq_ok.mp h
    exact hP.merge (hP.accumulate hsum) hmerge
  · -- a differential takes the output before away, if there is one
    split at h
    · exact Except.pure_eq_ok.mp h ▸ hstateless
    · exact hP.merge hstateless h
  · exact Except.pure_eq_ok.mp h ▸ hstateless

/-! ### Rows -/

/-- If the tables have the property, every operator gives a Z-set that has it. -/
theorem emits (hP : Invariant P) {c : Circuit} {past : List Row} {tables : Tables} {row : Row}
    (hrow : c.Emits past tables row) (hc : c.Ordered)
    (htables : ∀ op ∈ c.operators, ∀ table, op.kind.table? = some table →
      P ((Assoc.get? tables table).getD []))
    (hz : row[id]? = some z) : P z := by
  -- by induction on the place, as an operator reads what stands in front of it
  induction id using Nat.strong_induction_on generalizing z with
  | h id ih =>
    have hlt : id < c.size := hrow.length_eq ▸ (List.getElem?_eq_some_iff.mp hz).1
    obtain ⟨op, hop⟩ := Circuit.exists_get?_of_lt hlt
    have hmem : op ∈ c.operators := List.mem_of_getElem? hop
    refine hP.outputAfter (fun n x hx => ?_) (htables op hmem) (hrow.output id op z hop hz)
    -- what the operator reads stands in front of it
    obtain ⟨input, hinput, hx⟩ := Option.bind_eq_some_iff.mp hx
    exact ih input (hc id op hop input (List.mem_of_getElem? hinput)) hx

/-! ### The state between steps -/

/-- **One operator.** From outputs, tables and a state that have the property, an operator gives an
output that has it, if any, and leaves such a state. -/
theorem output (hP : Invariant P) {state : RunState} (houtputs : ∀ x ∈ s.outputs, P x)
    (htables : ∀ given ∈ s.tables, P given.2) (hstate : state.All P) :
    (∀ x, (op.output s id state).1 = .ok x → P x) ∧ (op.output s id state).2.All P := by
  have hstateless {x : ZSet} (hx : op.statelessOutput s id = .ok x) : P x := by
    refine hP.statelessOutput (fun n y hy => ?_) (fun table _ => hP.getD_get? htables table) hx
    obtain ⟨input, -, hy⟩ := Option.bind_eq_some_iff.mp hy
    exact houtputs y (List.mem_of_getElem? hy)
  -- what is stored replaces what this operator has stored before
  have hset {kept : List (OperatorId × ZSet)} {x : ZSet} (hkept : ∀ k ∈ kept, P k.2) (hx : P x) :
      ∀ k ∈ Assoc.set kept id x, P k.2 := by
    intro k hk
    rcases Assoc.mem_set hk with hold | rfl
    · exact hkept k hold
    · exact hx
  unfold Operator.output
  cases hx : op.statelessOutput s id with
  -- the operator fails before it touches its state
  | error e => exact ⟨nofun, hstate⟩
  | ok x =>
    have hPx : P x := hstateless hx
    cases op.kind with
    | integral =>
      -- the sum is kept as far as it has been merged
      have hsum : P (((Assoc.get? state.integrals id).getD []).mergeFrom 1 x).2 :=
        hP.mergeFrom (hP.getD_get? hstate.integrals id) 1 x
      refine ⟨fun y hy => ?_, hset hstate.integrals hsum, hstate.previous⟩
      obtain ⟨-, -, rfl⟩ := Except.map_eq_ok.mp hy
      exact hsum
    | differential =>
      refine ⟨fun y hy => ?_, hstate.integrals, hset hstate.previous hPx⟩
      dsimp only at hy
      -- without a previous output the change is the whole input
      split at hy
      · exact Except.ok.inj hy ▸ hPx
      · exact hP.merge hPx hy
    | _ => exact ⟨fun y hy => Except.ok.inj hy ▸ hPx, hstate⟩

variable {tables : Tables} {state : RunState}

/-- **Operators in order.** If all of them succeed, the outputs have the property; and the state has
it, also where one of them fails. -/
theorem runOperators (hP : Invariant P) (htables : ∀ given ∈ tables, P given.2)
    (operators : List (OperatorId × Operator)) {outputs : Row} (houtputs : ∀ x ∈ outputs, P x)
    (hstate : state.All P) :
    (∀ row, (runOperators tables operators outputs state).1 = .ok row → ∀ x ∈ row, P x) ∧
      (runOperators tables operators outputs state).2.All P := by
  induction operators generalizing outputs state with
  | nil => exact ⟨fun row hrow => Except.ok.inj hrow ▸ houtputs, hstate⟩
  | cons first rest ih =>
    obtain ⟨id, op⟩ := first
    obtain ⟨hout, hnext⟩ : (∀ z, (op.output ⟨outputs, tables⟩ id state).1 = .ok z → P z) ∧
        (op.output ⟨outputs, tables⟩ id state).2.All P := hP.output houtputs htables hstate
    rw [DeltaCircuit.runOperators]
    split
    · next z next hrun =>
      -- the state is the one after the first operator, with one output more for the rest
      rw [hrun] at hout hnext
      refine ih (fun x hx => ?_) hnext
      rcases List.mem_append.mp hx with hold | hnew
      · exact houtputs x hold
      · exact List.mem_singleton.mp hnew ▸ hout z rfl
    · next e next hrun =>
      -- the operators behind the failing one do not run
      rw [hrun] at hnext
      exact ⟨fun _ hout => absurd hout (by simp), hnext⟩

/-- The outputs of a step are outputs of operators. -/
theorem sinkOutputs (c : Circuit) {outputs : Row} (h : ∀ x ∈ outputs, P x) :
    ∀ out ∈ c.sinkOutputs outputs, P out.2 := by
  refine List.foldlRecOn (motive := fun found : Tables => ∀ out ∈ found, P out.2)
    (c.operators.zip outputs) _ (List.forall_mem_nil _) fun found hfound pair hpair out hout => ?_
  obtain ⟨op, z⟩ := pair
  dsimp only at hout
  split at hout
  · rcases Assoc.mem_set hout with hold | rfl
    · exact hfound out hold
    · exact h z (List.of_mem_zip hpair).2
  · exact hfound out hout

/-- **One step.** If it succeeds, the outputs of the sinks have the property; and the state has it,
also where the step fails. -/
theorem step (hP : Invariant P) (c : Circuit) (htables : ∀ given ∈ tables, P given.2)
    (hstate : state.All P) :
    (∀ outs, (c.step tables state).1 = .ok outs → ∀ out ∈ outs, P out.2) ∧
      (c.step tables state).2.All P := by
  obtain ⟨hrow, hnext⟩ := hP.runOperators htables c.numbered (List.forall_mem_nil _) hstate
  unfold Circuit.step
  split
  · next row next hrun =>
    rw [hrun] at hrow hnext
    exact ⟨fun outs houts => Except.ok.inj houts ▸ sinkOutputs c (hrow row rfl), hnext⟩
  · next e next hrun =>
    rw [hrun] at hnext
    exact ⟨fun _ hout => absurd hout (by simp), hnext⟩

/-- **Many steps.** Whether they succeed or fail, the state after them has the property. -/
theorem stateAfter (hP : Invariant P) (c : Circuit) {inputs : List Tables}
    (hinputs : ∀ tables ∈ inputs, ∀ given ∈ tables, P given.2) : (c.stateAfter inputs).All P :=
  List.foldlRecOn inputs _ (RunState.all_start P) fun _ hstate tables htables =>
    (hP.step c (hinputs tables htables) hstate).2

end ZSet.Invariant
end DeltaCircuit
