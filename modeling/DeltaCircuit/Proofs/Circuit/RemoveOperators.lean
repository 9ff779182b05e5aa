import DeltaCircuit.Circuit.Pass.RemoveOperators
import DeltaCircuit.Proofs.Circuit.Graph
import DeltaCircuit.Proofs.Circuit.Rewiring
import DeltaCircuit.Proofs.Circuit.Trace

/-!
# Removing operators keeps runs

Removing operators renumbers the ones that stay: the new operators are those in
`Circuit.kept`, in their old order, and the new id of an operator is its place in that list. A no-op
has no place of its own; it is read through, down to the operator that it resolves to.

* `Circuit.Resolves` — reading through no-ops.
* `Rewiring.Prunes` — the invariant of the pass: which operators have been copied, and what stands
  for what.
* `Circuit.pick` — the row of the new circuit is a selection from the row of the old one. No-ops
  hand on what they read (`Circuit.Relays`), so nothing that is selected depends on what is left
  out, neither in this step nor, for integrals and differentials, in the steps before.
* `Circuit.Traces.pick`, `Circuit.run_removeDeadCode` — the simulation, and what it means for runs.
-/

namespace DeltaCircuit

theorem OperatorKind.isRelay_of_isNoop {kind : OperatorKind} (h : kind.isNoop = true) :
    kind.isRelay = true := by
  cases kind with
  | noop => rfl
  | _ => cases h

namespace Circuit

variable {c : Circuit} {keep : List OperatorId} {op : Operator} {n i j : Nat}

/-! ### Reading through no-ops -/

/-- From an operator, along no-ops, to one that is no no-op. -/
inductive Resolves (c : Circuit) : Nat → Nat → Prop
  | here {id : Nat} {op : Operator} :
      c.get? id = some op → op.kind.isNoop = false → Resolves c id id
  | noop {id input target : Nat} {op : Operator} :
      c.get? id = some op → op.kind.isNoop = true → op.inputs = [input] →
      Resolves c input target → Resolves c id target

/-- Every operator resolves to one. -/
theorem Built.resolves (hc : c.Built) (hop : c.get? i = some op) : ∃ j, c.Resolves i j := by
  induction i using Nat.strong_induction_on generalizing op with
  | h i ih =>
    by_cases hnoop : op.kind.isNoop
    · have hrelay : op.kind.isRelay = true := OperatorKind.isRelay_of_isNoop hnoop
      obtain ⟨-, input, other, hinputs, hlt, hother, -⟩ := hc.relay hop hrelay
      obtain ⟨j, hj⟩ := ih input hlt hother
      exact ⟨j, .noop hop hnoop hinputs hj⟩
    · exact ⟨i, .here hop (Bool.eq_false_iff.mpr hnoop)⟩

/-- No operator resolves to one behind it. -/
theorem Resolves.le (hc : c.Ordered) (h : c.Resolves i j) : j ≤ i := by
  induction h with
  | here _ _ => exact le_rfl
  | noop hop _ hinputs _ ih =>
    exact Nat.le_trans ih (Nat.le_of_lt (hc _ _ hop _ (hinputs ▸ List.mem_singleton_self _)))

theorem Resolves.isNoop_eq_false (h : c.Resolves i j) :
    ∃ op, c.get? j = some op ∧ op.kind.isNoop = false := by
  induction h with
  | here hop hnoop => exact ⟨_, hop, hnoop⟩
  | noop _ _ _ _ ih => exact ih

theorem Resolves.self (h : c.Resolves i j) (hop : c.get? i = some op)
    (hnoop : op.kind.isNoop = false) : j = i := by
  cases h with
  | here _ _ => rfl
  | noop hop' hnoop' _ _ =>
    obtain rfl := Option.some.inj (hop.symm.trans hop')
    rw [hnoop] at hnoop'
    cases hnoop'

theorem Resolves.of_noop (h : c.Resolves i j) (hop : c.get? i = some op)
    (hnoop : op.kind.isNoop = true) {input : Nat} (hinputs : op.inputs = [input]) :
    c.Resolves input j := by
  cases h with
  | here hop' hnoop' =>
    obtain rfl := Option.some.inj (hop.symm.trans hop')
    rw [hnoop] at hnoop'
    cases hnoop'
  | noop hop' _ hinputs' h =>
    obtain rfl := Option.some.inj (hop.symm.trans hop')
    obtain ⟨rfl, -⟩ := List.cons.inj (hinputs.symm.trans hinputs')
    exact h

theorem Resolves.unique {j' : Nat} (h : c.Resolves i j) (h' : c.Resolves i j') : j = j' := by
  induction h with
  | here hop hnoop => exact (h'.self hop hnoop).symm
  | noop hop hnoop hinputs _ ih => exact ih (h'.of_noop hop hnoop hinputs)

/-! ### The operators that are kept -/

/-- The operators in front of a place that are kept and are no no-ops. -/
def kept (c : Circuit) (keep : List OperatorId) (n : Nat) : List OperatorId :=
  (List.range n).filter fun id => keep.contains id && !(c.get? id).any (·.kind.isNoop)

theorem kept_succ (hop : c.get? n = some op) :
    c.kept keep (n + 1) =
      c.kept keep n ++ if keep.contains n && !op.kind.isNoop then [n] else [] := by
  simp [kept, List.range_succ, List.filter_append, List.filter_singleton, hop]

theorem mem_kept (hop : c.get? i = some op) :
    i ∈ c.kept keep n ↔ i < n ∧ i ∈ keep ∧ op.kind.isNoop = false := by
  simp [kept, hop]

theorem lt_of_mem_kept (h : i ∈ c.kept keep n) : i < n :=
  List.mem_range.mp (List.mem_filter.mp h).1

theorem lt_of_getElem?_kept (h : (c.kept keep n)[j]? = some i) : i < n :=
  lt_of_mem_kept (List.mem_of_getElem? h)

theorem nodup_kept (c : Circuit) (keep : List OperatorId) (n : Nat) : (c.kept keep n).Nodup :=
  List.nodup_range.filter _

/-- Everything that is needed to keep operators: the inputs of what is kept resolve to operators
that are kept. -/
def Supports (c : Circuit) (keep : List OperatorId) : Prop :=
  ∀ (id : Nat) op, c.get? id = some op → op.kind.isNoop = false → id ∈ keep →
    ∀ input ∈ op.inputs, ∀ j, c.Resolves input j → j ∈ keep

/-- A copy of an old operator in a circuit whose operators come from the given old ones: it reads
what the inputs of the old one resolve to. -/
def CopyOf (c : Circuit) (origins : List OperatorId) (old : Nat) (copy : Operator) : Prop :=
  ∃ op inputs, c.get? old = some op ∧ copy = op.withInputs inputs ∧
    List.Forall₂ (fun input new => ∃ i, c.Resolves input i ∧ origins[new]? = some i)
      op.inputs inputs

theorem CopyOf.mono {origins more : List OperatorId} {old : Nat} {copy : Operator}
    (h : c.CopyOf origins old copy) : c.CopyOf (origins ++ more) old copy := by
  obtain ⟨op, inputs, hop, hcopy, hinputs⟩ := h
  refine ⟨op, inputs, hop, hcopy, hinputs.imp fun input new hnew => ?_⟩
  obtain ⟨i, hresolves, hi⟩ := hnew
  exact ⟨i, hresolves, (List.getElem?_append_left (List.getElem?_eq_some_iff.mp hi).1).trans hi⟩

end Circuit

/-! ### The pass -/

namespace Rewiring

variable {c : Circuit} {keep : List OperatorId} {op : Operator} {n : Nat} {r : Rewiring}

/-- **The invariant of the pass.** The output holds copies of the operators that are kept, and the
place of the operator that an old one resolves to stands for the old one. -/
structure Prunes (c : Circuit) (keep : List OperatorId) (n : Nat) (r : Rewiring) : Prop
    extends Follows c n r where
  copies : List.Forall₂ (c.CopyOf (c.kept keep n)) (c.kept keep n) r.output.operators
  mapped : ∀ i j, i < n → c.Resolves i j → ∀ new,
    r.mapped? i = some new ↔ (c.kept keep n)[new]? = some j

namespace Prunes

theorem start (c : Circuit) (keep : List OperatorId) :
    Prunes c keep 0 (Rewiring.start c.name false) where
  toFollows := .start c
  copies := .nil
  mapped i _ hi := absurd hi (Nat.not_lt_zero i)

theorem size_eq (hr : Prunes c keep n r) : r.output.size = (c.kept keep n).length :=
  hr.copies.length_eq.symm

/-- Passing over an operator that resolves to nothing that is kept. -/
theorem drop (hr : Prunes c keep n r) (hop : c.get? n = some op)
    (hkept : (keep.contains n && !op.kind.isNoop) = false)
    (hgone : ∀ j, c.Resolves n j → j ∉ c.kept keep n) :
    ∃ r', Rewiring.drop n r = (.ok (), r') ∧ Prunes c keep (n + 1) r' := by
  have hsame : c.kept keep (n + 1) = c.kept keep n := by
    rw [Circuit.kept_succ hop, hkept]
    exact List.append_nil _
  -- nothing stands for the operator yet, so nothing is forgotten
  have hnone : r.mapped? n = none := hr.ahead n le_rfl
  have hmapping : Assoc.erase r.mapping n = r.mapping := Assoc.erase_of_get?_eq_none hnone
  refine ⟨_, drop_eq, ?_⟩
  rw [hmapping]
  refine { toFollows := hr.touch.advance rfl, copies := ?_, mapped := ?_ }
  · rw [hsame]
    exact hr.copies
  · intro i j hi hij new
    rw [hsame]
    rcases Nat.lt_succ_iff_lt_or_eq.mp hi with hlt | rfl
    · exact hr.mapped i j hlt hij new
    · constructor
      · intro h
        cases hnone.symm.trans h
      · intro h
        exact absurd (List.mem_of_getElem? h) (hgone j hij)

/-- Reading through a no-op whose input something stands for. -/
theorem splice (hr : Prunes c keep n r) (hc : c.Built) (hop : c.get? n = some op)
    (hnoop : op.kind.isNoop = true) {input new : Nat} (hinputs : op.inputs = [input])
    (hnew : r.mapped? input = some new) :
    ∃ r', Rewiring.splice n op r = (.ok new, r') ∧ Prunes c keep (n + 1) r' := by
  have hsame : c.kept keep (n + 1) = c.kept keep n := by
    rw [Circuit.kept_succ hop, hnoop]
    simp
  obtain ⟨-, input', other, hinputs', hlt, hother, hlike⟩ :=
    hc.relay hop (OperatorKind.isRelay_of_isNoop hnoop)
  obtain ⟨rfl, -⟩ := List.cons.inj (hinputs.symm.trans hinputs')
  obtain ⟨op₁, op₂, hop₁, hop₂, hlike'⟩ := hr.stands input new hnew
  obtain rfl := Option.some.inj (hother.symm.trans hop₁)
  refine ⟨_, splice_eq hinputs hnew, ?_⟩
  -- the no-op resolves to what its input resolves to
  refine { toFollows := ?_, copies := ?_, mapped := ?_ }
  · exact (hr.touch.advance rfl).mapOld rfl (Nat.lt_succ_self n) hop hop₂
      ⟨hlike.1.symm.trans hlike'.1, hlike.2.symm.trans hlike'.2⟩
  · rw [hsame]
    exact hr.copies
  · intro i j hi hij new'
    show Assoc.get? (Assoc.set r.mapping n new) i = some new' ↔ _
    rw [hsame, Assoc.get?_set]
    rcases Nat.lt_succ_iff_lt_or_eq.mp hi with hlt' | rfl
    · rw [if_neg (Nat.ne_of_gt hlt')]
      exact hr.mapped i j hlt' hij new'
    · rw [if_pos rfl, ← hnew]
      exact hr.mapped input j hlt (hij.of_noop hop hnoop hinputs) new'

/-- Keeping an operator whose inputs resolve to operators that are kept. -/
theorem keepOperator (hr : Prunes c keep n r) (hc : c.Built) (hop : c.get? n = some op)
    (hnoop : op.kind.isNoop = false) (hkeep : n ∈ keep)
    (hsupports : ∀ input ∈ op.inputs, ∀ j, c.Resolves input j → j ∈ keep) :
    ∃ new r', Rewiring.keep n op r = (.ok new, r') ∧ Prunes c keep (n + 1) r' := by
  have hmore : c.kept keep (n + 1) = c.kept keep n ++ [n] := by
    rw [Circuit.kept_succ hop, hnoop]
    simp [hkeep]
  -- what an input resolves to has been kept, since the kept operators support each other
  have hinput : ∀ input ∈ op.inputs, ∃ new i, r.mapped? input = some new ∧
      c.Resolves input i ∧ (c.kept keep n)[new]? = some i := by
    intro input hmem
    have hlt : input < n := hc.ordered n op hop input hmem
    obtain ⟨other, hother⟩ := Circuit.exists_get?_of_lt
      (Nat.lt_trans hlt (Circuit.lt_size_of_get? hop))
    obtain ⟨i, hi⟩ := hc.resolves hother
    obtain ⟨target, htarget, hnoop'⟩ := hi.isNoop_eq_false
    have hi' : i ∈ c.kept keep n := (Circuit.mem_kept htarget).mpr
      ⟨Nat.lt_of_le_of_lt (hi.le hc.ordered) hlt, hsupports input hmem i hi, hnoop'⟩
    obtain ⟨new, hnew⟩ := List.mem_iff_getElem?.mp hi'
    exact ⟨new, i, (hr.mapped input i hlt hi new).mpr hnew, hi, hnew⟩
  obtain ⟨inputs, hinputs⟩ : ∃ inputs, List.Forall₂ (fun input new => r.mapped? input = some new ∧
      ∃ i, c.Resolves input i ∧ (c.kept keep n)[new]? = some i) op.inputs inputs := by
    refine List.exists_forall₂ fun input hmem => ?_
    obtain ⟨new, i, hnew, hi, hplace⟩ := hinput input hmem
    exact ⟨new, hnew, i, hi, hplace⟩
  obtain ⟨r', hstep, houtput, hmapping, hfollows⟩ :=
    hr.keep hc hop (hinputs.imp fun _ _ h => h.1)
  refine ⟨_, r', hstep, { toFollows := hfollows, copies := ?_, mapped := ?_ }⟩
  · have hcopy : c.CopyOf (c.kept keep n) n (op.withInputs inputs) :=
      ⟨op, inputs, hop, rfl, hinputs.imp fun _ _ h => h.2⟩
    rw [hmore, houtput]
    exact List.rel_append (hr.copies.imp fun _ _ h => h.mono) (.cons hcopy.mono .nil)
  · intro i j hi hij new
    rw [hmore, List.getElem?_concat_eq_some, Rewiring.mapped?, hmapping, Assoc.get?_set]
    rcases Nat.lt_succ_iff_lt_or_eq.mp hi with hlt | rfl
    · -- an older operator resolves to one in front of the new place
      have hne : n ≠ j := Nat.ne_of_gt (Nat.lt_of_le_of_lt (hij.le hc.ordered) hlt)
      rw [if_neg (Nat.ne_of_gt hlt), ← Rewiring.mapped?, hr.mapped i j hlt hij new]
      simp [hne]
    · obtain rfl := hij.self hop hnoop
      have hfresh : (c.kept keep j)[new]? ≠ some j :=
        fun h => Nat.lt_irrefl j (Circuit.lt_of_getElem?_kept h)
      rw [if_pos rfl, hr.size_eq, Option.some.injEq]
      simp [hfresh, eq_comm]

/-- One operator of the pass. -/
theorem step (hr : Prunes c keep n r) (hc : c.Built) (hop : c.get? n = some op)
    (hsupports : op.kind.isNoop = false → n ∈ keep →
      ∀ input ∈ op.inputs, ∀ j, c.Resolves input j → j ∈ keep) :
    ∃ r', removeUnless keep n op r = (.ok (), r') ∧ Prunes c keep (n + 1) r' := by
  unfold removeUnless
  by_cases hnoop : op.kind.isNoop
  · obtain ⟨-, input, other, hinputs, hlt, hother, -⟩ :=
      hc.relay hop (OperatorKind.isRelay_of_isNoop hnoop)
    rw [if_pos hnoop, get_bind, hinputs, List.head?_cons, Option.bind_some]
    cases hnew : r.mapped? input with
    | some new =>
      obtain ⟨r', hstep, hr'⟩ := hr.splice hc hop hnoop hinputs hnew
      exact ⟨r', discard_eq hstep, hr'⟩
    | none =>
      refine hr.drop hop (by rw [hnoop, Bool.not_true, Bool.and_false]) fun j hj hmem => ?_
      obtain ⟨new, hplace⟩ := List.mem_iff_getElem?.mp hmem
      have hmapped := (hr.mapped input j hlt (hj.of_noop hop hnoop hinputs) new).mpr hplace
      rw [hnew] at hmapped
      cases hmapped
  · rw [if_neg hnoop]
    replace hnoop := Bool.eq_false_iff.mpr hnoop
    by_cases hkeep : keep.contains n
    · rw [if_pos hkeep]
      have hmem : n ∈ keep := List.contains_iff_mem.mp hkeep
      obtain ⟨new, r', hstep, hr'⟩ :=
        hr.keepOperator hc hop hnoop hmem (hsupports hnoop hmem)
      exact ⟨r', discard_eq hstep, hr'⟩
    · rw [if_neg hkeep]
      replace hkeep := Bool.eq_false_iff.mpr hkeep
      refine hr.drop hop (by rw [hkeep, Bool.false_and]) fun j hj hmem => ?_
      obtain rfl := hj.self hop hnoop
      exact Nat.lt_irrefl j ((Circuit.mem_kept hop).mp hmem).1

/-- An operator that is kept is refused if one of its inputs resolves to something that is not. -/
theorem step_eq_error (hr : Prunes c keep n r) (hc : c.Built) (hop : c.get? n = some op)
    (hnoop : op.kind.isNoop = false) (hkeep : n ∈ keep) {input j : Nat} (hinput : input ∈ op.inputs)
    (hj : c.Resolves input j) (hgone : j ∉ keep) :
    ∃ e, removeUnless keep n op r = (.error e, r) := by
  have hlt : input < n := hc.ordered n op hop input hinput
  have hnone : r.mapped? input = none := by
    cases hnew : r.mapped? input with
    | none => rfl
    | some new =>
      have hplace := (hr.mapped input j hlt hj new).mp hnew
      obtain ⟨target, htarget, -⟩ := hj.isNoop_eq_false
      exact absurd ((Circuit.mem_kept htarget).mp (List.mem_of_getElem? hplace)).2.1 hgone
  -- so the inputs cannot be connected
  obtain ⟨e, he⟩ : ∃ e, r.mapInputs op .inputDropped = .error e := by
    cases hinputs : r.mapInputs op .inputDropped with
    | error e => exact ⟨e, rfl⟩
    | ok inputs =>
      obtain ⟨new, -, hnew⟩ := (mapInputs_eq_ok.mp hinputs).flip.exists_of_mem_right hinput
      cases hnone.symm.trans hnew
  have hrefused : Rewiring.keep n op r = (.error e, r) := by
    unfold Rewiring.keep
    rw [get_bind, he]
    rfl
  refine ⟨e, ?_⟩
  unfold removeUnless
  rw [if_neg (Bool.eq_false_iff.mp hnoop), if_pos (List.contains_iff_mem.mpr hkeep)]
  exact ExceptT.discard_run_error hrefused

end Prunes
end Rewiring

namespace Circuit

variable {c c' : Circuit} {keep origins : List OperatorId}

/-- **What removing operators gives.** It goes through if the operators that are kept read kept
ones, and the result is made of copies of them. -/
theorem Built.removeOperators (hc : c.Built) (hsupports : c.Supports keep) :
    ∃ c', c.removeOperators c.name keep = .ok c' ∧ c'.Built ∧ c'.name = c.name ∧
      List.Forall₂ (c.CopyOf (c.kept keep c.size)) (c.kept keep c.size) c'.operators := by
  obtain ⟨r, hr, hrun⟩ := Rewiring.run_induction (Rewiring.Prunes c keep)
    (.start c keep) fun n op r hop hr => hr.step hc hop (hsupports n op hop)
  refine ⟨r.output, ?_, hr.built, hr.name_eq, hr.copies⟩
  rw [← hr.finish_eq]
  exact hrun

/-! ### Rows -/

/-- A row of a circuit in which no-ops give what they read. -/
structure Relays (c : Circuit) (row : Row) : Prop where
  length_eq : row.length = c.size
  noop : ∀ (id input : Nat) op, c.get? id = some op → op.kind.isNoop = true →
    op.inputs = [input] → row[id]? = row[input]?

theorem Emits.relays {past : List Row} {tables : Tables} {row : Row}
    (h : c.Emits past tables row) : c.Relays row where
  length_eq := h.length_eq
  noop := by
    intro id input op hop hnoop hinputs
    have hlt : id < row.length := h.length_eq ▸ lt_size_of_get? hop
    have hz : row[id]? = some row[id] := List.getElem?_eq_getElem hlt
    obtain ⟨x, hx, hout⟩ := Except.bind_eq_ok.mp (h.output id op row[id] hop hz)
    have hslot :=
      Operator.slot_of_statelessOutput (OperatorKind.isRelay_of_isNoop hnoop) hx
    cases hkind : op.kind with
    | noop =>
      obtain rfl : x = row[id] := by simpa [hkind] using hout
      rw [hz, ← hslot, Operator.slot, hinputs]
      rfl
    | _ =>
      rw [hkind] at hnoop
      cases hnoop

/-- An operator gives what the operator gives to which it resolves. -/
theorem Resolves.getElem? {i j : Nat} (h : c.Resolves i j) {row : Row} (hrow : c.Relays row) :
    row[i]? = row[j]? := by
  induction h with
  | here _ _ => rfl
  | noop hop hnoop hinputs _ ih => exact (hrow.noop _ _ _ hop hnoop hinputs).trans ih

/-- **A copy reads what the old operator reads.** -/
theorem slot_pick {op : Operator} {old : Nat} {inputs : List OperatorId} {row : Row}
    (hc : c.Ordered) (hrow : c.Relays row) (hop : c.get? old = some op)
    (hinputs : List.Forall₂ (fun input new => ∃ i, c.Resolves input i ∧ origins[new]? = some i)
      op.inputs inputs) (n : Nat) :
    (op.withInputs inputs).slot (pick origins row) n = op.slot row n := by
  show inputs[n]?.bind ((pick origins row)[·]?) = op.inputs[n]?.bind (row[·]?)
  rcases hinputs.getElem? n with ⟨hold, hnew⟩ | ⟨input, new, hold, hnew, i, hresolves, hi⟩
  · rw [hold, hnew, Option.bind_none, Option.bind_none]
  · have hlt : input < row.length := by
      rw [hrow.length_eq]
      exact Nat.lt_trans (hc old op hop input (List.mem_of_getElem? hold)) (lt_size_of_get? hop)
    rw [hold, hnew, Option.bind_some, Option.bind_some, getElem?_pick hi, hresolves.getElem? hrow,
      ← hresolves.getElem? hrow, List.getElem?_eq_getElem hlt, Option.getD_some]

/-- **One step.** If the old circuit gives a row, the new one gives the selection from it. -/
theorem Emits.pick {past : List Row} {tables : Tables} {row : Row} (hc : c.Ordered)
    (hcopies : List.Forall₂ (c.CopyOf origins) origins c'.operators)
    (hpast : ∀ r ∈ past, c.Relays r) (h : c.Emits past tables row) :
    c'.Emits (past.map (Circuit.pick origins)) tables (Circuit.pick origins row) where
  length_eq := by
    rw [Circuit.pick, List.length_map, hcopies.length_eq]
    rfl
  output := by
    intro new copy z hcopy hz
    rcases hcopies.getElem? new with ⟨-, hnone⟩ | ⟨old, copy', hold, hcopy', hof⟩
    · cases hnone.symm.trans hcopy
    · obtain rfl := Option.some.inj (hcopy.symm.trans hcopy')
      obtain ⟨op, inputs, hop, rfl, hinputs⟩ := hof
      have hlt : old < row.length := h.length_eq ▸ lt_size_of_get? hop
      obtain rfl : row[old] = z := by
        rw [getElem?_pick hold, List.getElem?_eq_getElem hlt] at hz
        exact Option.some.inj hz
      have hreads : op.ReadsLike (op.withInputs inputs) ⟨row, tables⟩
          ⟨Circuit.pick origins row, tables⟩ :=
        ⟨rfl, rfl, hinputs.length_eq.symm,
          fun n x hx => (slot_pick hc h.relays hop hinputs n).trans hx, fun _ _ => rfl⟩
      refine hreads.outputAfter ?_ (h.output old op _ hop (List.getElem?_eq_getElem hlt))
      -- what has been read in the steps before is the same as well
      rw [Operator.history, Operator.history, List.map_map]
      refine List.map_congr_left fun r hr => ?_
      rw [Function.comp_apply, slot_pick hc (hpast r hr) hop hinputs]

/-- **Many steps.** Traces of the old circuit are selected from, row by row. -/
theorem Traces.pick {inputs : List Tables} {rows : List Row} (hc : c.Ordered)
    (hcopies : List.Forall₂ (c.CopyOf origins) origins c'.operators)
    (h : c.Traces [] inputs rows) : c'.Traces [] inputs (rows.map (Circuit.pick origins)) := by
  refine traces_of_emits (by rw [List.length_map, h.length_eq]) fun k tables row' htables hk => ?_
  rw [List.getElem?_map] at hk
  obtain ⟨row, hrow, rfl⟩ := Option.map_eq_some_iff.mp hk
  rw [← List.map_take]
  refine (h.emits htables hrow).pick hc hcopies fun r hr => ?_
  obtain ⟨past, tables, hemits⟩ := h.emits_of_mem (List.mem_of_mem_take hr)
  exact hemits.relays

/-! ### Sinks -/

theorem filterMap_eq_range {α β : Type} (l : List α) (g : α → Option β) :
    l.filterMap g = (List.range l.length).filterMap fun k => l[k]?.bind g := by
  induction l using List.reverseRecOn with
  | nil => rfl
  | append_singleton l a ih =>
    rw [List.filterMap_append, List.length_append, List.length_singleton, List.range_succ,
      List.filterMap_append, ih]
    congr 1
    · refine List.filterMap_congr fun k hk => ?_
      rw [List.getElem?_append_left (List.mem_range.mp hk)]
    · cases h : g a <;> simp [h]

/-- If every sink is kept, the sinks of the copies report what the old ones report. -/
theorem reports_pick {row : Row}
    (hcopies : List.Forall₂ (c.CopyOf (c.kept keep c.size)) (c.kept keep c.size) c'.operators)
    (hsinks : ∀ (id : Nat) op, c.get? id = some op → op.kind.isSink = true → id ∈ keep) :
    c'.reports (pick (c.kept keep c.size) row) = c.reports row := by
  have hsize : c'.size = (c.kept keep c.size).length := hcopies.length_eq.symm
  have hcopy : ∀ k ∈ List.range c'.size, c'.report? (pick (c.kept keep c.size) row) k =
      (c.kept keep c.size)[k]?.bind (c.report? row) := by
    intro k _
    rcases hcopies.getElem? k with ⟨hold, hnew⟩ | ⟨old, copy, hold, hnew, op, inputs, hop, rfl, -⟩
    · rw [report?, Circuit.get?, hnew, hold]
      rfl
    · have hget : c'.get? k = some (op.withInputs inputs) := hnew
      rw [report?, hget, hold, Option.bind_some, Option.bind_some, report?, hop,
        Option.bind_some, getElem?_pick hold, Option.getD_some]
      rfl
  -- what is left out of the old circuit reports nothing
  have hleft : ∀ id ∈ List.range c.size,
      (if keep.contains id && !(c.get? id).any (·.kind.isNoop) then c.report? row id else none) =
        c.report? row id := by
    intro id _
    split
    · rfl
    · next hout =>
      cases hop : c.get? id with
      | none => rw [report?, hop]; rfl
      | some op =>
        cases hname : op.kind.sinkName? with
        | none => simp [report?, hop, hname]
        | some name =>
          obtain ⟨hsink, hnoop⟩ : op.kind.isSink = true ∧ op.kind.isNoop = false := by
            cases hkind : op.kind with
            | sink _ _ _ => exact ⟨rfl, rfl⟩
            | _ =>
              rw [hkind] at hname
              cases hname
          simp [hop, hsinks id op hop hsink, hnoop] at hout
  rw [reports_eq, reports_eq, List.filterMap_congr hcopy, hsize, ← filterMap_eq_range, kept,
    List.filterMap_filter, List.filterMap_congr hleft]

/-! ### Dead code -/

theorem mem_sinks {id : Nat} {op : Operator} (hop : c.get? id = some op)
    (hsink : op.kind.isSink = true) : id ∈ c.sinks := by
  unfold sinks idsWhere
  exact List.mem_map.mpr ⟨(id, op), List.mem_filter.mpr ⟨mem_numbered.mpr hop, hsink⟩, rfl⟩

theorem exists_of_mem_sinks {id : Nat} (h : id ∈ c.sinks) :
    ∃ op, c.get? id = some op ∧ op.kind.isSink = true := by
  obtain ⟨⟨id, op⟩, hmem, rfl⟩ := List.mem_map.mp h
  obtain ⟨hmem, hsink⟩ := List.mem_filter.mp hmem
  exact ⟨op, mem_numbered.mp hmem, hsink⟩

/-- Ancestors are closed under reading through no-ops. -/
theorem Resolves.mem_ancestors {roots : List OperatorId} {i j : Nat} (hc : c.Ordered)
    (h : c.Resolves i j) (hi : i ∈ c.ancestors roots) : j ∈ c.ancestors roots := by
  induction h with
  | here _ _ => exact hi
  | noop hop _ hinputs _ ih =>
    exact ih (mem_ancestors_of_input hc hop hi (hinputs ▸ List.mem_singleton_self _))

theorem supports_ancestors (hc : c.Ordered) (roots : List OperatorId) :
    c.Supports (c.ancestors roots) :=
  fun _ _ hop _ hid _ hinput _ hresolves =>
    hresolves.mem_ancestors hc (mem_ancestors_of_input hc hop hid hinput)

/-- **Dead-code removal keeps runs.** It goes through on every circuit that has been built, and
whenever the old circuit gets through a sequence of inputs, so does the new one, with the same
outputs at every step. -/
theorem run_removeDeadCode (hc : c.Built) :
    ∃ c', c.removeDeadCode = .ok c' ∧
      ∀ inputs outs, c.run inputs = .ok outs → c'.run inputs = .ok outs := by
  obtain ⟨c', hpass, hc', -, hcopies⟩ :=
    hc.removeOperators (supports_ancestors hc.ordered c.sinks)
  refine ⟨c', hpass, fun inputs outs hrun => ?_⟩
  obtain ⟨rows, hrows, rfl⟩ := (run_eq_ok_iff hc.ordered).mp hrun
  refine (run_eq_ok_iff hc'.ordered).mpr ⟨_, hrows.pick hc.ordered hcopies, ?_⟩
  rw [List.map_map]
  refine List.map_congr_left fun row hrow => ?_
  obtain ⟨past, tables, hemits⟩ := hrows.emits_of_mem hrow
  have hlength' : (pick (c.kept (c.ancestors c.sinks) c.size) row).length = c'.size := by
    rw [pick, List.length_map]
    exact hcopies.length_eq
  have hsinks : ∀ (id : Nat) op, c.get? id = some op → op.kind.isSink = true →
      id ∈ c.ancestors c.sinks :=
    fun id op hop hsink => mem_ancestors_of_root (mem_sinks hop hsink) (lt_size_of_get? hop)
  rw [Function.comp_apply, sinkOutputs_eq c row hemits.length_eq, sinkOutputs_eq c' _ hlength',
    reports_pick hcopies hsinks]

/-- A running sum behind a no-op, next to an operator that no sink needs. -/
def runningSum : Circuit :=
  (((((empty "sums").push ⟨.source "t" .bool, [], none, .zset .bool, true⟩).push
    ⟨.noop, [0], none, .zset .bool, true⟩).push
    ⟨.negate, [1], none, .zset .bool, true⟩).push
    ⟨.integral, [1], none, .zset .bool, true⟩).push
    ⟨.sink "v" "" none, [3], none, .zset .bool, true⟩

theorem built_runningSum : runningSum.Built :=
  .push (.push (.push (.push (.push (.empty _) rfl) rfl) rfl) rfl) rfl

/-- Without its dead code, the running sum still sums. -/
theorem run_removeDeadCode_runningSum :
    ∃ c', runningSum.removeDeadCode = .ok c' ∧
      c'.run [[("t", [(.bool true, 1)])], [("t", [(.bool true, 2)])]] =
        .ok [[("v", [(.bool true, 1)])], [("v", [(.bool true, 3)])]] := by
  obtain ⟨c', hpass, hruns⟩ := run_removeDeadCode built_runningSum
  exact ⟨c', hpass, hruns _ _ rfl⟩

end Circuit
end DeltaCircuit
