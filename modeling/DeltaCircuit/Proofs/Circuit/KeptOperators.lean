import DeltaCircuit.Proofs.Circuit.RemoveOperators

/-!
# What removing operators keeps

Removing operators goes through exactly if everything that is kept reads, through no-ops, operators
that are kept too; the first one that does not is refused. What the sinks need supports itself, so
the removal of dead code always goes through, and a second removal finds nothing to remove: every
operator that is left reaches a sink, and no-ops are gone.

* `Circuit.removeOperators_iff` — when operators can be removed.
* `Circuit.ReachesSink` — a sink, or what a reader that reaches a sink reads.
* `Circuit.reachesSink_of_copies` — every copy of an ancestor of the sinks reaches a sink.
* `Circuit.removeDeadCode_again` — a circuit without dead code is left as it is.
* `Circuit.removeOperators_keeps` — the whole of it.
-/

namespace DeltaCircuit.Circuit

variable {c c' : Circuit} {keep : List OperatorId} {name : String} {i j k : Nat} {op : Operator}

/-! ### Circuits under another name -/

/-- The circuit under another name. -/
def named (c : Circuit) (name : String) : Circuit := { c with name }

/-- Nothing that is checked depends on the name. -/
theorem Built.named (hc : c.Built) (name : String) : (c.named name).Built := by
  induction hc with
  | empty _ => exact .empty name
  | insert _ hinsert ih =>
    obtain ⟨hderive, hpush⟩ := insert_eq_ok.mp hinsert
    obtain ⟨rfl, -⟩ := Prod.mk.inj hpush
    exact .push ih hderive

theorem Resolves.named (h : c.Resolves i j) (name : String) : (c.named name).Resolves i j := by
  induction h with
  | here hop hnoop => exact .here hop hnoop
  | noop hop hnoop hinputs _ ih => exact .noop hop hnoop hinputs ih

theorem resolves_named : (c.named name).Resolves i j ↔ c.Resolves i j :=
  ⟨fun h => h.named c.name, fun h => h.named name⟩

theorem supports_named : (c.named name).Supports keep ↔ c.Supports keep := by
  unfold Supports
  simp only [resolves_named]
  rfl

/-- The name that the result is given does not decide what is removed. -/
theorem removeOperators_named (c : Circuit) (name : String) (keep : List OperatorId) :
    ((c.named name).removeOperators name keep).map operators =
      (c.removeOperators name keep).map operators := by
  unfold removeOperators Rewiring.run
  have hnumbered : (c.named name).numbered = c.numbered := rfl
  rw [hnumbered]
  -- the name is handed on and never looked at
  generalize (c.numbered.forM fun p => Rewiring.removeUnless keep p.1 p.2 : Rewire Unit)
    (Rewiring.start name false) = outcome
  obtain ⟨e | u, r⟩ := outcome
  · rfl
  · show Except.ok (operators (r.finish (c.named name))) = Except.ok (operators (r.finish c))
    unfold Rewiring.finish
    rw [apply_ite operators, apply_ite operators]
    rfl

/-! ### When operators can be removed -/

/-- What is kept supports itself if each of its inputs resolves to something that is kept. -/
theorem supports_iff (hc : c.Built) :
    c.Supports keep ↔ ∀ (id : Nat) op, c.get? id = some op → op.kind.isNoop = false → id ∈ keep →
      ∀ input ∈ op.inputs, ∃ j ∈ keep, c.Resolves input j := by
  constructor
  · intro h id op hop hnoop hkeep input hinput
    have hlt : input < id := hc.ordered id op hop input hinput
    obtain ⟨other, hother⟩ := exists_get?_of_lt (Nat.lt_trans hlt (lt_size_of_get? hop))
    obtain ⟨j, hj⟩ := hc.resolves hother
    exact ⟨j, h id op hop hnoop hkeep input hinput j hj, hj⟩
  · intro h id op hop hnoop hkeep input hinput j hj
    obtain ⟨j', hkept, hj'⟩ := h id op hop hnoop hkeep input hinput
    rw [hj.unique hj']
    exact hkept

/-- The first operator that is kept and reads something that is not is refused. -/
theorem Built.removeOperators_error (hc : c.Built) (hnot : ¬c.Supports keep) :
    ∃ e, c.removeOperators c.name keep = .error e := by
  classical
  let Unsupported (n : Nat) : Prop := ∃ op, c.get? n = some op ∧ op.kind.isNoop = false ∧ n ∈ keep ∧
    ∃ input ∈ op.inputs, ∃ j, c.Resolves input j ∧ j ∉ keep
  have hsome : ∃ n, Unsupported n := by
    unfold Supports at hnot
    push Not at hnot
    obtain ⟨n, op, hop, hnoop, hkeep, input, hinput, j, hj, hgone⟩ := hnot
    exact ⟨n, op, hop, hnoop, hkeep, input, hinput, j, hj, hgone⟩
  -- the pass fails at the first such operator, and not before
  obtain ⟨op, hop, hnoop, hkeep, input, hinput, j, hj, hgone⟩ := Nat.find_spec hsome
  refine Rewiring.run_eq_error (Rewiring.Prunes c keep) (.start c keep) hop ?_
    fun r hr => hr.step_eq_error hc hop hnoop hkeep hinput hj hgone
  intro i op r hi hop hr
  refine hr.step hc hop fun hnoop hkeep input hinput j hj => ?_
  by_contra hgone
  exact Nat.find_min hsome hi ⟨op, hop, hnoop, hkeep, input, hinput, j, hj, hgone⟩

/-- **When operators can be removed.** Exactly if what is kept supports itself. -/
theorem removeOperators_iff (hc : c.Built) :
    (∃ c', c.removeOperators name keep = .ok c') ↔ c.Supports keep := by
  have hsame := removeOperators_named c name keep
  have hnamed : (c.named name).Built := hc.named name
  constructor
  · rintro ⟨c', h⟩
    by_contra hnot
    -- under its own name the circuit would have been refused too
    obtain ⟨e, he⟩ := hnamed.removeOperators_error (supports_named.not.mpr hnot)
    change (c.named name).removeOperators name keep = .error e at he
    rw [h, he] at hsame
    cases hsame
  · intro h
    obtain ⟨d, hd, -⟩ := hnamed.removeOperators (supports_named.mpr h)
    change (c.named name).removeOperators name keep = .ok d at hd
    rw [hd] at hsame
    obtain ⟨c', hc', -⟩ := Except.map_eq_ok.mp hsame.symm
    exact ⟨c', hc'⟩

/-- The result is made of copies of what is kept. -/
theorem copies_of_removeOperators (hc : c.Built) (h : c.removeOperators name keep = .ok c') :
    List.Forall₂ (c.CopyOf (c.kept keep c.size)) (c.kept keep c.size) c'.operators := by
  have hsupports : c.Supports keep := (removeOperators_iff hc).mp ⟨c', h⟩
  obtain ⟨d, hd, -, -, hcopies⟩ := (hc.named name).removeOperators (supports_named.mpr hsupports)
  change (c.named name).removeOperators name keep = .ok d at hd
  have hsame := removeOperators_named c name keep
  rw [h, hd] at hsame
  obtain hoperators : d.operators = c'.operators := Except.ok.inj hsame
  rw [← hoperators]
  refine hcopies.imp fun old copy hcopy => ?_
  obtain ⟨op, inputs, hop, rfl, hinputs⟩ := hcopy
  refine ⟨op, inputs, hop, rfl, hinputs.imp fun input new hnew => ?_⟩
  obtain ⟨i, hi, hplace⟩ := hnew
  exact ⟨i, resolves_named.mp hi, hplace⟩

/-! ### Reaching a sink -/

/-- An operator from which a sink can be reached, from reader to reader. -/
inductive ReachesSink (c : Circuit) : Nat → Prop where
  | sink {id : Nat} {op : Operator} : c.get? id = some op → op.kind.isSink = true →
    ReachesSink c id
  | read {id reader : Nat} {op : Operator} : c.get? reader = some op → id ∈ op.inputs →
    ReachesSink c reader → ReachesSink c id

theorem ReachesSink.mem_ancestors (hc : c.Ordered) (h : c.ReachesSink i) :
    i ∈ c.ancestors c.sinks := by
  induction h with
  | sink hop hsink => exact mem_ancestors_of_root (mem_sinks hop hsink) (lt_size_of_get? hop)
  | read hop hinput _ ih => exact mem_ancestors_of_input hc hop ih hinput

/-- The copy at a place. -/
theorem exists_copy (hcopies : List.Forall₂ (c.CopyOf (c.kept keep c.size)) (c.kept keep c.size)
      c'.operators) (hk : (c.kept keep c.size)[k]? = some i) (hop : c.get? i = some op) :
    ∃ inputs, c'.get? k = some (op.withInputs inputs) ∧
      List.Forall₂ (fun input new => ∃ j, c.Resolves input j ∧
        (c.kept keep c.size)[new]? = some j) op.inputs inputs := by
  rcases hcopies.getElem? k with ⟨hnone, -⟩ | ⟨old, copy, hold, hcopy, op', inputs, hop', rfl, hall⟩
  · cases hk.symm.trans hnone
  · obtain rfl := Option.some.inj (hk.symm.trans hold)
    obtain rfl := Option.some.inj (hop.symm.trans hop')
    exact ⟨inputs, hcopy, hall⟩

/-- **Nothing dead is left.** The copy of whatever an ancestor of the sinks resolves to reaches a
sink. -/
theorem reachesSink_of_copies (hc : c.Built)
    (hcopies : List.Forall₂ (c.CopyOf (c.kept (c.ancestors c.sinks) c.size))
      (c.kept (c.ancestors c.sinks) c.size) c'.operators) (hi : i ∈ c.ancestors c.sinks) :
    ∀ j k, c.Resolves i j → (c.kept (c.ancestors c.sinks) c.size)[k]? = some j →
      c'.ReachesSink k := by
  refine (ancestors_induction (P := fun i => i ∈ c.ancestors c.sinks ∧ ∀ j k, c.Resolves i j →
    (c.kept (c.ancestors c.sinks) c.size)[k]? = some j → c'.ReachesSink k) ?_ ?_ hi).2
  · -- a sink has been copied as it is
    intro id hroot hlt
    obtain ⟨op, hop, hsink⟩ := exists_of_mem_sinks hroot
    have hnoop : op.kind.isNoop = false := by
      cases hkind : op.kind with
      | noop =>
        rw [hkind] at hsink
        cases hsink
      | _ => rfl
    refine ⟨mem_ancestors_of_root hroot hlt, fun j k hj hk => ?_⟩
    obtain rfl := hj.self hop hnoop
    obtain ⟨inputs, hcopy, -⟩ := exists_copy hcopies hk hop
    exact .sink hcopy hsink
  · rintro id op hop ⟨hid, hreaches⟩ input hinput
    refine ⟨mem_ancestors_of_input hc.ordered hop hid hinput, fun j k hj hk => ?_⟩
    by_cases hnoop : op.kind.isNoop = true
    · -- a no-op resolves to what its input resolves to
      obtain ⟨-, _, -, hinputs, -⟩ := hc.relay hop (OperatorKind.isRelay_of_isNoop hnoop)
      obtain rfl : input = _ := List.mem_singleton.mp (hinputs ▸ hinput)
      exact hreaches j k (.noop hop hnoop hinputs hj) hk
    · -- the copy of the reader reads the copy of what the input resolves to
      rw [Bool.not_eq_true] at hnoop
      have hkept : id ∈ c.kept (c.ancestors c.sinks) c.size :=
        (mem_kept hop).mpr ⟨lt_size_of_get? hop, hid, hnoop⟩
      obtain ⟨reader, hreader⟩ := List.mem_iff_getElem?.mp hkept
      obtain ⟨inputs, hcopy, hall⟩ := exists_copy hcopies hreader hop
      obtain ⟨new, hnew, j', hj', hplace⟩ := hall.flip.exists_of_mem_right hinput
      obtain rfl := hj.unique hj'
      have hsame : k = new := (List.getElem?_inj (List.getElem?_eq_some_iff.mp hk).1
        (nodup_kept _ _ _)).mp (hk.trans hplace.symm)
      exact .read hcopy (hsame ▸ hnew) (hreaches id reader (.here hop hnoop) hreader)

/-! ### A second run -/

/-- A circuit without no-ops and without dead code is left as it is. -/
theorem removeDeadCode_again (hc : c.Built)
    (hnoops : ∀ op ∈ c.operators, op.kind.isNoop = false)
    (hlive : ∀ id < c.size, c.ReachesSink id) : c.removeDeadCode = .ok c := by
  -- everything is kept, so every operator stays in its place
  have hall : c.kept (c.ancestors c.sinks) c.size = List.range c.size := by
    refine List.filter_eq_self.mpr fun id hid => ?_
    obtain ⟨op, hop⟩ := exists_get?_of_lt (List.mem_range.mp hid)
    have hneeded := (hlive id (List.mem_range.mp hid)).mem_ancestors hc.ordered
    simp [hneeded, hop, hnoops op (List.mem_of_getElem? hop)]
  have hself : ∀ i j, c.Resolves i j → j = i := by
    rintro i j (_ | ⟨hop, hnoop, -, -⟩)
    · rfl
    · rw [hnoops _ (List.mem_of_getElem? hop)] at hnoop
      cases hnoop
  obtain ⟨c', hrun, -, hname, hcopies⟩ :=
    hc.removeOperators (supports_ancestors hc.ordered c.sinks)
  have hoperators : c.operators = c'.operators := by
    refine List.ext_getElem? fun k => ?_
    show c.get? k = c'.get? k
    by_cases hk : k < c.size
    · have hplace : (c.kept (c.ancestors c.sinks) c.size)[k]? = some k := by
        rw [hall, List.getElem?_range hk]
      obtain ⟨op, hop⟩ := exists_get?_of_lt hk
      obtain ⟨inputs, hcopy, hinputs⟩ := exists_copy hcopies hplace hop
      -- every input resolves to itself and keeps its place
      have hsame : List.Forall₂ Eq op.inputs inputs := by
        refine hinputs.imp fun input new hnew => ?_
        obtain ⟨i, hi, hnew⟩ := hnew
        rw [hall, List.getElem?_eq_some_iff] at hnew
        obtain ⟨hlt, hnew⟩ := hnew
        rw [List.getElem_range] at hnew
        exact (hself _ _ hi).symm.trans hnew.symm
      rw [List.forall₂_eq_eq_eq] at hsame
      rw [hop, hcopy, ← hsame]
      rfl
    · have hsize : c'.operators.length = c.operators.length := by
        rw [← hcopies.length_eq, hall, List.length_range]
        rfl
      have hge : c.operators.length ≤ k := Nat.le_of_not_lt hk
      rw [get?, get?, List.getElem?_eq_none hge, List.getElem?_eq_none (hsize ▸ hge)]
  obtain ⟨name, operators⟩ := c'
  obtain rfl : name = c.name := hname
  obtain rfl : c.operators = operators := hoperators
  exact hrun

/-- **What removing operators keeps.** Operators can be removed from a circuit exactly if every
input of every operator that is kept, no-ops apart, resolves to an operator that is kept. The result
then consists of copies of the operators that are kept, no-ops apart, in their order; each copy
reads the copies of what the inputs resolve to, and is otherwise the same. Dead code can always be
removed: no no-op is left, every operator that is left reaches a sink, and removing dead code again
gives the same circuit. -/
theorem removeOperators_keeps (hc : c.Built) :
    (∀ name keep, (∃ c', c.removeOperators name keep = .ok c') ↔
      ∀ (id : Nat) op, c.get? id = some op → op.kind.isNoop = false → id ∈ keep →
        ∀ input ∈ op.inputs, ∃ j ∈ keep, c.Resolves input j) ∧
      (∀ name keep c', c.removeOperators name keep = .ok c' →
        List.Forall₂ (c.CopyOf (c.kept keep c.size)) (c.kept keep c.size) c'.operators) ∧
      ∃ c', c.removeDeadCode = .ok c' ∧ (∀ op ∈ c'.operators, op.kind.isNoop = false) ∧
        (∀ id < c'.size, c'.ReachesSink id) ∧ c'.removeDeadCode = .ok c' := by
  refine ⟨fun name keep => (removeOperators_iff hc).trans (supports_iff hc),
    fun name keep c' => copies_of_removeOperators hc, ?_⟩
  obtain ⟨c', hrun, hc', -, hcopies⟩ :=
    hc.removeOperators (supports_ancestors hc.ordered c.sinks)
  have hnoops : ∀ op ∈ c'.operators, op.kind.isNoop = false := by
    intro copy hcopy
    obtain ⟨old, hold, op, inputs, hop, rfl, -⟩ := hcopies.exists_of_mem_right hcopy
    exact ((mem_kept hop).mp hold).2.2
  have hlive : ∀ id < c'.size, c'.ReachesSink id := by
    intro id hid
    rw [size, ← hcopies.length_eq] at hid
    obtain ⟨old, hold⟩ : ∃ old, (c.kept (c.ancestors c.sinks) c.size)[id]? = some old :=
      ⟨_, List.getElem?_eq_getElem hid⟩
    obtain ⟨op, hop⟩ := exists_get?_of_lt (lt_of_getElem?_kept hold)
    obtain ⟨-, hneeded, hnoop⟩ := (mem_kept hop).mp (List.mem_of_getElem? hold)
    exact reachesSink_of_copies hc hcopies hneeded old id (.here hop hnoop) hold
  exact ⟨c', hrun, hnoops, hlive, removeDeadCode_again hc' hnoops hlive⟩

/-- Of the running sum, the source and the integral can be kept together. The integral alone cannot
be, for it reads the source through a no-op. -/
theorem removeOperators_keeps_runningSum :
    (∃ c', runningSum.removeOperators "kept" [3, 0] = .ok c' ∧
      List.Forall₂ (runningSum.CopyOf [0, 3]) [0, 3] c'.operators) ∧
      (¬∃ c', runningSum.removeOperators "kept" [3] = .ok c') ∧
      ∃ c', runningSum.removeDeadCode = .ok c' ∧ c'.removeDeadCode = .ok c' := by
  obtain ⟨hiff, hcopies, c', hdead, -, -, hagain⟩ := removeOperators_keeps built_runningSum
  have hread : runningSum.Resolves 1 0 := .noop rfl rfl rfl (.here rfl rfl)
  refine ⟨⟨_, rfl, hcopies "kept" [3, 0] _ rfl⟩, ?_, c', hdead, hagain⟩
  rw [hiff "kept" [3]]
  intro hsupported
  obtain ⟨j, hj, hresolves⟩ := hsupported 3 _ rfl rfl (List.mem_singleton_self _) 1
    (List.mem_singleton_self _)
  obtain rfl := hread.unique hresolves
  cases List.mem_singleton.mp hj

end DeltaCircuit.Circuit
