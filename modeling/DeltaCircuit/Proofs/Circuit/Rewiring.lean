import DeltaCircuit.Circuit.Rewiring
import DeltaCircuit.Proofs.Assoc
import DeltaCircuit.Proofs.Circuit.Construction

/-!
# Rewirings step by step

Every step of a rewiring that goes through is described by one equation (`keep_eq`, `replace_eq`
and so on), and a whole pass by an invariant that holds after every operator (`run_induction`) or up
to the one at which the pass fails (`run_eq_error`).

* `Rewiring.Follows` — the part of the invariant that all passes share: the output is a circuit
  that could have been built by hand, every operator that stands for an old one gives the same
  type, and as long as nothing has changed the output is the front of the old circuit.
* `Rewiring.Follows.keep`, `Rewiring.Follows.append`, `Rewiring.Follows.mapOld` — steps that keep
  it.
* `Rewiring.Follows.finish_eq` — the result of a pass is its output.
-/

namespace DeltaCircuit.Rewiring

variable {r r' : Rewiring} {α β : Type}

/-! ### Sequences of steps -/

/-- A step that goes through hands on its result and its state. -/
theorem bind_eq {x : Rewire α} {f : α → Rewire β} {a : α} (h : x r = (.ok a, r')) :
    (x >>= f) r = f a r' :=
  ExceptT.bind_run_ok h

theorem bind_eq_error {x : Rewire α} {f : α → Rewire β} {e : CircuitError}
    (h : x r = (.error e, r')) : (x >>= f) r = (.error e, r') :=
  ExceptT.bind_run_error h

theorem get_bind {f : Rewiring → Rewire β} : ((get : Rewire Rewiring) >>= f) r = f r r := rfl

theorem modify_bind {g : Rewiring → Rewiring} {f : PUnit → Rewire β} :
    ((modify g : Rewire PUnit) >>= f) r = f ⟨⟩ (g r) := rfl

theorem markChanged_bind {f : Unit → Rewire β} :
    (markChanged >>= f) r = f () { r with changed := true } := rfl

theorem discard_eq {x : Rewire α} {a : α} (h : x r = (.ok a, r')) :
    (discard x : Rewire Unit) r = (.ok (), r') :=
  ExceptT.discard_run_ok h

/-! ### The single steps -/

section Steps

variable {op : Operator} {old new : Nat} {c : Circuit} {inputs : List OperatorId}

theorem onOutput_eq {build : Circuit → Except CircuitError (Circuit × OperatorId)}
    (h : build r.output = .ok (c, new)) :
    onOutput build r = (.ok new, { r with output := c }) := by
  unfold onOutput
  rw [get_bind, h]
  rfl

theorem keep_eq (hinputs : r.mapInputs op .inputDropped = .ok inputs)
    (h : r.output.insert (op.withInputs inputs) = .ok (c, new)) :
    Rewiring.keep old op r =
      (.ok new, ⟨c, Assoc.set r.mapping old new, r.force,
        r.changed || (r.force || inputs ≠ op.inputs || old ≠ r.output.size)⟩) := by
  unfold Rewiring.keep
  rw [get_bind]
  simp only [hinputs]
  -- a change is marked first, and the operator is inserted either way
  by_cases hchange : r.force || inputs ≠ op.inputs || old ≠ r.output.size
  · rw [if_pos hchange, markChanged_bind, bind_eq (onOutput_eq h), modify_bind, hchange,
      Bool.or_true]
    rfl
  · rw [if_neg hchange, bind_eq (onOutput_eq h), modify_bind, Bool.eq_false_iff.mpr hchange,
      Bool.or_false]
    rfl

theorem replace_eq (h : r.output.insert op = .ok (c, new)) :
    replace old op r = (.ok new, ⟨c, Assoc.set r.mapping old new, r.force, true⟩) := by
  unfold replace
  rw [bind_eq (onOutput_eq h), markChanged_bind, modify_bind]
  rfl

theorem splice_eq {input : Nat} {rest : List OperatorId} (hinputs : op.inputs = input :: rest)
    (h : r.mapped? input = some new) :
    splice old op r = (.ok new, ⟨r.output, Assoc.set r.mapping old new, r.force, true⟩) := by
  unfold splice
  simp only [hinputs]
  rw [get_bind, h]
  rfl

theorem drop_eq :
    drop old r = (.ok (), ⟨r.output, Assoc.erase r.mapping old, r.force, true⟩) := rfl

theorem mapTo_eq (h : r.changed = true) : mapTo old new r = (.ok (), r.mapOld old new) := by
  -- the rewiring is marked already, so it does not matter whether the mapping changes
  have hsame : { r.mapOld old new with changed := r.changed || r.mapped? old ≠ some new } =
      r.mapOld old new := by
    rw [h, Bool.true_or, ← h]
    rfl
  rw [← hsame]
  rfl

theorem extend_eq {build : Circuit → Except CircuitError (Circuit × OperatorId)}
    (h : build r.output = .ok (c, new)) :
    extend build r = (.ok new, ⟨c, r.mapping, r.force, true⟩) := by
  unfold extend
  rw [markChanged_bind]
  exact onOutput_eq (r := { r with changed := true }) h

theorem mapInputs_eq_ok {defect : OperatorId → Defect} :
    r.mapInputs op defect = .ok inputs ↔
      List.Forall₂ (fun input new => r.mapped? input = some new) op.inputs inputs := by
  unfold mapInputs
  rw [List.mapM_eq_ok]
  constructor
  · intro h
    refine h.imp fun input new hnew => ?_
    split at hnew
    · next hmapped => rw [hmapped, Except.ok.inj hnew]
    · cases hnew
  · intro h
    refine h.imp fun input new hnew => ?_
    rw [hnew]

end Steps

/-! ### A whole pass -/

variable {c : Circuit}

/-- **Passes by induction.** What holds at the start and is kept by the step for every operator in
front of a place holds when the pass comes to this place. -/
theorem reaches {step : Nat → Operator → Rewire Unit} (Inv : Nat → Rewiring → Prop)
    (hstart : Inv 0 r) {n : Nat} (hn : n ≤ c.size)
    (hstep : ∀ i op r, i < n → c.get? i = some op → Inv i r →
      ∃ r', step i op r = (.ok (), r') ∧ Inv (i + 1) r') :
    ∃ r', Inv n r' ∧ (c.numbered.forM fun (id, op) => step id op : Rewire Unit) r =
      ((c.numbered.drop n).forM fun (id, op) => step id op : Rewire Unit) r' := by
  induction n with
  | zero => exact ⟨r, hstart, by rw [List.drop_zero]⟩
  | succ n ih =>
    obtain ⟨before, hbefore, hrun⟩ :=
      ih (Nat.le_of_succ_le hn) fun i op r hi => hstep i op r (Nat.lt_succ_of_lt hi)
    obtain ⟨op, hop⟩ := Circuit.exists_get?_of_lt hn
    obtain ⟨after, hafter, hinv⟩ := hstep n op before (Nat.lt_succ_self n) hop hbefore
    exact ⟨after, hinv, by rw [hrun, Circuit.drop_numbered hop, List.forM, bind_eq hafter]⟩

/-- An invariant of all steps holds at the end, and the pass goes through. -/
theorem run_induction {step : Nat → Operator → Rewire Unit} (Inv : Nat → Rewiring → Prop)
    (hstart : Inv 0 (start c.name false))
    (hstep : ∀ n op r, c.get? n = some op → Inv n r →
      ∃ r', step n op r = (.ok (), r') ∧ Inv (n + 1) r') :
    ∃ r, Inv c.size r ∧
      Rewiring.run c.name (c.numbered.forM fun (id, op) => step id op) c = .ok (r.finish c) := by
  obtain ⟨r, hr, hrun⟩ := reaches Inv hstart (Nat.le_refl _) fun i op r _ => hstep i op r
  refine ⟨r, hr, ?_⟩
  rw [Circuit.drop_numbered_size] at hrun
  rw [Rewiring.run, hrun]
  rfl

/-- A pass fails at the first operator whose step fails. -/
theorem run_eq_error {step : Nat → Operator → Rewire Unit} (Inv : Nat → Rewiring → Prop)
    (hstart : Inv 0 (start c.name false)) {n : Nat} {op : Operator} (hop : c.get? n = some op)
    (hstep : ∀ i op r, i < n → c.get? i = some op → Inv i r →
      ∃ r', step i op r = (.ok (), r') ∧ Inv (i + 1) r')
    (hfail : ∀ r, Inv n r → ∃ e, step n op r = (.error e, r)) :
    ∃ e, Rewiring.run c.name (c.numbered.forM fun (id, op) => step id op) c = .error e := by
  obtain ⟨r, hr, hrun⟩ := reaches Inv hstart (Nat.le_of_lt (Circuit.lt_size_of_get? hop)) hstep
  obtain ⟨e, he⟩ := hfail r hr
  rw [Circuit.drop_numbered hop, List.forM, bind_eq_error he] at hrun
  exact ⟨e, by rw [Rewiring.run, hrun]⟩

/-! ### The shared invariant -/

/-- **What all passes keep**, after the first operators of the old circuit. -/
structure Follows (c : Circuit) (n : Nat) (r : Rewiring) : Prop where
  built : r.output.Built
  name_eq : r.output.name = c.name
  force_eq : r.force = false
  /-- As long as nothing has changed, the output is the front of the old circuit. -/
  unchanged : r.changed = false → r.output.operators = c.operators.take n
  /-- Nothing stands for an operator that is still to come. -/
  ahead : ∀ i, n ≤ i → r.mapped? i = none
  /-- What stands for an old operator gives a stream of the same type. -/
  stands : ∀ i new, r.mapped? i = some new →
    ∃ op op', c.get? i = some op ∧ r.output.get? new = some op' ∧ op.OutputsLike op'
  /-- The sources of the output are sources of the old circuit. -/
  sources : ∀ op' ∈ r.output.operators, ∀ table, op'.kind.table? = some table →
    ∃ op ∈ c.operators.take n, op.kind.table? = some table

namespace Follows

variable {n i new : Nat} {op op' : Operator} {inputs : List OperatorId}

theorem start (c : Circuit) : Follows c 0 (Rewiring.start c.name false) where
  built := .empty c.name
  name_eq := rfl
  force_eq := rfl
  unchanged _ := rfl
  ahead _ _ := rfl
  stands := by
    intro i new h
    cases h
  sources := by
    intro op' h
    cases h

theorem lt_of_mapped? (hr : Follows c n r) (h : r.mapped? i = some new) : i < n := by
  rcases Nat.lt_or_ge i n with hlt | hge
  · exact hlt
  · rw [hr.ahead i hge] at h
    cases h

/-- **The end of a pass.** The result is the output, whether or not anything has changed. -/
theorem finish_eq (hr : Follows c c.size r) : r.finish c = r.output := by
  unfold Rewiring.finish
  split
  · rfl
  · next h =>
    have hsame : r.changed = false := by
      rw [Bool.or_eq_true, not_or] at h
      exact Bool.eq_false_iff.mpr h.1
    -- nothing has changed, so the output is a front of the old circuit, and it is the whole
    have hoperators := hr.unchanged hsame
    rw [Circuit.size, List.take_length] at hoperators
    obtain ⟨⟨name, operators⟩, mapping, force, changed⟩ := r
    obtain rfl : name = c.name := hr.name_eq
    obtain rfl : operators = c.operators := hoperators
    rfl

/-! Each of the following says how far the invariant bears one change of a rewiring. -/

/-- An operator may be passed over. -/
theorem advance (hr : Follows c n r) (hchanged : r.changed = true) : Follows c (n + 1) r where
  built := hr.built
  name_eq := hr.name_eq
  force_eq := hr.force_eq
  unchanged h := by
    rw [hchanged] at h
    cases h
  ahead i hi := hr.ahead i (Nat.le_of_succ_le hi)
  stands := hr.stands
  sources := by
    intro op' hop' table htable
    obtain ⟨op, hop, h⟩ := hr.sources op' hop' table htable
    exact ⟨op, List.take_subset_take_left _ (Nat.le_succ n) hop, h⟩

/-- Anything may be marked as changed. -/
theorem touch (hr : Follows c n r) : Follows c n { r with changed := true } :=
  { hr with unchanged := fun h => nomatch h }

/-- An operator of a derived type may be appended. -/
theorem append (hr : Follows c n r) (op' : Operator)
    (hderive : r.output.derive op'.kind op'.inputs op'.function =
      .ok (op'.outputType, op'.isMultiset))
    (hsource : ∀ table, op'.kind.table? = some table →
      ∃ op ∈ c.operators.take n, op.kind.table? = some table) :
    Follows c n ⟨r.output.push op', r.mapping, r.force, true⟩ where
  built := hr.built.push hderive
  name_eq := hr.name_eq
  force_eq := hr.force_eq
  unchanged h := nomatch h
  ahead := hr.ahead
  stands := by
    intro i new h
    obtain ⟨op, old, hop, hold, hlike⟩ := hr.stands i new h
    exact ⟨op, old, hop, Circuit.get?_push_of_some hold, hlike⟩
  sources := by
    intro other hmem table htable
    rcases List.mem_append.mp hmem with hold | hlast
    · exact hr.sources other hold table htable
    · obtain rfl := List.mem_singleton.mp hlast
      exact hsource table htable

/-- A relay may be put behind an operator of the output. -/
theorem extend (hr : Follows c n r) (kind : OperatorKind) (hkind : kind.isRelay = true)
    {input : Nat} {other : Operator} (hother : r.output.get? input = some other) :
    ∃ r', Rewiring.extend (·.addUnary kind input) r = (.ok r.output.size, r') ∧
      r' = ⟨r.output.push (Circuit.relay kind input other), r.mapping, r.force, true⟩ ∧
      Follows c n r' := by
  have hderive := Circuit.derive_relay hkind hother
  refine ⟨_, extend_eq (Circuit.addUnary_relay hkind hother), rfl, ?_⟩
  refine hr.append (Circuit.relay kind input other) hderive fun table htable => ?_
  cases kind with
  | source _ _ => cases hkind
  | _ => cases htable

/-- A new operator may stand for an old one of the same type. -/
theorem mapOld (hr : Follows c n r) (hchanged : r.changed = true) (hi : i < n)
    (hop : c.get? i = some op) (hnew : r.output.get? new = some op')
    (hlike : op.OutputsLike op') : Follows c n (r.mapOld i new) where
  built := hr.built
  name_eq := hr.name_eq
  force_eq := hr.force_eq
  unchanged h := by
    rw [show (r.mapOld i new).changed = true from hchanged] at h
    cases h
  ahead j hj := by
    show Assoc.get? (Assoc.set r.mapping i new) j = none
    rw [Assoc.get?_set_of_ne _ _ (Nat.ne_of_lt (Nat.lt_of_lt_of_le hi hj))]
    exact hr.ahead j hj
  stands := by
    intro j id h
    replace h : Assoc.get? (Assoc.set r.mapping i new) j = some id := h
    rw [Assoc.get?_set] at h
    split at h
    · next hij =>
      obtain rfl : new = id := Option.some.inj h
      exact ⟨op, op', hij ▸ hop, hnew, hlike⟩
    · exact hr.stands j id h
  sources := hr.sources

/-- **Operators move.** With inputs that stand for its own, an operator has the same type in the
output. -/
theorem derive_eq_ok (hr : Follows c n r) (hc : c.Built) (hop : c.get? n = some op)
    (hinputs : List.Forall₂ (fun input new => r.mapped? input = some new) op.inputs inputs) :
    r.output.derive op.kind inputs op.function = .ok (op.outputType, op.isMultiset) := by
  have hderive := hc.derive_take hop
  refine Circuit.derive_congr (hinputs.imp fun input new hnew => ?_) (fun table htable => ?_)
    hderive
  · obtain ⟨old, new', hold, hnew', hlike⟩ := hr.stands input new hnew
    exact ⟨old, new', (Circuit.get?_take_of_lt (hr.lt_of_mapped? hnew)).trans hold, hnew', hlike⟩
  · -- a source of the same table would have been refused in the old circuit
    have hfresh := Circuit.source?_eq_none.mp (Circuit.source?_eq_none_of_derive hderive htable)
    refine Circuit.source?_eq_none.mpr fun op' hop' heq => ?_
    obtain ⟨other, hother, hsame⟩ := hr.sources op' hop' table heq
    exact hfresh other hother hsame

/-- An operator of the same kind and type may be put in the place of the next one. -/
theorem put (hr : Follows c n r) (hop : c.get? n = some op) (hkind : op'.kind = op.kind)
    (hlike : op.OutputsLike op') (hderive : r.output.derive op'.kind op'.inputs op'.function =
      .ok (op'.outputType, op'.isMultiset)) :
    Follows c (n + 1)
      (Rewiring.mapOld ⟨r.output.push op', r.mapping, r.force, true⟩ n r.output.size) := by
  have hmem : op ∈ c.operators.take (n + 1) := by
    obtain ⟨hlt, rfl⟩ := List.getElem?_eq_some_iff.mp hop
    exact List.mem_take_iff_getElem.mpr ⟨n, by omega, rfl⟩
  have happend : Follows c (n + 1) ⟨r.output.push op', r.mapping, r.force, true⟩ :=
    (hr.touch.advance rfl).append op' hderive fun table htable => ⟨op, hmem, hkind ▸ htable⟩
  exact happend.mapOld rfl (Nat.lt_succ_self n) hop (Circuit.get?_push_size _ _) hlike

/-- **Replacing an operator** goes through if the new one has the same kind and type. -/
theorem replace (hr : Follows c n r) (hop : c.get? n = some op) (op' : Operator)
    (hkind : op'.kind = op.kind) (hlike : op.OutputsLike op')
    (hderive : r.output.derive op'.kind op'.inputs op'.function =
      .ok (op'.outputType, op'.isMultiset)) :
    ∃ r', Rewiring.replace n op' r = (.ok r.output.size, r') ∧
      r'.output = r.output.push op' ∧
      r'.mapping = Assoc.set r.mapping n r.output.size ∧ Follows c (n + 1) r' :=
  ⟨_, replace_eq (Circuit.insert_eq_ok.mpr ⟨hderive, rfl⟩), rfl, rfl,
    hr.put hop hkind hlike hderive⟩

/-- **Keeping an operator** goes through if something stands for each of its inputs. -/
theorem keep (hr : Follows c n r) (hc : c.Built) (hop : c.get? n = some op)
    (hinputs : List.Forall₂ (fun input new => r.mapped? input = some new) op.inputs inputs) :
    ∃ r', Rewiring.keep n op r = (.ok r.output.size, r') ∧
      r'.output = r.output.push (op.withInputs inputs) ∧
      r'.mapping = Assoc.set r.mapping n r.output.size ∧ Follows c (n + 1) r' := by
  have hderive := hr.derive_eq_ok hc hop hinputs
  have hinsert : r.output.insert (op.withInputs inputs) =
      .ok (r.output.push (op.withInputs inputs), r.output.size) :=
    Circuit.insert_eq_ok.mpr ⟨hderive, rfl⟩
  have hnext : Follows c (n + 1)
      (Rewiring.mapOld ⟨r.output.push (op.withInputs inputs), r.mapping, r.force, true⟩
        n r.output.size) :=
    hr.put hop rfl ⟨rfl, rfl⟩ hderive
  refine ⟨_, keep_eq (mapInputs_eq_ok.mpr hinputs) hinsert, rfl, rfl, ?_⟩
  refine { hnext with unchanged := fun hsame => ?_ }
  -- nothing has changed before, and the operator is connected as it was
  simp only [Bool.or_eq_false_iff, decide_eq_false_iff_not, not_not] at hsame
  obtain ⟨hbefore, ⟨-, rfl⟩, -⟩ := hsame
  obtain ⟨hlt, rfl⟩ := List.getElem?_eq_some_iff.mp hop
  rw [List.take_succ_eq_append_getElem hlt, ← hr.unchanged hbefore]
  rfl

end Follows
end DeltaCircuit.Rewiring
