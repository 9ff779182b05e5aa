import DeltaCircuit.Plan.Lowering
import DeltaCircuit.Proofs.Circuit.Trace

/-!
# Streams of lowered operators

In one step the outputs of all operators make up a row. Once the row is there, the order in which
the operators have run does not matter any more: the stream of an operator without a state is what
its kind makes of the streams that it reads. What a plan means is therefore a fact about the streams
of the operators that it is lowered to, and lowering only ever appends operators.

* `Circuit.Fills` — a row in which the streams from a place on are as their operators say.
* `fills_of_runOperators` — operators that run fill a row.
* `Circuit.Extends`, `Lower.Extending` — circuits, and steps of lowering, that append operators.
* `Circuit.HasOperator`, `Circuit.Fills.transform`, `Circuit.Fills.join`, `Circuit.Fills.sum` — the
  streams of operators by their kinds.
* `Lower.stream_transform`, `Lower.stream_join`, `Lower.stream_distinct`, `Lower.stream_sum`,
  `Lower.stream_subtract`, `Lower.stream_constant` — the streams of appended operators.
-/

namespace DeltaCircuit

open ExceptT (gives_bind gives_pure gives_throw)

/-! ### Rows -/

/-- From a place on, the row holds a stream for every operator of the circuit, and it is what the
operator gives on the other streams of the row. Operators that keep a state are left open. -/
def Circuit.Fills (c : Circuit) (n : Nat) (tables : Tables) (row : Row) : Prop :=
  ∀ (id : Nat) op, n ≤ id → c.get? id = some op → ∃ z, row[id]? = some z ∧
    (op.kind ≠ .integral → op.kind ≠ .differential → op.statelessOutput ⟨row, tables⟩ id = .ok z)

/-- A circuit that has the operators of another one in front. -/
def Circuit.Extends (c c' : Circuit) : Prop := c'.operators <+: c.operators

variable {c c' c'' : Circuit} {tables : Tables} {row outputs : Row} {state state' : RunState}

theorem Circuit.Extends.refl (c : Circuit) : c.Extends c := List.prefix_rfl

theorem Circuit.Extends.trans (h : c''.Extends c') (h' : c'.Extends c) : c''.Extends c :=
  List.IsPrefix.trans h' h

theorem Circuit.extends_push (c : Circuit) (op : Operator) : (c.push op).Extends c :=
  List.prefix_append _ _

theorem Circuit.Extends.size_le (h : c'.Extends c) : c.size ≤ c'.size := List.IsPrefix.length_le h

theorem Circuit.Extends.get? {id : Nat} {op : Operator} (h : c'.Extends c)
    (hget : c.get? id = some op) : c'.get? id = some op := by
  obtain ⟨more, hmore⟩ := h
  rw [Circuit.get?, ← hmore, List.getElem?_append_left (Circuit.lt_size_of_get? hget)]
  exact hget

/-- A row that is filled is filled between any two places. -/
theorem Circuit.Fills.mono {n m : Nat} (h : c'.Fills n tables row) (hle : n ≤ m)
    (hextends : c'.Extends c) : c.Fills m tables row :=
  fun id op hid hget => h id op (Nat.le_trans hle hid) (hextends.get? hget)

/-- Streams at the front of a row are streams of the row. -/
theorem getElem?_of_front {i : OperatorId} {z : ZSet} (hfront : outputs <+: row)
    (hi : outputs[i]? = some z) : row[i]? = some z := by
  obtain ⟨hlt, rfl⟩ := List.getElem?_eq_some_iff.mp hi
  exact List.prefix_iff_getElem?.mp hfront i hlt

/-- An operator without a state gives its stateless output. -/
theorem Operator.output_eq_ok_stateless {op : Operator} {s : Streams} {id : Nat} {z : ZSet}
    (h : op.output s id state = (.ok z, state')) (hintegral : op.kind ≠ .integral)
    (hdifferential : op.kind ≠ .differential) : op.statelessOutput s id = .ok z := by
  unfold Operator.output at h
  cases hstateless : op.statelessOutput s id with
  | error e =>
    rw [hstateless] at h
    cases (Prod.mk.inj h).1
  | ok out =>
    rw [hstateless] at h
    dsimp only at h
    split at h
    · -- the first two kinds keep a state
      exact absurd ‹_› hintegral
    · exact absurd ‹_› hdifferential
    · exact (Prod.mk.inj h).1

/-- What an operator gives does not change when streams are put behind those it could read. -/
theorem Operator.statelessOutput_of_prefix {op : Operator} {id : Nat} {z : ZSet}
    (hrow : outputs <+: row) (h : op.statelessOutput ⟨outputs, tables⟩ id = .ok z) :
    op.statelessOutput ⟨row, tables⟩ id = .ok z := by
  have hslot : ∀ n x, op.slot outputs n = some x → op.slot row n = some x := by
    intro n x hx
    obtain ⟨input, hinput, hx⟩ := Option.bind_eq_some_iff.mp hx
    exact Option.bind_eq_some_iff.mpr ⟨input, hinput, getElem?_of_front hrow hx⟩
  have hreads : op.ReadsLike op ⟨outputs, tables⟩ ⟨row, tables⟩ :=
    ⟨rfl, rfl, rfl, hslot, fun _ _ => rfl⟩
  exact hreads.statelessOutput h

/-- Operators that run put one stream each behind the streams in front of them. -/
theorem runOperators_eq_ok {ops : List (OperatorId × Operator)}
    (h : runOperators tables ops outputs state = (.ok row, state')) :
    ∃ streams, row = outputs ++ streams ∧ List.Forall₂ (fun (entry : OperatorId × Operator) z =>
      entry.2.kind ≠ .integral → entry.2.kind ≠ .differential →
        entry.2.statelessOutput ⟨row, tables⟩ entry.1 = .ok z) ops streams := by
  induction ops generalizing outputs state with
  | nil =>
    obtain ⟨hrow, -⟩ := Prod.mk.inj h
    exact ⟨[], by rw [List.append_nil, Except.ok.inj hrow], .nil⟩
  | cons entry ops ih =>
    obtain ⟨id, op⟩ := entry
    rw [runOperators] at h
    split at h
    · next z next hout =>
      obtain ⟨streams, hrow, hstreams⟩ := ih h
      refine ⟨z :: streams, by rw [hrow, List.append_assoc, List.singleton_append], ?_⟩
      refine .cons (fun hintegral hdifferential => ?_) hstreams
      -- an operator that has seen the front of the row has seen all it reads
      have hfront : outputs <+: row := ⟨[z] ++ streams, by rw [hrow, List.append_assoc]⟩
      exact Operator.statelessOutput_of_prefix hfront
        (Operator.output_eq_ok_stateless hout hintegral hdifferential)
    · cases (Prod.mk.inj h).1

/-- **Runs.** Operators that run from a place on fill the row behind the streams that were there. -/
theorem fills_of_runOperators {n : Nat} (hlength : outputs.length = n)
    (h : runOperators tables (c.numbered.drop n) outputs state = (.ok row, state')) :
    outputs <+: row ∧ c.Fills n tables row := by
  obtain ⟨streams, hrow, hstreams⟩ := runOperators_eq_ok h
  refine ⟨⟨streams, hrow.symm⟩, fun id op hle hget => ?_⟩
  -- place `n + k` of the circuit is place `k` among the operators that run
  obtain ⟨k, rfl⟩ := Nat.exists_eq_add_of_le hle
  have hentry : (c.numbered.drop n)[k]? = some (n + k, op) := by
    rw [List.getElem?_drop, Circuit.getElem?_numbered, hget]
    rfl
  rcases hstreams.getElem? k with ⟨hnone, -⟩ | ⟨entry, z, hsome, hz, hstream⟩
  · cases hentry.symm.trans hnone
  · obtain rfl := Option.some.inj (hentry.symm.trans hsome)
    refine ⟨z, ?_, hstream⟩
    rw [hrow, List.getElem?_append_right (by omega), hlength, Nat.add_sub_cancel_left]
    exact hz

/-! ### Streams of a filled row -/

/-- The circuit has an operator of a kind at a place, with its inputs and its function. -/
def Circuit.HasOperator (c : Circuit) (id : Nat) (kind : OperatorKind) (inputs : List OperatorId)
    (function : Option Expr) : Prop :=
  ∃ op, c.get? id = some op ∧ op.kind = kind ∧ op.inputs = inputs ∧ op.function = function

/-- What an operator reads is the stream at its input. -/
theorem slot_eq_some_iff {op : Operator} {i : OperatorId} {n : Nat} {z : ZSet}
    (hinput : op.inputs[n]? = some i) : op.slot row n = some z ↔ row[i]? = some z := by
  rw [Operator.slot, hinput, Option.bind_some]

/-- What an operator that applies a function to one stream makes of the stream. -/
def OperatorKind.transform? : OperatorKind → Option (ZSet → Expr → Except EvalError ZSet)
  | .map _ => some ZSet.map
  | .filter => some ZSet.filterBy
  | .index _ _ => some ZSet.index
  | .aggregate _ _ => some ZSet.aggregate
  | _ => none

namespace Circuit.Fills

variable {n : Nat} {id i j : OperatorId} {kind : OperatorKind} {inputs : List OperatorId}
  {function : Option Expr} {f : Expr}

section

variable (hrow : c.Fills n tables row) (hle : n ≤ id)

include hrow hle

/-- The stream of an operator without a state is what the operator makes. -/
theorem makes (h : c.HasOperator id kind inputs function) (hintegral : kind ≠ .integral)
    (hdifferential : kind ≠ .differential) :
    ∃ (op : Operator) (out : ZSet), op.inputs = inputs ∧ op.function = function ∧
      row[id]? = some out ∧ op.Makes ⟨row, tables⟩ kind out := by
  obtain ⟨op, hop, rfl, rfl, rfl⟩ := h
  obtain ⟨out, hout, hstateless⟩ := hrow id op hle hop
  exact ⟨op, out, rfl, rfl, hout,
    Operator.statelessOutput_eq_ok.mp (hstateless hintegral hdifferential)⟩

/-- The stream of an operator that applies a function to the stream of its one input. -/
theorem transform {apply : ZSet → Expr → Except EvalError ZSet}
    (h : c.HasOperator id kind [i] (some f)) (hkind : kind.transform? = some apply) :
    ∃ z out, row[i]? = some z ∧ row[id]? = some out ∧ apply z f = .ok out := by
  -- no kind that keeps a state is one of these
  have hintegral : kind ≠ .integral := by
    rintro rfl
    cases hkind
  have hdifferential : kind ≠ .differential := by
    rintro rfl
    cases hkind
  obtain ⟨op, out, hinputs, hfunction, hout, hmade⟩ := hrow.makes hle h hintegral hdifferential
  have hread : op.inputs[0]? = some i := congrArg (·[0]?) hinputs
  cases hmade with
  | map hx hf hz | filter hx hf hz | index hx hf hz | aggregate hx hf hz =>
    obtain rfl := Option.some.inj hkind
    obtain rfl := Option.some.inj (hfunction.symm.trans hf)
    exact ⟨_, out, (slot_eq_some_iff hread).mp hx, hout, hz⟩
  | _ => cases hkind

/-- The stream of a join. -/
theorem join {keyType output : Ty} (h : c.HasOperator id (.join keyType output) [i, j] (some f)) :
    ∃ z z' out, row[i]? = some z ∧ row[j]? = some z' ∧ row[id]? = some out ∧
      z.join z' f = .ok out := by
  obtain ⟨op, out, hinputs, hfunction, hout, hmade⟩ := hrow.makes hle h nofun nofun
  cases hmade with
  | join hleft hright hf hz =>
    obtain rfl := Option.some.inj (hfunction.symm.trans hf)
    exact ⟨_, _, out, (slot_eq_some_iff (congrArg (·[0]?) hinputs)).mp hleft,
      (slot_eq_some_iff (congrArg (·[1]?) hinputs)).mp hright, hout, hz⟩

/-- The stream of the values of positive weight of another one. -/
theorem distinct (h : c.HasOperator id .distinct [i] function) :
    ∃ z, row[i]? = some z ∧ row[id]? = some z.distinct := by
  obtain ⟨op, out, hinputs, -, hout, hmade⟩ := hrow.makes hle h nofun nofun
  cases hmade with
  | distinct hx => exact ⟨_, (slot_eq_some_iff (congrArg (·[0]?) hinputs)).mp hx, hout⟩

/-- The stream of a difference. -/
theorem subtract (h : c.HasOperator id .subtract [i, j] function) :
    ∃ z z' out, row[i]? = some z ∧ row[j]? = some z' ∧ row[id]? = some out ∧
      z.difference z' = .ok out := by
  obtain ⟨op, out, hinputs, -, hout, hmade⟩ := hrow.makes hle h nofun nofun
  cases hmade with
  | subtract hleft hright hz =>
    exact ⟨_, _, out, (slot_eq_some_iff (congrArg (·[0]?) hinputs)).mp hleft,
      (slot_eq_some_iff (congrArg (·[1]?) hinputs)).mp hright, hout, hz⟩

/-- The stream of a sum. -/
theorem sum {zs : List ZSet} (h : c.HasOperator id .sum inputs function)
    (hinputs : List.Forall₂ (fun (i : Nat) z => row[i]? = some z) inputs zs) :
    ∃ out, row[id]? = some out ∧ ZSet.accumulate zs = .ok out := by
  obtain ⟨op, out, rfl, -, hout, hmade⟩ := hrow.makes hle h nofun nofun
  cases hmade with
  | @sum xs _ hxs hz =>
    -- place by place, what the operator reads is the stream of the input
    have hsame : zs = xs := by
      have hlength : op.inputs.length = xs.length := by rw [← hxs.length_eq, List.length_range]
      refine List.ext_get (hinputs.length_eq.symm.trans hlength) fun n hn hn' => ?_
      have hlt : n < op.inputs.length := hlength ▸ hn'
      have hx := hxs.get (by rwa [List.length_range]) hn'
      rw [List.get_eq_getElem, List.getElem_range,
        slot_eq_some_iff (List.getElem?_eq_getElem hlt)] at hx
      exact Option.some.inj ((hinputs.get hlt hn).symm.trans hx)
    exact ⟨out, hout, hsame ▸ hz⟩

/-- The stream of a constant. -/
theorem constant {literal : ZSetLiteral}
    (h : c.HasOperator id (.constant literal) inputs function) :
    ∃ out, row[id]? = some out ∧ literal.contents = .ok out := by
  obtain ⟨op, out, -, -, hout, hmade⟩ := hrow.makes hle h nofun nofun
  cases hmade with
  | constant hz => exact ⟨out, hout, hz⟩

end

end Circuit.Fills

/-! ### Steps of lowering -/

namespace Lower

variable {α β : Type} {t t' : Lowering} {id i j : OperatorId} {kind : OperatorKind}
  {inputs : List OperatorId} {function : Option Expr} {f : Expr} {z z' : ZSet}

/-- A step of lowering that does nothing to the circuit but append operators. -/
def Extending (x : Lower α) : Prop := ∀ t a t', x.Gives t a t' → t'.circuit.Extends t.circuit

theorem gives_ofExcept {result : Except CompileError α} {a : α} :
    (ofExcept result).Gives t a t' ↔ result = .ok a ∧ t = t' := by
  rw [ExceptT.Gives, ofExcept, Prod.mk.injEq]

/-- A result that needs no circuit comes before the rest. -/
theorem gives_ofExcept_bind {result : Except CompileError α} {g : α → Lower β} {b : β} :
    (ofExcept result >>= g).Gives t b t' ↔ ∃ a, result = .ok a ∧ (g a).Gives t b t' := by
  simp only [gives_bind, gives_ofExcept]
  constructor
  · rintro ⟨a, _, ⟨ha, rfl⟩, hb⟩
    exact ⟨a, ha, hb⟩
  · rintro ⟨a, ha, hb⟩
    exact ⟨a, t, ⟨ha, rfl⟩, hb⟩

theorem gives_append (h : (append (·.build kind inputs function)).Gives t id t') :
    id = t.circuit.size ∧ ∃ op : Operator, op.kind = kind ∧ op.inputs = inputs ∧
      op.function = function ∧ t' = { t with circuit := t.circuit.push op } := by
  unfold ExceptT.Gives append at h
  split at h
  · next circuit found hbuild =>
    obtain ⟨type, multiset, -, hr⟩ := Circuit.build_eq_ok.mp hbuild
    obtain ⟨rfl, rfl⟩ := Prod.mk.inj hr
    obtain ⟨hid, rfl⟩ := Prod.mk.inj h
    exact ⟨(Except.ok.inj hid).symm, _, rfl, rfl, rfl, rfl⟩
  · cases (Prod.mk.inj h).1

/-- A scan gives the source of its table. -/
theorem gives_scan {table : String} {schema : Schema} (h : (scan table schema).Gives t id t') :
    t' = t ∧ ∃ found, Assoc.get? t.tables table = some found ∧
      found.schema.rowType = schema.rowType ∧ id = found.source := by
  unfold scan at h
  obtain ⟨_, _, hget, h⟩ := gives_bind.mp h
  obtain ⟨hstate, rfl⟩ := Prod.mk.inj hget
  obtain rfl := Except.ok.inj hstate
  split at h
  · exact (gives_throw.mp h).elim
  · next found hfound =>
    split at h
    · next hsame =>
      obtain ⟨rfl, rfl⟩ := gives_pure.mp h
      exact ⟨rfl, found, hfound, hsame, rfl⟩
    · exact (gives_throw.mp h).elim

theorem extending_pure {a : α} : Extending (pure a) := by
  intro t b t' h
  obtain ⟨-, rfl⟩ := gives_pure.mp h
  exact .refl _

theorem extending_ofExcept {result : Except CompileError α} : Extending (ofExcept result) := by
  intro t a t' h
  obtain ⟨-, rfl⟩ := gives_ofExcept.mp h
  exact .refl _

theorem extending_append : Extending (append (·.build kind inputs function)) := by
  intro t id t' h
  obtain ⟨-, op, -, -, -, rfl⟩ := gives_append h
  exact t.circuit.extends_push op

theorem Extending.bind {x : Lower α} {g : α → Lower β} (hx : Extending x)
    (hg : ∀ a, Extending (g a)) : Extending (x >>= g) := by
  intro t b t' h
  obtain ⟨a, middle, ha, hb⟩ := gives_bind.mp h
  exact (hg a middle b t' hb).trans (hx t a middle ha)

theorem extending_foldlM {step : β → α → Lower β} (hstep : ∀ b a, Extending (step b a))
    (as : List α) (init : β) : Extending (as.foldlM step init) := by
  induction as generalizing init with
  | nil => exact extending_pure
  | cons a as ih =>
    rw [List.foldlM_cons]
    exact (hstep init a).bind ih

/-- A row function is compiled and an operator with it is appended. -/
theorem extending_withFunction {result : Except CompileError Expr} :
    Extending (do append (·.build kind inputs (some (← ofExcept result)))) :=
  extending_ofExcept.bind fun _ => extending_append

/-! ### Streams of appended operators -/

/-- The operator that is appended is the last one. -/
theorem hasOperator_append (h : (append (·.build kind inputs function)).Gives t id t') :
    t.circuit.size ≤ id ∧ t'.circuit.HasOperator id kind inputs function := by
  obtain ⟨rfl, op, hkind, hinputs, hfunction, rfl⟩ := gives_append h
  exact ⟨Nat.le_refl _, op, Circuit.get?_push_size _ _, hkind, hinputs, hfunction⟩

/-- The stream of an operator that applies a function to the stream of its one input. -/
theorem stream_transform {apply : ZSet → Expr → Except EvalError ZSet}
    (hkind : kind.transform? = some apply) (hrow : t'.circuit.Fills t.circuit.size tables row)
    (h : (append (·.build kind [i] (some f))).Gives t id t') (hi : row[i]? = some z) :
    ∃ out, row[id]? = some out ∧ apply z f = .ok out := by
  obtain ⟨hle, hop⟩ := hasOperator_append h
  obtain ⟨_, out, hz, hout, happly⟩ := hrow.transform hle hop hkind
  obtain rfl := Option.some.inj (hi.symm.trans hz)
  exact ⟨out, hout, happly⟩

/-- The stream of a join. -/
theorem stream_join {keyType output : Ty} (hrow : t'.circuit.Fills t.circuit.size tables row)
    (h : (append (·.addJoin i j f keyType output)).Gives t id t') (hi : row[i]? = some z)
    (hj : row[j]? = some z') : ∃ out, row[id]? = some out ∧ z.join z' f = .ok out := by
  obtain ⟨hle, hop⟩ := hasOperator_append h
  obtain ⟨_, _, out, hz, hz', hout, hjoin⟩ := hrow.join hle hop
  obtain rfl := Option.some.inj (hi.symm.trans hz)
  obtain rfl := Option.some.inj (hj.symm.trans hz')
  exact ⟨out, hout, hjoin⟩

/-- The stream of the values of positive weight of another one. -/
theorem stream_distinct (hrow : t'.circuit.Fills t.circuit.size tables row)
    (h : (append (·.addUnary .distinct i)).Gives t id t') (hi : row[i]? = some z) :
    row[id]? = some z.distinct := by
  obtain ⟨hle, hop⟩ := hasOperator_append h
  obtain ⟨_, hz, hout⟩ := hrow.distinct hle hop
  obtain rfl := Option.some.inj (hi.symm.trans hz)
  exact hout

/-- The stream of a difference. -/
theorem stream_subtract (hrow : t'.circuit.Fills t.circuit.size tables row)
    (h : (append (·.addSubtract i j)).Gives t id t') (hi : row[i]? = some z)
    (hj : row[j]? = some z') : ∃ out, row[id]? = some out ∧ z.difference z' = .ok out := by
  obtain ⟨hle, hop⟩ := hasOperator_append h
  obtain ⟨_, _, out, hz, hz', hout, hdifference⟩ := hrow.subtract hle hop
  obtain rfl := Option.some.inj (hi.symm.trans hz)
  obtain rfl := Option.some.inj (hj.symm.trans hz')
  exact ⟨out, hout, hdifference⟩

/-- The stream of a sum. -/
theorem stream_sum {zs : List ZSet} (hrow : t'.circuit.Fills t.circuit.size tables row)
    (h : (append (·.addSum inputs)).Gives t id t')
    (hinputs : List.Forall₂ (fun (i : Nat) z => row[i]? = some z) inputs zs) :
    ∃ out, row[id]? = some out ∧ ZSet.accumulate zs = .ok out := by
  obtain ⟨hle, hop⟩ := hasOperator_append h
  exact hrow.sum hle hop hinputs

/-- The stream of a constant. -/
theorem stream_constant {literal : ZSetLiteral}
    (hrow : t'.circuit.Fills t.circuit.size tables row)
    (h : (append (·.addConstant literal)).Gives t id t') :
    ∃ out, row[id]? = some out ∧ literal.contents = .ok out := by
  obtain ⟨hle, hop⟩ := hasOperator_append h
  exact hrow.constant hle hop

end Lower
end DeltaCircuit
