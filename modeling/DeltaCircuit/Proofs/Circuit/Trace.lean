import DeltaCircuit.Circuit.Run
import DeltaCircuit.Proofs.Assoc
import DeltaCircuit.Proofs.Circuit.Construction
import DeltaCircuit.Proofs.ZSet

/-!
# Runs as traces

The state that integrals and differentials keep between steps is a function of what they have read
before. A run can therefore be told without a state: every step has a row, the outputs of all
operators in order, and an output is determined by the rows before it and by the outputs in front
of it in its own row.

* `Circuit.run` — the steps of a run, each with the outputs of the sinks.
* `Operator.outputAfter` — the output of an operator, from the rows of the steps before.
* `Operator.Makes`, `Operator.statelessOutput_eq_ok` — what an operator makes of what it reads,
  kind by kind.
* `Circuit.Emits`, `Circuit.Traces` — the rows of one step and of a run.
* `Operator.Recalls` — the invariant that ties the state to the rows.
* `Circuit.run_eq_ok_iff` — a run succeeds iff it has a trace.
* `Circuit.sinkOutputs_eq` — the outputs of a step, from the places of the sinks in the row.

Traces have no ids of operators in them other than the places in a row. This is what makes it
possible to compare circuits that number their operators differently.
-/

namespace DeltaCircuit

/-- Z-sets by the names of tables or sinks. -/
abbrev Tables := List (String × ZSet)

/-- The outputs of all operators in one step. -/
abbrev Row := List ZSet

/-! ### Runs -/

namespace Circuit

/-- The outputs of the sinks, step by step. The first step that fails ends the run. -/
def runFrom (c : Circuit) : RunState → List Tables → Except EvalError (List Tables)
  | _, [] => .ok []
  | state, tables :: inputs =>
    match c.step tables state with
    | (.ok outputs, state) => (c.runFrom state inputs).map (outputs :: ·)
    | (.error e, _) => .error e

/-- A run from the start. -/
def run (c : Circuit) (inputs : List Tables) : Except EvalError (List Tables) :=
  c.runFrom .start inputs

end Circuit

/-! ### Outputs without a state -/

namespace Operator

/-- What an operator reads at a position, in a row. -/
def slot (op : Operator) (row : Row) (n : Nat) : Option ZSet := op.inputs[n]?.bind (row[·]?)

/-- What an operator has read first in every row. -/
def history (op : Operator) (past : List Row) : List ZSet :=
  past.map fun row => (op.slot row 0).getD []

/-- The output of an operator after the rows of the steps before. -/
def outputAfter (op : Operator) (past : List Row) (s : Streams) (id : OperatorId) :
    Except EvalError ZSet := do
  let z ← op.statelessOutput s id
  match op.kind with
  | .integral => (← ZSet.accumulate (op.history past)).merge z 1
  | .differential =>
    match (op.history past).getLast? with
    | none => return z
    | some previous => z.merge previous (-1)
  | _ => return z

end Operator

namespace Circuit

/-- **One step.** The row holds what every operator gives after the rows before. -/
structure Emits (c : Circuit) (past : List Row) (tables : Tables) (row : Row) : Prop where
  length_eq : row.length = c.size
  output : ∀ (id : Nat) op z, c.get? id = some op → row[id]? = some z →
    op.outputAfter past ⟨row, tables⟩ id = .ok z

/-- **Many steps.** The rows of a run, after the rows before it. -/
inductive Traces (c : Circuit) : List Row → List Tables → List Row → Prop
  | nil {past : List Row} : Traces c past [] []
  | cons {past : List Row} {tables : Tables} {inputs : List Tables} {row : Row}
      {rows : List Row} : c.Emits past tables row → Traces c (past ++ [row]) inputs rows →
      Traces c past (tables :: inputs) (row :: rows)

end Circuit

namespace Operator

variable {op op' : Operator} {s s' : Streams} {id id' : Nat} {z : ZSet}

/-! ### What an operator makes of what it reads -/

theorem input_eq_ok {n : Nat} : s.input id op n = .ok z ↔ op.slot s.outputs n = some z := by
  unfold Streams.input slot
  split
  · next h => rw [h, Except.ok.injEq, Option.some.injEq]
  · next h => simp [h]

theorem requireFunction_eq_ok {f : Expr} :
    op.requireFunction id = .ok f ↔ op.function = some f := by
  unfold requireFunction
  cases op.function <;> simp

/-- **What an operator makes**, kind by kind, of its slots, its function and the tables. -/
inductive Makes (op : Operator) (s : Streams) : OperatorKind → ZSet → Prop
  | source {table : String} {element : Ty} :
    Makes op s (.source table element) ((Assoc.get? s.tables table).getD [])
  | constant {literal : ZSetLiteral} {z : ZSet} :
    literal.contents = .ok z → Makes op s (.constant literal) z
  | map {output : Ty} {f : Expr} {x z : ZSet} : op.slot s.outputs 0 = some x →
    op.function = some f → x.map f = .ok z → Makes op s (.map output) z
  | filter {f : Expr} {x z : ZSet} : op.slot s.outputs 0 = some x →
    op.function = some f → x.filterBy f = .ok z → Makes op s .filter z
  | index {key value : Ty} {f : Expr} {x z : ZSet} : op.slot s.outputs 0 = some x →
    op.function = some f → x.index f = .ok z → Makes op s (.index key value) z
  | aggregate {key output : Ty} {f : Expr} {x z : ZSet} : op.slot s.outputs 0 = some x →
    op.function = some f → x.aggregate f = .ok z → Makes op s (.aggregate key output) z
  | join {key output : Ty} {f : Expr} {left right z : ZSet} : op.slot s.outputs 0 = some left →
    op.slot s.outputs 1 = some right → op.function = some f → left.join right f = .ok z →
    Makes op s (.join key output) z
  | sum {xs : List ZSet} {z : ZSet} :
    List.Forall₂ (fun n x => op.slot s.outputs n = some x) (List.range op.inputs.length) xs →
    ZSet.accumulate xs = .ok z → Makes op s .sum z
  | subtract {left right z : ZSet} : op.slot s.outputs 0 = some left →
    op.slot s.outputs 1 = some right → left.difference right = .ok z → Makes op s .subtract z
  | negate {x z : ZSet} : op.slot s.outputs 0 = some x → ZSet.merge [] x (-1) = .ok z →
    Makes op s .negate z
  | distinct {x : ZSet} : op.slot s.outputs 0 = some x → Makes op s .distinct x.distinct
  | integral {x : ZSet} : op.slot s.outputs 0 = some x → Makes op s .integral x
  | differential {x : ZSet} : op.slot s.outputs 0 = some x → Makes op s .differential x
  | noop {x : ZSet} : op.slot s.outputs 0 = some x → Makes op s .noop x
  | sink {name query : String} {comment : Option String} {x : ZSet} :
    op.slot s.outputs 0 = some x → Makes op s (.sink name query comment) x

/-- What is merged position by position is what the positions hold. -/
theorem foldlM_input_eq_ok {ns : List Nat} {start : ZSet} :
    ns.foldlM (fun out n => do ZSet.merge out (← s.input id op n) 1) start = .ok z ↔
      ∃ xs, List.Forall₂ (fun n x => op.slot s.outputs n = some x) ns xs ∧
        xs.foldlM (fun sum x => sum.merge x 1) start = .ok z := by
  induction ns generalizing start with
  | nil => simp
  | cons n ns ih =>
    rw [List.foldlM_cons]
    simp only [Except.bind_eq_ok, input_eq_ok, ih]
    constructor
    · rintro ⟨next, ⟨x, hx, hnext⟩, xs, hxs, hrest⟩
      exact ⟨x :: xs, .cons hx hxs, Except.bind_eq_ok.mpr ⟨next, hnext, hrest⟩⟩
    · rintro ⟨_, _ | ⟨hx, hxs⟩, h⟩
      obtain ⟨next, hnext, hrest⟩ := Except.bind_eq_ok.mp h
      exact ⟨next, ⟨_, hx, hnext⟩, _, hxs, hrest⟩

theorem statelessOutput_eq_ok : op.statelessOutput s id = .ok z ↔ op.Makes s op.kind z := by
  unfold Operator.statelessOutput
  generalize op.kind = kind
  constructor
  · intro h
    cases kind with
    | source table element =>
      obtain rfl := Except.pure_eq_ok.mp h
      exact .source
    | constant literal => exact .constant h
    | sum =>
      obtain ⟨xs, hxs, hz⟩ := foldlM_input_eq_ok.mp h
      exact .sum hxs hz
    | join key output =>
      simp only [Except.bind_eq_ok, input_eq_ok, requireFunction_eq_ok] at h
      obtain ⟨right, hright, left, hleft, f, hf, hz⟩ := h
      exact .join hleft hright hf hz
    | subtract =>
      simp only [Except.bind_eq_ok, input_eq_ok] at h
      obtain ⟨left, hleft, copy, hcopy, right, hright, hz⟩ := h
      exact .subtract hleft hright (Except.bind_eq_ok.mpr ⟨copy, hcopy, hz⟩)
    | map output | filter | index key value | aggregate key output =>
      simp only [Except.bind_eq_ok, input_eq_ok, requireFunction_eq_ok] at h
      obtain ⟨x, hx, f, hf, hz⟩ := h
      constructor <;> assumption
    | negate =>
      simp only [Except.bind_eq_ok, input_eq_ok] at h
      obtain ⟨x, hx, hz⟩ := h
      exact .negate hx hz
    | distinct =>
      simp only [Except.bind_eq_ok, input_eq_ok, Except.pure_eq_ok] at h
      obtain ⟨x, hx, rfl⟩ := h
      exact .distinct hx
    | integral | differential | noop | sink name query comment =>
      constructor
      exact input_eq_ok.mp h
  · intro h
    cases h with
    | source => rfl
    | constant hz => exact hz
    | sum hxs hz => exact foldlM_input_eq_ok.mpr ⟨_, hxs, hz⟩
    | join hleft hright hf hz =>
      simp only [Except.bind_eq_ok, input_eq_ok, requireFunction_eq_ok]
      exact ⟨_, hright, _, hleft, _, hf, hz⟩
    | subtract hleft hright hz =>
      obtain ⟨copy, hcopy, hz⟩ := Except.bind_eq_ok.mp hz
      simp only [Except.bind_eq_ok, input_eq_ok]
      exact ⟨_, hleft, copy, hcopy, _, hright, hz⟩
    | map hx hf hz | filter hx hf hz | index hx hf hz | aggregate hx hf hz =>
      simp only [Except.bind_eq_ok, input_eq_ok, requireFunction_eq_ok]
      exact ⟨_, hx, _, hf, hz⟩
    | negate hx hz =>
      simp only [Except.bind_eq_ok, input_eq_ok]
      exact ⟨_, hx, hz⟩
    | distinct hx =>
      simp only [Except.bind_eq_ok, input_eq_ok]
      exact ⟨_, hx, rfl⟩
    | integral hx | differential hx | noop hx | sink hx => exact input_eq_ok.mpr hx

/-- Without a state, the rows of the steps before do not matter. -/
theorem outputAfter_eq_ok {past : List Row} (hintegral : op.kind ≠ .integral)
    (hdifferential : op.kind ≠ .differential) :
    op.outputAfter past s id = .ok z ↔ op.Makes s op.kind z := by
  rw [← @statelessOutput_eq_ok op s id z]
  unfold outputAfter
  split
  · next hkind => exact absurd hkind hintegral
  · next hkind => exact absurd hkind hdifferential
  · exact Eq.congr_left (bind_pure _)

/-! ### Operators that read the same -/

/-- Two operators do the same with what they read, and they read the same. -/
structure ReadsLike (op op' : Operator) (s s' : Streams) : Prop where
  kind : op'.kind = op.kind
  function : op'.function = op.function
  length_eq : op'.inputs.length = op.inputs.length
  slot : ∀ n z, op.slot s.outputs n = some z → op'.slot s'.outputs n = some z
  table : ∀ table, op.kind.table? = some table →
    (Assoc.get? s'.tables table).getD [] = (Assoc.get? s.tables table).getD []

/-- **Outputs move.** Operators that read the same give the same, wherever they stand. -/
theorem ReadsLike.statelessOutput (h : op.ReadsLike op' s s')
    (hz : op.statelessOutput s id = .ok z) : op'.statelessOutput s' id' = .ok z := by
  rw [statelessOutput_eq_ok] at hz ⊢
  rw [h.kind]
  generalize hkind : op.kind = kind at hz
  cases hz with
  | source =>
    rw [← h.table _ (by rw [hkind]; rfl)]
    exact .source
  | constant hz => exact .constant hz
  | map hx hf hz => exact .map (h.slot 0 _ hx) (h.function.trans hf) hz
  | filter hx hf hz => exact .filter (h.slot 0 _ hx) (h.function.trans hf) hz
  | index hx hf hz => exact .index (h.slot 0 _ hx) (h.function.trans hf) hz
  | aggregate hx hf hz => exact .aggregate (h.slot 0 _ hx) (h.function.trans hf) hz
  | join hleft hright hf hz =>
    exact .join (h.slot 0 _ hleft) (h.slot 1 _ hright) (h.function.trans hf) hz
  | sum hxs hz => exact .sum (h.length_eq ▸ hxs.imp h.slot) hz
  | subtract hleft hright hz => exact .subtract (h.slot 0 _ hleft) (h.slot 1 _ hright) hz
  | negate hx hz => exact .negate (h.slot 0 _ hx) hz
  | distinct hx => exact .distinct (h.slot 0 _ hx)
  | integral hx => exact .integral (h.slot 0 _ hx)
  | differential hx => exact .differential (h.slot 0 _ hx)
  | noop hx => exact .noop (h.slot 0 _ hx)
  | sink hx => exact .sink (h.slot 0 _ hx)

theorem ReadsLike.outputAfter {past past' : List Row} (h : op.ReadsLike op' s s')
    (hhistory : op'.history past' = op.history past)
    (hz : op.outputAfter past s id = .ok z) : op'.outputAfter past' s' id' = .ok z := by
  unfold Operator.outputAfter at hz ⊢
  rw [Except.bind_eq_ok] at hz ⊢
  obtain ⟨x, hx, hz⟩ := hz
  refine ⟨x, h.statelessOutput hx, ?_⟩
  rw [h.kind, hhistory]
  exact hz

/-- The outputs behind the inputs of an operator do not matter to it. -/
theorem slot_take {row : Row} {n : Nat} (h : ∀ i ∈ op.inputs, i < n) (k : Nat) :
    op.slot (row.take n) k = op.slot row k := by
  unfold slot
  cases hk : op.inputs[k]? with
  | none => rfl
  | some i => exact List.getElem?_take_of_lt (h i (List.mem_of_getElem? hk))

theorem readsLike_take (tables : Tables) (row : Row) {n : Nat} (h : ∀ i ∈ op.inputs, i < n) :
    op.ReadsLike op ⟨row, tables⟩ ⟨row.take n, tables⟩ ∧
      op.ReadsLike op ⟨row.take n, tables⟩ ⟨row, tables⟩ :=
  ⟨⟨rfl, rfl, rfl, fun k _ hx => (slot_take h k).trans hx, fun _ _ => rfl⟩,
    ⟨rfl, rfl, rfl, fun k _ hx => (slot_take h k).symm.trans hx, fun _ _ => rfl⟩⟩

theorem history_concat (past : List Row) (row : Row) :
    op.history (past ++ [row]) = op.history past ++ [(op.slot row 0).getD []] := by
  simp [history]

/-! ### The state of an operator -/

/-- **The invariant of the state.** It has kept the sum of what an integral has read, and the last
Z-set that a differential has read. -/
structure Recalls (op : Operator) (id : Nat) (history : List ZSet) (state : RunState) : Prop where
  integral : op.kind = .integral →
    ZSet.accumulate history = .ok ((Assoc.get? state.integrals id).getD [])
  differential : op.kind = .differential → Assoc.get? state.previous id = history.getLast?

theorem recalls_start (op : Operator) (id : Nat) : op.Recalls id [] .start :=
  ⟨fun _ => rfl, fun _ => rfl⟩

variable {past : List Row} {state state' : RunState}

/-- Integrals and differentials start from the one Z-set that they read. -/
theorem slot_of_statelessOutput (hkind : op.kind.isRelay = true)
    (h : op.statelessOutput s id = .ok z) : op.slot s.outputs 0 = some z := by
  rw [statelessOutput_eq_ok] at h
  generalize op.kind = kind at h hkind
  cases h with
  | integral hx | differential hx | noop hx | sink hx => exact hx
  | _ => cases hkind

/-- With a state that recalls the rows before, an operator gives what follows from these rows. -/
theorem Recalls.output_eq_ok (h : op.Recalls id (op.history past) state) :
    (op.output s id state).1 = .ok z ↔ op.outputAfter past s id = .ok z := by
  unfold Operator.output Operator.outputAfter
  cases hx : op.statelessOutput s id with
  | error e => simp [bind, Except.bind]
  | ok x =>
    cases hkind : op.kind with
    | integral =>
      simp only [Except.ok_bind, h.integral hkind, ZSet.merge_eq_ok, Except.map_eq_ok]
      rcases ZSet.mergeFrom _ 1 x with ⟨_ | ⟨⟩, sum⟩ <;> simp
    | differential =>
      simp only [Except.ok_bind, h.differential hkind]
      cases (op.history past).getLast? <;> simp
    | _ => simp

/-- The state recalls one more row after an operator has run. -/
theorem Recalls.output (h : op.Recalls id (op.history past) state)
    (hout : op.output s id state = (.ok z, state')) :
    op.Recalls id (op.history past ++ [(op.slot s.outputs 0).getD []]) state' := by
  unfold Operator.output at hout
  cases hx : op.statelessOutput s id with
  | error e =>
    rw [hx] at hout
    cases (Prod.mk.inj hout).1
  | ok x =>
    rw [hx] at hout
    constructor <;> intro hkind
    -- an integral adds what it has read, a differential remembers it
    · rw [slot_of_statelessOutput (by rw [hkind]; rfl) hx, ZSet.accumulate_concat,
        h.integral hkind, Except.ok_bind, ZSet.merge_eq_ok]
      simp only [hkind, Prod.mk.injEq, Except.map_eq_ok] at hout
      obtain ⟨⟨⟨⟩, hmerge, -⟩, rfl⟩ := hout
      rw [Assoc.get?_set_self, Option.getD_some, Option.getD_some, ← hmerge]
    · rw [slot_of_statelessOutput (by rw [hkind]; rfl) hx]
      simp only [hkind, Prod.mk.injEq] at hout
      obtain ⟨-, rfl⟩ := hout
      rw [Assoc.get?_set_self, Option.getD_some, List.getLast?_concat]

/-- **Frame.** An operator changes only what is kept for itself. -/
theorem Recalls.frame {other : Operator} {otherId : Nat} {history : List ZSet}
    {result : Except EvalError ZSet} (h : other.Recalls otherId history state)
    (hne : id ≠ otherId) (hout : op.output s id state = (result, state')) :
    other.Recalls otherId history state' := by
  have hkept : Assoc.get? state'.integrals otherId = Assoc.get? state.integrals otherId ∧
      Assoc.get? state'.previous otherId = Assoc.get? state.previous otherId := by
    unfold Operator.output at hout
    split at hout
    · obtain ⟨-, rfl⟩ := Prod.mk.inj hout
      exact ⟨rfl, rfl⟩
    · split at hout <;> obtain ⟨-, rfl⟩ := Prod.mk.inj hout
      · exact ⟨Assoc.get?_set_of_ne _ _ hne, rfl⟩
      · exact ⟨rfl, Assoc.get?_set_of_ne _ _ hne⟩
      · exact ⟨rfl, rfl⟩
  exact ⟨fun hkind => hkept.1 ▸ h.integral hkind, fun hkind => hkept.2 ▸ h.differential hkind⟩

end Operator

/-! ### Running operators in order -/

namespace Circuit

variable {c : Circuit} {past : List Row} {tables : Tables} {row : Row} {state state' : RunState}

/-- The state recalls, of every operator from a place on, what it has read before. -/
def RecallsFrom (c : Circuit) (n : Nat) (past : List Row) (state : RunState) : Prop :=
  ∀ (id : Nat) op, c.get? id = some op → n ≤ id → op.Recalls id (op.history past) state

theorem recallsFrom_start (c : Circuit) : c.RecallsFrom 0 [] .start :=
  fun id op _ _ => op.recalls_start id

/-- Past an operator that has run, the state still recalls what it did. -/
theorem RecallsFrom.next {n : Nat} {op : Operator} {s : Streams}
    {result : Except EvalError ZSet} (h : c.RecallsFrom n past state)
    (hout : op.output s n state = (result, state')) : c.RecallsFrom (n + 1) past state' := by
  intro id other hget hle
  exact (h id other hget (by omega)).frame (by omega) hout

/-- **Soundness of a step.** What the operators from a place on give is what follows from the rows
before, in a row that starts with the outputs in front of the place. -/
theorem emits_of_runOperators (hc : c.Ordered) {n : Nat} {outputs : Row}
    (hlength : outputs.length = n) (hn : n ≤ c.size) (hrecalls : c.RecallsFrom n past state)
    (hrun : runOperators tables (c.numbered.drop n) outputs state = (.ok row, state')) :
    outputs = row.take n ∧ row.length = c.size ∧
      ∀ (id : Nat) op z, n ≤ id → c.get? id = some op → row[id]? = some z →
        op.outputAfter past ⟨row, tables⟩ id = .ok z := by
  induction hk : c.size - n generalizing n outputs state with
  | zero =>
    obtain rfl : n = c.size := by omega
    rw [drop_numbered_size, runOperators] at hrun
    obtain ⟨⟨⟩, rfl⟩ := Prod.mk.inj hrun
    refine ⟨by rw [← hlength, List.take_length], hlength, fun id op z hle hget _ => ?_⟩
    exact absurd (lt_size_of_get? hget) (by omega)
  | succ k ih =>
    obtain ⟨op, hop⟩ := exists_get?_of_lt (c := c) (n := n) (by omega)
    rw [drop_numbered hop, runOperators] at hrun
    split at hrun
    · next z next hout =>
      have hlength' : (outputs ++ [z]).length = n + 1 := by simp [hlength]
      obtain ⟨htake, hsize, hrest⟩ :=
        ih hlength' (by omega) (hrecalls.next hout) hrun (by omega)
      have hfront : outputs = row.take n := by
        have htakes := congrArg (List.take n) htake
        rwa [List.take_left' hlength, List.take_take, Nat.min_eq_left (Nat.le_succ n)] at htakes
      have hz : row[n]? = some z := by
        rw [← List.getElem?_take_of_lt (Nat.lt_succ_self n), ← htake, ← hlength]
        simp
      refine ⟨hfront, hsize, fun id other x hle hget hx => ?_⟩
      rcases Nat.lt_or_ge n id with hlt | hge
      · exact hrest id other x hlt hget hx
      · obtain rfl : n = id := by omega
        obtain rfl := Option.some.inj (hop.symm.trans hget)
        obtain rfl := Option.some.inj (hz.symm.trans hx)
        -- the operator has seen the front of the row only, and reads nothing else
        have hafter := (hrecalls n op hop le_rfl).output_eq_ok.mp (congrArg Prod.fst hout)
        rw [hfront] at hafter
        exact (Operator.readsLike_take tables row (hc n op hop)).2.outputAfter rfl hafter
    · cases (Prod.mk.inj hrun).1

/-- **Completeness of a step.** If a row follows from the rows before, the operators from any place
on give the rest of it. Afterwards the state recalls the row as well, and it is as before for the
operators in front of the place. -/
theorem runOperators_of_emits (hc : c.Ordered) (hrow : c.Emits past tables row) {n : Nat}
    (hn : n ≤ c.size) (hrecalls : c.RecallsFrom n past state) :
    ∃ state', runOperators tables (c.numbered.drop n) (row.take n) state = (.ok row, state') ∧
      c.RecallsFrom n (past ++ [row]) state' ∧
      ∀ (op : Operator) (id : Nat) history, id < n → op.Recalls id history state →
        op.Recalls id history state' := by
  induction hk : c.size - n generalizing n state with
  | zero =>
    obtain rfl : n = c.size := by omega
    refine ⟨state, ?_, fun id op hget hle => ?_, fun op id history _ h => h⟩
    · rw [drop_numbered_size, runOperators, List.take_of_length_le hrow.length_eq.le]
    · exact absurd (lt_size_of_get? hget) (by omega)
  | succ k ih =>
    have hlt : n < row.length := by
      rw [hrow.length_eq]
      omega
    obtain ⟨op, hop⟩ := exists_get?_of_lt (c := c) (n := n) (by omega)
    have hz : row[n]? = some row[n] := List.getElem?_eq_getElem hlt
    have hreads := Operator.readsLike_take tables row (hc n op hop)
    -- the operator gives its place in the row, out of the front of the row
    have hafter : op.outputAfter past ⟨row.take n, tables⟩ n = .ok row[n] :=
      hreads.1.outputAfter rfl (hrow.output n op row[n] hop hz)
    have hout := (hrecalls n op hop le_rfl).output_eq_ok.mpr hafter
    obtain ⟨result, next, hnext⟩ : ∃ result next,
        op.output ⟨row.take n, tables⟩ n state = (result, next) := ⟨_, _, rfl⟩
    rw [hnext] at hout
    obtain rfl : result = .ok row[n] := hout
    obtain ⟨final, hrun, hfinal, hkept⟩ := ih (by omega) (hrecalls.next hnext) (by omega)
    refine ⟨final, ?_, fun id other hget hle => ?_, fun other id history hid h => ?_⟩
    · rw [drop_numbered hop, runOperators, hnext]
      rwa [List.take_succ_eq_append_getElem hlt] at hrun
    · rcases Nat.lt_or_ge n id with hlt | hge
      · exact hfinal id other hget hlt
      · obtain rfl : n = id := by omega
        obtain rfl := Option.some.inj (hop.symm.trans hget)
        have hnow := (hrecalls n op hop le_rfl).output hnext
        rw [Operator.slot_take (hc n op hop), ← Operator.history_concat] at hnow
        exact hkept op n _ (Nat.lt_succ_self n) hnow
    · exact hkept other id history (by omega) (h.frame (by omega) hnext)

/-- A step from a state that recalls the rows before gives the sinks of a row that follows from
them. -/
theorem step_eq_ok (hc : c.Ordered) (hrecalls : c.RecallsFrom 0 past state) {out : Tables} :
    c.step tables state = (.ok out, state') →
      ∃ row, c.Emits past tables row ∧ out = c.sinkOutputs row ∧
        c.RecallsFrom 0 (past ++ [row]) state' := by
  intro h
  unfold step at h
  split at h
  · next row next hrun =>
    obtain ⟨⟨⟩, rfl⟩ := Prod.mk.inj h
    have hfirst : runOperators tables (c.numbered.drop 0) [] state = (.ok row, next) := hrun
    obtain ⟨-, hsize, houtput⟩ :=
      emits_of_runOperators hc List.length_nil (Nat.zero_le _) hrecalls hfirst
    have hrow : c.Emits past tables row :=
      ⟨hsize, fun id op z => houtput id op z (Nat.zero_le _)⟩
    -- the row that has been emitted runs again, and this run tells what is remembered
    obtain ⟨final, hagain, hfinal, -⟩ := runOperators_of_emits hc hrow (Nat.zero_le _) hrecalls
    obtain ⟨-, rfl⟩ := Prod.mk.inj (hrun.symm.trans hagain)
    exact ⟨row, hrow, rfl, hfinal⟩
  · cases (Prod.mk.inj h).1

/-- A row that follows from the rows before is what the next step gives. -/
theorem Emits.step (hrow : c.Emits past tables row) (hc : c.Ordered)
    (hrecalls : c.RecallsFrom 0 past state) :
    ∃ state', c.step tables state = (.ok (c.sinkOutputs row), state') ∧
      c.RecallsFrom 0 (past ++ [row]) state' := by
  obtain ⟨final, hrun, hfinal, -⟩ := runOperators_of_emits hc hrow (Nat.zero_le _) hrecalls
  rw [List.drop_zero, List.take_zero] at hrun
  exact ⟨final, by rw [Circuit.step, hrun], hfinal⟩

/-! ### Whole runs -/

theorem runFrom_eq_ok_iff (hc : c.Ordered) {inputs outs : List Tables}
    (hrecalls : c.RecallsFrom 0 past state) :
    c.runFrom state inputs = .ok outs ↔
      ∃ rows, c.Traces past inputs rows ∧ outs = rows.map c.sinkOutputs := by
  induction inputs generalizing past state outs with
  | nil =>
    constructor
    · intro h
      obtain rfl : [] = outs := Except.ok.inj h
      exact ⟨[], .nil, rfl⟩
    · rintro ⟨rows, ⟨⟩, rfl⟩
      rfl
  | cons tables inputs ih =>
    constructor
    · intro h
      rw [runFrom] at h
      split at h
      · next out next hstep =>
        obtain ⟨rest, hrest, rfl⟩ := Except.map_eq_ok.mp h
        obtain ⟨row, hrow, rfl, hnext⟩ := step_eq_ok hc hrecalls hstep
        obtain ⟨rows, hrows, rfl⟩ := (ih hnext).mp hrest
        exact ⟨row :: rows, .cons hrow hrows, rfl⟩
      · cases h
    · rintro ⟨rows, hrows, rfl⟩
      obtain _ | ⟨hrow, hrows⟩ := hrows
      obtain ⟨next, hstep, hnext⟩ := hrow.step hc hrecalls
      rw [runFrom, hstep]
      exact Except.map_eq_ok.mpr ⟨_, (ih hnext).mpr ⟨_, hrows, rfl⟩, rfl⟩

/-- **Runs are traces.** A run succeeds iff it has a trace, and gives the sinks of its rows. -/
theorem run_eq_ok_iff (hc : c.Ordered) {inputs outs : List Tables} :
    c.run inputs = .ok outs ↔
      ∃ rows, c.Traces [] inputs rows ∧ outs = rows.map c.sinkOutputs :=
  runFrom_eq_ok_iff hc c.recallsFrom_start

theorem Traces.length_eq {inputs : List Tables} {rows : List Row}
    (h : c.Traces past inputs rows) : rows.length = inputs.length := by
  induction h with
  | nil => rfl
  | cons _ _ ih => rw [List.length_cons, List.length_cons, ih]

/-- Every row of a trace is emitted after the rows before it. -/
theorem Traces.emits {inputs : List Tables} {rows : List Row} (h : c.Traces past inputs rows)
    {k : Nat} (htables : inputs[k]? = some tables) (hrow : rows[k]? = some row) :
    c.Emits (past ++ rows.take k) tables row := by
  induction h generalizing k with
  | nil => cases hrow
  | cons hemits _ ih =>
    cases k with
    | zero =>
      obtain rfl := Option.some.inj htables
      obtain rfl := Option.some.inj hrow
      rwa [List.take_zero, List.append_nil]
    | succ k =>
      have hlater := ih htables hrow
      rwa [List.append_assoc, List.singleton_append, ← List.take_succ_cons] at hlater

/-- What is emitted step by step is a trace. -/
theorem traces_of_emits {inputs : List Tables} {rows : List Row}
    (hlength : rows.length = inputs.length)
    (h : ∀ (k : Nat) tables row, inputs[k]? = some tables → rows[k]? = some row →
      c.Emits (past ++ rows.take k) tables row) : c.Traces past inputs rows := by
  induction rows generalizing past inputs with
  | nil =>
    obtain rfl := List.length_eq_zero_iff.mp hlength.symm
    exact .nil
  | cons row rows ih =>
    obtain ⟨tables, inputs, rfl⟩ := List.exists_cons_of_length_eq_add_one hlength.symm
    refine .cons ?_ (ih (Nat.succ.inj hlength) fun k tables' row' htables hrow => ?_)
    · have hfirst := h 0 tables row rfl rfl
      rwa [List.take_zero, List.append_nil] at hfirst
    · have hlater := h (k + 1) tables' row' htables hrow
      rwa [List.append_assoc, List.singleton_append, ← List.take_succ_cons]

theorem Traces.emits_of_mem {inputs : List Tables} {rows : List Row}
    (h : c.Traces past inputs rows) (hrow : row ∈ rows) :
    ∃ before tables, c.Emits before tables row := by
  obtain ⟨k, hk⟩ := List.mem_iff_getElem?.mp hrow
  have hlt : k < inputs.length := h.length_eq ▸ (List.getElem?_eq_some_iff.mp hk).1
  exact ⟨_, _, h.emits (List.getElem?_eq_getElem hlt) hk⟩

/-- The rows of a run are as long as its circuit. -/
theorem Traces.length_of_mem {inputs : List Tables} {rows : List Row}
    (h : c.Traces past inputs rows) : ∀ row ∈ rows, row.length = c.size := by
  intro row hrow
  obtain ⟨before, tables, hemits⟩ := h.emits_of_mem hrow
  exact hemits.length_eq

/-! ### Selections from a row -/

/-- The outputs at the given places of a row. -/
def pick (places : List Nat) (row : Row) : Row :=
  places.map fun i => (row[i]?).getD []

theorem getElem?_pick {places : List Nat} {n i : Nat} (h : places[n]? = some i) (row : Row) :
    (pick places row)[n]? = some ((row[i]?).getD []) := by
  rw [pick, List.getElem?_map, h, Option.map_some]

/-! ### Sinks -/

/-- The sinks in order, each with its name. -/
def reporters (c : Circuit) : List (String × OperatorId) :=
  c.numbered.filterMap fun (id, op) => op.kind.sinkName?.map fun name => (name, id)

/-- What the sinks report of a row, in order. -/
def reports (c : Circuit) (row : Row) : List (String × ZSet) :=
  c.reporters.map fun reporter => (reporter.1, (row[reporter.2]?).getD [])

theorem reporters_push (c : Circuit) (op : Operator) :
    (c.push op).reporters =
      c.reporters ++ (op.kind.sinkName?.map fun name => (name, c.size)).toList := by
  rw [reporters, numbered_push, List.filterMap_append, ← reporters]
  cases h : op.kind.sinkName? <;> simp [h]

/-- What is no sink reports nothing. -/
theorem reporters_push_of_none {op : Operator} (h : op.kind.sinkName? = none) :
    (c.push op).reporters = c.reporters := by
  rw [reporters_push, h]
  exact List.append_nil _

theorem mem_reporters {name : String} {id : Nat} :
    (name, id) ∈ c.reporters ↔ ∃ op, c.get? id = some op ∧ op.kind.sinkName? = some name := by
  unfold reporters
  rw [List.mem_filterMap]
  constructor
  · rintro ⟨⟨id', op⟩, hmem, hname⟩
    obtain ⟨name', hname', h⟩ := Option.map_eq_some_iff.mp hname
    obtain ⟨rfl, rfl⟩ := Prod.mk.inj h
    exact ⟨op, mem_numbered.mp hmem, hname'⟩
  · rintro ⟨op, hop, hname⟩
    exact ⟨(id, op), mem_numbered.mpr hop, Option.map_eq_some_iff.mpr ⟨name, hname, rfl⟩⟩

/-- What the operator of an id reports of a row. -/
def report? (c : Circuit) (row : Row) (id : OperatorId) : Option (String × ZSet) :=
  (c.get? id).bind fun op => op.kind.sinkName?.map fun name => (name, (row[id]?).getD [])

/-- The reports are those of the operators, one after another. -/
theorem reports_eq (c : Circuit) (row : Row) :
    c.reports row = (List.range c.size).filterMap (c.report? row) := by
  -- numbered operators are those that stand at the numbers
  have hall : c.numbered = (List.range c.size).filterMap
      fun id => (c.get? id).map fun op => (id, op) := by
    induction c using pushRec with
    | empty name => rfl
    | push c op ih =>
      rw [numbered_push, size_push, List.range_succ, List.filterMap_append, ih]
      congr 1
      · refine List.filterMap_congr fun id hid => ?_
        rw [get?_push_of_lt (List.mem_range.mp hid)]
      · simp
  rw [reports, reporters, hall, List.filterMap_filterMap, List.map_filterMap]
  refine List.filterMap_congr fun id _ => ?_
  unfold report?
  cases c.get? id with
  | none => rfl
  | some op =>
    rw [Option.map_some, Option.bind_some, Option.map_map]
    rfl

theorem sinkOutputs_push {front : Row} {op : Operator} {z : ZSet} (h : front.length = c.size) :
    (c.push op).sinkOutputs (front ++ [z]) =
      match op.kind.sinkName? with
      | some name => Assoc.set (c.sinkOutputs front) name z
      | none => c.sinkOutputs front := by
  rw [sinkOutputs, push, List.zip_append h.symm, List.foldl_append]
  rfl

/-- The outputs of a step are the reports of the sinks, of which the last one of a name counts. -/
theorem sinkOutputs_eq (c : Circuit) (row : Row) (hrow : row.length = c.size) :
    c.sinkOutputs row = Assoc.setAll (c.reports row) := by
  induction c using pushRec generalizing row with
  | empty name => rfl
  | push c op ih =>
    obtain ⟨front, z, rfl⟩ : ∃ front z, row = front ++ [z] := by
      rcases List.eq_nil_or_concat' row with rfl | h
      · simp at hrow
      · exact h
    have hfront : front.length = c.size := by simpa using hrow
    -- the sinks in front report from the front of the row
    have hreports : c.reports (front ++ [z]) = c.reports front := by
      refine List.map_congr_left fun reporter hmem => ?_
      obtain ⟨other, hget, -⟩ := mem_reporters.mp hmem
      rw [List.getElem?_append_left (hfront ▸ lt_size_of_get? hget)]
    have hlast : (front ++ [z])[c.size]? = some z := by simp [← hfront]
    have hpush : (c.push op).reports (front ++ [z]) =
        c.reports front ++ (op.kind.sinkName?.map fun name => (name, z)).toList := by
      rw [← hreports, reports, reporters_push, List.map_append]
      cases op.kind.sinkName? <;> simp [reports, hlast]
    rw [sinkOutputs_push hfront, ih front hfront, hpush]
    cases op.kind.sinkName? with
    | none => simp
    | some name => simp [Assoc.setAll_concat]

end Circuit
end DeltaCircuit
