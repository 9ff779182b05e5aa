import DeltaCircuit.Proofs.Circuit.Exact

/-!
# Linear operators

What a linear operator gives a value is a sum over the entries that it reads: every entry has a
share in it, which depends on the value of the entry and is taken as often as the weight of the
entry says. Over exact maps such a sum depends on the weight function of the input alone and is
linear in it. Integrals and differentials are sums and differences over time. A circuit of such
operators is therefore additive in its inputs, over runs of any length.

* `Operator.shares` — what the entries of the inputs contribute to the output.
* `Operator.weight_of_makes` — the weights of an output are the sums of the shares.
* `Circuit.AddsUp` — inputs that are the sums of two others, step by step.
* `Circuit.streamsAdd` — the invariant of three runs: every stream is the sum of two others.
* `Circuit.run_add` — so are the outputs.
-/

namespace DeltaCircuit

/-- The kinds whose output is linear in what they read, now and before. -/
def OperatorKind.isLinear : OperatorKind → Bool
  | .constant _ | .aggregate _ _ | .join _ _ | .distinct => false
  | _ => true

theorem OperatorKind.isAggregate_of_isLinear {kind : OperatorKind} (h : kind.isLinear = true) :
    kind.isAggregate = false := by
  cases kind with
  | aggregate _ _ => cases h
  | _ => rfl

/-! ### Shares -/

namespace Operator

/-- The share of an entry in the weight of a value. -/
structure Share where
  /-- Where the operator reads the entry. -/
  position : Nat
  /-- What the value gets for each unit of weight, from the value and the entry. -/
  factor : Value → Value → Int

/-- Every entry counts for its own value. -/
def once (v u : Value) : Int := if u.same v then 1 else 0

/-- The shares of what an operator reads in one step. -/
def shares (op : Operator) : List Share :=
  match op.kind, op.function with
  | .map _, some f | .index _ _, some f => [⟨0, fun v u => once v (f.result [u])⟩]
  | .filter, some f => [⟨0, fun v u => if f.accepts u && u.same v then 1 else 0⟩]
  | .sum, _ => (List.range op.inputs.length).map fun n => ⟨n, once⟩
  | .subtract, _ => [⟨0, once⟩, ⟨1, fun v u => -once v u⟩]
  | .negate, _ => [⟨0, fun v u => -once v u⟩]
  | .noop, _ | .sink _ _ _, _ => [⟨0, once⟩]
  | _, _ => []

/-- The sum of all shares in the weight of a value, by what is read at every position. -/
def shareSum (op : Operator) (reading : Nat → ZSet) (v : Value) : Int :=
  (op.shares.map fun s => ZSet.sumBy (s.factor v) (reading s.position)).sum

theorem sumBy_neg (g : Value → Int) (z : ZSet) :
    ZSet.sumBy (fun u => -g u) z = -ZSet.sumBy g z := by
  induction z with
  | nil => rfl
  | cons entry z ih =>
    rw [ZSet.sumBy_cons, ZSet.sumBy_cons, ih]
    ring

/-- The shares of a value in a map are its weight. -/
theorem sumBy_once {z : ZSet} (hz : z.Distinct) (v : Value) :
    ZSet.sumBy (once v) z = z.weight v := by
  rw [← hz.total_eq_weight]
  exact (ZSet.weightWhere_eq_sumBy fun u => u.same v).symm

theorem blind_once (v : Value) : Value.Blind (once v) := by
  intro u u' hu
  have hsame : u.same v = u'.same v := ZSet.blind_same v u u' hu
  rw [once, once, hsame]

/-- **Shares do not tell twins apart**, if the function of the operator is exact. -/
theorem Exact.blind_factor {op : Operator} (hop : op.Exact) {s : Share} (hs : s ∈ op.shares)
    (v : Value) : Value.Blind (s.factor v) := by
  have hneg : Value.Blind fun u => -once v u := fun u u' hu => congrArg (-·) (blind_once v u u' hu)
  unfold shares at hs
  split at hs
  -- a map or an index: the function gives twins on twins
  case h_1 f _ hf | h_2 f _ hf =>
    obtain rfl := List.mem_singleton.mp hs
    exact fun u u' hu => blind_once v _ _ ((hop.function f hf).result (.cons hu .nil))
  -- a filter: the function accepts both of two twins or neither
  case h_3 f _ hf =>
    obtain rfl := List.mem_singleton.mp hs
    intro u u' hu
    have haccepts : f.accepts u = f.accepts u' := ZSet.blind_accepts (hop.function f hf) u u' hu
    have hsame : u.same v = u'.same v := ZSet.blind_same v u u' hu
    dsimp only
    rw [haccepts, hsame]
  case h_4 =>
    obtain ⟨n, -, rfl⟩ := List.mem_map.mp hs
    exact blind_once v
  case h_5 =>
    rcases List.mem_pair.mp hs with rfl | rfl
    · exact blind_once v
    · exact hneg
  case h_6 =>
    obtain rfl := List.mem_singleton.mp hs
    exact hneg
  case h_7 | h_8 =>
    obtain rfl := List.mem_singleton.mp hs
    exact blind_once v
  case h_9 => cases hs

/-! ### Weights as sums of shares -/

/-- **One step of a linear operator.** What it gives is the sum of the shares of what it reads. -/
theorem weight_of_makes {op : Operator} {s : Streams} {z : ZSet}
    (hlinear : op.kind.isLinear = true) (htable : op.kind.table? = none)
    (hintegral : op.kind ≠ .integral) (hdifferential : op.kind ≠ .differential)
    {reading : Nat → ZSet} (hread : ∀ n x, op.slot s.outputs n = some x → reading n = x)
    (hd : ∀ n, (reading n).Distinct) (h : op.Makes s op.kind z) (v : Value) :
    z.weight v = op.shareSum reading v := by
  unfold shareSum shares
  generalize op.kind = kind at h hlinear htable hintegral hdifferential ⊢
  cases h with
  | source => cases htable
  | integral => exact absurd rfl hintegral
  | differential => exact absurd rfl hdifferential
  | constant | aggregate | join | distinct => cases hlinear
  | map hx hf hz =>
    obtain rfl := hread 0 _ hx
    rw [hf, List.map_singleton, List.sum_singleton]
    exact ZSet.weight_of_map hz v
  | filter hx hf hz =>
    obtain rfl := hread 0 _ hx
    rw [hf, List.map_singleton, List.sum_singleton]
    exact ZSet.weight_of_filterBy (hd 0) hz v
  | index hx hf hz =>
    obtain rfl := hread 0 _ hx
    rw [hf, List.map_singleton, List.sum_singleton]
    -- an index is a map to pairs
    exact ZSet.weight_of_map (ZSet.map_of_index hz) v
  | sum hxs hz =>
    have hreading := List.forall₂_map_left_iff.mpr (hxs.imp hread)
    rw [List.forall₂_eq_eq_eq] at hreading
    subst hreading
    rw [ZSet.weight_of_accumulate (List.forall_mem_map.mpr fun n _ => hd n) hz, List.map_map,
      List.map_map]
    exact congrArg List.sum (List.map_congr_left fun n _ => (sumBy_once (hd n) v).symm)
  | subtract hleft hright hz =>
    obtain rfl := hread 0 _ hleft
    obtain rfl := hread 1 _ hright
    rw [ZSet.weight_of_difference (hd 0) (hd 1) hz v, List.map_cons, List.map_singleton,
      List.sum_cons, List.sum_singleton, sumBy_neg, sumBy_once (hd 0), sumBy_once (hd 1),
      Int.sub_eq_add_neg]
  | negate hx hz =>
    obtain rfl := hread 0 _ hx
    -- a negation is merged into nothing with the sign turned
    have hweight : z.weight v = 0 + -1 * (reading 0).weight v :=
      ZSet.weight_of_merge Weighted.distinct_nil (hd 0) hz v
    rw [hweight, List.map_singleton, List.sum_singleton, sumBy_neg, sumBy_once (hd 0)]
    ring
  | noop hx | sink hx =>
    obtain rfl := hread 0 z hx
    rw [List.map_singleton, List.sum_singleton, sumBy_once (hd 0)]

/-! ### Linearity -/

/-- **Shares are linear** in the weights of what is read. -/
theorem shareSum_add {op : Operator} (hop : op.Exact) {z x y : Nat → ZSet}
    (hz : ∀ n, (z n).ExactMap) (hx : ∀ n, (x n).ExactMap) (hy : ∀ n, (y n).ExactMap)
    (h : ∀ n v, (z n).weight v = (x n).weight v + (y n).weight v) (v : Value) :
    op.shareSum z v = op.shareSum x v + op.shareSum y v := by
  rw [shareSum, shareSum, shareSum, ← List.sum_map_add]
  refine congrArg List.sum (List.map_congr_left fun s hs => ?_)
  exact ZSet.sumBy_add (hop.blind_factor hs v) (hz _) (hx _) (hy _) (h _)

end Operator

/-! ### Runs -/

namespace Circuit

variable {c : Circuit} {op : Operator} {inputs : List Tables} {rows : List Row} {id k : Nat}

/-- What an operator reads at a position in a step. -/
def reading (op : Operator) (rows : List Row) (k n : Nat) : ZSet :=
  (op.slot ((rows[k]?).getD []) n).getD []

theorem reading_of_slot {n : Nat} (hk : k < rows.length) {z : ZSet}
    (hz : op.slot rows[k] n = some z) : reading op rows k n = z := by
  rw [reading, List.getElem?_eq_getElem hk, Option.getD_some, hz, Option.getD_some]

/-- What an operator reads at a position is the stream of one of its inputs, or nothing. -/
theorem reading_cases (op : Operator) (n : Nat) :
    (∃ input ∈ op.inputs, ∀ (rows : List Row) k, reading op rows k n = stream rows input k) ∨
      ∀ (rows : List Row) k, reading op rows k n = [] := by
  cases hinput : op.inputs[n]? with
  | none =>
    refine .inr fun rows k => ?_
    rw [reading, Operator.slot, hinput]
    rfl
  | some input =>
    refine .inl ⟨input, List.mem_of_getElem? hinput, fun rows k => ?_⟩
    rw [reading, Operator.slot, hinput, Option.bind_some, stream]

theorem ExactRun.exactMap_reading (h : c.ExactRun inputs rows) (op : Operator) (k n : Nat) :
    (reading op rows k n).ExactMap := by
  rcases reading_cases op n with ⟨input, -, hreading⟩ | hreading
  · rw [hreading]
    exact h.exactMap input k
  · rw [hreading]
    exact ZSet.exactMap_nil

/-- The stream of a source is its table. -/
theorem Traces.streamWeight_source (h : c.Traces [] inputs rows) (hop : c.get? id = some op)
    {table : String} (htable : op.kind.table? = some table) (hk : k < rows.length) (v : Value) :
    streamWeight rows id v k = weightAt inputs table v k := by
  have hlt : k < inputs.length := h.length_eq ▸ hk
  have hgiven : inputs[k]? = some inputs[k] := List.getElem?_eq_getElem hlt
  have hsource := (h.emits hgiven (List.getElem?_eq_getElem hk)).source hop htable
  rw [← weight_stream, stream_eq hk hsource, weightAt, hgiven, Option.getD_some]

/-- The stream of a linear operator without a state is made of shares, step by step. -/
theorem ExactRun.streamWeight_shares (h : c.ExactRun inputs rows) (hop : c.get? id = some op)
    (hlinear : op.kind.isLinear = true) (htable : op.kind.table? = none)
    (hintegral : op.kind ≠ .integral) (hdifferential : op.kind ≠ .differential)
    (hk : k < rows.length) (v : Value) :
    streamWeight rows id v k = op.shareSum (reading op rows k) v := by
  obtain ⟨tables, hz⟩ := h.traces.makes hop hintegral hdifferential hk
  exact Operator.weight_of_makes hlinear htable hintegral hdifferential
    (fun n x => reading_of_slot hk) (fun n => (h.exactMap_reading op k n).distinct) hz v

/-- **Sums of inputs.** At every step, every table of the circuit is the sum of two others, as a
weight function. -/
structure AddsUp (c : Circuit) (a b sum : List Tables) : Prop where
  left : a.length = sum.length
  right : b.length = sum.length
  weight : ∀ table ∈ c.tables, ∀ v k,
    weightAt sum table v k = weightAt a table v k + weightAt b table v k

/-- Tables that have been merged are sums. -/
theorem addsUp_of_merge {a b sum : List Tables} (ha : c.ExactInputs a) (hb : c.ExactInputs b)
    (h : List.Forall₂ (fun (given : Tables × Tables) (tables : Tables) => ∀ table ∈ c.tables,
      (given.1.contents table).merge (given.2.contents table) 1 = .ok (tables.contents table))
      (a.zip b) sum) (hlength : a.length = b.length) : c.AddsUp a b sum := by
  have hsum : a.length = sum.length := by
    rw [← h.length_eq, List.length_zip, hlength, Nat.min_self]
  refine ⟨hsum, hlength ▸ hsum, fun table htable v k => ?_⟩
  unfold weightAt
  rcases h.getElem? k with ⟨hnone, htables⟩ | ⟨given, tables, hgiven, htables, hmerge⟩
  · -- beyond the end of the inputs there is nothing in all three
    rw [List.getElem?_eq_none_iff] at htables
    rw [List.getElem?_eq_none htables, List.getElem?_eq_none (hsum ▸ htables),
      List.getElem?_eq_none (hlength ▸ hsum ▸ htables)]
    rfl
  · obtain ⟨hA, hB⟩ := List.getElem?_zip_eq_some.mp hgiven
    rw [htables, hA, hB, Option.getD_some, Option.getD_some, Option.getD_some,
      ZSet.weight_of_merge (ha _ (List.mem_of_getElem? hA) table htable).distinct
        (hb _ (List.mem_of_getElem? hB) table htable).distinct (hmerge table htable), Int.one_mul]

section Additivity

variable {a b sum : List Tables} {rowsA rowsB : List Row} (ha : c.ExactRun a rowsA)
  (hb : c.ExactRun b rowsB) (hsum : c.ExactRun sum rows) (hadds : c.AddsUp a b sum)

/-- The stream of an operator is the sum of its streams in two other runs. -/
def StreamsAdd (rowsA rowsB rows : List Row) (id : Nat) : Prop :=
  ∀ k v, streamWeight rows id v k = streamWeight rowsA id v k + streamWeight rowsB id v k

include ha hb hsum hadds

/-- Streams add up if they do so in every step of the runs, which are of the same length. -/
theorem streamsAdd_of_lt (h : ∀ k, k < rows.length → k < rowsA.length → k < rowsB.length → ∀ v,
    streamWeight rows id v k = streamWeight rowsA id v k + streamWeight rowsB id v k) :
    StreamsAdd rowsA rowsB rows id := by
  intro k v
  have hlengthA : rowsA.length = rows.length := by
    rw [ha.traces.length_eq, hadds.left, hsum.traces.length_eq]
  have hlengthB : rowsB.length = rows.length := by
    rw [hb.traces.length_eq, hadds.right, hsum.traces.length_eq]
  rcases Nat.lt_or_ge k rows.length with hk | hk
  · exact h k hk (hlengthA ▸ hk) (hlengthB ▸ hk) v
  · -- all three runs have come to their end
    rw [← weight_stream, ← weight_stream, ← weight_stream, stream_of_le hk,
      stream_of_le (hlengthA ▸ hk), stream_of_le (hlengthB ▸ hk)]
    rfl

/-- A sum of sums is the sum of the sums. -/
theorem streamsAdd_integral (hop : c.get? id = some op) {input : Nat}
    (hinput : op.inputs[0]? = some input) (hkind : op.kind = .integral)
    (h : StreamsAdd rowsA rowsB rows input) : StreamsAdd rowsA rowsB rows id := by
  refine streamsAdd_of_lt ha hb hsum hadds fun k hk hkA hkB v => ?_
  rw [hsum.traces.streamWeight_integral hop hinput hkind hk (hsum.distinct input),
    ha.traces.streamWeight_integral hop hinput hkind hkA (ha.distinct input),
    hb.traces.streamWeight_integral hop hinput hkind hkB (hb.distinct input), ← List.sum_map_add]
  exact congrArg List.sum (List.map_congr_left fun i _ => h i v)

/-- A difference of sums is the sum of the differences. -/
theorem streamsAdd_differential (hop : c.get? id = some op) {input : Nat}
    (hinput : op.inputs[0]? = some input) (hkind : op.kind = .differential)
    (h : StreamsAdd rowsA rowsB rows input) : StreamsAdd rowsA rowsB rows id := by
  refine streamsAdd_of_lt ha hb hsum hadds fun k hk hkA hkB v => ?_
  rw [hsum.traces.streamWeight_differential hop hinput hkind hk (hsum.distinct input),
    ha.traces.streamWeight_differential hop hinput hkind hkA (ha.distinct input),
    hb.traces.streamWeight_differential hop hinput hkind hkB (hb.distinct input), h k v]
  cases k with
  | zero =>
    simp only [streamWeightBefore]
    ring
  | succ k =>
    simp only [streamWeightBefore, h k v]
    ring

/-- What an operator reads adds up, and its shares are linear in that. -/
theorem streamsAdd_shares (hop : c.get? id = some op) (hlinear : op.kind.isLinear = true)
    (htable : op.kind.table? = none) (hintegral : op.kind ≠ .integral)
    (hdifferential : op.kind ≠ .differential) (hexact : op.Exact)
    (hinputs : ∀ input ∈ op.inputs, StreamsAdd rowsA rowsB rows input) :
    StreamsAdd rowsA rowsB rows id := by
  refine streamsAdd_of_lt ha hb hsum hadds fun k hk hkA hkB v => ?_
  rw [hsum.streamWeight_shares hop hlinear htable hintegral hdifferential hk,
    ha.streamWeight_shares hop hlinear htable hintegral hdifferential hkA,
    hb.streamWeight_shares hop hlinear htable hintegral hdifferential hkB]
  refine Operator.shareSum_add hexact (hsum.exactMap_reading op k)
    (ha.exactMap_reading op k) (hb.exactMap_reading op k) (fun n u => ?_) v
  rcases reading_cases op n with ⟨input, hmem, hreading⟩ | hreading
  · rw [hreading, hreading, hreading]
    exact hinputs input hmem k u
  · rw [hreading, hreading, hreading]
    rfl

/-- **One operator** over a whole run: if what a linear operator reads adds up, so does what it
gives. -/
theorem streamsAdd_of_inputs (hc : c.Built) (hop : c.get? id = some op)
    (hlinear : op.kind.isLinear = true) (hexact : op.Exact)
    (hinputs : ∀ input ∈ op.inputs, StreamsAdd rowsA rowsB rows input) :
    StreamsAdd rowsA rowsB rows id := by
  by_cases hrelay : op.kind = .integral ∨ op.kind = .differential
  · obtain ⟨-, input, -, hread, -⟩ :=
      hc.relay hop (by rcases hrelay with hkind | hkind <;> rw [hkind] <;> rfl)
    have hinput : op.inputs[0]? = some input := by rw [hread]; rfl
    have hadd := hinputs input (by rw [hread]; exact List.mem_singleton_self _)
    rcases hrelay with hkind | hkind
    · exact streamsAdd_integral ha hb hsum hadds hop hinput hkind hadd
    · exact streamsAdd_differential ha hb hsum hadds hop hinput hkind hadd
  · obtain ⟨hintegral, hdifferential⟩ := not_or.mp hrelay
    cases htable : op.kind.table? with
    | none =>
      exact streamsAdd_shares ha hb hsum hadds hop hlinear htable hintegral hdifferential hexact
        hinputs
    | some table =>
      -- the stream of a source is its table, and the tables add up
      refine streamsAdd_of_lt ha hb hsum hadds fun k hk hkA hkB v => ?_
      rw [hsum.traces.streamWeight_source hop htable hk,
        ha.traces.streamWeight_source hop htable hkA, hb.traces.streamWeight_source hop htable hkB]
      exact hadds.weight table (mem_tables hop htable) v k

/-- **All operators** over a whole run. -/
theorem streamsAdd (hc : c.Built) (hlinear : ∀ op ∈ c.operators, op.kind.isLinear = true)
    (hexact : c.Exact) (hop : c.get? id = some op) : StreamsAdd rowsA rowsB rows id := by
  -- operators read earlier ones, so by induction on the place
  induction id using Nat.strong_induction_on generalizing op with
  | h id ih =>
    have hmem : op ∈ c.operators := List.mem_of_getElem? hop
    refine streamsAdd_of_inputs ha hb hsum hadds hc hop (hlinear op hmem) (hexact op hmem)
      fun input hinput => ?_
    have hlt : input < id := hc.ordered id op hop input hinput
    obtain ⟨other, hother⟩ := exists_get?_of_lt (hlt.trans (lt_size_of_get? hop))
    exact ih input hlt hother

end Additivity

/-- **Circuits of linear operators are additive.** If the inputs are the sums of two others, over
values without floating point numbers, then the circuit reports the same sinks in all three runs,
and at every step the weights that it gives are the sums of those in the two others. -/
theorem run_add (hc : c.Built) (hlinear : ∀ op ∈ c.operators, op.kind.isLinear = true)
    (hexact : c.Exact) {a b sum outsA outsB outs : List Tables} (ha : c.ExactInputs a)
    (hb : c.ExactInputs b) (hsum : c.ExactInputs sum) (hadds : c.AddsUp a b sum)
    (hrunA : c.run a = .ok outsA) (hrunB : c.run b = .ok outsB) (hrun : c.run sum = .ok outs) :
    outs.map (·.map Prod.fst) = outsA.map (·.map Prod.fst) ∧
      outs.map (·.map Prod.fst) = outsB.map (·.map Prod.fst) ∧
      ∀ name v k, weightAt outs name v k = weightAt outsA name v k + weightAt outsB name v k := by
  have hkinds : ∀ op ∈ c.operators, op.kind.isAggregate = false :=
    fun op hop => OperatorKind.isAggregate_of_isLinear (hlinear op hop)
  obtain ⟨rowsA, htraceA, rfl⟩ := (run_eq_ok_iff hc.ordered).mp hrunA
  obtain ⟨rowsB, htraceB, rfl⟩ := (run_eq_ok_iff hc.ordered).mp hrunB
  obtain ⟨rows, htrace, rfl⟩ := (run_eq_ok_iff hc.ordered).mp hrun
  refine ⟨htrace.names_eq htraceA hadds.left.symm, htrace.names_eq htraceB hadds.right.symm,
    fun name v k => ?_⟩
  rw [htrace.weightAt_sinkOutputs, htraceA.weightAt_sinkOutputs, htraceB.weightAt_sinkOutputs]
  -- of the sinks of one name, the last one reports
  cases hfind : c.reporters.reverse.find? fun reporter => decide (reporter.1 = name) with
  | none => rfl
  | some reporter =>
    obtain ⟨op, hop, -⟩ :=
      mem_reporters.mp (List.mem_reverse.mp (List.mem_of_find?_eq_some hfind))
    exact streamsAdd (ha.run hc.ordered hexact hkinds htraceA)
      (hb.run hc.ordered hexact hkinds htraceB) (hsum.run hc.ordered hexact hkinds htrace) hadds hc
      hlinear hexact hop k v

/-- How often every row of a table that is true has been there. -/
def trueSum : Circuit :=
  ((((empty "true").push ⟨.source "t" .bool, [], none, .zset .bool, true⟩).push
    ⟨.filter, [0], some (Expr.ofForm (some (.function (some .bool) [.byRef .bool]))
      (.closure [.named "row" (.byRef .bool)] (Expr.var "row" .bool))), .zset .bool, true⟩).push
    ⟨.integral, [1], none, .zset .bool, true⟩).push
    ⟨.sink "v" "" none, [2], none, .zset .bool, true⟩

theorem built_trueSum : trueSum.Built := .push (.push (.push (.push (.empty _) rfl) rfl) rfl) rfl

theorem exact_trueSum : trueSum.Exact := by
  intro op hop
  simp only [trueSum, Circuit.empty, Circuit.push, List.nil_append, List.cons_append,
    List.mem_cons, List.not_mem_nil, or_false] at hop
  rcases hop with rfl | rfl | rfl | rfl <;>
    refine ⟨fun f hf => ?_, fun literal hliteral => by cases hliteral⟩ <;> cases hf
  have hbody : (Expr.var "row" .bool).Exact := .leaf rfl rfl
  exact .of_parts rfl hbody

/-- Rows that come, rows that take them away again and bring others, and what is left of both. -/
def coming : List Tables :=
  [[("t", [(.bool true, 2), (.bool false, 1)])], [("t", [(.bool true, -1)])]]

@[inherit_doc coming] def going : List Tables :=
  [[("t", [(.bool true, -2)])], [("t", [(.bool false, 5), (.bool true, 1)])]]

@[inherit_doc coming] def remaining : List Tables :=
  [[("t", [(.bool false, 1)])], [("t", [(.bool false, 5)])]]

/-- Rows that cancel have never been in the sum, and cancel in the outputs. -/
theorem run_add_trueSum :
    ∃ outsA outsB outs, trueSum.run coming = .ok outsA ∧ trueSum.run going = .ok outsB ∧
      trueSum.run remaining = .ok outs ∧
      ∀ name v k, weightAt outs name v k = weightAt outsA name v k + weightAt outsB name v k := by
  have hA : trueSum.run coming = .ok [[("v", [(.bool true, 2)])], [("v", [(.bool true, 1)])]] := rfl
  have hB : trueSum.run going = .ok [[("v", [(.bool true, -2)])], [("v", [(.bool true, -1)])]] :=
    rfl
  have hsum : trueSum.run remaining = .ok [[("v", [])], [("v", [])]] := rfl
  have hcoming : trueSum.ExactInputs coming := by decide
  have hgoing : trueSum.ExactInputs going := by decide
  have hremaining : trueSum.ExactInputs remaining := by decide
  have htables : ∀ table ∈ trueSum.tables, table = "t" := by decide
  have hadds : trueSum.AddsUp coming going remaining := by
    refine addsUp_of_merge hcoming hgoing (.cons (fun table htable => ?_)
      (.cons (fun table htable => ?_) .nil)) rfl <;> obtain rfl := htables table htable <;> rfl
  exact ⟨_, _, _, hA, hB, hsum, (run_add built_trueSum (by decide) exact_trueSum hcoming hgoing
    hremaining hadds hA hB hsum).2.2⟩

end Circuit
end DeltaCircuit
